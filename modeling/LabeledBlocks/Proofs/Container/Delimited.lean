import LabeledBlocks.Proofs.Container.Stepwise
import LabeledBlocks.Proofs.Container.Taken

/-!
# Where reading ends

Whatever a decoder gives it has read from bytes that end where it stopped: in front of anything else
it takes the same bytes and gives the same value, and when the feed ends before the last of them it
fails with the error of a feed that ended. It neither looks ahead nor finds something smaller in
fewer bytes. Every decoder of contents is of this kind, since its steps are and decoders behind each
other are.

* `Decoder.Delimits` — a decoder reads a value from bytes, and from no strict start of them.
* `Decoder.Delimited` — whatever the decoder gives, it gives so.
* `Decoder.Delimited.bind`, `Decoder.stepwise_delimited` — one decoder behind the other.
* `Decoder.delimited_labels`, `Decoder.delimited_block`, `Decoder.delimited_mapContent` — labels,
  blocks, and the keys and blocks of a map.
-/

namespace LabeledBlocks

/-- The error that a feed is reported with when it ends too early: one that says that data is
missing, or the failure of the source. -/
def Ending.Reports (ending : Ending) (missing : ContainerError → Prop) (error : ContainerError) :
    Prop :=
  match ending with
  | .endOfData => missing error
  | .failure => error = .transfer .source

/-- Data that a field needs is missing. -/
def ContainerError.Truncated (error : ContainerError) : Prop :=
  ∃ field, error = .content (.truncated field)

namespace Decoder

variable {α β : Type}

/-- On a feed of just these bytes the decoder fails since it ends. -/
def BreaksOff (decoder : Decoder α) (missing : ContainerError → Prop) (bytes : List UInt8) : Prop :=
  ∀ feed : Feed, feed.bytes = bytes →
    ∃ error after, decoder feed = .error error after ∧ feed.ending.Reports missing error

/-- The decoder reads the value from these bytes, and breaks off on every strict start of them. -/
structure Delimits (decoder : Decoder α) (missing : ContainerError → Prop) (bytes : List UInt8)
    (value : α) : Prop where
  reads : decoder.Reads bytes value
  breaksOff : ∀ start more, bytes = start ++ more → more ≠ [] → decoder.BreaksOff missing start

/-- Whatever the decoder gives, it has read from bytes that end where it stopped. -/
def Delimited (decoder : Decoder α) (missing : ContainerError → Prop) : Prop :=
  decoder.Yields (decoder.Delimits missing)

variable {missing : ContainerError → Prop} {decoder : Decoder α} {next : α → Decoder β}

/-! ### One decoder behind the other -/

theorem BreaksOff.bind {bytes : List UInt8} (h : decoder.BreaksOff missing bytes) :
    (decoder >>= next).BreaksOff missing bytes := by
  intro feed start
  obtain ⟨error, after, failed, reported⟩ := h feed start
  exact ⟨error, after, run_bind_of_error failed, reported⟩

/-- Bytes that break off in a later step break off as a whole. -/
theorem Reads.bind_breaksOff {bytes more : List UInt8} {first : α} (h : decoder.Reads bytes first)
    (h' : (next first).BreaksOff missing more) :
    (decoder >>= next).BreaksOff missing (bytes ++ more) := by
  intro feed start
  obtain ⟨middle, read, passed⟩ := h feed more start
  obtain ⟨error, after, failed, reported⟩ := h' middle passed.bytes
  rw [passed.ending] at reported
  exact ⟨error, after, (run_bind_of_ok read).trans failed, reported⟩

/-- Contents that end where they should can follow each other. -/
theorem Delimits.bind {bytes more : List UInt8} {first : α} {value : β}
    (h : decoder.Delimits missing bytes first) (h' : (next first).Delimits missing more value) :
    (decoder >>= next).Delimits missing (bytes ++ more) value where
  reads := h.reads.bind h'.reads
  breaksOff := by
    intro start lacking split some
    -- The feed ends inside the bytes of the first decoder, or behind them.
    rcases List.append_eq_append_iff.mp split with ⟨behind, rfl, rest⟩ | ⟨inside, rfl, rest⟩
    · exact h.reads.bind_breaksOff (h'.breaksOff behind lacking rest some)
    · cases inside with
      | nil =>
        rw [List.append_nil] at *
        have := h.reads.bind_breaksOff (h'.breaksOff [] lacking (by simpa using rest.symm) some)
        rwa [List.append_nil] at this
      | cons byte inside => exact (h.breaksOff start _ rfl (List.cons_ne_nil _ _)).bind

theorem Delimited.bind (h : decoder.Delimited missing)
    (h' : ∀ first, (next first).Delimited missing) : (decoder >>= next).Delimited missing := by
  refine Yields.bind h fun bytes first delimits => ?_
  exact (h' first).imp fun more value delimits' => delimits.bind delimits'

/-- Of the bytes that a value is read from no strict start would do. -/
theorem Delimits.eq_nil {bytes more : List UInt8} {value value' : α}
    (h : decoder.Delimits missing (bytes ++ more) value) (reads : decoder.Reads bytes value') :
    more = [] := by
  by_contra some
  let feed := Feed.of bytes .endOfData
  obtain ⟨after, done, _⟩ := reads feed [] (List.append_nil bytes).symm
  obtain ⟨error, after', failed, _⟩ := h.breaksOff bytes more rfl some feed rfl
  cases done.symm.trans failed

/-- What takes nothing has no end to miss. -/
theorem Reads.delimits {value : α} (h : decoder.Reads [] value) :
    decoder.Delimits missing [] value where
  reads := h
  breaksOff := by
    intro start more split some
    exact absurd (List.append_eq_nil_iff.mp split.symm).2 some

theorem delimited_pure (value : α) : Delimited (pure value) missing :=
  .pure (reads_pure value).delimits

/-- What always fails gives nothing that could end anywhere. -/
theorem delimited_refuse (fault : ContentFault) : Delimited (refuse fault : Decoder α) missing :=
  .refuse fault

/-! ### Bytes -/

theorem breaksOff_take {count : Nat} {short : ContainerError} (is : missing short)
    {bytes : List UInt8} (few : bytes.length < count) :
    BreaksOff (take count short) missing bytes := by
  intro feed start
  have length : (feed.bytes.take count).length ≠ count := by
    rw [List.length_take, start]
    omega
  unfold take
  simp only [length, if_false]
  cases feed.ending with
  | endOfData => exact ⟨short, _, rfl, is⟩
  | failure => exact ⟨.transfer .source, _, rfl, rfl⟩

theorem delimits_take {count : Nat} {short : ContainerError} (is : missing short)
    {bytes : List UInt8} (length : bytes.length = count) :
    Delimits (take count short) missing bytes bytes where
  reads := reads_take length short
  breaksOff := by
    intro start more split some
    apply breaksOff_take is
    have : more.length ≠ 0 := fun none => some (List.eq_nil_of_length_eq_zero none)
    rw [← length, split, List.length_append]
    omega

theorem delimited_take (count : Nat) {short : ContainerError} (is : missing short) :
    Delimited (take count short) missing := by
  refine (yields_take count short).imp fun bytes given taken => ?_
  obtain ⟨rfl, length⟩ := taken
  exact delimits_take is length

theorem delimited_payload (count : Nat) (field : Field) :
    Delimited (payload count field) ContainerError.Truncated :=
  delimited_take count ⟨field, rfl⟩

theorem stepwise_delimited :
    Stepwise fun decoder => decoder.Delimited ContainerError.Truncated where
  given := delimited_pure
  refuse := delimited_refuse
  payload := delimited_payload
  bind := Delimited.bind

/-! ### Labels and blocks -/

theorem delimited_labels (order : ByteOrder) :
    Delimited (labels order) ContainerError.Truncated :=
  stepwise_delimited.labels order

theorem delimited_allocate_zeros (shape : List Nat) :
    Delimited (allocate Allocator.zeros shape) missing := by
  intro feed array after done
  obtain ⟨rfl, rfl⟩ := EStateM.Result.ok.inj done
  exact ⟨[], rfl, (reads_allocate_zeros shape).delimits⟩

theorem delimited_ownBlock (order : ByteOrder) :
    Delimited (ownBlock Allocator.zeros order) ContainerError.Truncated :=
  stepwise_delimited.ownBlock delimited_allocate_zeros order

theorem delimited_block (order : ByteOrder) :
    Delimited (block Allocator.zeros order) ContainerError.Truncated :=
  stepwise_delimited.block (delimited_ownBlock order)

theorem delimited_mapContent (order : ByteOrder) :
    Delimited (mapContent Allocator.zeros order) ContainerError.Truncated :=
  stepwise_delimited.mapContent (delimited_ownBlock order)

end Decoder

end LabeledBlocks
