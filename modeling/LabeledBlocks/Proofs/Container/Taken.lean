import LabeledBlocks.Proofs.Container.Contents
import LabeledBlocks.Proofs.Text.Utf8Canonical

/-!
# What was taken

The converse of reading back: whatever a decoder gives, for bytes that may come from anywhere, it
has taken bytes that are determined by the value. Of decoders behind each other the bytes stand
behind each other, so that this too is shown piece by piece.

* `Decoder.Yields` — what holds of the bytes that were taken and of the value that was given.
* `Decoder.Yields.bind` — one decoder behind the other.
* `Decoder.yields_number`, `Decoder.yields_string`, `Decoder.yields_each` — the primitives.
-/

namespace LabeledBlocks.Decoder

variable {α β : Type}

/-- Whatever the decoder gives, it has taken bytes that go with it. -/
def Yields (decoder : Decoder α) (P : List UInt8 → α → Prop) : Prop :=
  ∀ feed value after, decoder feed = .ok value after →
    ∃ bytes, feed.bytes = bytes ++ after.bytes ∧ P bytes value

variable {decoder : Decoder α} {P : List UInt8 → α → Prop} {Q : List UInt8 → β → Prop}

/-! ### One decoder behind the other -/

/-- What is taken one after the other is taken together. -/
theorem Yields.bind {next : α → Decoder β} (h : decoder.Yields P)
    (h' : ∀ bytes first, P bytes first →
      (next first).Yields fun more value => Q (bytes ++ more) value) :
    (decoder >>= next).Yields Q := by
  intro feed value after done
  obtain ⟨first, middle, begun, ended⟩ := run_bind_eq_ok.mp done
  obtain ⟨bytes, start, known⟩ := h feed first middle begun
  obtain ⟨more, start', known'⟩ := h' bytes first known middle value after ended
  exact ⟨bytes ++ more, by rw [start, start', List.append_assoc], known'⟩

theorem Yields.imp {P' : List UInt8 → α → Prop} (h : decoder.Yields P)
    (weaker : ∀ bytes value, P bytes value → P' bytes value) : decoder.Yields P' := by
  intro feed value after done
  obtain ⟨bytes, start, known⟩ := h feed value after done
  exact ⟨bytes, start, weaker bytes value known⟩

/-- What is read from bytes goes with these bytes. -/
theorem Yields.of_reads {bytes : List UInt8} {value : α} (h : decoder.Yields P)
    (reads : decoder.Reads bytes value) : P bytes value := by
  obtain ⟨after, done, passed⟩ := reads (.of bytes .endOfData) [] (List.append_nil bytes).symm
  obtain ⟨taken, start, known⟩ := h _ value after done
  rw [passed.bytes, List.append_nil] at start
  cases start
  exact known

/-- The bytes that were taken are those in front of the bytes that are left, so that two things
said of them are said of the same bytes. -/
theorem Yields.and {P' : List UInt8 → α → Prop} (h : decoder.Yields P) (h' : decoder.Yields P') :
    decoder.Yields fun bytes value => P bytes value ∧ P' bytes value := by
  intro feed value after done
  obtain ⟨bytes, start, known⟩ := h feed value after done
  obtain ⟨bytes', start', known'⟩ := h' feed value after done
  obtain rfl := List.append_cancel_right (start.symm.trans start')
  exact ⟨bytes, start, known, known'⟩

theorem Yields.pure {value : α} (h : P [] value) : Yields (pure value) P := by
  intro feed given after done
  obtain ⟨rfl, rfl⟩ := EStateM.Result.ok.inj done
  exact ⟨[], rfl, h⟩

theorem Yields.refuse (fault : ContentFault) : Yields (refuse fault : Decoder α) P := by
  intro feed value after done
  cases done

theorem Yields.accept {result : Except Error α} (h : ∀ value, result = .ok value → P [] value) :
    Yields (accept result) P := by
  cases result with
  | ok value => exact .pure (h value rfl)
  | error error => exact .refuse _

/-- Behind a condition that may refuse, the condition does not hold. -/
theorem Yields.unless {refused : Prop} [Decidable refused] {fault : ContentFault}
    {next : Unit → Decoder α} (h : ¬refused → (next ()).Yields P) :
    Yields (if refused then Decoder.refuse fault >>= next else next ()) P := by
  by_cases holds : refused
  · rw [if_pos holds]
    intro feed value after done
    cases done
  · rw [if_neg holds]
    exact h holds

/-! ### Bytes, numbers and texts -/

/-- The bytes that are given are those that are taken. -/
theorem yields_take (count : Nat) (short : ContainerError) :
    Yields (take count short) fun bytes given => given = bytes ∧ bytes.length = count := by
  intro feed bytes after done
  unfold take at done
  by_cases length : (feed.bytes.take count).length = count
  · simp only [length, if_true, EStateM.Result.ok.injEq] at done
    obtain ⟨rfl, rfl⟩ := done
    exact ⟨_, (List.take_append_drop count feed.bytes).symm, rfl, length⟩
  · simp only [length, if_false] at done
    split at done <;> cases done

theorem yields_payload (count : Nat) (field : Field) :
    Yields (payload count field) fun bytes given => given = bytes ∧ bytes.length = count :=
  yields_take count _

/-- Bytes stand for a number that they can hold. -/
theorem number_lt (order : ByteOrder) (bytes : List UInt8) :
    order.number bytes < 256 ^ bytes.length := by
  have back := ByteOrder.number_bytes order bytes.length (order.number bytes)
  rw [ByteOrder.bytes_number] at back
  rw [back]
  exact Nat.mod_lt _ (Nat.pow_pos (by decide))

theorem yields_number (order : ByteOrder) (count : Nat) (field : Field) :
    Yields (number order count field) fun bytes n =>
      bytes = order.bytes count n ∧ n < 256 ^ count := by
  refine (yields_payload count field).bind fun bytes given taken => ?_
  obtain ⟨rfl, rfl⟩ := taken
  refine .pure ⟨?_, number_lt order given⟩
  rw [List.append_nil, ByteOrder.bytes_number]

theorem yields_length (order : ByteOrder) (field : Field) :
    Yields (length order field) fun bytes n => bytes = order.bytes 4 n ∧ n < 2 ^ 32 :=
  yields_number order 4 field

theorem yields_count (order : ByteOrder) (field : Field) :
    Yields (count order field) fun bytes n => bytes = order.bytes 8 n ∧ n < 2 ^ 64 :=
  yields_number order 8 field

def stringBytes (order : ByteOrder) (text : String) : List UInt8 :=
  order.bytes 4 (Utf8.encode text).length ++ Utf8.encode text

/-- A text is taken from the bytes of its length and its characters. -/
theorem yields_string (order : ByteOrder) (field : Field) :
    Yields (string order field) fun bytes text =>
      bytes = stringBytes order text ∧ (Utf8.encode text).length < 2 ^ 32 := by
  refine (yields_length order field).bind fun sizeBytes size taken => ?_
  obtain ⟨rfl, holds⟩ := taken
  refine (yields_payload size field).bind fun data given taken => ?_
  obtain ⟨rfl, rfl⟩ := taken
  cases read : Utf8.decode given with
  | error fault => exact .refuse _
  | ok text =>
    obtain rfl := Utf8.encode_of_decode read
    exact .pure ⟨by rw [List.append_nil, stringBytes], holds⟩

/-- What is said of one value and its bytes is said of each of them. -/
theorem yields_each (h : decoder.Yields P) (count : Nat) :
    Yields (replicate decoder count) fun bytes values =>
      values.length = count ∧
        ∃ pieces : List (List UInt8), bytes = pieces.flatten ∧ List.Forall₂ P pieces values := by
  induction count with
  | zero => exact .pure ⟨rfl, [], rfl, .nil⟩
  | succ count ih =>
    refine h.bind fun piece first known => ih.bind fun more rest taken => ?_
    obtain ⟨rfl, pieces, rfl, all⟩ := taken
    exact .pure ⟨rfl, piece :: pieces, by rw [List.append_nil, List.flatten_cons], .cons known all⟩

/-- Where a value determines its bytes, a list of values does. -/
theorem yields_replicate {encode : α → List UInt8} {R : α → Prop}
    (h : decoder.Yields fun bytes value => bytes = encode value ∧ R value) (count : Nat) :
    Yields (replicate decoder count) fun bytes values =>
      bytes = values.flatMap encode ∧ values.length = count ∧ ∀ value ∈ values, R value := by
  refine (yields_each h count).imp fun bytes values taken => ?_
  obtain ⟨length, pieces, rfl, all⟩ := taken
  refine ⟨?_, length, ?_⟩
  · have encoded := map_eq_map_of_forall₂ all (f := id) (g := encode) fun _ _ known => known.1
    rw [List.map_id] at encoded
    rw [encoded, List.flatMap_def]
  · intro value member
    obtain ⟨_, _, known⟩ := exists_of_mem_right all member
    exact known.2

end LabeledBlocks.Decoder
