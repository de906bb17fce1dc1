import LabeledBlocks.Proofs.Container.Asked
import LabeledBlocks.Proofs.Container.Stepwise

/-!
# Where the fault of a container lies

What bytes are refused for tells where their fault is. If their first bytes are no header that can
be read, the error is one of the header and depends on these bytes alone, and no array has been
asked for. Behind such a header everything that may be wrong, from the kind of the container to what
stands behind its end, is an error of the content. In memory there is nothing else that could fail,
and the session that loads a map is never asked for anything out of turn.

* `ContainerError.OfHeader`, `ContainerError.OfContent` — the two kinds of errors.
* `Header.Refused` — what the first bytes are refused for.
* `Decoder.BlamesContent` — behind the header, what a decoder is refused for is the content.
* `BlockMap.loadInSession` — the calls of a session that loads a map.
* `FailsByPlace`, `load_fails_by_place` — how loading fails.
-/

namespace LabeledBlocks

namespace ContainerError

/-- The header can not be read. -/
inductive OfHeader : ContainerError → Prop where
  | corrupt (fault : HeaderFault) : OfHeader (.corruptHeader fault)
  | unsupported (found : UInt32) : OfHeader (.unsupportedVersion found)

/-- The content is refused. -/
inductive OfContent : ContainerError → Prop where
  | refused (fault : ContentFault) : OfContent (.content fault)

variable {error : ContainerError}

theorem OfHeader.not_ofContent (header : error.OfHeader) : ¬error.OfContent := by
  cases header <;> rintro ⟨⟩

/-- What is wrong with the header or with the content is neither a failure of the source nor one of
the caller. -/
theorem inMemory (known : error.OfHeader ∨ error.OfContent) :
    (∀ fault, error ≠ .transfer fault) ∧ ∀ fault, error ≠ .misuse fault := by
  constructor <;> rintro fault rfl <;> rcases known with header | content
  all_goals contradiction

end ContainerError

/-! ### Headers -/

namespace Header

/-- The bytes do not start with a header that can be read: there are too few of them, the first ones
are no header, or it is one of another version or with unknown flags. -/
inductive Refused (bytes : List UInt8) : ContainerError → Prop where
  | truncated (few : bytes.length < length) : Refused bytes (.corruptHeader .truncated)
  | unparsed {fault : HeaderFault} (enough : length ≤ bytes.length)
      (fails : parse (bytes.take length) = .error fault) : Refused bytes (.corruptHeader fault)
  | invalid {header : Header} {error : ContainerError} (enough : length ≤ bytes.length)
      (parsed : parse (bytes.take length) = .ok header) (fails : header.validate = .error error) :
      Refused bytes error

/-- The bytes start with this header, and it can be read. -/
structure Accepted (bytes : List UInt8) (header : Header) : Prop where
  enough : length ≤ bytes.length
  parsed : parse (bytes.take length) = .ok header
  valid : header.validate = .ok ()

variable {bytes : List UInt8} {header : Header} {error : ContainerError}

theorem ofHeader_of_validate (fails : header.validate = .error error) : error.OfHeader := by
  simp only [validate, refused_eq_error] at fails
  obtain ⟨_, rfl⟩ | ⟨_, ⟨_, rfl⟩ | ⟨_, ⟨_, rfl⟩ | ⟨_, passed⟩⟩⟩ := fails
  · exact .unsupported _
  · exact .corrupt _
  · exact .corrupt _
  · cases passed

theorem Refused.ofHeader (refused : Refused bytes error) : error.OfHeader := by
  cases refused with
  | truncated _ => exact .corrupt _
  | unparsed _ _ => exact .corrupt _
  | invalid _ _ fails => exact ofHeader_of_validate fails

/-- The header of any bytes is refused or accepted. -/
theorem refused_or_accepted (bytes : List UInt8) :
    (∃ error, Refused bytes error) ∨ ∃ header, Accepted bytes header := by
  rcases Nat.lt_or_ge bytes.length length with few | enough
  · exact .inl ⟨_, .truncated few⟩
  cases parsed : parse (bytes.take length) with
  | error fault => exact .inl ⟨_, .unparsed enough parsed⟩
  | ok header =>
    cases valid : header.validate with
    | error error => exact .inl ⟨error, .invalid enough parsed valid⟩
    | ok _ => exact .inr ⟨header, enough, parsed, valid⟩

/-- Only the first bytes count. -/
theorem Refused.of_take {others : List UInt8} (refused : Refused bytes error)
    (same : others.take length = bytes.take length) : Refused others error := by
  have lengths := congrArg List.length same
  rw [List.length_take, List.length_take] at lengths
  cases refused with
  | truncated few => exact .truncated (by omega)
  | unparsed enough fails => exact .unparsed (by omega) (same ▸ fails)
  | invalid enough parsed fails => exact .invalid (by omega) (same ▸ parsed) fails

end Header

namespace Decoder

variable {α β : Type} {kind : ContainerKind} {feed : Feed}

/-! ### In front of the content -/

theorem take_of_few {count : Nat} (short : ContainerError) (few : feed.bytes.length < count)
    (ends : feed.ending = .endOfData) : ∃ after, take count short feed = .error short after := by
  have length : (feed.bytes.take count).length ≠ count := by
    rw [List.length_take]
    omega
  unfold take
  simp only [if_neg length, ends]
  exact ⟨_, rfl⟩

/-- If there are enough bytes they are taken for a header, which is then decided on. -/
theorem header_of_enough (kind : ContainerKind) (enough : Header.length ≤ feed.bytes.length) :
    ∃ middle : Feed, middle.ending = feed.ending ∧
      Decoder.header kind feed =
        match Header.parse (feed.bytes.take Header.length) with
        | .error fault => .error (.corruptHeader fault) middle
        | .ok header =>
          match header.check kind with
          | .error error => .error error middle
          | .ok () => .ok header middle := by
  obtain ⟨middle, taken, passed⟩ := reads_take (List.length_take_of_le enough)
    (.corruptHeader .truncated) { feed with checksum := .start } _
    (List.take_append_drop Header.length feed.bytes).symm
  refine ⟨middle, passed.ending, ?_⟩
  rw [Decoder.header, run_modify_bind, run_bind_of_ok taken]
  cases Header.parse (feed.bytes.take Header.length) with
  | error fault => rfl
  | ok header =>
    dsimp only
    cases header.check kind <;> rfl

/-- Reading ends with the error that the header is refused with. -/
theorem header_of_refused {error : ContainerError} (kind : ContainerKind)
    (refused : Header.Refused feed.bytes error) (ends : feed.ending = .endOfData) :
    ∃ after, Decoder.header kind feed = .error error after := by
  cases refused with
  | truncated few =>
    obtain ⟨after, failed⟩ := @take_of_few { feed with checksum := .start } _
      (.corruptHeader .truncated) few ends
    refine ⟨after, ?_⟩
    rw [Decoder.header, run_modify_bind, run_bind_of_error failed]
  | unparsed enough fails =>
    obtain ⟨middle, _, run⟩ := header_of_enough kind enough
    rw [fails] at run
    exact ⟨middle, run⟩
  | @invalid header _ enough parsed fails =>
    obtain ⟨middle, _, run⟩ := header_of_enough kind enough
    have refused : header.check kind = .error error := by
      rw [Header.check, fails]
      rfl
    simp only [parsed, refused] at run
    exact ⟨middle, run⟩

/-! ### The content -/

/-- A value was read and the data behind it ends as well, or the content was refused. -/
def Blamed : EStateM.Result ContainerError Feed α → Prop
  | .ok _ after => after.ending = .endOfData
  | .error error _ => error.OfContent

/-- Whatever is wrong with data that ends, it is the content that is refused. -/
def BlamesContent (decoder : Decoder α) : Prop :=
  ∀ feed, feed.ending = .endOfData → Blamed (decoder feed)

/-- A step that blames the content can be followed by others that do. -/
theorem Blamed.bind {decoder : Decoder α} {next : α → Decoder β} (h : Blamed (decoder feed))
    (h' : ∀ value, (next value).BlamesContent) : Blamed ((decoder >>= next) feed) := by
  cases done : decoder feed with
  | ok value middle =>
    rw [done] at h
    rw [run_bind_of_ok done]
    exact h' value middle h
  | error error after =>
    rw [done] at h
    rw [run_bind_of_error done]
    exact h

theorem blamesContent_payload (count : Nat) (field : Field) :
    (payload count field).BlamesContent := by
  intro feed ends
  rcases Nat.lt_or_ge feed.bytes.length count with few | enough
  · obtain ⟨after, failed⟩ := take_of_few (.content (.truncated field)) few ends
    rw [payload, failed]
    exact .refused _
  · obtain ⟨after, taken, passed⟩ := reads_payload (List.length_take_of_le enough) field feed _
      (List.take_append_drop count feed.bytes).symm
    rw [taken]
    exact passed.ending.trans ends

theorem stepwise_blamesContent : Stepwise BlamesContent where
  given _ _ ends := ends
  refuse fault _ _ := .refused fault
  payload := blamesContent_payload
  bind h h' feed ends := (h feed ends).bind h'

theorem blamesContent_ownBlock (allocator : Allocator) (order : ByteOrder) :
    (ownBlock allocator order).BlamesContent :=
  stepwise_blamesContent.ownBlock (fun _ _ ends => ends) order

theorem blamesContent_finish : finish.BlamesContent := by
  intro feed ends
  unfold finish
  rw [ends]
  cases feed.bytes with
  | nil => exact ends
  | cons byte bytes => exact .refused _

/-- Behind a header that can be read, even the kind of the container belongs to the content. -/
theorem blamed_header {header : Header} (kind : ContainerKind)
    (accepted : Header.Accepted feed.bytes header) (ends : feed.ending = .endOfData) :
    Blamed (Decoder.header kind feed) := by
  obtain ⟨middle, same, run⟩ := header_of_enough kind accepted.enough
  rw [run, accepted.parsed]
  dsimp only
  by_cases other : header.kind ≠ kind
  · have refused : header.check kind = .error (.content (.malformed (.kind kind header.kind))) := by
      rw [Header.check, accepted.valid]
      exact if_pos other
    rw [refused]
    exact .refused _
  · have passed : header.check kind = .ok () := by
      rw [Header.check, accepted.valid]
      exact if_neg other
    rw [passed]
    exact same.trans ends

end Decoder

/-! ### Loading -/

/-- How bytes fail to be loaded: for their header, before any array is asked for and whatever stands
behind it, or else for their content. -/
structure FailsByPlace {α : Type} (load : List UInt8 → Except ContainerError α) (read : Decoder α)
    (bytes : List UInt8) : Prop where
  inMemory : ∀ error, load bytes = .error error →
    (∀ fault, error ≠ .transfer fault) ∧ ∀ fault, error ≠ .misuse fault
  header : ∀ error, load bytes = .error error ∧ error.OfHeader ↔ Header.Refused bytes error
  alone : ∀ error, Header.Refused bytes error → ∀ others : List UInt8,
    others.take Header.length = bytes.take Header.length → load others = .error error
  unasked : ∀ error, Header.Refused bytes error →
    ∃ after, read (.of bytes .endOfData) = .error error after ∧ after.requests = []
  content : ∀ header, Header.Accepted bytes header → ∀ error, load bytes = .error error →
    error.OfContent

namespace Decoder

variable {α β : Type} {bytes : List UInt8} {error : ContainerError}

/-- What is not read is not loaded. -/
theorem load_of_error {decoder : Decoder α} {after : Feed}
    (failed : decoder (.of bytes .endOfData) = .error error after) :
    decoder.load bytes = .error error := by
  rw [load, run_bind_of_error failed]

/-- Bytes that are not loaded are blamed on their content, if every step of reading them does so. -/
theorem ofContent_of_load {decoder : Decoder α} (blamed : Blamed (decoder (.of bytes .endOfData)))
    (failed : decoder.load bytes = .error error) : error.OfContent := by
  have whole : Blamed ((do
      let value ← decoder
      finish
      pure value : Decoder α) (.of bytes .endOfData)) :=
    blamed.bind fun value => stepwise_blamesContent.bind blamesContent_finish fun _ =>
      stepwise_blamesContent.given value
  unfold load at failed
  split at failed
  · cases failed
  · rename_i refused
    cases failed
    rw [refused] at whole
    exact whole

variable {kind : ContainerKind} {content : ByteOrder → Decoder β}
  {build : Header → β → Except Error α} {verify : Bool}

/-- Reading ends with the error that the header is refused with, before any array is asked for. -/
theorem container_of_refused (refused : Header.Refused bytes error) :
    ∃ after, container kind content build verify (.of bytes .endOfData) = .error error after ∧
      after.requests = [] := by
  obtain ⟨after, failed⟩ := @header_of_refused (.of bytes .endOfData) _ kind refused rfl
  have quiet := (quiet_header kind (.of bytes .endOfData)).asked
  rw [left_of_error failed] at quiet
  refine ⟨after, run_bind_of_error failed, ?_⟩
  rw [Feed.requests, quiet]
  rfl

theorem load_of_refused (refused : Header.Refused bytes error) :
    (container kind content build verify).load bytes = .error error := by
  obtain ⟨after, failed, _⟩ := container_of_refused refused
  exact load_of_error failed

section Content

variable (blames : ∀ order, (content order).BlamesContent)

include blames

/-- Behind a header that is accepted everything is blamed on the content. -/
theorem ofContent_of_accepted {header : Header} (accepted : Header.Accepted bytes header)
    (failed : (container kind content build verify).load bytes = .error error) :
    error.OfContent := by
  refine ofContent_of_load ((blamed_header kind accepted rfl).bind fun header => ?_) failed
  refine stepwise_blamesContent.bind (blames header.order) fun parts => ?_
  refine stepwise_blamesContent.bind (stepwise_blamesContent.trailer ?_ header verify) fun _ => ?_
  · exact fun _ ends => ends
  · exact stepwise_blamesContent.accept _

theorem refused_or_ofContent
    (failed : (container kind content build verify).load bytes = .error error) :
    Header.Refused bytes error ∨ error.OfContent := by
  rcases Header.refused_or_accepted bytes with ⟨_, refused⟩ | ⟨header, accepted⟩
  · cases failed.symm.trans (load_of_refused refused)
    exact .inl refused
  · exact .inr (ofContent_of_accepted blames accepted failed)

/-- Containers of all kinds fail so. -/
theorem container_failsByPlace (bytes : List UInt8) :
    FailsByPlace (container kind content build verify).load (container kind content build verify)
      bytes where
  inMemory error failed :=
    ContainerError.inMemory ((refused_or_ofContent blames failed).imp_left (·.ofHeader))
  header error := by
    refine ⟨?_, fun refused => ⟨load_of_refused refused, refused.ofHeader⟩⟩
    rintro ⟨failed, header⟩
    exact (refused_or_ofContent blames failed).resolve_right header.not_ofContent
  alone error refused others same := load_of_refused (refused.of_take same)
  unasked error := container_of_refused
  content header accepted error := ofContent_of_accepted blames accepted

end Content

end Decoder

/-! ### Sessions -/

namespace Reader

variable {session after : ReaderSession} {header : Header} {labels : Labels} {map : BlockMap}

/-- When all blocks to come have been read, a session is at its end. -/
theorem phase_of_blocks {count next : Nat} {read : List Block} (all : next + count = labels.count)
    (phase : session.phase = .readingBlocks header labels next)
    (done : blocks count session = .ok read after) : after.phase = .done header labels := by
  induction count generalizing session next read with
  | zero =>
    subst all
    obtain ⟨_, middle, last, ended⟩ := run_bind_eq_ok.mp done
    rw [block_last_eq phase, advance_eq_ok] at last
    obtain ⟨_, _, _, _, rfl⟩ := last
    cases ended
    rfl
  | succ count ih =>
    have more : next ≠ labels.count := by omega
    obtain ⟨_, middle, first, rest⟩ := run_bind_eq_ok.mp done
    rw [block_eq phase more, advance_eq_ok] at first
    obtain ⟨_, _, _, rfl, rfl⟩ := first
    obtain ⟨_, last, rest, ended⟩ := run_bind_eq_ok.mp rest
    cases ended
    exact ih (by omega) rfl rest

theorem phase_of_content (phase : session.phase = .readingBlocks header labels 0)
    (done : content header labels session = .ok map after) : after.phase = .done header labels := by
  obtain ⟨read, middle, filled, built⟩ := run_bind_eq_ok.mp done
  have ended := phase_of_blocks (Nat.zero_add _) phase filled
  cases made : BlockMap.ofBlocks labels read header.mixedProperties with
  | ok map =>
    rw [made] at built
    cases built
    exact ended
  | error error =>
    rw [made] at built
    cases built

/-- When a whole map has been read, a session is at its end. -/
theorem phase_of_map {feed : Feed} {verify : Bool} {allocator : Allocator}
    (done : Reader.map (.start feed verify allocator) = .ok map after) :
    ∃ header keys, after.phase = .done header keys := by
  obtain ⟨_, middle, begun, done⟩ := run_bind_eq_ok.mp
    (show (Reader.header >>= fun _ => rest) _ = _ from done)
  obtain ⟨header, phase, rfl⟩ := phase_of_header begun
  rw [rest_in_front_of_keys phase] at done
  obtain ⟨keys, last, read, done⟩ := run_bind_eq_ok.mp done
  exact ⟨header, keys, phase_of_content (phase_of_keys phase read) done⟩

/-- Reads a map and nothing behind it. -/
def whole : Reader BlockMap := do
  let map ← Reader.map
  finish
  pure map

/-- Where a map has been read, it is the turn of the end. -/
theorem outcome_whole (feed : Feed) (verify : Bool) (allocator : Allocator) :
    outcome (whole (.start feed verify allocator)) =
      (do
        let map ← BlockMap.readWith allocator verify
        Decoder.finish
        pure map : Decoder BlockMap) feed := by
  have read : outcome (Reader.map (.start feed verify allocator)) =
      BlockMap.readWith allocator verify feed := (run_eq Reader.map allocator verify feed).symm
  unfold whole
  cases done : Reader.map (.start feed verify allocator) with
  | ok map after =>
    rw [done] at read
    rw [run_bind_of_ok done, run_bind_of_ok read.symm]
    obtain ⟨header, keys, phase⟩ := phase_of_map done
    have inTurn : finish after = decode Decoder.finish after := by
      obtain ⟨feed, verify, allocator, _⟩ := after
      subst phase
      rfl
    refine outcome_then ?_ fun _ _ => rfl
    rw [inTurn, decode]
    cases Decoder.finish after.feed <;> rfl
  | error error after =>
    rw [done] at read
    rw [run_bind_of_error done, run_bind_of_error read.symm]
    rfl

end Reader

/-- The map that the bytes are a container of, read by a session. -/
def BlockMap.loadInSession (bytes : List UInt8) : Except ContainerError BlockMap :=
  match Reader.whole (.start (.of bytes .endOfData) true Allocator.zeros) with
  | .ok map _ => .ok map
  | .error error _ => .error error

theorem BlockMap.loadInSession_eq (bytes : List UInt8) :
    BlockMap.loadInSession bytes = BlockMap.load bytes := by
  unfold loadInSession load read Decoder.load
  rw [← Reader.outcome_whole]
  cases Reader.whole (.start (.of bytes .endOfData) true Allocator.zeros) <;> rfl

/-- Whatever the bytes are, how labels, blocks and maps fail to be loaded from them goes by the
place of the fault. A session that loads a map does the same, since its calls are made in turn. -/
theorem load_fails_by_place (bytes : List UInt8) :
    FailsByPlace Labels.load (Labels.read true) bytes ∧
      FailsByPlace Block.load (Block.read true) bytes ∧
      FailsByPlace BlockMap.load (BlockMap.read true) bytes ∧
      BlockMap.loadInSession bytes = BlockMap.load bytes := by
  refine ⟨?_, ?_, ?_, BlockMap.loadInSession_eq bytes⟩
  · change FailsByPlace (Labels.read true).load _ bytes
    rw [Labels.read_eq]
    exact Decoder.container_failsByPlace Decoder.stepwise_blamesContent.labels bytes
  · change FailsByPlace (Block.read true).load _ bytes
    rw [Block.read_eq]
    refine Decoder.container_failsByPlace (fun order => ?_) bytes
    exact Decoder.stepwise_blamesContent.block (Decoder.blamesContent_ownBlock _ order)
  · change FailsByPlace (BlockMap.read true).load _ bytes
    rw [BlockMap.read, BlockMap.readWith_eq]
    refine Decoder.container_failsByPlace (fun order => ?_) bytes
    exact Decoder.stepwise_blamesContent.mapContent (Decoder.blamesContent_ownBlock _ order)

-- A header of labels can be read, so that it is the content of a block that is refused.
example : Block.load (Header.of .little .labels false false).bytes =
    .error (.content (.malformed (.kind .block .labels))) := by rfl

-- The version stands in the order of the header, and comes before the kind.
example : Block.load { Header.of .big .labels false false with version := 2 }.bytes =
    .error (.unsupportedVersion 2) := by rfl

end LabeledBlocks
