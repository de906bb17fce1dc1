import LabeledBlocks.Proofs.Container.Writing

/-!
# Reading what encloses the content

A container is its header, its content and the checksum of both. The header says how the content is
read and whether there is a checksum, so that whatever can be read from the content can be read
from the container.

* `Header.parse_bytes` — a header is read back.
* `Decoder.header_reads`, `Decoder.trailer_reads` — so is what encloses the content.
* `Decoder.Reads.enclosed`, `Decoder.Fails.enclosed` — and with it the whole container.
-/

namespace LabeledBlocks

namespace ByteOrder

theorem ofMarker?_marker (order : ByteOrder) : ofMarker? order.marker = some order := by
  cases order <;> decide

/-- A word of four bytes is read back from them. -/
theorem number_word (order : ByteOrder) (word : UInt32) :
    UInt32.ofNat (order.number (order.bytes 4 word.toNat)) = word := by
  have small : word.toNat < 256 ^ 4 := word.toNat_lt
  rw [number_bytes, Nat.mod_eq_of_lt small, UInt32.ofNat_toNat]

end ByteOrder

namespace Header

theorem ofByte?_byte (kind : ContainerKind) : ContainerKind.ofByte? kind.byte = some kind := by
  cases kind <;> decide

/-- Every header is read back, whatever its version and its flags are. -/
theorem parse_bytes (header : Header) : parse header.bytes = .ok header := by
  obtain ⟨order, version, kind, flags⟩ := header
  have versionLength := ByteOrder.length_bytes order 4 version.toNat
  have flagsLength := ByteOrder.length_bytes order 4 flags.toNat
  have versionBack := ByteOrder.number_word order version
  have flagsBack := ByteOrder.number_word order flags
  unfold bytes
  dsimp only
  generalize order.bytes 4 version.toNat = versionBytes at *
  generalize order.bytes 4 flags.toNat = flagsBytes at *
  obtain ⟨v₀, v₁, v₂, v₃, rfl⟩ := List.length_eq_four.mp versionLength
  obtain ⟨f₀, f₁, f₂, f₃, rfl⟩ := List.length_eq_four.mp flagsLength
  simp [parse, magicBytes, ByteOrder.ofMarker?_marker, ofByte?_byte, versionBack, flagsBack]

theorem length_bytes (header : Header) : header.bytes.length = length := by
  simp [bytes, magicBytes, length]

/-- The header is read back from the front of its container. -/
theorem parse_enclose (header : Header) (content : List UInt8) :
    parse ((header.enclose content).take length) = .ok header := by
  rw [enclose, List.append_assoc, ← header.length_bytes, List.take_left, parse_bytes]

/-- The header of a container is one of its kind. -/
theorem check_of (order : ByteOrder) (kind : ContainerKind) (checksum mixed : Bool) :
    (Header.of order kind checksum mixed).check kind = .ok () := by
  have unknown : ∀ checksum mixed : Bool, ((if mixed then mixedFlag else 0) |||
      (if checksum then checksumFlag else 0)) &&& ~~~(mixedFlag ||| checksumFlag) = 0 := by
    decide
  have newest : ¬(Header.of order kind checksum mixed).version > formatVersion :=
    (by decide : ¬formatVersion > formatVersion)
  have numbered : ¬(Header.of order kind checksum mixed).version = 0 :=
    (by decide : ¬formatVersion = 0)
  have known : (Header.of order kind checksum mixed).validate = .ok () := by
    unfold validate
    rw [if_neg newest, if_neg numbered]
    exact if_neg (not_not.mpr (unknown checksum mixed))
  rw [check, check_bind_eq_ok]
  exact ⟨known, if_neg (not_not.mpr rfl)⟩

end Header

namespace Decoder

/-- The header is read back, and the checksum starts with it. -/
theorem header_reads {header : Header} {kind : ContainerKind}
    (readable : header.check kind = .ok ()) {feed : Feed} {rest : List UInt8}
    (start : feed.bytes = header.bytes ++ rest) :
    ∃ after, Decoder.header kind feed = .ok header after ∧
      { feed with checksum := .start }.Passed header.bytes rest after := by
  unfold Decoder.header
  rw [run_modify_bind]
  refine (?_ : Reads _ header.bytes header) { feed with checksum := .start } rest start
  refine (reads_take header.length_bytes _).bind_last ?_
  rw [Header.parse_bytes]
  dsimp only
  rw [readable]
  exact reads_pure header

/-- The checksum behind the content is that of the bytes before it, so that comparing it does no
harm. -/
theorem trailer_reads (header : Header) (verify : Bool) {feed : Feed} {body rest : List UInt8}
    (start : feed.bytes = header.trailer body ++ rest)
    (checksum : feed.checksum = Checksum.start.update body) :
    ∃ after, trailer header verify feed = .ok () after ∧
      feed.Passed (header.trailer body) rest after := by
  unfold trailer
  cases announced : header.hasChecksum with
  | false =>
    rw [Header.trailer, announced] at start ⊢
    exact reads_pure () feed rest start
  | true =>
    rw [Header.trailer, announced, if_pos rfl] at start ⊢
    have computed : feed.checksum.value = Checksum.of body := by rw [checksum, Checksum.of]
    have reads : Reads (do
        let stored ← number header.order 4 .checksum
        if verify ∧ UInt32.ofNat stored ≠ Checksum.of body then
          refuse (.checksum (.ofNat stored) (Checksum.of body)))
        (header.order.bytes 4 (Checksum.of body).toNat) () := by
      refine (reads_number header.order (Checksum.of body).toNat_lt _).bind_last ?_
      rw [if_neg (by simp)]
      exact reads_pure ()
    rw [← computed] at reads start ⊢
    exact reads feed rest start

section Enclosed

variable {α : Type} {kind : ContainerKind} {content : Header → Decoder α} {header : Header}
  {bytes : List UInt8}

/-- What is read from the content is read from the container. -/
theorem Reads.enclosed {value : α} (h : (content header).Reads bytes value)
    (readable : header.check kind = .ok ()) (verify : Bool) {feed : Feed} {rest : List UInt8}
    (start : feed.bytes = header.enclose bytes ++ rest) :
    ∃ after, (do
        let header ← Decoder.header kind
        let value ← content header
        trailer header verify
        pure value : Decoder α) feed = .ok value after ∧ after.bytes = rest := by
  rw [Header.enclose, List.append_assoc, List.append_assoc] at start
  obtain ⟨headed, headerDone, headerPassed⟩ := header_reads readable start
  obtain ⟨filled, contentDone, contentPassed⟩ := h headed _ headerPassed.bytes
  have passed := headerPassed.trans contentPassed
  obtain ⟨after, trailerDone, trailerPassed⟩ :=
    trailer_reads header verify contentPassed.bytes passed.checksum
  refine ⟨after, ?_, trailerPassed.bytes⟩
  rw [run_bind_of_ok headerDone, run_bind_of_ok contentDone, run_bind_of_ok trailerDone]
  rfl

/-- What fails in the content fails in the container. -/
theorem Fails.enclosed {error : ContainerError} (h : (content header).Fails bytes error)
    (readable : header.check kind = .ok ()) (verify : Bool) {feed : Feed} {rest : List UInt8}
    (start : feed.bytes = header.enclose bytes ++ rest) :
    ∃ after, (do
        let header ← Decoder.header kind
        let value ← content header
        trailer header verify
        pure value : Decoder α) feed = .error error after := by
  rw [Header.enclose, List.append_assoc, List.append_assoc] at start
  obtain ⟨headed, headerDone, headerPassed⟩ := header_reads readable start
  obtain ⟨after, failed⟩ := h headed _ headerPassed.bytes
  refine ⟨after, ?_⟩
  rw [run_bind_of_ok headerDone, run_bind_of_error failed]

end Enclosed

end Decoder

end LabeledBlocks
