import LabeledBlocks.Proofs.Container.Canonical
import LabeledBlocks.Proofs.Container.Checksum

/-!
# Damage is detected

A container with a checksum can not be loaded any more when one of its bytes has become another
one, wherever it stands. If both lists of bytes were containers, a byte of the header could not
change the byte order, which takes more than one byte. If the checksum was still announced it would
be that of other bytes; if it was not, the checksum would stand behind the content, which already
ended.

* `Header.order_eq_of_apart` — one byte does not change the byte order.
* `Decoder.container_damaged` — a damaged container of any kind is refused.
* `load_damaged` — so labels, blocks and maps are not loaded from damaged bytes.
-/

namespace LabeledBlocks

namespace Header

variable {header header' : Header} {kind : ContainerKind}

/-- The byte order shows in the marker and in the version, which one byte can not change at once. -/
theorem order_eq_of_apart (readable : header.check kind = .ok ())
    (readable' : header'.check kind = .ok ()) (apart : OneByteApart header.bytes header'.bytes) :
    header.order = header'.order := by
  have version : header.version = formatVersion := congrArg Header.version (eq_of_check readable)
  have version' : header'.version = formatVersion := congrArg Header.version (eq_of_check readable')
  have marked : ∀ order order' : ByteOrder, magicBytes ++ [order.marker] =
      magicBytes ++ [order'.marker] → order = order' := by
    intro order order'
    cases order <;> cases order' <;> decide
  have numbered : ∀ order order' : ByteOrder, order.bytes 4 formatVersion.toNat =
      order'.bytes 4 formatVersion.toNat → order = order' := by
    intro order order'
    cases order <;> cases order' <;> decide
  unfold bytes at apart
  rw [version, version', List.append_assoc, List.append_assoc, List.append_assoc (_ ++ _),
    List.append_assoc (_ ++ _)] at apart
  rcases apart.append rfl with ⟨_, same⟩ | ⟨same, _⟩
  · exact numbered _ _ (List.append_inj same (by simp)).1
  · exact marked _ _ same

/-- With the checksum of both behind them, bodies that differ in one byte differ in more. -/
theorem not_apart_of_checksums {body body' : List UInt8} (order : header.order = header'.order)
    (announced : header.hasChecksum = true) (announced' : header'.hasChecksum = true)
    (apart : OneByteApart (body ++ header.trailer body) (body' ++ header'.trailer body')) :
    False := by
  have length : body.length = body'.length := by
    have := apart.length_eq
    simpa [length_trailer, announced, announced'] using this
  simp only [trailer, announced, announced', if_true, order] at apart
  rcases apart.append length with ⟨bodies, same⟩ | ⟨rfl, trailers⟩
  · have words := congrArg (fun bytes => UInt32.ofNat (header'.order.number bytes)) same
    simp only [ByteOrder.number_word] at words
    exact bodies.checksum_ne words
  · exact trailers.ne rfl

end Header

namespace Decoder

variable {α β : Type} {kind : ContainerKind} {content : ByteOrder → Decoder β}
  {build : Header → β → Except Error α} {bytes damaged : List UInt8}

/-- A container with a checksum is refused when one byte has become another one. -/
theorem container_damaged (delimited : ∀ order, (content order).Delimited ContainerError.Truncated)
    {value : α} (loaded : (container kind content build true).load bytes = .ok value)
    {header : Header} (announced : Header.parse (bytes.take Header.length) = .ok header)
    (checked : header.hasChecksum = true) (apart : OneByteApart bytes damaged) :
    ∃ error, (container kind content build true).load damaged = .error error := by
  cases again : (container kind content build true).load damaged with
  | error error => exact ⟨error, rfl⟩
  | ok other =>
    exfalso
    obtain ⟨own, inner, parts, readable, delimits, _, rfl⟩ := container_load_eq_ok delimited loaded
    obtain ⟨header', inner', parts', readable', delimits', _, rfl⟩ :=
      container_load_eq_ok delimited again
    have same : own = header := by
      rw [Header.parse_enclose] at announced
      exact Except.ok.inj announced
    subst same
    have split := apart
    simp only [Header.enclose, List.append_assoc] at split
    rcases split.append (by simp only [Header.length_bytes]) with ⟨headers, rest⟩ | ⟨headers, _⟩
    · have order := Header.order_eq_of_apart readable readable' headers
      cases checked' : header'.hasChecksum with
      | true => exact Header.not_apart_of_checksums order checked checked' apart
      | false =>
        -- What was the checksum would now belong to the content, which ended before it.
        have longer : inner' = inner ++ own.trailer (own.bytes ++ inner) := by
          have none : header'.trailer (header'.bytes ++ inner') = [] := by
            rw [← List.length_eq_zero_iff, Header.length_trailer, checked']
            rfl
          rw [none, List.append_nil] at rest
          exact rest.symm
        rw [longer, ← order] at delimits'
        have none := congrArg List.length (delimits'.eq_nil delimits.reads)
        simp [Header.length_trailer, checked] at none
    · obtain rfl := Header.bytes_injective headers
      exact Header.not_apart_of_checksums rfl checked checked apart

end Decoder

/-- No container with a checksum is loaded any more when one of its bytes, anywhere, has become
another one. -/
theorem load_damaged {bytes damaged : List UInt8} {header : Header}
    (announced : Header.parse (bytes.take Header.length) = .ok header)
    (checked : header.hasChecksum = true) (apart : OneByteApart bytes damaged) :
    (∀ labels, Labels.load bytes = .ok labels → ∃ error, Labels.load damaged = .error error) ∧
    (∀ block, Block.load bytes = .ok block → ∃ error, Block.load damaged = .error error) ∧
    (∀ map, BlockMap.load bytes = .ok map → ∃ error, BlockMap.load damaged = .error error) := by
  refine ⟨?_, ?_, ?_⟩
  · intro labels loaded
    unfold Labels.load at loaded ⊢
    rw [Labels.read_eq] at loaded ⊢
    exact Decoder.container_damaged Decoder.delimited_labels loaded announced checked apart
  · intro block loaded
    unfold Block.load at loaded ⊢
    rw [Block.read_eq] at loaded ⊢
    exact Decoder.container_damaged Decoder.delimited_block loaded announced checked apart
  · intro map loaded
    unfold BlockMap.load at loaded ⊢
    rw [BlockMap.read, BlockMap.readWith_eq] at loaded ⊢
    exact Decoder.container_damaged Decoder.delimited_mapContent loaded announced checked apart

/-- The flag that announces the checksum is one bit of one byte, which may be lost. -/
theorem chained_damaged :
    ∃ bytes damaged header, BlockMap.load bytes = .ok (chainedMap maxGradientDepth) ∧
      Header.parse (bytes.take Header.length) = .ok header ∧ header.hasChecksum = true ∧
      OneByteApart bytes damaged ∧ ∃ error, BlockMap.load damaged = .error error := by
  obtain ⟨header, isHeader⟩ : ∃ header, header = Header.of .little .map true true := ⟨_, rfl⟩
  obtain ⟨inner, isInner⟩ : ∃ inner, inner =
    Piece.allBytes header.order (chainedMap maxGradientDepth).layout := ⟨_, rfl⟩
  have readable : header.check .map = .ok () := isHeader ▸ Header.check_of ..
  have mixed : header.mixedProperties = true := isHeader ▸ Header.mixedProperties_of ..
  have checked : header.hasChecksum = true := isHeader ▸ Header.hasChecksum_of ..
  have loaded : BlockMap.load (header.enclose inner) = .ok (chainedMap maxGradientDepth) :=
    isInner ▸ rereadable_chainedMap.load_enclosed fit_chainedMap readable mixed
  have announced := Header.parse_enclose header inner
  have flags : header.bytes = header.bytes.take 10 ++ 3 :: [0, 0, 0] := by
    rw [isHeader]
    decide
  have start : header.enclose inner = header.bytes.take 10 ++
      3 :: ([0, 0, 0] ++ (inner ++ header.trailer (header.bytes ++ inner))) := by
    rw [Header.enclose, List.append_assoc]
    nth_rewrite 1 [flags]
    rw [List.append_assoc, List.cons_append]
  have apart : OneByteApart (header.enclose inner) (header.bytes.take 10 ++
      1 :: ([0, 0, 0] ++ (inner ++ header.trailer (header.bytes ++ inner)))) :=
    ⟨_, 3, 1, _, start, rfl, by decide⟩
  exact ⟨_, _, header, loaded, announced, checked, apart,
    (load_damaged announced checked apart).2.2 _ loaded⟩

end LabeledBlocks
