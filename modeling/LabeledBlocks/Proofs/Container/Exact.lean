import LabeledBlocks.Proofs.Block.Sound
import LabeledBlocks.Proofs.BlockMap.Moves
import LabeledBlocks.Proofs.Container.Parts

/-!
# Nothing is read from less than was written

On the bytes of a container, and on every start of them, a decoder either gives nothing or takes
all of them. It may well give nothing, since labels can be written that are refused when they are
read, and so can gradients that are nested too deeply. But whatever decoder stands behind another
one, where bytes are missing there is nothing to give.

* `Decoder.Exact` — a decoder that takes just these bytes or gives nothing.
* `Decoder.Exact.bind` — one decoder behind the other.
* `Decoder.exact_labels`, `Decoder.exact_blockWithin`, `Decoder.exact_mapContent` — labels, blocks,
  and the keys and blocks of a map.
* `Decoder.exact_container` — containers of all kinds.
-/

namespace LabeledBlocks

namespace Decoder

variable {α β : Type}

/-- On a feed that starts with these bytes, or that has some first ones of them only, the decoder
gives nothing unless it takes just these bytes. -/
def Exact (decoder : Decoder α) (bytes : List UInt8) (P : α → Prop) : Prop :=
  ∀ feed value after, bytes <+: feed.bytes ∨ feed.bytes <+: bytes →
    decoder feed = .ok value after → feed.bytes = bytes ++ after.bytes ∧ P value

variable {decoder : Decoder α} {next : α → Decoder β} {bytes more : List UInt8} {P : α → Prop}
  {Q : β → Prop}

/-- On a strict start of the bytes the decoder fails. -/
theorem Exact.fails (h : decoder.Exact bytes P) {feed : Feed} (start : feed.bytes <+: bytes)
    (short : feed.bytes.length < bytes.length) :
    ∃ error after, decoder feed = .error error after := by
  cases done : decoder feed with
  | error error after => exact ⟨error, after, rfl⟩
  | ok value after =>
    obtain ⟨all, _⟩ := h feed value after (.inr start) done
    have length := congrArg List.length all
    rw [List.length_append] at length
    omega

/-! ### One decoder behind the other -/

/-- Steps that take their bytes exactly take all of them exactly. -/
theorem Exact.bind (h : decoder.Exact bytes P) (h' : ∀ first, P first → (next first).Exact more Q) :
    (decoder >>= next).Exact (bytes ++ more) Q := by
  intro feed value after start done
  obtain ⟨first, middle, begun, ended⟩ := run_bind_eq_ok.mp done
  have front : bytes <+: feed.bytes ∨ feed.bytes <+: bytes := by
    rcases start with whole | part
    · exact .inl ((List.prefix_append bytes more).trans whole)
    · exact List.prefix_or_prefix_of_prefix (List.prefix_append bytes more) part
  obtain ⟨taken, known⟩ := h feed first middle front begun
  rw [taken, List.prefix_append_right_inj, List.prefix_append_right_inj] at start
  obtain ⟨taken', known'⟩ := h' first known middle value after start ended
  rw [taken, taken', List.append_assoc]
  exact ⟨rfl, known'⟩

theorem Exact.imp {P' : α → Prop} (h : decoder.Exact bytes P) (weaker : ∀ value, P value → P' value) :
    decoder.Exact bytes P' := by
  intro feed value after start done
  obtain ⟨taken, known⟩ := h feed value after start done
  exact ⟨taken, weaker value known⟩

/-- A decoder that takes nothing leaves all bytes to the next one. -/
theorem Exact.bind_nil (h : decoder.Exact [] P) (h' : ∀ first, P first → (next first).Exact bytes Q) :
    (decoder >>= next).Exact bytes Q :=
  h.bind h'

/-- What is left to do once everything has been taken. -/
theorem Exact.bind_last (h : decoder.Exact bytes P) (h' : ∀ first, P first → (next first).Exact [] Q) :
    (decoder >>= next).Exact bytes Q := by
  have whole := h.bind h'
  rwa [List.append_nil] at whole

/-- A decoder that always takes so many bytes, if it gives anything. -/
theorem Exact.of_yields {R : List UInt8 → α → Prop}
    (h : decoder.Yields fun taken value => taken.length = bytes.length ∧ R taken value) :
    decoder.Exact bytes (R bytes) := by
  intro feed value after start done
  obtain ⟨taken, split, length, known⟩ := h feed value after done
  have front : taken <+: feed.bytes := ⟨after.bytes, split.symm⟩
  have same : taken = bytes := by
    rcases start with whole | part
    · exact (List.prefix_of_prefix_length_le front whole length.le).eq_of_length length
    · exact (front.trans part).eq_of_length length
  subst same
  exact ⟨split, known⟩

theorem exact_pure {value : α} (known : P value) : Exact (pure value) [] P := by
  intro feed given after _ done
  obtain ⟨rfl, rfl⟩ := EStateM.Result.ok.inj done
  exact ⟨rfl, known⟩

theorem exact_refuse (fault : ContentFault) : Exact (refuse fault : Decoder α) bytes P := by
  rintro feed value after _ ⟨⟩

theorem exact_accept (result : Except Error α) : Exact (accept result) [] fun _ => True := by
  cases result with
  | ok value => exact exact_pure trivial
  | error error => exact exact_refuse _

/-- Behind a condition that may refuse, the condition does not hold. -/
theorem Exact.unless {refused : Prop} [Decidable refused] {fault : ContentFault}
    {next : Unit → Decoder α} (h : ¬refused → (next ()).Exact bytes P) :
    Exact (if refused then refuse fault >>= next else next ()) bytes P := by
  by_cases holds : refused
  · rw [if_pos holds]
    rintro feed value after _ ⟨⟩
  · rw [if_neg holds]
    exact h holds

/-! ### Bytes, numbers and texts -/

theorem exact_payload {count : Nat} (length : bytes.length = count) (field : Field) :
    Exact (payload count field) bytes (· = bytes) := by
  refine Exact.of_yields (R := fun taken given => given = taken) ?_
  refine (yields_payload count field).imp fun taken given known => ?_
  exact ⟨known.2.trans length.symm, known.1⟩

theorem exact_number (order : ByteOrder) {count n : Nat} (holds : n < 256 ^ count)
    (field : Field) : Exact (number order count field) (order.bytes count n) (· = n) := by
  refine (exact_payload (ByteOrder.length_bytes order count n) field).bind_last fun data same => ?_
  refine exact_pure ?_
  rw [same, ByteOrder.number_bytes, Nat.mod_eq_of_lt holds]

theorem exact_length (order : ByteOrder) {n : Nat} (holds : n < 2 ^ 32) (field : Field) :
    Exact (length order field) (order.bytes 4 n) (· = n) :=
  exact_number order holds field

theorem exact_count (order : ByteOrder) {n : Nat} (holds : n < 2 ^ 64) (field : Field) :
    Exact (count order field) (order.bytes 8 n) (· = n) :=
  exact_number order holds field

/-- A text is taken exactly. -/
theorem exact_string (order : ByteOrder) {text : String} (holds : (Utf8.encode text).length < 2 ^ 32)
    (field : Field) :
    Exact (string order field) (order.bytes 4 (Utf8.encode text).length ++ Utf8.encode text)
      fun _ => True := by
  refine (exact_length order holds field).bind fun size same => ?_
  subst same
  refine (exact_payload rfl field).bind_last fun data _ => ?_
  cases Utf8.decode data with
  | ok text => exact exact_pure trivial
  | error fault => exact exact_refuse _

/-- Values of one kind are taken exactly, one after the other. -/
theorem exact_replicate {encode : β → List UInt8} {R : β → α → Prop} {values : List β}
    (h : ∀ value ∈ values, decoder.Exact (encode value) (R value)) :
    Exact (replicate decoder values.length) (values.flatMap encode) (List.Forall₂ R values) := by
  induction values with
  | nil => exact exact_pure .nil
  | cons value values ih =>
    rw [List.forall_mem_cons] at h
    rw [List.flatMap_cons, List.length_cons, replicate]
    refine h.1.bind fun first known => ?_
    refine (ih h.2).bind_last fun rest known' => ?_
    exact exact_pure (.cons known known')

end Decoder

/-! ### Labels -/

/-- The number of rows can be kept in 64 bits. -/
def Labels.Counted (labels : Labels) : Prop :=
  labels.count < 2 ^ 64

instance : DecidablePred Labels.Counted := fun labels =>
  inferInstanceAs (Decidable (labels.count < 2 ^ 64))

theorem Labels.named_of_fit {labels : Labels} (fit : Piece.Fit labels.layout) :
    ∀ name ∈ labels.names, (Utf8.encode name).length < 2 ^ 32 := by
  intro name member
  have piece : Piece.length (Utf8.encode name).length ∈ labels.names.flatMap Piece.string :=
    List.mem_flatMap.mpr ⟨name, member, List.mem_cons_self⟩
  exact Piece.excess?_length.mp
    ((Piece.fit_cons.mp fit).2 _ (List.mem_append_left _ piece))

namespace Decoder

theorem exact_labelBytes (rows width : Nat) :
    Exact (labelBytes rows width) [] (· = rows * width * 4) := by
  unfold labelBytes
  exact .unless fun _ => exact_pure rfl

/-- Labels are taken exactly. -/
theorem exact_labels (order : ByteOrder) {labels : Labels} (regular : labels.Regular)
    (counted : labels.Counted) (fit : Piece.Fit labels.layout) :
    Exact (Decoder.labels order) (Piece.allBytes order labels.layout) fun _ => True := by
  have sizeHolds := Piece.excess?_length.mp (Piece.fit_cons.mp fit).1
  have length : (labels.values.flatMap fun v => order.bytes 4 v.toUInt32.toNat).length =
      labels.count * labels.size * 4 := by
    rw [List.length_flatMap, ← Labels.length_values regular]
    simp
  rw [Labels.allBytes_layout]
  refine (exact_length order sizeHolds _).bind fun nameCount same => ?_
  subst same
  refine (exact_replicate (R := fun _ _ => True) fun name member =>
    exact_string order (Labels.named_of_fit fit name member) _).bind fun names _ => ?_
  refine (exact_count order counted _).bind fun rows same => ?_
  subst same
  refine (exact_length order sizeHolds _).bind fun width same => ?_
  subst same
  refine .unless fun _ => .unless fun _ => ?_
  refine (exact_labelBytes _ _).bind_nil fun size same => ?_
  subst same
  exact (exact_payload length _).bind_last fun data _ => exact_accept _

/-! ### Blocks -/

theorem exact_allocate (allocator : Allocator) (shape : List Nat) :
    Exact (allocate allocator shape) [] fun _ => True := by
  intro feed array after _ done
  obtain ⟨_, rfl⟩ := EStateM.Result.ok.inj done
  exact ⟨rfl, trivial⟩

theorem exact_fill (array : Dense) (shape : List Nat) (values : List FloatBits) :
    Exact (fill array shape values) [] fun _ => True := by
  unfold fill
  exact .unless fun _ => .unless fun _ => exact_pure trivial

/-- A block without its gradients is taken exactly. -/
theorem exact_ownBlock (allocator : Allocator) (order : ByteOrder) {block : Block}
    (proper : block.Proper) (counted : block.AxesLabelled Labels.Counted)
    (fit : Piece.Fit
      (Block.ownLayout block.values block.samples block.components block.properties)) :
    Exact (ownBlock allocator order)
      (Piece.allBytes order
        (Block.ownLayout block.values block.samples block.components block.properties))
      fun _ => True := by
  obtain ⟨wellFormed, regular⟩ := proper
  simp only [Block.ownLayout, List.append_assoc, Piece.fit_append, Piece.fit_flatMap] at fit
  obtain ⟨samplesFit, countFits, componentsFit, propertiesFit, rankFits, _⟩ := fit
  have countHolds := Piece.excess?_length.mp (Piece.fit_cons.mp countFits).1
  have rankHolds := Piece.excess?_length.mp (Piece.fit_cons.mp rankFits).1
  have axisHolds : ∀ n ∈ block.values.shape, n < 2 ^ 64 := by
    intro n member
    rw [wellFormed.shape, Block.labelledShape] at member
    rcases List.mem_cons.mp member with rfl | member
    · exact counted.samples
    · rcases List.mem_append.mp member with member | member
      · obtain ⟨labels, known, rfl⟩ := List.mem_map.mp member
        exact counted.components labels known
      · rw [List.mem_singleton.mp member]
        exact counted.properties
  have length : (block.values.data.toList.flatMap fun v => order.bytes 8 v.toNat).length =
      8 * block.values.shape.prod := by
    simp [← wellFormed.filled, Nat.mul_comm]
  simp only [Block.ownLayout, List.append_assoc, Piece.allBytes_append, Piece.allBytes_flatMap,
    Piece.allBytes_singleton, Piece.allBytes_counts]
  unfold ownBlock axes axesBy
  simp only [bind_assoc, pure_bind]
  refine (exact_labels order regular.samples counted.samples samplesFit).bind fun samples _ => ?_
  refine (exact_length order countHolds _).bind fun componentCount same => ?_
  subst same
  refine (exact_replicate (R := fun _ _ => True) fun labels member =>
    exact_labels order (regular.components labels member) (counted.components labels member)
      (componentsFit labels member)).bind fun components _ => ?_
  refine (exact_labels order regular.properties counted.properties propertiesFit).bind
    fun properties _ => ?_
  refine (exact_length order rankHolds _).bind fun rank same => .unless fun _ => ?_
  subst same
  refine (exact_replicate (R := Eq) fun n member =>
    (exact_count order (axisHolds n member) Field.shape).imp fun _ same => same.symm).bind
      fun shape same => ?_
  rw [List.forall₂_eq_eq_eq] at same
  subst same
  refine .unless fun _ => .unless fun _ => ?_
  refine (exact_payload length _).bind_last fun data _ => ?_
  refine (exact_allocate allocator _).bind_nil fun array _ => ?_
  exact (exact_fill array _ _).bind_nil fun values _ => exact_accept _

theorem fit_block {block : Block} (fit : Piece.Fit block.layout) :
    Piece.Fit (Block.ownLayout block.values block.samples block.components block.properties) ∧
      block.gradients.length < 2 ^ 32 ∧ Piece.Fit (Block.gradientLayout block.gradients) := by
  rw [Block.layout_eq, Piece.fit_append, Piece.fit_append] at fit
  obtain ⟨⟨own, count⟩, entries⟩ := fit
  exact ⟨own, Piece.excess?_length.mp (Piece.fit_cons.mp count).1, entries⟩

/-- Gradients are taken exactly, one after the other. -/
theorem exact_gradients (order : ByteOrder) {gradient : Decoder Block}
    {entries : List (String × Block)}
    (named : ∀ entry ∈ entries, (Utf8.encode entry.1).length < 2 ^ 32)
    (h : ∀ entry ∈ entries,
      gradient.Exact (Piece.allBytes order entry.2.layout) fun _ => True) (block : Block) :
    Exact (gradients order gradient entries.length block)
      (entries.flatMap (gradientBytes order)) fun _ => True := by
  induction entries generalizing block with
  | nil => exact exact_pure trivial
  | cons entry entries ih =>
    rw [List.forall_mem_cons] at named h
    rw [List.flatMap_cons, gradientBytes, List.append_assoc, List.length_cons, gradients]
    refine (exact_string order named.1 _).bind fun parameter _ => ?_
    refine h.1.bind fun next _ => ?_
    exact (exact_accept _).bind_nil fun added _ => ih named.2 h.2 added

/-- A block with its gradients is taken exactly. -/
theorem exact_blockWithin (allocator : Allocator) (order : ByteOrder) {block : Block}
    (sound : block.Sound) (counted : block.Labelled Labels.Counted)
    (fit : Piece.Fit block.layout) (levels : Nat) :
    Exact (blockWithin (ownBlock allocator order) order levels) (Piece.allBytes order block.layout)
      fun _ => True := by
  induction levels generalizing block with
  | zero =>
    obtain ⟨own, holds, entries⟩ := fit_block fit
    rw [allBytes_block]
    refine (exact_ownBlock allocator order sound.own counted.own own).bind fun first _ => ?_
    refine (exact_length order holds _).bind fun count same => .unless fun none => ?_
    subst same
    rw [List.eq_nil_of_length_eq_zero (Nat.eq_zero_of_not_pos none)]
    exact exact_pure trivial
  | succ levels ih =>
    obtain ⟨own, holds, entries⟩ := fit_block fit
    rw [allBytes_block]
    refine (exact_ownBlock allocator order sound.own counted.own own).bind fun first _ => ?_
    refine (exact_length order holds _).bind fun count same => ?_
    subst same
    refine exact_gradients order (fun entry member => (fit_gradientLayout entries entry member).1)
      (fun entry member => ?_) first
    exact ih (sound.inner member) (counted.inner member) (fit_gradientLayout entries entry member).2

theorem exact_block (allocator : Allocator) (order : ByteOrder) {block : Block}
    (sound : block.Sound) (counted : block.Labelled Labels.Counted)
    (fit : Piece.Fit block.layout) :
    Exact (Decoder.block allocator order) (Piece.allBytes order block.layout) fun _ => True :=
  exact_blockWithin allocator order sound counted fit maxGradientDepth

/-! ### Maps -/

/-- The keys that are given have as many rows as there are blocks to come. -/
theorem exact_keys (order : ByteOrder) {labels : Labels} (regular : labels.Regular)
    (counted : labels.Counted) (fit : Piece.Fit (Writer.keyLayout labels)) :
    Exact (keys order) (Piece.allBytes order (Writer.keyLayout labels))
      fun given => given.count = labels.count := by
  rw [Writer.keyLayout, Piece.fit_append] at fit
  rw [Writer.keyLayout, Piece.allBytes_append, Piece.allBytes_singleton]
  refine (exact_labels order regular counted fit.1).bind fun given _ => ?_
  refine (exact_count order counted _).bind_last fun blockCount same => .unless fun agree => ?_
  exact exact_pure ((not_not.mp agree).symm.trans same)

/-- The content of the container of a map is taken exactly. -/
theorem exact_mapContent (allocator : Allocator) (order : ByteOrder) {map : BlockMap}
    (sound : map.Sound) (counted : map.Labelled Labels.Counted) (fit : Piece.Fit map.layout) :
    Exact (mapContent allocator order) (Piece.allBytes order map.layout) fun _ => True := by
  rw [BlockMap.layout, Piece.fit_append, Piece.fit_flatMap] at fit
  rw [BlockMap.layout, Piece.allBytes_append, Piece.allBytes_flatMap]
  refine (exact_keys order sound.keys counted.keys fit.1).bind fun given same => ?_
  rw [same, sound.consistent.count]
  refine (exact_replicate (R := fun _ _ => True) fun block member =>
    exact_block allocator order (sound.blocks block member) (counted.blocks block member)
      (fit.2 block member)).bind_last fun blocks _ => ?_
  exact exact_pure trivial

/-! ### Containers -/

theorem exact_header (kind : ContainerKind) (header : Header) :
    Exact (Decoder.header kind) header.bytes (· = header) := by
  have read : Exact (Decoder.header kind) header.bytes fun given => header.bytes = given.bytes := by
    refine Exact.of_yields (R := fun taken (given : Header) => taken = given.bytes) ?_
    refine (yields_header kind).imp fun taken given known => ⟨?_, known.1⟩
    rw [known.1, Header.length_bytes, Header.length_bytes]
  exact read.imp fun given same => (Header.bytes_injective same).symm

/-- A checksum is taken exactly, whether or not it is compared. -/
theorem exact_trailer (header : Header) (verify : Bool) (body : List UInt8) :
    Exact (trailer header verify) (header.trailer body) fun _ => True := by
  unfold trailer Header.trailer
  cases header.hasChecksum with
  | false => exact exact_pure trivial
  | true =>
    have looked : Exact (get : Decoder Feed) [] fun _ => True := by
      rintro feed value after _ ⟨⟩
      exact ⟨rfl, trivial⟩
    refine looked.bind_nil fun feed _ => ?_
    refine (exact_number header.order (Checksum.of body).toNat_lt _).bind_last fun stored _ => ?_
    exact .unless fun _ => exact_pure trivial

/-- A container is taken exactly when its content is. -/
theorem exact_container {kind : ContainerKind} {content : ByteOrder → Decoder β}
    {build : Header → β → Except Error α} {header : Header}
    (h : (content header.order).Exact bytes P) (verify : Bool) :
    Exact (container kind content build verify) (header.enclose bytes) fun _ => True := by
  rw [Header.enclose, List.append_assoc]
  refine (exact_header kind header).bind fun given same => ?_
  subst same
  refine h.bind fun parts _ => ?_
  refine (exact_trailer given verify _).bind_last fun _ _ => ?_
  exact exact_accept _

end Decoder

end LabeledBlocks
