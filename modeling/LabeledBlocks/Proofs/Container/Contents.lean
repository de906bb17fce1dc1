import LabeledBlocks.Proofs.Block.Consistent
import LabeledBlocks.Proofs.Container.Reading
import LabeledBlocks.Proofs.Dense
import LabeledBlocks.Proofs.Groups
import Mathlib.Algebra.BigOperators.Group.List.Lemmas

/-!
# Reading the contents of a container

Labels and blocks are read back from the bytes of their layout. Everything that was written is
checked again when it is read, so that this holds of valid labels and consistent blocks only, and
only as long as their sizes in bytes can be addressed. A block whose gradients are nested too
deeply can be written, and fails when it is read.

* `Decoder.reads_labels` — valid labels are read back.
* `Decoder.reads_blockWithin` — a block is read back when its gradients are not too deep.
* `Decoder.blockWithin_fails` — and is refused when they are.
-/

namespace LabeledBlocks

/-! ### Bytes of a layout -/

namespace Piece

/-- All lengths fit into their bytes. -/
def Fit (pieces : List Piece) : Prop :=
  ∀ piece ∈ pieces, piece.excess? = none

instance : DecidablePred Fit := fun pieces =>
  inferInstanceAs (Decidable (∀ piece ∈ pieces, piece.excess? = none))

def allBytes (order : ByteOrder) (pieces : List Piece) : List UInt8 :=
  pieces.flatMap (Piece.bytes order)

theorem fit_append {pieces more : List Piece} : Fit (pieces ++ more) ↔ Fit pieces ∧ Fit more :=
  List.forall_mem_append

theorem fit_cons {piece : Piece} {pieces : List Piece} :
    Fit (piece :: pieces) ↔ piece.excess? = none ∧ Fit pieces :=
  List.forall_mem_cons

theorem excess?_length {n : Nat} : (Piece.length n).excess? = none ↔ n < 2 ^ 32 := by
  simp [excess?]

theorem allBytes_append (order : ByteOrder) (pieces more : List Piece) :
    allBytes order (pieces ++ more) = allBytes order pieces ++ allBytes order more :=
  List.flatMap_append

theorem allBytes_cons (order : ByteOrder) (piece : Piece) (pieces : List Piece) :
    allBytes order (piece :: pieces) = piece.bytes order ++ allBytes order pieces :=
  List.flatMap_cons

theorem allBytes_singleton (order : ByteOrder) (piece : Piece) :
    allBytes order [piece] = piece.bytes order :=
  List.flatMap_singleton _ _

theorem allBytes_flatMap {α : Type} (order : ByteOrder) (values : List α)
    (layout : α → List Piece) :
    allBytes order (values.flatMap layout) =
      values.flatMap fun value => allBytes order (layout value) :=
  List.flatMap_assoc

theorem allBytes_counts (order : ByteOrder) (counts : List Nat) :
    allBytes order (counts.map .count) = counts.flatMap (order.bytes 8) := by
  simp [allBytes, bytes, List.flatMap_map]

theorem fit_flatMap {α : Type} {values : List α} {layout : α → List Piece} :
    Fit (values.flatMap layout) ↔ ∀ value ∈ values, Fit (layout value) := by
  constructor
  · intro fit value member piece inside
    exact fit piece (List.mem_flatMap.mpr ⟨value, member, inside⟩)
  · intro fit piece inside
    obtain ⟨value, member, inside⟩ := List.mem_flatMap.mp inside
    exact fit value member piece inside

/-- Pieces are encoded as a whole exactly when all of them fit. -/
theorem encodeAll_snd_eq_none_iff (order : ByteOrder) {pieces : List Piece} :
    (encodeAll order pieces).2 = none ↔ Fit pieces := by
  induction pieces with
  | nil => simp [encodeAll, Fit]
  | cons piece pieces ih =>
    rw [encodeAll, fit_cons]
    cases excess : piece.excess? with
    | some n => simp
    | none => simp [ih]

theorem encodeAll_fst {order : ByteOrder} {pieces : List Piece} (fit : Fit pieces) :
    (encodeAll order pieces).1 = allBytes order pieces := by
  induction pieces with
  | nil => rfl
  | cons piece pieces ih =>
    obtain ⟨fits, rest⟩ := fit_cons.mp fit
    rw [encodeAll, fits, allBytes_cons, ← ih rest]

end Piece

/-! ### Groups of bytes -/

/-- Values that are kept as numbers of one width are read back from the bytes of all of them. -/
theorem numbers_bytes {α : Type} (order : ByteOrder) {width : Nat} (ofNumber : Nat → α)
    {toNumber : α → Nat} (holds : ∀ value, toNumber value < 256 ^ width)
    (back : ∀ value, ofNumber (toNumber value) = value) (values : List α) :
    ((groups width values.length
        (values.flatMap fun value => order.bytes width (toNumber value))).map fun bytes =>
      ofNumber (order.number bytes)) = values := by
  have length : ∀ value, (order.bytes width (toNumber value)).length = width :=
    fun value => ByteOrder.length_bytes order width (toNumber value)
  rw [groups_flatMap _ fun value _ => length value, List.map_map]
  conv => rhs; rw [← List.map_id values]
  refine List.map_congr_left fun value _ => ?_
  rw [Function.comp_apply, ByteOrder.number_bytes, Nat.mod_eq_of_lt (holds value), back, id_eq]

namespace Decoder

/-- Values are read back from their bytes. -/
theorem integers_bytes (order : ByteOrder) (values : List Int32) :
    integers order values.length (values.flatMap fun v => order.bytes 4 v.toUInt32.toNat) =
      values := by
  have holds : ∀ v : Int32, v.toUInt32.toNat < 256 ^ 4 := fun v => v.toUInt32.toNat_lt
  have back : ∀ v : Int32, (UInt32.ofNat v.toUInt32.toNat).toInt32 = v := by
    intro v
    rw [UInt32.ofNat_toNat, Int32.toInt32_toUInt32]
  exact numbers_bytes order (fun n => (UInt32.ofNat n).toInt32) holds back values

theorem floats_bytes (order : ByteOrder) (values : List FloatBits) :
    floats order values.length (values.flatMap fun v => order.bytes 8 v.toNat) = values := by
  have holds : ∀ v : FloatBits, v.toNat < 256 ^ 8 := fun v => v.toNat_lt
  exact numbers_bytes order UInt64.ofNat holds (fun _ => UInt64.ofNat_toNat) values

end Decoder

/-! ### Labels -/

namespace Labels

/-- The values take up less bytes than there are addresses. -/
def Addressable (labels : Labels) : Prop :=
  4 * labels.count * labels.size < 2 ^ 64

instance : DecidablePred Addressable := fun labels =>
  inferInstanceAs (Decidable (4 * labels.count * labels.size < 2 ^ 64))

theorem count_eq_zero {labels : Labels} (valid : labels.Valid) (none : labels.size = 0) :
    labels.count = 0 := by
  rw [labels.count_eq, valid.unnamed (List.eq_nil_of_length_eq_zero none)]
  rfl

/-- The number of rows is less than the number of addresses. -/
theorem count_lt {labels : Labels} (valid : labels.Valid) (addressable : labels.Addressable) :
    labels.count < 2 ^ 64 := by
  unfold Addressable at addressable
  cases size : labels.size with
  | zero => rw [count_eq_zero valid size]; decide
  | succ width =>
    rw [size] at addressable
    calc labels.count ≤ 4 * labels.count := Nat.le_mul_of_pos_left _ (by decide)
      _ ≤ 4 * labels.count * (width + 1) := Nat.le_mul_of_pos_right _ (Nat.succ_pos _)
      _ < 2 ^ 64 := addressable

theorem length_values {labels : Labels} (regular : labels.Regular) :
    labels.values.length = labels.count * labels.size := by
  rw [values, List.length_flatten, labels.count_eq]
  have : labels.rows.map List.length = labels.rows.map fun _ => labels.size :=
    List.map_congr_left regular.width
  rw [this, List.map_const', List.sum_replicate_nat]

/-- Valid labels are built again from their names and their values. -/
theorem ofValues_values {labels : Labels} (valid : labels.Valid) :
    ofValues labels.names labels.values = .ok labels := by
  have length := length_values valid.toRegular
  have count : labels.values.length / labels.names.length = labels.rows.length := by
    rw [length, labels.count_eq]
    cases unnamed : labels.names with
    | nil => simp [valid.unnamed unnamed, size, unnamed]
    | cons name names =>
      rw [← unnamed]
      exact Nat.mul_div_cancel _ (List.length_pos_iff.mpr (by simp [unnamed]))
  have whole : labels.values.length % labels.names.length = 0 := by
    rw [length]
    exact Nat.mul_mod_left _ _
  unfold ofValues
  simp only [whole, count]
  have cut : groups labels.names.length labels.rows.length labels.rows.flatten = labels.rows :=
    groups_flatten valid.width
  rw [if_neg (not_not.mpr rfl), values, cut]
  exact ofRows_of_valid valid

/-- The bytes of labels, field by field. -/
theorem allBytes_layout (order : ByteOrder) (labels : Labels) :
    Piece.allBytes order labels.layout =
      order.bytes 4 labels.size ++ ((labels.names.flatMap fun name =>
          order.bytes 4 (Utf8.encode name).length ++ Utf8.encode name) ++
        (order.bytes 8 labels.count ++ (order.bytes 4 labels.size ++
          labels.values.flatMap fun v => order.bytes 4 v.toUInt32.toNat))) := by
  have strings : Piece.allBytes order (labels.names.flatMap Piece.string) =
      labels.names.flatMap fun name =>
        order.bytes 4 (Utf8.encode name).length ++ Utf8.encode name := by
    rw [Piece.allBytes, List.flatMap_assoc]
    refine List.flatMap_congr fun name _ => ?_
    simp [Piece.string, Piece.bytes]
  rw [layout, List.cons_append, Piece.allBytes_cons, Piece.allBytes_append, strings]
  simp [Piece.allBytes, Piece.bytes]

end Labels

namespace Decoder

theorem reads_labelBytes {rows width : Nat} (small : rows * width * 4 < 2 ^ 64) :
    Reads (labelBytes rows width) [] (rows * width * 4) := by
  have fits : ¬rows * width * 4 ≥ addressLimit := Nat.not_le.mpr small
  unfold labelBytes
  dsimp only
  rw [if_neg fits]
  exact reads_pure _

/-- Valid labels are read back from the bytes of their layout. -/
theorem reads_labels (order : ByteOrder) {labels : Labels} (valid : labels.Valid)
    (addressable : labels.Addressable) (fit : Piece.Fit labels.layout) :
    Reads (Decoder.labels order) (Piece.allBytes order labels.layout) labels := by
  obtain ⟨sizeFits, namesFit⟩ := Piece.fit_cons.mp fit
  have sizeHolds := Piece.excess?_length.mp sizeFits
  have nameHolds : ∀ name ∈ labels.names, (Utf8.encode name).length < 2 ^ 32 := by
    intro name member
    have piece : Piece.length (Utf8.encode name).length ∈ labels.names.flatMap Piece.string :=
      List.mem_flatMap.mpr ⟨name, member, List.mem_cons_self⟩
    exact Piece.excess?_length.mp (namesFit _ (List.mem_append_left _ piece))
  have unnamed := Labels.count_eq_zero valid
  have small : labels.count * labels.size * 4 < 2 ^ 64 := by
    unfold Labels.Addressable at addressable
    rw [Nat.mul_comm, ← Nat.mul_assoc]
    exact addressable
  have countHolds := Labels.count_lt valid addressable
  have bytes : (labels.values.flatMap fun v => order.bytes 4 v.toUInt32.toNat).length =
      labels.count * labels.size * 4 := by
    rw [List.length_flatMap, ← Labels.length_values valid.toRegular]
    simp
  rw [Labels.allBytes_layout]
  refine (reads_length order sizeHolds _).bind ?_
  refine (reads_replicate fun name member => reads_string order (nameHolds name member) _).bind ?_
  refine (reads_count order countHolds _).bind ?_
  refine (reads_length order sizeHolds _).bind ?_
  dsimp only
  rw [if_neg (not_not.mpr rfl), if_neg (fun h => h.2 (unnamed h.1))]
  refine (reads_labelBytes small).bind_nil ?_
  refine (reads_payload bytes _).bind_last ?_
  rw [Nat.mul_div_cancel _ (by decide), ← Labels.length_values valid.toRegular, integers_bytes]
  exact reads_accept (Labels.ofValues_values valid)

/-! ### Blocks without their gradients -/

end Decoder

/-- Arrays of values take up less bytes than an array may have. -/
def Dense.Addressable (array : Dense) : Prop :=
  8 * Dense.span array.shape ≤ Dense.maxLength

/-- All sizes of the block itself can be addressed. -/
structure Block.OwnAddressable (block : Block) : Prop where
  labels : block.AxesLabelled Labels.Addressable
  values : block.values.Addressable

instance : DecidablePred Block.OwnAddressable := fun block =>
  decidable_of_iff
    (block.AxesLabelled Labels.Addressable ∧ 8 * Dense.span block.values.shape ≤ Dense.maxLength)
    ⟨fun ⟨labels, values⟩ => ⟨labels, values⟩, fun ⟨labels, values⟩ => ⟨labels, values⟩⟩

/-- The sizes of the block and of its gradients at every depth can be addressed. -/
abbrev Block.Addressable (block : Block) : Prop :=
  block.Everywhere Block.OwnAddressable

namespace Decoder

/-- The axes of an array that can be addressed are short. -/
theorem axis_lt {shape : List Nat} (small : 8 * Dense.span shape ≤ Dense.maxLength) :
    ∀ length ∈ shape, length < 2 ^ 64 := by
  intro length member
  by_cases empty : length = 0
  · rw [empty]
    decide
  · have divides : length ∣ Dense.span shape :=
      List.dvd_prod (List.mem_filter.mpr ⟨member, decide_eq_true empty⟩)
    have := Nat.le_of_dvd (Dense.span_pos shape) divides
    unfold Dense.maxLength at small
    omega

theorem reads_allocate_zeros (shape : List Nat) :
    Reads (allocate Allocator.zeros shape) [] (Dense.zeros shape) := by
  intro feed rest start
  exact ⟨_, rfl, start, rfl, rfl, rfl⟩

/-- An array of zeros takes in all values of its shape. -/
theorem reads_fill_zeros {shape : List Nat} {values : List FloatBits} :
    Reads (fill (Dense.zeros shape) shape values) [] ⟨shape, values.toArray⟩ := by
  have same : ¬(Dense.zeros shape).shape ≠ shape := not_not.mpr rfl
  have length : ¬(Dense.zeros shape).data.size ≠ shape.prod := by simp [Dense.zeros]
  unfold fill
  dsimp only
  rw [if_neg same, if_neg length]
  exact reads_pure _

/-- A block is read back up to its gradients. -/
theorem reads_ownBlock (order : ByteOrder) {block : Block} (wellFormed : block.WellFormed)
    (valid : block.AxesLabelled Labels.Valid) (addressable : block.OwnAddressable)
    (fit : Piece.Fit
      (Block.ownLayout block.values block.samples block.components block.properties)) :
    Reads (ownBlock Allocator.zeros order)
      (Piece.allBytes order
        (Block.ownLayout block.values block.samples block.components block.properties))
      { block with gradients := [] } := by
  obtain ⟨shape, filled, _, distinct, new, _, _⟩ := wellFormed
  simp only [Block.ownLayout, List.append_assoc, Piece.fit_append, Piece.fit_flatMap] at fit
  obtain ⟨samplesFit, countFits, componentsFit, propertiesFit, rankFits, _⟩ := fit
  have countHolds := Piece.excess?_length.mp (Piece.fit_cons.mp countFits).1
  have rankHolds := Piece.excess?_length.mp (Piece.fit_cons.mp rankFits).1
  have rank : block.values.shape.length = block.components.length + 2 := by
    simp [shape, Block.labelledShape]
  have length : (block.values.data.toList.flatMap fun v => order.bytes 8 v.toNat).length =
      8 * block.values.shape.prod := by
    simp [← filled, Nat.mul_comm]
  have built : Block.ofValues block.values block.samples block.components block.properties =
      .ok { block with gradients := [] } :=
    Block.ofValues_eq_ok_iff.mpr ⟨shape, distinct, new, rfl⟩
  have readsComponents := reads_replicate fun labels member =>
    reads_labels order (valid.components labels member)
      (addressable.labels.components labels member) (componentsFit labels member)
  have readsShape := reads_replicate fun n member =>
    reads_count order (axis_lt addressable.values n member) Field.shape
  simp only [Block.ownLayout, List.append_assoc, Piece.allBytes_append, Piece.allBytes_flatMap,
    Piece.allBytes_singleton, Piece.allBytes_counts]
  unfold ownBlock axes axesBy
  simp only [bind_assoc, pure_bind]
  refine (reads_labels order valid.samples addressable.labels.samples samplesFit).bind ?_
  refine (reads_length order countHolds _).bind ?_
  refine readsComponents.bind ?_
  refine (reads_labels order valid.properties addressable.labels.properties propertiesFit).bind ?_
  refine (reads_length order rankHolds _).bind ?_
  dsimp only
  rw [if_neg (not_not.mpr rank)]
  refine readsShape.bind ?_
  have asked : ¬block.values.shape ≠
    Axes.shape ⟨block.samples, block.components, block.properties⟩ := not_not.mpr shape
  have small : ¬8 * Dense.span block.values.shape > Dense.maxLength :=
    Nat.not_lt.mpr addressable.values
  rw [if_neg asked, if_neg small]
  refine (reads_payload length _).bind_last ?_
  refine (reads_allocate_zeros block.values.shape).bind_nil ?_
  refine reads_fill_zeros.bind_nil ?_
  have size : block.values.shape.prod = block.values.data.toList.length := by simp [filled]
  rw [size, floats_bytes]
  exact reads_accept built

end Decoder

/-! ### Blocks with their gradients -/

namespace Block

theorem gradientLayout_eq_flatMap (gradients : List (String × Block)) :
    gradientLayout gradients =
      gradients.flatMap fun entry => Piece.string entry.1 ++ entry.2.layout := by
  induction gradients with
  | nil => rfl
  | cons entry rest ih =>
    obtain ⟨parameter, gradient⟩ := entry
    rw [gradientLayout, ih, List.flatMap_cons]

theorem layout_eq (block : Block) :
    block.layout =
      ownLayout block.values block.samples block.components block.properties ++
        [.length block.gradients.length] ++ gradientLayout block.gradients := by
  cases block
  rfl

theorem depth_eq (block : Block) : block.depth = gradientDepth block.gradients + 1 := by
  cases block
  rfl

theorem gradientDepth_le_iff {gradients : List (String × Block)} {n : Nat} :
    gradientDepth gradients ≤ n ↔ ∀ entry ∈ gradients, entry.2.depth ≤ n := by
  induction gradients with
  | nil => simp [gradientDepth]
  | cons entry rest ih =>
    obtain ⟨parameter, gradient⟩ := entry
    rw [gradientDepth, Nat.max_le, ih, List.forall_mem_cons]

end Block

namespace Decoder

def gradientBytes (order : ByteOrder) (entry : String × Block) : List UInt8 :=
  (order.bytes 4 (Utf8.encode entry.1).length ++ Utf8.encode entry.1) ++
    Piece.allBytes order entry.2.layout

theorem allBytes_gradientLayout (order : ByteOrder) (gradients : List (String × Block)) :
    Piece.allBytes order (Block.gradientLayout gradients) =
      gradients.flatMap (gradientBytes order) := by
  rw [Block.gradientLayout_eq_flatMap, Piece.allBytes_flatMap]
  refine List.flatMap_congr fun entry _ => ?_
  simp [gradientBytes, Piece.allBytes, Piece.string, Piece.bytes]

/-- The parameter and the gradient fit when the gradients do. -/
theorem fit_gradientLayout {gradients : List (String × Block)}
    (fit : Piece.Fit (Block.gradientLayout gradients)) :
    ∀ entry ∈ gradients, (Utf8.encode entry.1).length < 2 ^ 32 ∧ Piece.Fit entry.2.layout := by
  rw [Block.gradientLayout_eq_flatMap, Piece.fit_flatMap] at fit
  intro entry member
  obtain ⟨named, inner⟩ := Piece.fit_append.mp (fit entry member)
  exact ⟨Piece.excess?_length.mp (Piece.fit_cons.mp named).1, inner⟩

section Gradients

variable {order : ByteOrder} {gradient : Decoder Block} {block : Block}

/-- A well-formed block takes its next gradient behind those before it. -/
theorem addGradient_next (wellFormed : block.WellFormed)
    (regular : block.AxesLabelled Labels.Regular) {earlier later : List (String × Block)}
    {entry : String × Block} (split : block.gradients = earlier ++ entry :: later)
    (inner : entry.2.AxesLabelled Labels.Regular) :
    { block with gradients := earlier }.addGradient entry.1 entry.2 =
      .ok { block with gradients := earlier ++ [entry] } := by
  have member : (entry.1, entry.2) ∈ block.gradients := by
    rw [split]
    exact List.mem_append_right _ List.mem_cons_self
  have last : ∀ other ∈ earlier.map (·.1), other < entry.1 := by
    have ordered := wellFormed.ordered
    rw [Block.parameters, split, List.map_append, List.pairwise_append] at ordered
    exact fun other before => ordered.2.2 other before entry.1 List.mem_cons_self
  have new : entry.1 ∉ earlier.map (·.1) := fun before =>
    String.lt_irrefl entry.1 (last entry.1 before)
  have regular' : Block.AxesLabelled Labels.Regular { block with gradients := earlier } :=
    { regular with }
  refine (Block.addGradient_eq_ok_iff regular' inner).mpr ⟨new, ?_, ?_⟩
  · exact { wellFormed.gradients entry.1 entry.2 member with }
  · rw [Block.insertGradient_eq_append last]

/-- Gradients that can be read one by one are read in their order. -/
theorem reads_gradients (wellFormed : block.WellFormed)
    (regular : block.AxesLabelled Labels.Regular) {earlier later : List (String × Block)}
    (split : block.gradients = earlier ++ later)
    (named : ∀ entry ∈ later, (Utf8.encode entry.1).length < 2 ^ 32)
    (inner : ∀ entry ∈ later, entry.2.AxesLabelled Labels.Regular)
    (h : ∀ entry ∈ later, gradient.Reads (Piece.allBytes order entry.2.layout) entry.2) :
    Reads (gradients order gradient later.length { block with gradients := earlier })
      (later.flatMap (gradientBytes order)) block := by
  induction later generalizing earlier with
  | nil =>
    rw [List.append_nil] at split
    rw [← split, Block.eta, List.length_nil, gradients, List.flatMap_nil]
    exact reads_pure block
  | cons entry later ih =>
    rw [List.forall_mem_cons] at named inner h
    rw [List.flatMap_cons, gradientBytes, List.append_assoc, List.length_cons, gradients]
    refine (reads_string order named.1 _).bind ?_
    refine h.1.bind ?_
    refine (reads_accept (addGradient_next wellFormed regular split inner.1)).bind_nil ?_
    exact ih (split.trans (List.append_cons ..)) named.2 inner.2 h.2

/-- If all gradients are read or fail with one error, and one fails, then they fail with it. -/
theorem gradients_fail (wellFormed : block.WellFormed)
    (regular : block.AxesLabelled Labels.Regular) {earlier later : List (String × Block)}
    (split : block.gradients = earlier ++ later)
    (named : ∀ entry ∈ later, (Utf8.encode entry.1).length < 2 ^ 32)
    (inner : ∀ entry ∈ later, entry.2.AxesLabelled Labels.Regular) {error : ContainerError}
    (h : ∀ entry ∈ later, gradient.Reads (Piece.allBytes order entry.2.layout) entry.2 ∨
      gradient.Fails (Piece.allBytes order entry.2.layout) error)
    (failing : ∃ entry ∈ later, gradient.Fails (Piece.allBytes order entry.2.layout) error) :
    Fails (gradients order gradient later.length { block with gradients := earlier })
      (later.flatMap (gradientBytes order)) error := by
  induction later generalizing earlier with
  | nil =>
    obtain ⟨_, member, _⟩ := failing
    exact absurd member List.not_mem_nil
  | cons entry later ih =>
    rw [List.forall_mem_cons] at named inner h
    rw [List.flatMap_cons, gradientBytes, List.append_assoc, List.length_cons, gradients]
    refine (reads_string order named.1 _).bind_fails ?_
    by_cases fails : gradient.Fails (Piece.allBytes order entry.2.layout) error
    · exact (fails.append _).bind
    · have reads := h.1.resolve_right fails
      have rest : ∃ entry ∈ later,
          gradient.Fails (Piece.allBytes order entry.2.layout) error := by
        obtain ⟨other, member, fails'⟩ := failing
        rcases List.mem_cons.mp member with rfl | inside
        · exact absurd fails' fails
        · exact ⟨other, inside, fails'⟩
      refine reads.bind_fails ?_
      have added := reads_accept (addGradient_next wellFormed regular split inner.1)
      rw [← List.nil_append (later.flatMap _)]
      refine added.bind_fails ?_
      exact ih (split.trans (List.append_cons ..)) named.2 inner.2 h.2 rest

end Gradients

/-! ### How deep gradients may be -/

/-- What is said of a block before it is read back: it is consistent, its labels are valid, its
sizes can be addressed and its lengths fit. -/
structure Storable (block : Block) : Prop where
  consistent : block.Consistent
  valid : block.Labelled Labels.Valid
  addressable : block.Addressable
  fit : Piece.Fit block.layout

section Depth

variable {order : ByteOrder} {block : Block}

theorem Storable.gradient (storable : Storable block) {entry : String × Block}
    (member : entry ∈ block.gradients) : Storable entry.2 := by
  have fit := storable.fit
  rw [Block.layout_eq, Piece.fit_append] at fit
  exact ⟨storable.consistent.inner member, storable.valid.inner member,
    storable.addressable.inner member, (fit_gradientLayout fit.2 entry member).2⟩

/-- Whatever follows it, the block itself is read, and after it the number of its gradients. -/
theorem Storable.reads_own (storable : Storable block) (order : ByteOrder) :
    Reads (ownBlock Allocator.zeros order)
        (Piece.allBytes order
          (Block.ownLayout block.values block.samples block.components block.properties))
        { block with gradients := [] } ∧
      Reads (length order .gradientCount) (order.bytes 4 block.gradients.length)
        block.gradients.length := by
  have fit := storable.fit
  rw [Block.layout_eq, Piece.fit_append, Piece.fit_append] at fit
  obtain ⟨⟨own, count⟩, _⟩ := fit
  have holds := Piece.excess?_length.mp (Piece.fit_cons.mp count).1
  exact ⟨reads_ownBlock order storable.consistent.own storable.valid.own storable.addressable.own
    own, reads_length order holds _⟩

theorem Storable.named (storable : Storable block) :
    ∀ entry ∈ block.gradients, (Utf8.encode entry.1).length < 2 ^ 32 := by
  have fit := storable.fit
  rw [Block.layout_eq, Piece.fit_append] at fit
  exact fun entry member => (fit_gradientLayout fit.2 entry member).1

theorem Storable.regular (storable : Storable block) : block.AxesLabelled Labels.Regular :=
  storable.valid.own.regular

/-- The bytes of a block, field by field. -/
theorem allBytes_block (order : ByteOrder) (block : Block) :
    Piece.allBytes order block.layout =
      Piece.allBytes order
          (Block.ownLayout block.values block.samples block.components block.properties) ++
        (order.bytes 4 block.gradients.length ++
          block.gradients.flatMap (gradientBytes order)) := by
  rw [Block.layout_eq, List.append_assoc, Piece.allBytes_append, Piece.allBytes_append,
    Piece.allBytes_singleton, allBytes_gradientLayout]
  rfl

/-- A block whose gradients are at most `levels` deep is read back. -/
theorem reads_blockWithin {levels : Nat} (storable : Storable block)
    (depth : block.depth ≤ levels + 1) :
    Reads (blockWithin (ownBlock .zeros order) order levels) (Piece.allBytes order block.layout)
      block := by
  induction levels generalizing block with
  | zero =>
    rw [Block.depth_eq, Nat.succ_le_succ_iff, Block.gradientDepth_le_iff] at depth
    have none : block.gradients = [] := by
      cases found : block.gradients with
      | nil => rfl
      | cons entry rest =>
        have := depth entry (found ▸ List.mem_cons_self)
        rw [Block.depth_eq] at this
        omega
    obtain ⟨own, count⟩ := storable.reads_own order
    rw [allBytes_block, none, List.flatMap_nil]
    rw [none] at count
    refine own.bind ?_
    refine count.bind ?_
    dsimp only
    rw [if_neg (by simp), ← none, Block.eta]
    exact reads_pure block
  | succ levels ih =>
    rw [Block.depth_eq, Nat.succ_le_succ_iff, Block.gradientDepth_le_iff] at depth
    obtain ⟨own, count⟩ := storable.reads_own order
    rw [allBytes_block]
    refine own.bind ?_
    refine count.bind ?_
    exact reads_gradients storable.consistent.own storable.regular rfl storable.named
      (fun entry member => (storable.gradient member).regular)
      (fun entry member => ih (storable.gradient member) (depth entry member))

/-- A block whose gradients are deeper than `levels` is refused for that. -/
theorem blockWithin_fails {levels : Nat} (storable : Storable block)
    (depth : levels + 1 < block.depth) :
    Fails (blockWithin (ownBlock .zeros order) order levels) (Piece.allBytes order block.layout)
      (.content (.malformed .gradientsTooDeep)) := by
  induction levels generalizing block with
  | zero =>
    have some : block.gradients.length > 0 := by
      apply List.length_pos_iff.mpr
      intro none
      rw [Block.depth_eq, none, Block.gradientDepth] at depth
      omega
    obtain ⟨own, count⟩ := storable.reads_own order
    rw [allBytes_block]
    refine own.bind_fails ?_
    refine count.bind_fails ?_
    dsimp only
    rw [if_pos some]
    exact ((refuse_fails _).append _).bind
  | succ levels ih =>
    have deeper : ∃ entry ∈ block.gradients, levels + 1 < entry.2.depth := by
      apply Decidable.byContradiction
      intro h
      have : Block.gradientDepth block.gradients ≤ levels + 1 :=
        Block.gradientDepth_le_iff.mpr fun entry member =>
          Nat.not_lt.mp fun deep => h ⟨entry, member, deep⟩
      rw [Block.depth_eq] at depth
      omega
    obtain ⟨entry, member, deep⟩ := deeper
    obtain ⟨own, count⟩ := storable.reads_own order
    rw [allBytes_block]
    refine own.bind_fails ?_
    refine count.bind_fails ?_
    refine gradients_fail storable.consistent.own storable.regular rfl storable.named
      (fun entry member => (storable.gradient member).regular) ?_
      ⟨entry, member, ih (storable.gradient member) deep⟩
    intro other inside
    by_cases shallow : other.2.depth ≤ levels + 1
    · exact .inl (reads_blockWithin (storable.gradient inside) shallow)
    · exact .inr (ih (storable.gradient inside) (Nat.not_le.mp shallow))

end Depth

end Decoder

end LabeledBlocks
