import LabeledBlocks.Proofs.Block.InOrder
import LabeledBlocks.Proofs.Container.Kinds
import LabeledBlocks.Proofs.Container.Taken

/-!
# What labels and blocks are read from

Labels that are read, from bytes that may come from anywhere, are valid, and the bytes are those of
their layout: the number of rows and the width of a row, which stand there although the names and
the values would do, are compared with these. So it is with a block up to its gradients, whose shape
is the one that the labels ask for. Its gradients may be listed in any order.

* `Labels.ofValues_eq_ok_iff` — labels are built from their own names and values.
* `Labels.Storable`, `Block.OwnStorable` — what is known of labels and of a block that were read.
* `Decoder.yields_labels`, `Decoder.yields_ownBlock` — they were read from their own bytes.
* `Decoder.yields_blockWithin`, `Decoder.yields_mapContent` — blocks with their gradients, and maps,
  were read from the bytes of what they list.
-/

namespace LabeledBlocks

/-! ### Numbers of one width -/

/-- Bytes are those of the numbers that they stand for. -/
theorem bytes_numbers {α : Type} (order : ByteOrder) {width count : Nat} (ofNumber : Nat → α)
    {toNumber : α → Nat} (back : ∀ n < 256 ^ width, toNumber (ofNumber n) = n) {data : List UInt8}
    (length : data.length = count * width) :
    (((groups width count data).map fun bytes => ofNumber (order.number bytes)).flatMap
      fun value => order.bytes width (toNumber value)) = data := by
  rw [List.flatMap_map]
  conv => rhs; rw [← flatten_groups length, ← List.flatMap_id]
  refine List.flatMap_congr fun bytes member => ?_
  have width : bytes.length = width := length_of_mem_groups length member
  subst width
  rw [back _ (Decoder.number_lt order bytes), ByteOrder.bytes_number, id_eq]

namespace Decoder

theorem bytes_integers (order : ByteOrder) {count : Nat} {data : List UInt8}
    (length : data.length = count * 4) :
    ((integers order count data).flatMap fun v => order.bytes 4 v.toUInt32.toNat) = data := by
  have back : ∀ n < 256 ^ 4, (UInt32.ofNat n).toInt32.toUInt32.toNat = n := by
    intro n small
    rw [UInt32.toUInt32_toInt32, UInt32.toNat_ofNat_of_lt' small]
  exact bytes_numbers order (fun n => (UInt32.ofNat n).toInt32) back length

theorem bytes_floats (order : ByteOrder) {count : Nat} {data : List UInt8}
    (length : data.length = count * 8) :
    ((floats order count data).flatMap fun v => order.bytes 8 v.toNat) = data :=
  bytes_numbers order UInt64.ofNat (fun _ small => UInt64.toNat_ofNat_of_lt' small) length

theorem length_integers (order : ByteOrder) (count : Nat) (data : List UInt8) :
    (integers order count data).length = count := by
  simp [integers]

theorem length_floats (order : ByteOrder) (count : Nat) (data : List UInt8) :
    (floats order count data).length = count := by
  simp [floats]

end Decoder

/-! ### Labels -/

namespace Labels

/-- Exactly the valid labels are built, from their own names and values. -/
theorem ofValues_eq_ok_iff {names : List String} {values : List Int32} {labels : Labels} :
    ofValues names values = .ok labels ↔
      (labels.names = names ∧ labels.values = values) ∧ labels.Valid := by
  constructor
  · intro built
    unfold ofValues at built
    obtain ⟨whole, built⟩ := refused_eq_ok.mp built
    obtain ⟨⟨sameNames, rows⟩, valid⟩ := ofRows_eq_ok_iff.mp built
    have length : values.length = values.length / names.length * names.length :=
      (Nat.div_mul_cancel (Nat.dvd_of_mod_eq_zero (not_not.mp whole))).symm
    exact ⟨⟨sameNames, by rw [Labels.values, rows, flatten_groups length]⟩, valid⟩
  · rintro ⟨⟨rfl, rfl⟩, valid⟩
    exact ofValues_values valid

/-- Labels that can be stored: they are valid, their size in bytes can be addressed, and their
lengths fit. -/
structure Storable (labels : Labels) : Prop where
  valid : labels.Valid
  addressable : labels.Addressable
  fit : Piece.Fit labels.layout

/-- The pieces of labels fit when the numbers of names and their lengths do. -/
theorem fit_layout {labels : Labels} (size : labels.size < 2 ^ 32)
    (names : ∀ name ∈ labels.names, (Utf8.encode name).length < 2 ^ 32) :
    Piece.Fit labels.layout := by
  have strings : Piece.Fit (labels.names.flatMap Piece.string) := by
    rw [Piece.fit_flatMap]
    intro name member
    simp [Piece.string, Piece.Fit, Piece.excess?, names name member]
  rw [layout, List.cons_append, Piece.fit_cons, Piece.fit_append]
  refine ⟨Piece.excess?_length.mpr size, strings, ?_⟩
  simp [Piece.Fit, Piece.excess?, size]

end Labels

namespace Decoder

theorem yields_labelBytes (rows width : Nat) : Yields (labelBytes rows width) fun bytes size =>
    bytes = [] ∧ size = rows * width * 4 ∧ rows * width * 4 < 2 ^ 64 := by
  unfold labelBytes
  exact .unless fun small => .pure ⟨rfl, rfl, Nat.not_le.mp small⟩

/-- Labels are read from the bytes of their layout. -/
theorem yields_labels (order : ByteOrder) : Yields (labels order) fun bytes labels =>
    bytes = Piece.allBytes order labels.layout ∧ labels.Storable := by
  refine (yields_length order _).bind fun sizeBytes nameCount taken => ?_
  obtain ⟨rfl, sizeHolds⟩ := taken
  refine (yields_replicate (yields_string order _) nameCount).bind fun nameBytes names taken => ?_
  obtain ⟨rfl, rfl, namesHold⟩ := taken
  refine (yields_count order _).bind fun countBytes rows taken => ?_
  obtain ⟨rfl, _⟩ := taken
  refine (yields_length order _).bind fun widthBytes width taken => ?_
  obtain ⟨rfl, _⟩ := taken
  refine .unless fun sameWidth => .unless fun named => ?_
  obtain rfl := not_not.mp sameWidth
  refine (yields_labelBytes rows _).bind fun none size taken => ?_
  obtain ⟨rfl, rfl, small⟩ := taken
  refine (yields_payload _ _).bind fun data given taken => ?_
  obtain ⟨rfl, length⟩ := taken
  refine .accept fun labels built => ?_
  rw [Nat.mul_div_cancel _ (by decide)] at built
  obtain ⟨⟨rfl, values⟩, valid⟩ := Labels.ofValues_eq_ok_iff.mp built
  have known : labels.count * labels.size = rows * labels.size := by
    rw [← Labels.length_values valid.toRegular, values, length_integers]
    rfl
  have count : labels.count = rows := by
    by_cases unnamed : labels.size = 0
    · rw [Labels.count_eq_zero valid unnamed]
      exact (not_not.mp fun some => named ⟨unnamed, some⟩).symm
    · exact Nat.eq_of_mul_eq_mul_right (Nat.pos_of_ne_zero unnamed) known
  have addressable : labels.Addressable := by
    have bound : rows * labels.size * 4 < 2 ^ 64 := small
    rwa [← count, Nat.mul_comm, ← Nat.mul_assoc] at bound
  refine ⟨?_, valid, addressable, Labels.fit_layout sizeHolds namesHold⟩
  rw [Labels.allBytes_layout, values, bytes_integers order length, count]
  simp only [List.append_nil]
  rfl

end Decoder

/-! ### Blocks without their gradients -/

/-- A block that can be stored as far as its gradients are left out of account: it would be
well-formed without them, its labels are valid, its sizes can be addressed, and its lengths fit. -/
structure Block.OwnStorable (block : Block) : Prop where
  wellFormed : WellFormed { block with gradients := [] }
  valid : block.AxesLabelled Labels.Valid
  addressable : block.OwnAddressable
  fit : Piece.Fit (ownLayout block.values block.samples block.components block.properties)

instance : DecidablePred Block.OwnStorable := fun block =>
  decidable_of_iff
    (Block.WellFormed { block with gradients := [] } ∧ block.AxesLabelled Labels.Valid ∧
      block.OwnAddressable ∧
      Piece.Fit (Block.ownLayout block.values block.samples block.components block.properties))
    ⟨fun ⟨wellFormed, valid, addressable, fit⟩ => ⟨wellFormed, valid, addressable, fit⟩,
      fun ⟨wellFormed, valid, addressable, fit⟩ => ⟨wellFormed, valid, addressable, fit⟩⟩

namespace Decoder

theorem yields_allocate (allocator : Allocator) (shape : List Nat) :
    Yields (allocate allocator shape) fun bytes _ => bytes = [] := by
  intro feed array after done
  obtain ⟨rfl, rfl⟩ := EStateM.Result.ok.inj done
  exact ⟨[], rfl, rfl⟩

/-- Whatever array was asked for, it is filled with all values. -/
theorem yields_fill (array : Dense) (shape : List Nat) (values : List FloatBits) :
    Yields (fill array shape values) fun bytes filled =>
      bytes = [] ∧ filled = ⟨shape, values.toArray⟩ := by
  unfold fill
  exact .unless fun _ => .unless fun _ => .pure ⟨rfl, rfl⟩

/-- A block is read from the bytes of its own layout up to its gradients. -/
theorem yields_ownBlock (allocator : Allocator) (order : ByteOrder) :
    Yields (ownBlock allocator order) fun bytes block =>
      bytes = Piece.allBytes order
          (Block.ownLayout block.values block.samples block.components block.properties) ∧
        block.OwnStorable ∧ block.gradients = [] := by
  unfold ownBlock axes axesBy
  simp only [bind_assoc, pure_bind]
  refine (yields_labels order).bind fun sampleBytes samples taken => ?_
  obtain ⟨rfl, samplesStored⟩ := taken
  refine (yields_length order _).bind fun countBytes componentCount taken => ?_
  obtain ⟨rfl, countHolds⟩ := taken
  refine (yields_replicate (yields_labels order) componentCount).bind
    fun componentBytes components taken => ?_
  obtain ⟨rfl, rfl, componentsStored⟩ := taken
  refine (yields_labels order).bind fun propertyBytes properties taken => ?_
  obtain ⟨rfl, propertiesStored⟩ := taken
  refine (yields_length order _).bind fun rankBytes rank taken => ?_
  obtain ⟨rfl, rankHolds⟩ := taken
  refine .unless fun sameRank => ?_
  refine (yields_replicate (yields_count order _) rank).bind fun shapeBytes shape taken => ?_
  obtain ⟨rfl, rfl, _⟩ := taken
  refine .unless fun _ => .unless fun small => ?_
  refine (yields_payload _ _).bind fun data given taken => ?_
  obtain ⟨rfl, length⟩ := taken
  refine (yields_allocate allocator shape).bind fun none array taken => ?_
  obtain rfl := taken
  refine (yields_fill array shape _).bind fun none values taken => ?_
  obtain ⟨rfl, rfl⟩ := taken
  refine .accept fun block built => ?_
  rw [Nat.mul_comm] at length
  have filled : (floats order shape.prod given).toArray.size = shape.prod := by
    rw [List.size_toArray, length_floats]
  have bounded : Dense.span shape ≤ Dense.maxLength := by omega
  have consistent := Block.consistent_ofValues filled bounded built
  obtain ⟨_, _, _, rfl⟩ := Block.ofValues_eq_ok_iff.mp built
  have valid : Block.AxesLabelled Labels.Valid
      ⟨⟨shape, (floats order shape.prod given).toArray⟩, samples, components, properties, []⟩ :=
    ⟨samplesStored.valid, fun labels member => (componentsStored labels member).valid,
      propertiesStored.valid⟩
  have addressable : Block.AxesLabelled Labels.Addressable
      ⟨⟨shape, (floats order shape.prod given).toArray⟩, samples, components, properties, []⟩ :=
    ⟨samplesStored.addressable, fun labels member => (componentsStored labels member).addressable,
      propertiesStored.addressable⟩
  refine ⟨?_, ⟨consistent.own, valid, ⟨addressable, Nat.not_lt.mp small⟩, ?_⟩, rfl⟩
  · simp only [Block.ownLayout, Piece.allBytes_append, Piece.allBytes_flatMap,
      Piece.allBytes_singleton, Piece.allBytes_counts, Piece.bytes, bytes_floats order length,
      List.append_assoc, List.append_nil]
  · simp only [Block.ownLayout, Piece.fit_append, Piece.fit_flatMap]
    have lengths : ∀ n, n < 2 ^ 32 → Piece.Fit [.length n] := by
      intro n small
      simp [Piece.Fit, Piece.excess?, small]
    have others : Piece.Fit (shape.map .count) ∧
        Piece.Fit [.floats (floats order shape.prod given).toArray.toList] := by
      simp [Piece.Fit, Piece.excess?]
    exact ⟨⟨⟨⟨⟨⟨samplesStored.fit, lengths _ countHolds⟩,
      fun labels member => (componentsStored labels member).fit⟩, propertiesStored.fit⟩,
      lengths _ rankHolds⟩, others.1⟩, others.2⟩

end Decoder

/-! ### Blocks with their gradients -/

/-- A block that can be stored in a container, with its gradients in the order in which the
container lists them. -/
structure Block.Listable (block : Block) : Prop where
  own : block.Everywhere OwnStorable
  fit : Piece.Fit block.layout

instance : DecidablePred Block.Listable := fun block =>
  decidable_of_iff (block.Everywhere Block.OwnStorable ∧ Piece.Fit block.layout)
    ⟨fun ⟨own, fit⟩ => ⟨own, fit⟩, fun ⟨own, fit⟩ => ⟨own, fit⟩⟩

namespace Decoder

/-- The bytes list a block, which is then consistent and not too deep. -/
structure ListsBlock (order : ByteOrder) (levels : Nat) (bytes : List UInt8) (block : Block) :
    Prop where
  consistent : block.Consistent
  depth : block.depth ≤ levels + 1
  listed : ∃ listed : Block, listed.Listable ∧ bytes = Piece.allBytes order listed.layout ∧
    listed.inOrder = block

theorem valid_inOrder {listed : Block} (own : listed.Everywhere Block.OwnStorable) :
    listed.inOrder.Labelled Labels.Valid :=
  Block.everywhere_inOrder (own.imp fun _ own => own.valid) fun _ _ valid => { valid with }

/-- A block that was listed can be stored. -/
theorem ListsBlock.storable {order : ByteOrder} {levels : Nat} {bytes : List UInt8} {block : Block}
    (lists : ListsBlock order levels bytes block) : Storable block := by
  obtain ⟨consistent, _, listed, ⟨own, fit⟩, _, rfl⟩ := lists
  have addressable : listed.inOrder.Addressable :=
    Block.everywhere_inOrder (own.imp fun _ own => own.addressable) fun _ _ addressable =>
      ⟨{ addressable.labels with }, addressable.values⟩
  exact ⟨consistent, valid_inOrder own, addressable,
    fun piece member => fit piece ((Block.layout_inOrder listed).mem_iff.mp member)⟩

/-- The gradients that bytes list behind each other, each behind its parameter. -/
structure ListsGradients (order : ByteOrder) (bytes : List UInt8) (listed : List (String × Block)) :
    Prop where
  bytes : bytes = listed.flatMap (gradientBytes order)
  own : ∀ entry ∈ listed, entry.2.Everywhere Block.OwnStorable
  fit : Piece.Fit (Block.gradientLayout listed)

/-- Gradients are placed one after the other as they are listed. -/
theorem yields_gradients {order : ByteOrder} {levels : Nat} {gradient : Decoder Block}
    (h : gradient.Yields (ListsBlock order levels)) (count : Nat) {block : Block}
    (consistent : block.Consistent) (regular : block.AxesLabelled Labels.Regular)
    (depth : ∀ entry ∈ block.gradients, entry.2.depth ≤ levels + 1) :
    Yields (gradients order gradient count block) fun bytes result =>
      (result.Consistent ∧ ∀ entry ∈ result.gradients, entry.2.depth ≤ levels + 1) ∧
        ∃ listed, listed.length = count ∧ ListsGradients order bytes listed ∧
          result = { block with gradients := Block.placeAll block.gradients listed } := by
  induction count generalizing block with
  | zero =>
    refine .pure ⟨⟨consistent, depth⟩, [], rfl, ⟨rfl, ?_, ?_⟩, ?_⟩
    · exact fun _ member => absurd member List.not_mem_nil
    · exact fun _ member => absurd member List.not_mem_nil
    · rw [Block.placeAll, Block.eta]
  | succ count ih =>
    refine (yields_string order _).bind fun nameBytes parameter taken => ?_
    obtain ⟨rfl, named⟩ := taken
    refine h.bind fun gradientBytes gradient taken => ?_
    obtain ⟨inner, shallow, entry, ⟨own, fit⟩, rfl, rfl⟩ := taken
    have accepted : Yields (accept (block.addGradient parameter entry.inOrder)) fun bytes added =>
        bytes = [] ∧ block.addGradient parameter entry.inOrder = .ok added :=
      .accept fun added built => ⟨rfl, built⟩
    refine accepted.bind fun none added taken => ?_
    obtain ⟨rfl, built⟩ := taken
    have innerRegular := (valid_inOrder own).regular.own
    have consistent' := Block.consistent_addGradient regular innerRegular consistent inner built
    obtain ⟨_, _, rfl⟩ := (Block.addGradient_eq_ok_iff regular innerRegular).mp built
    refine (ih consistent' { regular with } ?_).imp fun bytes result taken => ?_
    · intro other member
      rcases Block.mem_insertGradient.mp member with rfl | old
      · exact shallow
      · exact depth other old
    · obtain ⟨known, listed, rfl, ⟨rfl, owns, fits⟩, rfl⟩ := taken
      refine ⟨known, (parameter, entry) :: listed, rfl, ⟨?_, ?_, ?_⟩, rfl⟩
      · simp [Decoder.gradientBytes, stringBytes]
      · exact List.forall_mem_cons.mpr ⟨own, owns⟩
      · rw [Block.gradientLayout, Piece.fit_append, Piece.fit_append]
        refine ⟨⟨?_, fit⟩, fits⟩
        simp [Piece.string, Piece.Fit, Piece.excess?, named]

/-- A block without gradients that can be stored is consistent. -/
theorem consistent_bare {block : Block} (own : block.OwnStorable) (bare : block.gradients = []) :
    block.Consistent := by
  have wellFormed := own.wellFormed
  rw [← bare, Block.eta] at wellFormed
  refine .intro wellFormed fun parameter gradient member => ?_
  rw [bare] at member
  exact absurd member List.not_mem_nil

/-- Behind a block itself and their number, its gradients are listed. -/
theorem listsBlock {order : ByteOrder} {levels : Nat} {block : Block} (own : block.OwnStorable)
    {bytes : List UInt8} {listed : List (String × Block)} (holds : listed.length < 2 ^ 32)
    (lists : ListsGradients order bytes listed)
    (consistent : Block.Consistent { block with gradients := Block.placeAll [] listed })
    (depth : ∀ entry ∈ Block.placeAll [] listed, entry.2.depth ≤ levels) :
    ListsBlock order levels
      (Piece.allBytes order
          (Block.ownLayout block.values block.samples block.components block.properties) ++
        (order.bytes 4 listed.length ++ bytes))
      { block with gradients := Block.placeAll [] listed } := by
  have whole : Block.OwnStorable { block with gradients := listed } :=
    ⟨own.wellFormed, { own.valid with }, ⟨{ own.addressable.labels with }, own.addressable.values⟩,
      own.fit⟩
  refine ⟨consistent, ?_, { block with gradients := listed }, ⟨?_, ?_⟩, ?_, Block.inOrder_eq _⟩
  · rw [Block.depth_eq, Nat.succ_le_succ_iff, Block.gradientDepth_le_iff]
    exact depth
  · exact .intro whole fun parameter gradient member => lists.own _ member
  · rw [Block.layout_eq, Piece.fit_append, Piece.fit_append]
    refine ⟨⟨own.fit, ?_⟩, lists.fit⟩
    simp [Piece.Fit, Piece.excess?, holds]
  · rw [allBytes_block, lists.bytes]

/-- A block is listed by the bytes that it is read from. -/
theorem yields_blockWithin (allocator : Allocator) (order : ByteOrder) (levels : Nat) :
    Yields (blockWithin (ownBlock allocator order) order levels) (ListsBlock order levels) := by
  induction levels with
  | zero =>
    refine (yields_ownBlock allocator order).bind fun ownBytes block taken => ?_
    obtain ⟨rfl, own, bare⟩ := taken
    refine (yields_length order _).bind fun countBytes count taken => ?_
    obtain ⟨rfl, _⟩ := taken
    refine .unless fun flat => .pure ?_
    obtain rfl : count = 0 := Nat.eq_zero_of_not_pos flat
    have none : { block with gradients := Block.placeAll [] [] } = block := by
      rw [Block.placeAll, ← bare, Block.eta]
    have lists : ListsGradients order [] [] :=
      ⟨rfl, fun _ member => absurd member List.not_mem_nil,
        fun _ member => absurd member List.not_mem_nil⟩
    have consistent : Block.Consistent { block with gradients := Block.placeAll [] [] } := by
      rw [none]
      exact consistent_bare own bare
    have stored : ListsBlock order 0 _ { block with gradients := Block.placeAll [] [] } :=
      listsBlock own (by decide) lists consistent fun _ member => absurd member List.not_mem_nil
    rwa [none] at stored
  | succ levels ih =>
    refine (yields_ownBlock allocator order).bind fun ownBytes block taken => ?_
    obtain ⟨rfl, own, bare⟩ := taken
    refine (yields_length order _).bind fun countBytes count taken => ?_
    obtain ⟨rfl, holds⟩ := taken
    have shallow : ∀ entry ∈ block.gradients, entry.2.depth ≤ levels + 1 := by
      rw [bare]
      exact fun _ member => absurd member List.not_mem_nil
    refine (yields_gradients ih count (consistent_bare own bare) own.valid.regular shallow).imp
      fun bytes result taken => ?_
    obtain ⟨⟨consistent, depth⟩, listed, rfl, lists, rfl⟩ := taken
    rw [bare] at consistent depth ⊢
    exact listsBlock own holds lists consistent depth

/-! ### The content of a map -/

/-- Keys are read from the bytes of their layout. -/
theorem yields_keys (order : ByteOrder) : Yields (keys order) fun bytes keys =>
    bytes = Piece.allBytes order (Writer.keyLayout keys) ∧ keys.Storable := by
  refine (yields_labels order).bind fun keyBytes keys taken => ?_
  obtain ⟨rfl, stored⟩ := taken
  refine (yields_count order _).bind fun countBytes blockCount taken => ?_
  obtain ⟨rfl, _⟩ := taken
  refine .unless fun all => .pure ⟨?_, stored⟩
  rw [not_not.mp all, Writer.keyLayout, Piece.allBytes_append, Piece.allBytes_singleton,
    List.append_nil]
  rfl

/-- Blocks that are listed behind each other. -/
theorem exists_listed {order : ByteOrder} {levels : Nat} {pieces : List (List UInt8)}
    {blocks : List Block} (lists : List.Forall₂ (ListsBlock order levels) pieces blocks) :
    ∃ listed : List Block, (∀ block ∈ listed, block.Listable) ∧
      pieces.flatten = listed.flatMap (fun block => Piece.allBytes order block.layout) ∧
      listed.map Block.inOrder = blocks := by
  induction lists with
  | nil => exact ⟨[], fun _ member => absurd member List.not_mem_nil, rfl, rfl⟩
  | cons here _ ih =>
    obtain ⟨first, listable, rfl, rfl⟩ := here.listed
    obtain ⟨listed, all, rest, rfl⟩ := ih
    refine ⟨first :: listed, List.forall_mem_cons.mpr ⟨listable, all⟩, ?_, rfl⟩
    rw [List.flatten_cons, List.flatMap_cons, rest]

/-- The bytes list the keys and the blocks of a map. -/
structure ListsContent (order : ByteOrder) (bytes : List UInt8) (content : Labels × List Block) :
    Prop where
  keys : content.1.Storable
  count : content.1.count = content.2.length
  blocks : ∀ block ∈ content.2, Storable block ∧ block.depth ≤ maxGradientDepth + 1
  listed : ∃ listed : List Block, (∀ block ∈ listed, block.Listable) ∧
    bytes = Piece.allBytes order (Writer.keyLayout content.1) ++
      listed.flatMap (fun block => Piece.allBytes order block.layout) ∧
    listed.map Block.inOrder = content.2

/-- A map is read from the bytes of its keys and of blocks that list their gradients in some order.
-/
theorem yields_mapContent (allocator : Allocator) (order : ByteOrder) :
    Yields (mapContent allocator order) (ListsContent order) := by
  refine (yields_keys order).bind fun keyBytes keys taken => ?_
  obtain ⟨rfl, stored⟩ := taken
  have each := yields_blockWithin allocator order maxGradientDepth
  refine (yields_each each keys.count).bind fun blockBytes blocks taken => ?_
  obtain ⟨count, pieces, rfl, lists⟩ := taken
  refine .pure ⟨stored, count.symm, ?_, ?_⟩
  · intro block member
    obtain ⟨_, _, known⟩ := exists_of_mem_right lists member
    exact ⟨known.storable, known.depth⟩
  · obtain ⟨listed, listable, same, placed⟩ := exists_listed lists
    exact ⟨listed, listable, by rw [List.append_nil, same], placed⟩

end Decoder

end LabeledBlocks
