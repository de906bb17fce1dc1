import LabeledBlocks.Labels.Json
import LabeledBlocks.Proofs.BlockMap.Moves
import LabeledBlocks.Proofs.Container.Contained

/-!
# What can be reached

Arrays, labels, blocks and maps are only come by through the operations on them: they are built,
read from containers whose bytes nobody vouches for, moved, and taken out of each other. Whatever is
reached in this way is sound, and so a map that is reached is consistent.

* `Held`, `Held.Sound` — what one can hold, and when it is sound.
* `Reachable` — the ways to come by something.
* `sound_of_reachable` — what is reached is sound.
* `consistent_of_reachable` — a map that is reached is consistent.
* `reachable_map` — every consistent map with valid labels is reached.
-/

namespace LabeledBlocks

/-- An array, labels, a block or a map. -/
inductive Held where
  | array (values : Dense)
  | labels (labels : Labels)
  | block (block : Block)
  | map (map : BlockMap)

/-- Arrays are filled and span no more than they can, labels are regular, and blocks and maps are
sound. -/
def Held.Sound : Held → Prop
  | .array held => held.Filled ∧ Dense.span held.shape ≤ Dense.maxLength
  | .labels held => held.Regular
  | .block held => held.Sound
  | .map held => held.Sound

/-- The ways to come by something. -/
inductive Reachable : Held → Prop where
  -- Arrays: the same value everywhere, given values, other axes, changed values, those of a block.
  -- There is none whose axes span too much.
  | zeros {shape : List Nat} {array : Dense} (built : Dense.create shape = .ok array) :
      Reachable (.array array)
  | filled {shape : List Nat} (value : FloatBits) (possible : Dense.checkSpan shape = .ok ()) :
      Reachable (.array (.filled shape value))
  | given {shape : List Nat} {values : Array FloatBits} {array : Dense}
      (built : Dense.ofValues shape values = .ok array) : Reachable (.array array)
  | permuted {array permuted : Dense} {order : List Nat} (known : Reachable (.array array))
      (built : array.permuteAxes order = .ok permuted)
      (possible : Dense.checkSpan permuted.shape = .ok ()) : Reachable (.array permuted)
  | changed {array : Dense} {data : Array FloatBits} (known : Reachable (.array array))
      (size : data.size = array.data.size) : Reachable (.array { array with data })
  | valuesOf {block : Block} (known : Reachable (.block block)) : Reachable (.array block.values)
  -- Labels: built of rows and values, made of other labels, read, those of a block and of a map.
  | ofRows {names : List String} {rows : List Row} {labels : Labels}
      (built : Labels.ofRows names rows = .ok labels) : Reachable (.labels labels)
  | ofValues {names : List String} {values : List Int32} {labels : Labels}
      (built : Labels.ofValues names values = .ok labels) : Reachable (.labels labels)
  | noRows {names : List String} {labels : Labels} (built : Labels.empty names = .ok labels) :
      Reachable (.labels labels)
  | single : Reachable (.labels .single)
  | union {a b union : Labels} (first : Reachable (.labels a)) (second : Reachable (.labels b))
      (built : a.union b = .ok union) : Reachable (.labels union)
  | intersection {a b common : Labels} (first : Reachable (.labels a))
      (second : Reachable (.labels b)) (built : a.intersection b = .ok common) :
      Reachable (.labels common)
  | projected {labels projected : Labels} {names : List String} {positions : List Nat}
      (known : Reachable (.labels labels))
      (built : labels.project names = .ok (projected, positions)) : Reachable (.labels projected)
  | described {value : Json} {labels : Labels} (built : Labels.ofJson value = .ok labels) :
      Reachable (.labels labels)
  | labelsRead {order : ByteOrder} {feed after : Feed} {labels : Labels}
      (read : Decoder.labels order feed = .ok labels after) : Reachable (.labels labels)
  | samplesOf {block : Block} (known : Reachable (.block block)) : Reachable (.labels block.samples)
  | componentOf {block : Block} {labels : Labels} (known : Reachable (.block block))
      (member : labels ∈ block.components) : Reachable (.labels labels)
  | propertiesOf {block : Block} (known : Reachable (.block block)) :
      Reachable (.labels block.properties)
  | keysOf {map : BlockMap} (known : Reachable (.map map)) : Reachable (.labels map.keys)
  -- Blocks: built of values and gradients, read, a gradient of a block, one of a map.
  | block {values : Dense} {samples properties : Labels} {components : List Labels} {block : Block}
      (array : Reachable (.array values)) (ofSamples : Reachable (.labels samples))
      (ofComponents : ∀ labels ∈ components, Reachable (.labels labels))
      (ofProperties : Reachable (.labels properties))
      (built : Block.ofValues values samples components properties = .ok block) :
      Reachable (.block block)
  | withGradient {block gradient result : Block} {parameter : String}
      (known : Reachable (.block block)) (ofGradient : Reachable (.block gradient))
      (built : block.addGradient parameter gradient = .ok result) : Reachable (.block result)
  | blockRead {allocator : Allocator} {order : ByteOrder} {feed after : Feed} {block : Block}
      (read : Decoder.block allocator order feed = .ok block after) : Reachable (.block block)
  | gradientOf {block gradient : Block} {parameter : String} (known : Reachable (.block block))
      (member : (parameter, gradient) ∈ block.gradients) : Reachable (.block gradient)
  | blockOf {map : BlockMap} {block : Block} (known : Reachable (.map map))
      (member : block ∈ map.blocks) : Reachable (.block block)
  -- Maps: built of keys and blocks, read, moved.
  | map {keys : Labels} {blocks : List Block} {mixedProperties : Bool} {map : BlockMap}
      (ofKeys : Reachable (.labels keys)) (ofBlocks : ∀ block ∈ blocks, Reachable (.block block))
      (built : BlockMap.ofBlocks keys blocks mixedProperties = .ok map) : Reachable (.map map)
  | noBlocks {names : List String} {map : BlockMap} (built : BlockMap.empty names = .ok map) :
      Reachable (.map map)
  | mapRead {allocator : Allocator} {verify : Bool} {feed after : Feed} {map : BlockMap}
      (read : BlockMap.readWith allocator verify feed = .ok map after) : Reachable (.map map)
  | moved {map after : BlockMap} {moves : List BlockMap.Move} (known : Reachable (.map map))
      (made : map.afterMoves moves = .ok after) : Reachable (.map after)

/-! ### What is read -/

theorem regular_of_decoded {order : ByteOrder} {feed after : Feed} {labels : Labels}
    (read : Decoder.labels order feed = .ok labels after) : labels.Regular := by
  obtain ⟨_, _, _, stored⟩ := Decoder.yields_labels order feed labels after read
  exact stored.valid.toRegular

theorem sound_of_storable {block : Block} (stored : Decoder.Storable block) : block.Sound :=
  .of_consistent stored.consistent stored.valid.regular

theorem sound_of_decoded {allocator : Allocator} {order : ByteOrder} {feed after : Feed}
    {block : Block} (read : Decoder.block allocator order feed = .ok block after) :
    block.Sound := by
  obtain ⟨_, _, lists⟩ := Decoder.yields_blockWithin allocator order _ feed block after read
  exact sound_of_storable lists.storable

/-- Whatever the bytes are, the blocks that are read are checked once more when a map is made of
them. -/
theorem BlockMap.sound_of_read {allocator : Allocator} {verify : Bool} {feed after : Feed}
    {map : BlockMap} (read : readWith allocator verify feed = .ok map after) : map.Sound := by
  rw [readWith_eq] at read
  obtain ⟨header, headed, _, read⟩ := run_bind_eq_ok.mp read
  obtain ⟨content, filled, given, read⟩ := run_bind_eq_ok.mp read
  obtain ⟨_, ended, _, read⟩ := run_bind_eq_ok.mp read
  obtain ⟨_, _, lists⟩ :=
    Decoder.yields_mapContent allocator header.order headed content filled given
  have accepted : (Decoder.accept (ofContent header content)).Yields fun _ map =>
      ofContent header content = .ok map := .accept fun _ built => built
  obtain ⟨_, _, built⟩ := accepted ended map after read
  refine sound_ofBlocks lists.keys.valid.toRegular (fun block member => ?_) built
  exact sound_of_storable (lists.blocks block member).1

/-! ### What is reached -/

/-- Whatever is reached is sound. -/
theorem sound_of_reachable {held : Held} (reachable : Reachable held) : held.Sound := by
  induction reachable with
  | @zeros shape _ built =>
    obtain ⟨small, rfl⟩ := Dense.create_eq_ok_iff.mp built
    exact ⟨Dense.filled_zeros shape, small⟩
  | @filled shape value possible =>
    exact ⟨Dense.filled_filled shape value, Dense.checkSpan_eq_ok_iff.mp possible⟩
  | given built => exact ⟨Dense.filled_ofValues built, Dense.bounded_ofValues built⟩
  | permuted _ built possible _ =>
    exact ⟨Dense.filled_permuteAxes built, Dense.checkSpan_eq_ok_iff.mp possible⟩
  | changed _ size ih => exact ⟨size.trans ih.1, ih.2⟩
  | valuesOf _ ih => exact ⟨ih.own.wellFormed.filled, ih.own.wellFormed.bounded⟩
  | ofRows built => exact Labels.regular_ofRows built
  | ofValues built => exact (Labels.ofValues_eq_ok_iff.mp built).2.toRegular
  | noRows built => exact Labels.regular_ofRows built
  | single => exact Labels.regular_single
  | union _ _ built first second => exact Labels.regular_union first second built
  | intersection _ _ built first _ => exact Labels.regular_intersection first built
  | projected _ built ih => exact Labels.regular_project ih built
  | described built =>
    obtain ⟨⟨names, values⟩, _, built⟩ := bind_eq_ok.mp built
    exact (Labels.ofValues_eq_ok_iff.mp (mapError_eq_ok.mp built)).2.toRegular
  | labelsRead read => exact regular_of_decoded read
  | samplesOf _ ih => exact ih.own.regular.samples
  | componentOf _ member ih => exact ih.own.regular.components _ member
  | propertiesOf _ ih => exact ih.own.regular.properties
  | keysOf _ ih => exact ih.keys
  | block _ _ _ _ built array samples components properties =>
    exact Block.sound_ofValues array.1 array.2 samples components properties built
  | withGradient _ _ built sound inner => exact Block.sound_addGradient sound inner built
  | blockRead read => exact sound_of_decoded read
  | gradientOf _ member ih => exact ih.inner member
  | blockOf _ member ih => exact ih.blocks _ member
  | map _ _ built keys blocks => exact BlockMap.sound_ofBlocks keys blocks built
  | noBlocks built =>
    obtain ⟨keys, keyed, built⟩ := bind_eq_ok.mp built
    have regular : keys.Regular := Labels.regular_ofRows keyed
    exact BlockMap.sound_ofBlocks regular (fun _ member => absurd member List.not_mem_nil) built
  | mapRead read => exact BlockMap.sound_of_read read
  | @moved map after moves _ made ih => exact BlockMap.sound_afterMoves moves ih made

/-- Every map that is reached is consistent: it has as many keys as blocks, any two of its blocks go
together, and they and their gradients at every depth are well-formed. -/
theorem consistent_of_reachable {map : BlockMap} (reachable : Reachable (.map map)) :
    map.Consistent :=
  BlockMap.Sound.consistent (sound_of_reachable reachable)

/-! ### What can be built -/

/-- An array that is filled and no larger than it can be is one that can be held. -/
theorem reachable_array {array : Dense} (filled : array.Filled)
    (bounded : Dense.span array.shape ≤ Dense.maxLength) : Reachable (.array array) := by
  have zeros : Reachable (.array (.zeros array.shape)) :=
    .zeros (Dense.create_eq_ok_iff.mpr ⟨bounded, rfl⟩)
  have size : array.data.size = (Dense.zeros array.shape).data.size := by
    rw [filled, Dense.filled_zeros]
    rfl
  exact @Reachable.changed (.zeros array.shape) array.data zeros size

theorem reachable_labels {labels : Labels} (valid : labels.Valid) : Reachable (.labels labels) :=
  .ofRows (Labels.ofRows_of_valid valid)

section Building

variable {block : Block} (own : block.WellFormed) (valid : block.AxesLabelled Labels.Valid)

include own valid

theorem reachable_bare : Reachable (.block { block with gradients := [] }) :=
  .block (reachable_array own.filled own.bounded) (reachable_labels valid.samples)
    (fun labels member => reachable_labels (valid.components labels member))
    (reachable_labels valid.properties)
    (Block.ofValues_eq_ok_iff.mpr ⟨own.shape, own.distinctNames, own.newNames, rfl⟩)

/-- Behind the gradients that are there, the others are added one after the other. -/
theorem reachable_withGradients
    (inner : ∀ parameter gradient, (parameter, gradient) ∈ block.gradients →
      Reachable (.block gradient))
    {before rest : List (String × Block)} (split : block.gradients = before ++ rest)
    (known : Reachable (.block { block with gradients := before })) : Reachable (.block block) := by
  induction rest generalizing before with
  | nil =>
    rw [List.append_nil] at split
    rwa [← split, Block.eta] at known
  | cons entry rest ih =>
    obtain ⟨parameter, gradient⟩ := entry
    have member : (parameter, gradient) ∈ block.gradients := by simp [split]
    have ordered := own.ordered
    rw [Block.parameters, split, List.map_append, List.pairwise_append] at ordered
    have last : ∀ other ∈ before.map (·.1), other < parameter := fun other earlier =>
      ordered.2.2 other earlier parameter List.mem_cons_self
    have new : parameter ∉ before.map (·.1) := fun earlier =>
      String.lt_irrefl parameter (last parameter earlier)
    have goes : Block.GradientOf { block with gradients := before } parameter gradient :=
      { own.gradients parameter gradient member with }
    have regular : Block.AxesLabelled Labels.Regular { block with gradients := before } :=
      { valid.regular with }
    have regular' : gradient.AxesLabelled Labels.Regular :=
      (sound_of_reachable (inner parameter gradient member)).own.regular
    have added := (Block.addGradient_eq_ok_iff regular regular').mpr ⟨new, goes, rfl⟩
    rw [Block.insertGradient_eq_append last] at added
    apply ih _ (.withGradient known (inner parameter gradient member) added)
    rw [split, List.append_assoc, List.singleton_append]

end Building

/-- Every consistent block with valid labels can be built. -/
theorem reachable_block {block : Block} (consistent : block.Consistent)
    (valid : block.Labelled Labels.Valid) : Reachable (.block block) := by
  have both := consistent.and valid
  clear consistent valid
  induction both with
  | intro own _ ih =>
    exact reachable_withGradients own.1 own.2 ih rfl (reachable_bare own.1 own.2)

/-- Every consistent map with valid labels can be built. -/
theorem reachable_map {map : BlockMap} (consistent : map.Consistent)
    (valid : map.Labelled Labels.Valid) : Reachable (.map map) :=
  .map (reachable_labels valid.keys)
    (fun block member => reachable_block (consistent.blocks block member)
      (valid.blocks block member))
    (BlockMap.ofBlocks_eq_ok_iff.mpr ⟨consistent.count, consistent.agree, rfl⟩)

/-! ### A map that is moved back and forth -/

/-- A block with a component and a gradient. -/
def layered (data : Array FloatBits) (references : List Row) (dataFirst : Array FloatBits) :
    Block :=
  let components : List Labels := [.of ["c"] [[0], [1]]]
  let properties : Labels := .of ["p"] [[0]]
  let gradient : Block := ⟨⟨[references.length, 2, 1], dataFirst⟩,
    .of ["sample"] references, components, properties, []⟩
  ⟨⟨[2, 2, 1], data⟩, .of ["s"] [[7], [-5]], components, properties, [("cell", gradient)]⟩

/-- Two such blocks, whose keys agree in the first dimension. -/
def layeredMap : BlockMap :=
  ⟨.of ["a", "b"] [[1, 2], [1, -3]],
    [layered #[1, 2, 3, 4] [[1]] #[5, 6], layered #[7, 8, 9, 10] [[0]] #[11, 12]], false⟩

/-- Every move once. -/
def layeredMoves : List BlockMap.Move :=
  [.flattenComponents ["c"], .mergeSamples ["b"] false, .splitSamples ["b"],
    .mergeProperties ["b"] false]

theorem layeredMap_consistent : ∃ map, layeredMap.afterMoves layeredMoves = .ok map ∧
    Reachable (.map map) ∧ map.Consistent := by
  obtain ⟨map, moved⟩ : ∃ map, layeredMap.afterMoves layeredMoves = .ok map :=
    exists_eq_ok (by decide +kernel)
  have start : Reachable (.map layeredMap) := reachable_map (by decide) (by decide)
  exact ⟨map, moved, .moved start moved, consistent_of_reachable (.moved start moved)⟩

end LabeledBlocks
