import LabeledBlocks.Block.Basic
import LabeledBlocks.Labels.Builder

/-!
# Joining blocks

What the joining of blocks along their samples and along their properties have in common: blocks
are joined with the first of them, position 0, which they have to match in their components and
in the parameters of their gradients; and the rows of the result say where they come from.
-/

namespace LabeledBlocks

/-- Where a row or a column of joined blocks comes from: the position of the block in the list
of those that are joined, and the position in that block. -/
structure Source where
  block : Nat
  index : Nat
  deriving DecidableEq, Repr

namespace Block

/-- The rows of one of the blocks, each with a common continuation and its source. -/
def extendRows (continuation : Row) (block : Nat) (rows : List Row) : List (Row × Source) :=
  rows.zipIdx.map fun entry => (entry.1 ++ continuation, ⟨block, entry.2⟩)

def sortRows (rows : List (Row × Source)) : List (Row × Source) :=
  rows.mergeSort fun a b => (compare a.1 b.1).isLE

/-- Refuses component axes, for the block at this position, that are not identical to those of
the first block. -/
def checkSameComponents (position : Nat) (first block : List Labels) : Except Error Unit :=
  if block.length ≠ first.length then
    .error (.inconsistentComponents position (.axisCount first.length block.length))
  else
    match firstDifference 0 first block with
    | some axis => .error (.inconsistentComponents position (.labels axis))
    | none => .ok ()

/-- Refuses the first of some blocks, counted from `position`, whose gradients are not those
with respect to `expected`. -/
def checkSameParameters (expected : List String) (position : Nat) :
    List Block → Except Error Unit
  | [] => .ok ()
  | block :: blocks =>
    if block.parameters ≠ expected then
      .error (.inconsistentGradients position expected block.parameters)
    else checkSameParameters expected (position + 1) blocks

/-- The gradient that every one of the blocks must have. -/
def gradientFor (parameter : String) (block : Block) : Except Error Block :=
  match block.gradient? parameter with
  | some gradient => .ok gradient
  | none => .error (.invalidGradient parameter .missing)

/-- Refuses the first of some gradients, counted from `position`, that has other sample names
than `expected`. -/
def checkSampleNames (parameter : String) (expected : List String) (position : Nat) :
    List Block → Except Error Unit
  | [] => .ok ()
  | gradient :: gradients =>
    if gradient.samples.names ≠ expected then
      .error (.invalidGradient parameter
        (.differentSampleNames position gradient.samples.names expected))
    else checkSampleNames parameter expected (position + 1) gradients

/-- The sample number that a gradient row starts with, looked up among the samples of its
parent, and the rest of the row. -/
@[inline]
def reference {α : Type} (parent : Array α) : Row → Except Error (α × Row)
  | [] => .error (.outOfRange .dimension)
  | number :: rest =>
    if number < 0 then .error (.outOfRange .sample)
    else
      match parent[number.toInt.toNat]? with
      | some found => .ok (found, rest)
      | none => .error (.outOfRange .sample)

/-- Where each of `length` positions stands in a list of positions, if it stands there. -/
def inverse (length : Nat) (positions : List Nat) : Array (Option Nat) :=
  positions.zipIdx.foldl (fun found entry => found.setIfInBounds entry.1 (some entry.2))
    (Array.replicate length none)

end Block

end LabeledBlocks
