import LabeledBlocks.Dense
import LabeledBlocks.Labels.Basic

/-!
# Blocks

A block is a dense array with labels for each of its axes: the samples for the first, the
properties for the last, and the components for those between. It can carry gradients, which are
blocks themselves, each with respect to a named parameter. A gradient says in its first sample
dimension, `sample`, which row of its block it belongs to; its components start with those of its
block, and its properties are those of its block.

* `Block.ofValues` checks an array against its labels.
* `Block.addGradient` checks a gradient against its block; gradients are kept in the order of
  their parameters.
-/

namespace LabeledBlocks

/-- An array, the labels of its axes, and its gradients in increasing order of the parameter. -/
structure Block where
  values : Dense
  samples : Labels
  components : List Labels
  properties : Labels
  gradients : List (String × Block)

namespace Block

/-- The name of the dimension that refers to the samples of the parent of a gradient. -/
def sampleName : String := "sample"

def shape (block : Block) : List Nat :=
  block.values.shape

def labelledShape (samples : Labels) (components : List Labels) (properties : Labels) :
    List Nat :=
  samples.count :: (components.map Labels.count ++ [properties.count])

/-- The axis at a position, when the last one is at position `last`. -/
def shapePart (last axis : Nat) : ShapePart :=
  if axis = 0 then .samples
  else if axis = last then .properties
  else .component (axis - 1)

/-- Compares the lengths of the axes from position `axis` on. -/
def checkAxes (last axis : Nat) : (expected got : List Nat) → Except Error Unit
  | wanted :: expected, found :: got =>
    if wanted ≠ found then .error (.shapeMismatch (shapePart last axis) [wanted] [found])
    else checkAxes last (axis + 1) expected got
  | _, _ => .ok ()

def checkShape (expected got : List Nat) : Except Error Unit :=
  if got.length ≠ expected.length then .error (.shapeMismatch .whole expected got)
  else checkAxes (expected.length - 1) 0 expected got

/-- Refuses component names that stand among the names `seen`, the samples or the properties. -/
def checkComponentNames (samples properties : Labels) (seen : List String) :
    List String → Except Error Unit
  | [] => .ok ()
  | name :: names =>
    if name ∈ seen then .error (.duplicateName name .acrossComponents)
    else if name ∈ samples.names then .error (.duplicateName name .componentsAndSamples)
    else if name ∈ properties.names then .error (.duplicateName name .componentsAndProperties)
    else checkComponentNames samples properties (name :: seen) names

/-- A block without gradients. -/
def ofValues (values : Dense) (samples : Labels) (components : List Labels)
    (properties : Labels) : Except Error Block := do
  checkShape (labelledShape samples components properties) values.shape
  checkComponentNames samples properties [] (components.flatMap Labels.names)
  pure { values, samples, components, properties, gradients := [] }

/-! ### Gradients -/

/-- The parameters of the gradients, in increasing order. -/
def parameters (block : Block) : List String :=
  block.gradients.map (·.1)

def gradient? (block : Block) (parameter : String) : Option Block :=
  block.gradients.lookup parameter

/-- Puts a gradient at its place in the order of the parameters. -/
def insertGradient (parameter : String) (gradient : Block) :
    List (String × Block) → List (String × Block)
  | [] => [(parameter, gradient)]
  | (other, block) :: rest =>
    if parameter < other then (parameter, gradient) :: (other, block) :: rest
    else (other, block) :: insertGradient parameter gradient rest

/-- The first axis, counted from `axis`, where the labels differ. -/
def firstDifference (axis : Nat) : List Labels → List Labels → Option Nat
  | a :: as, b :: bs => if a.identical b then firstDifference (axis + 1) as bs else some axis
  | _, _ => none

/-- Refuses rows that refer to none of `parentCount` samples, the first row at position
`start`. -/
def checkReferences (parentCount start : Nat) : List Row → Except Error Unit
  | [] => .ok ()
  | [] :: _ => .error (.outOfRange .dimension)
  | (reference :: _) :: rows =>
    if reference < 0 ∨ parentCount ≤ reference.toInt.toNat then
      .error (.invalidSampleReference start reference parentCount)
    else checkReferences parentCount (start + 1) rows

/-- Refuses a block that can not be the gradient of `block` with respect to `parameter`. -/
def checkGradient (block : Block) (parameter : String) (gradient : Block) :
    Except Error Unit := do
  if parameter.isEmpty then
    throw (.invalidArgument .emptyParameter)
  if (block.gradient? parameter).isSome then
    throw (.duplicateGradient parameter)
  if gradient.samples.names.head? ≠ some sampleName then
    throw (.invalidGradient parameter (.sampleNames gradient.samples.names))
  if gradient.components.length < block.components.length then
    throw (.invalidGradient parameter
      (.tooFewComponents block.components.length gradient.components.length))
  match firstDifference 0 block.components gradient.components with
  | some axis => throw (.invalidGradient parameter (.component axis))
  | none => pure ()
  if !gradient.properties.identical block.properties then
    throw (.propertyMismatch (.gradient parameter))
  checkReferences block.samples.count 0 gradient.samples.rows

def addGradient (block : Block) (parameter : String) (gradient : Block) :
    Except Error Block := do
  block.checkGradient parameter gradient
  pure { block with gradients := insertGradient parameter gradient block.gradients }

/-! ### Comparison -/

/-- As many axes, with identical labels. -/
def sameAxes (a b : List Labels) : Bool :=
  a.length == b.length && (firstDifference 0 a b).isNone

mutual

/-- Identical labels, the same numbers, and identical gradients for the same parameters. -/
def identical : Block → Block → Bool
  | ⟨values, samples, components, properties, gradients⟩,
    ⟨values', samples', components', properties', gradients'⟩ =>
    samples.identical samples' && sameAxes components components'
      && properties.identical properties' && values.sameNumbers values'
      && identicalGradients gradients gradients'

/-- The same parameters in the same order, with identical blocks. -/
def identicalGradients : List (String × Block) → List (String × Block) → Bool
  | [], [] => true
  | (parameter, block) :: rest, (parameter', block') :: rest' =>
    parameter == parameter' && block.identical block' && identicalGradients rest rest'
  | _, _ => false

end

mutual

/-- How many blocks follow each other along the longest chain of gradients. -/
def depth : Block → Nat
  | ⟨_, _, _, _, gradients⟩ => gradientDepth gradients + 1

def gradientDepth : List (String × Block) → Nat
  | [] => 0
  | (_, block) :: rest => max block.depth (gradientDepth rest)

end

end Block

end LabeledBlocks
