import LabeledBlocks.BlockMap.FlattenComponents
import LabeledBlocks.InPlace.Access

/-!
# Flattening axes in place

The combinations of the rows of some components are counted through: a position on each of them
says which row is taken, and after every combination the last position that can be moved on is moved
on, and those behind it go back to the beginning. The values are gone through in their old order,
and each of them is written where the strides of its axes in the new array lead to. Its position on
an axis is taken from its place by division, by the stride of the axis and by its length.

* `InPlace.flattenedProperties` makes the properties of a flattened block.
* `InPlace.flattenAxes` flattens a block and its gradients.
-/

namespace LabeledBlocks.InPlace

open Block

/-! ### Properties -/

/-- The next positions on these components, of which those at `places` can still be moved on. -/
def advance (parts : Array Labels) (index : Array Nat) :
    (places : List Nat) → Except Error (Array Nat)
  | [] => .ok index
  | place :: places => do
    let position ← fetch .axis index place
    let index ← put .axis index place (position + 1)
    let labels ← fetch .axis parts place
    if position + 1 < labels.count then pure index
    else do
      let index ← put .axis index place 0
      advance parts index places

/-- The first values of the rows at these positions. -/
def firstValues (parts : List Labels) (index : List Nat) : Except Error Row :=
  (parts.zip index).mapM fun part => do
    let found ← row part.1 part.2
    fetch .dimension found.toArray 0

/-- So many combinations, from these positions on, each of them with every row of `properties`. -/
def combine (parts : List Labels) (properties : Labels) : (rounds : Nat) → (index : Array Nat) →
    Except Error (List Row)
  | 0, _ => .ok []
  | rounds + 1, index => do
    let front ← firstValues parts index.toList
    let own ← rows properties
    let index ← advance parts.toArray index (List.range index.size).reverse
    let rest ← combine parts properties rounds index
    pure (own.map (front ++ ·) ++ rest)

/-- The properties when the components on these axes become part of them. -/
def flattenedProperties (block : Block) (axes : List Nat) : Except Error Labels := do
  let parts ← axes.mapM (fetch .axis block.components.toArray)
  let names ← parts.mapM fun labels => fetch .dimension labels.names.toArray 0
  let combined ← combine parts block.properties (parts.map Labels.count).prod
    (Array.replicate parts.length 0)
  Labels.ofRows (names ++ block.properties.names) combined

/-! ### Values -/

/-- The strides with that of an axis that stands at position `i` of the new shape. -/
def keepAxis (outer strides : Array Nat) (axis i : Nat) : Except Error (Array Nat) := do
  let stride ← fetch .axis outer i
  put .axis strides axis stride

/-- The strides with that of an axis that moves, and the stride of the axis before it. -/
def moveAxis (shape strides : Array Nat) (stride axis : Nat) : Except Error (Array Nat × Nat) := do
  let strides ← put .axis strides axis stride
  let length ← fetch .axis shape axis
  pure (strides, stride * length)

/-- The strides of the axes in the new array. An axis that stays has that of its place in the new
shape, and those that move have the strides that they had if they stood before the last axis. -/
def newStrides (shape : Array Nat) (newShape kept moved : List Nat) : Except Error (Array Nat) := do
  let outer := (Dense.strides newShape).toArray
  let strides ← kept.zipIdx.foldlM (fun strides entry => keepAxis outer strides entry.1 entry.2)
    (Array.replicate shape.size 0)
  let strides ← put .axis strides (shape.size - 1) 1
  let last ← fetch .axis shape (shape.size - 1)
  let (strides, _) ← moved.reverse.foldlM (fun state axis => moveAxis shape state.1 state.2 axis)
    (strides, last)
  pure strides

/-- How far the position of a value on an axis leads in the new array. -/
def reachAlong (shape old new : Array Nat) (place axis : Nat) : Except Error Nat := do
  let stride ← fetch .axis old axis
  let runs ← quotient place stride
  let length ← fetch .axis shape axis
  let position ← remainder runs length
  let step ← fetch .axis new axis
  pure (position * step)

/-- Where the value at a place goes to. -/
def target (shape old new : Array Nat) (place : Nat) : Except Error Nat :=
  (List.range shape.size).foldlM (fun reached axis => do
    let further ← reachAlong shape old new place axis
    pure (reached + further)) 0

/-- The buffer with every value where it goes to. -/
def rearrange (shape new : Array Nat) (values buffer : Array FloatBits) :
    Except Error (Array FloatBits) :=
  values.toList.zipIdx.foldlM (fun buffer entry => do
    let place ← target shape (Dense.strides shape.toList).toArray new entry.2
    put .values buffer place entry.1) buffer

mutual

/-- The block with the components on these axes made part of the property axis, which has the labels
`properties` then. -/
def flattenAxes (axes : List Nat) (properties : Labels) : Block → Except Error Block
  | ⟨values, samples, components, _, gradients⟩ => do
    let shape := values.shape.toArray
    let movedAxes := axes.map (· + 1)
    let keptAxes := (List.range (shape.size - 1)).filter (· ∉ movedAxes)
    let kept ← keptAxes.mapM (fetch .axis shape)
    let newShape := kept ++ [properties.count]
    let strides ← newStrides shape newShape keptAxes movedAxes
    let output ← Dense.create newShape
    let data ← rearrange shape strides values.data output.data
    let components := (components.zipIdx.filter fun entry => entry.2 ∉ axes).map (·.1)
    let result ← ofValues ⟨newShape, data⟩ samples components properties
    flattenGradientAxes axes properties result gradients

def flattenGradientAxes (axes : List Nat) (properties : Labels) (result : Block) :
    List (String × Block) → Except Error Block
  | [] => .ok result
  | (parameter, gradient) :: rest => do
    let gradient ← flattenAxes axes properties gradient
    let result ← result.addGradient parameter gradient
    flattenGradientAxes axes properties result rest

end

end LabeledBlocks.InPlace
