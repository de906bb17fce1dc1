import LabeledBlocks.BlockMap.Grouping

/-!
# Moving components into the properties

A component axis with one dimension can become part of the property axis. The new properties
are all combinations of a row of each moved component, the first of them slowest, and an old
property, fastest.

* `BlockMap.flattenComponents` is the move, for every block and its gradients.
-/

namespace LabeledBlocks

namespace Block

/-- The component axes with the single dimensions of these names, none of them among the axes
`earlier`. -/
def componentAxes (block : Block) (earlier : List Nat) : List String → Except Error (List Nat)
  | [] => .ok []
  | name :: names =>
    match block.components.findIdx? fun labels => labels.names == [name] with
    | none => .error (.invalidArgument (.notComponent name))
    | some axis =>
      if axis ∈ earlier then .error (.invalidArgument (.movedTwice .components name))
      else (componentAxes block (axis :: earlier) names).map (axis :: ·)

/-- All concatenations of a row of each of these labels, the first labels slowest. -/
def products : List Labels → List Row
  | [] => [[]]
  | labels :: rest =>
    let inner := products rest
    labels.rows.flatMap fun row => inner.map (row ++ ·)

/-- The same rows, of which there are none as soon as one of the labels has none, however many
the others have. -/
def combinations (parts : List Labels) : List Row :=
  if parts.any (·.rows.isEmpty) then [] else products parts

/-- Labels without rows leave nothing to combine. -/
theorem products_eq_nil {parts : List Labels} (h : parts.any (·.rows.isEmpty)) :
    products parts = [] := by
  induction parts with
  | nil => simp at h
  | cons labels parts ih =>
    rw [List.any_cons, Bool.or_eq_true] at h
    rcases h with h | h
    · simp [products, List.isEmpty_iff.1 h]
    · simp [products, ih h]

theorem combinations_eq_products (parts : List Labels) :
    combinations parts = products parts := by
  unfold combinations
  split
  · exact (products_eq_nil ‹_›).symm
  · rfl

/-- The component labels on these axes. -/
def componentsAt (components : List Labels) (axes : List Nat) : Except Error (List Labels) :=
  axes.mapM fun axis =>
    match components[axis]? with
    | some labels => .ok labels
    | none => .error (.outOfRange .axis)

/-- The properties when the components on these axes, of these names, become part of them. -/
def flattenedProperties (block : Block) (names : List String) (axes : List Nat) :
    Except Error Labels := do
  let moved ← componentsAt block.components axes
  Labels.ofRows (names ++ block.properties.names)
    (combinations (moved ++ [block.properties]))

mutual

/-- The block with the components on these axes made part of the property axis, which has the
labels `properties` then. The components of a gradient start with those of its block, so that
the same axes move in it. -/
def flattenAxes (axes : List Nat) (properties : Labels) : Block → Except Error Block
  | ⟨values, samples, components, _, gradients⟩ => do
    let rank := values.shape.length
    let movedAxes := axes.map (· + 1)
    let keptAxes := (List.range (rank - 1)).filter (· ∉ movedAxes)
    let kept ← keptAxes.mapM values.axis
    let data ← values.valuesAlong (keptAxes ++ movedAxes ++ [rank - 1])
    let components := (components.zipIdx.filter fun entry => entry.2 ∉ axes).map (·.1)
    let result ← ofValues ⟨kept.map (·.1) ++ [properties.count], data⟩ samples components
      properties
    flattenGradientAxes axes properties result gradients

def flattenGradientAxes (axes : List Nat) (properties : Labels) (result : Block) :
    List (String × Block) → Except Error Block
  | [] => .ok result
  | (parameter, gradient) :: rest => do
    let gradient ← flattenAxes axes properties gradient
    let result ← result.addGradient parameter gradient
    flattenGradientAxes axes properties result rest

end

end Block

namespace BlockMap

/-- Moves the component axes with the dimensions of these names into the properties. -/
def flattenComponents (map : BlockMap) (names : List String) : Except Error BlockMap := do
  if names.isEmpty then
    throw (.invalidArgument (.nothingToMove .components))
  let blocks ← map.blocks.mapM fun block => do
    let axes ← block.componentAxes [] names
    let properties ← block.flattenedProperties names axes
    block.flattenAxes axes properties
  ofBlocks map.keys blocks map.mixedProperties

end BlockMap

end LabeledBlocks
