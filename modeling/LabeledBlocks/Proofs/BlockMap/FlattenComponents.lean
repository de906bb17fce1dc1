import LabeledBlocks.Proofs.Block.Flattened
import LabeledBlocks.Proofs.BlockMap.Consistent

/-!
# Moving components into the properties keeps every value below its labels

Keys and samples stay, and in every block each value gets a property that has, behind each other,
the rows that described the value on the component axes that move, and its old property. The same
happens in the gradients at every depth.

* `BlockMap.ComponentsFlattened` — a map whose blocks are flattened.
* `BlockMap.flattenComponents_moves` — components are moved like this.
-/

namespace LabeledBlocks.BlockMap

/-- The keys are kept, and every block is flattened at every depth. -/
structure ComponentsFlattened (map : BlockMap) (names : List String) (flat : BlockMap) : Prop where
  keys : flat.keys = map.keys
  mixedProperties : flat.mixedProperties = map.mixedProperties
  blocks : List.Forall₂ (Block.Flattened names) map.blocks flat.blocks

/-- Every value is moved below the property that is made of its labels. -/
theorem flattenComponents_moves {map flat : BlockMap} {names : List String}
    (consistent : map.Consistent) (h : map.flattenComponents names = .ok flat) :
    ComponentsFlattened map names flat := by
  simp only [flattenComponents, throw_bind_eq, refused_eq_ok, bind_eq_ok] at h
  obtain ⟨_, blocks, made, built⟩ := h
  obtain ⟨_, _, rfl⟩ := ofBlocks_eq_ok_iff.mp built
  refine ⟨rfl, rfl, ?_⟩
  apply forall₂_imp_of_mem (mapM_eq_ok.mp made)
  intro block member result _ flattened
  obtain ⟨axes, found, flattened⟩ := bind_eq_ok.mp flattened
  obtain ⟨properties, combined, taken⟩ := bind_eq_ok.mp flattened
  obtain ⟨standing, nodup, _⟩ := Block.componentAxes_eq_ok found
  exact Block.flattened_flattenAxes (consistent.blocks block member) standing nodup combined taken

/-- A block with three components, and with a gradient that has one more. -/
def cube (data gradientData : Array FloatBits) : Block :=
  let components : List Labels :=
    [.of ["x"] [[0], [1]], .of ["y"] [[5], [7]], .of ["z"] [[-1], [1]]]
  let properties : Labels := .of ["p"] [[3]]
  let gradient : Block := ⟨⟨[1, 2, 2, 2, 2, 1], gradientData⟩,
    .of ["sample"] [[0]], components ++ [.of ["d"] [[0], [1]]], properties, []⟩
  ⟨⟨[1, 2, 2, 2, 1], data⟩, .of ["s"] [[7]], components, properties, [("cell", gradient)]⟩

def cubeMap : BlockMap :=
  ⟨.of ["a"] [[1], [2]],
    [cube #[1, 2, 3, 4, 5, 6, 7, 8] #[1, 2, 3, 4, 5, 6, 7, 8, 9, 10, 11, 12, 13, 14, 15, 16],
      cube #[8, 7, 6, 5, 4, 3, 2, 1] #[0, 0, 0, 0, 1, 1, 1, 1, 2, 2, 2, 2, 3, 3, 3, 3]], false⟩

theorem cubeMap_flattened : ∃ flat, cubeMap.flattenComponents ["z", "x"] = .ok flat ∧
    ComponentsFlattened cubeMap ["z", "x"] flat := by
  obtain ⟨flat, h⟩ : ∃ flat, cubeMap.flattenComponents ["z", "x"] = .ok flat :=
    exists_eq_ok (by decide +kernel)
  exact ⟨flat, h, flattenComponents_moves (by decide +kernel) h⟩

end LabeledBlocks.BlockMap
