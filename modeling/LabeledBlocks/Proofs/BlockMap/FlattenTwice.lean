import LabeledBlocks.Proofs.Block.Flattenable
import LabeledBlocks.Proofs.BlockMap.FlattenComponents

/-!
# Moving components into the properties in two steps

Components can be moved into the properties in two steps exactly if they can be moved in one, and
both ways lead to the same map. What moves first is the faster part of the new properties, so that
the names of the second step stand before those of the first.

* `BlockMap.flattenComponents_eq_ok_iff` — a map is flattened block by block.
* `BlockMap.flattenComponents_append` — two steps do the same as one.
-/

namespace LabeledBlocks.BlockMap

/-- Flattened blocks go together, as the blocks do that they are made of. -/
theorem Agree.flattened {mixedProperties : Bool} {names : List String} {a b a' b' : Block}
    (agree : Agree mixedProperties a b) (h : Block.Flattened names a a')
    (h' : Block.Flattened names b b') : Agree mixedProperties a' b' := by
  have kept : ∀ block : Block, (Block.axesBesides names block.components).map Labels.names =
      (block.components.map Labels.names).filter fun own => !names.any fun name => own == [name] :=
    fun block => by
      rw [List.filter_map]
      rfl
  refine ⟨?_, ?_, fun same => ?_, ?_⟩
  · rw [h.level.samples, h'.level.samples, agree.sampleNames]
  · rw [h.level.components, h'.level.components, kept, kept, agree.componentNames]
  · rw [h.level.propertyNames, h'.level.propertyNames, agree.propertyNames same]
  · rw [h.level.parameters, h'.level.parameters, agree.parameters]

section Map

variable {map flat : BlockMap} (consistent : map.Consistent) (labelled : map.Labelled Labels.Valid)

include consistent

/-- Blocks of a map agree with each other after component axes of all of them have moved. -/
theorem agree_of_forall₂_flatten {names : List String} {blocks : List Block}
    (all : List.Forall₂ (fun block result => block.flatten names = .ok result) map.blocks blocks) :
    ∀ a ∈ blocks, ∀ b ∈ blocks, Agree map.mixedProperties a b := by
  intro a ha b hb
  obtain ⟨old, isOld, made⟩ := exists_of_mem_right all ha
  obtain ⟨old', isOld', made'⟩ := exists_of_mem_right all hb
  exact (consistent.agree old isOld old' isOld').flattened
    (Block.flattened_flatten (consistent.blocks old isOld) made)
    (Block.flattened_flatten (consistent.blocks old' isOld') made')

/-- A map is flattened block by block. -/
theorem flattenComponents_eq_ok_iff {names : List String} :
    map.flattenComponents names = .ok flat ↔ names ≠ [] ∧
      ∃ blocks, List.Forall₂ (fun block result => block.flatten names = .ok result)
          map.blocks blocks ∧
        flat = ⟨map.keys, blocks, map.mixedProperties⟩ := by
  have steps : map.flattenComponents names = .ok flat ↔ names ≠ [] ∧
      ∃ blocks, map.blocks.mapM (Block.flatten names) = .ok blocks ∧
        ofBlocks map.keys blocks map.mixedProperties = .ok flat := by
    simp only [flattenComponents, throw_bind_eq, refused_eq_ok, bind_eq_ok, List.isEmpty_iff]
    rfl
  rw [steps]
  refine and_congr_right fun _ => exists_congr fun blocks => ?_
  rw [mapM_eq_ok, ofBlocks_eq_ok_iff]
  refine and_congr_right fun all => ⟨fun built => built.2.2, fun same => ⟨?_, ?_, same⟩⟩
  · rw [consistent.count, all.length_eq]
  · exact agree_of_forall₂_flatten consistent all

include labelled

/-- Moving component axes keeps a map consistent and its labels valid. -/
theorem flattenComponents_kept {names : List String} (h : map.flattenComponents names = .ok flat) :
    flat.Consistent ∧ flat.Labelled Labels.Valid := by
  obtain ⟨_, blocks, all, rfl⟩ := (flattenComponents_eq_ok_iff consistent).mp h
  have kept : ∀ block ∈ blocks, block.Consistent ∧ block.Labelled Labels.Valid := by
    intro block member
    obtain ⟨old, isOld, made⟩ := exists_of_mem_right all member
    exact Block.flatten_kept (consistent.blocks old isOld) (labelled.blocks old isOld) made
  have count : map.keys.count = blocks.length := consistent.count.trans all.length_eq
  have agree := agree_of_forall₂_flatten consistent all
  exact ⟨⟨count, fun block member => (kept block member).1, agree⟩, labelled.keys,
    fun block member => (kept block member).2⟩

/-- Moving components into the properties in two steps does the same as moving all of them at
once, and succeeds together with it. -/
theorem flattenComponents_append {first second : List String} (some : first ≠ [])
    (some' : second ≠ []) (nodup : (second ++ first).Nodup) :
    (do
      let mid ← map.flattenComponents first
      mid.flattenComponents second) = .ok flat ↔
      map.flattenComponents (second ++ first) = .ok flat := by
  have some'' : second ++ first ≠ [] := fun none => some (List.append_eq_nil_iff.mp none).2
  have each : ∀ block ∈ map.blocks, ∀ result,
      (∃ mid, block.flatten first = .ok mid ∧ mid.flatten second = .ok result) ↔
        block.flatten (second ++ first) = .ok result := fun block member _ =>
    Block.flatten_flatten (consistent.blocks block member) (labelled.blocks block member) some some'
      nodup
  rw [bind_eq_ok, flattenComponents_eq_ok_iff consistent]
  constructor
  · rintro ⟨mid, h, h'⟩
    have kept := flattenComponents_kept consistent labelled h
    obtain ⟨_, mids, all, rfl⟩ := (flattenComponents_eq_ok_iff consistent).mp h
    obtain ⟨_, blocks, all', rfl⟩ := (flattenComponents_eq_ok_iff kept.1).mp h'
    have twice := forall₂_comp_iff.mpr ⟨mids, all, all'⟩
    refine ⟨some'', blocks, forall₂_imp_of_mem twice fun block member result _ steps => ?_, rfl⟩
    exact (each block member result).mp steps
  · rintro ⟨_, blocks, all, rfl⟩
    have twice := forall₂_imp_of_mem all fun block member result _ made =>
      (each block member result).mpr made
    obtain ⟨mids, all, all'⟩ := forall₂_comp_iff.mp twice
    have h := (flattenComponents_eq_ok_iff consistent).mpr ⟨some, mids, all, rfl⟩
    have kept := flattenComponents_kept consistent labelled h
    exact ⟨_, h, (flattenComponents_eq_ok_iff kept.1).mpr ⟨some', blocks, all', rfl⟩⟩

end Map

theorem cubeMap_flattened_in_two_steps : ∃ mid flat, cubeMap.flattenComponents ["z"] = .ok mid ∧
    mid.flattenComponents ["x"] = .ok flat ∧ cubeMap.flattenComponents ["x", "z"] = .ok flat := by
  obtain ⟨flat, h⟩ : ∃ flat, cubeMap.flattenComponents ["x", "z"] = .ok flat :=
    exists_eq_ok (by decide +kernel)
  have twice := (@flattenComponents_append cubeMap flat (by decide +kernel) (by decide +kernel)
    ["z"] ["x"] (by decide) (by decide) (by decide)).mpr h
  obtain ⟨mid, first, second⟩ := bind_eq_ok.mp twice
  exact ⟨mid, flat, first, second, h⟩

end LabeledBlocks.BlockMap
