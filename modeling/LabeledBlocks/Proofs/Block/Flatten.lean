import LabeledBlocks.BlockMap.FlattenComponents
import LabeledBlocks.Proofs.Block.Sound
import Mathlib.Data.List.Perm.Basic

/-!
# Flattening components

Component axes that become part of the property axis take their values along: there are as many new
properties as combinations of the old ones with the components, and as many values. A gradient has
the components of its block in front and the same properties, so that the number of its values is
right for the same reason.

* `Block.FlattensTo` — how many properties come of the components on some axes.
* `Block.FlattensTo.gradient` — as many in a gradient.
* `Block.sound_flattenAxes` — a sound block stays sound when components are flattened.
-/

namespace LabeledBlocks.Block

/-! ### Counting the combinations -/

/-- There is one combination for every choice of a row in each of the labels. -/
theorem length_products (parts : List Labels) :
    (products parts).length = (parts.map Labels.count).prod := by
  induction parts with
  | nil => rfl
  | cons labels parts ih =>
    have inner : ∀ row ∈ labels.rows,
        ((products parts).map (row ++ ·)).length = (parts.map Labels.count).prod := by
      intro row _
      rw [List.length_map, ih]
    rw [products, List.length_flatMap, List.map_congr_left inner, List.map_const',
      List.sum_replicate_nat, List.map_cons, List.prod_cons, labels.count_eq]

/-- So many properties come of it when the components of a block on some axes are made part of
them. -/
def FlattensTo (axes : List Nat) (count : Nat) (block : Block) : Prop :=
  ∃ moved : List Labels,
    List.Forall₂ (fun axis labels => block.components[axis]? = some labels) axes moved ∧
      count = (moved.map Labels.count).prod * block.properties.count

theorem componentsAt_eq_ok_iff {components moved : List Labels} {axes : List Nat} :
    componentsAt components axes = .ok moved ↔
      List.Forall₂ (fun axis labels => components[axis]? = some labels) axes moved := by
  rw [componentsAt, mapM_eq_ok]
  refine iff_of_eq (congrArg (List.Forall₂ · axes moved) ?_)
  funext axis labels
  cases components[axis]? with
  | none => simp
  | some found => simp

/-- As many properties come of the axes as the new labels have rows. -/
theorem flattensTo_of_flattenedProperties {block : Block} {names : List String} {axes : List Nat}
    {properties : Labels} (h : block.flattenedProperties names axes = .ok properties) :
    FlattensTo axes properties.count block := by
  obtain ⟨moved, found, built⟩ := bind_eq_ok.mp h
  obtain ⟨⟨_, rows⟩, _⟩ := Labels.ofRows_eq_ok_iff.mp built
  refine ⟨moved, componentsAt_eq_ok_iff.mp found, ?_⟩
  rw [properties.count_eq, rows, combinations_eq_products, length_products, List.map_append,
    List.prod_append, List.map_singleton, List.prod_singleton]

/-- A gradient has the components of its block on the same axes, and its properties. -/
theorem FlattensTo.gradient {axes : List Nat} {count : Nat} {block gradient : Block}
    {parameter : String} (h : FlattensTo axes count block)
    (goes : GradientOf block parameter gradient) : FlattensTo axes count gradient := by
  obtain ⟨moved, found, same⟩ := h
  obtain ⟨more, extended⟩ := goes.components
  refine ⟨moved, found.imp fun axis labels here => ?_, by rw [same, goes.properties]⟩
  obtain ⟨inside, _⟩ := List.getElem?_eq_some_iff.mp here
  rw [← extended, List.getElem?_append_left inside, here]

/-! ### Counting the values -/

section Values

variable {block : Block} (wellFormed : block.WellFormed)

include wellFormed

theorem lengthAt_component {axis : Nat} {labels : Labels}
    (found : block.components[axis]? = some labels) :
    block.values.lengthAt (axis + 1) = labels.count := by
  obtain ⟨inside, _⟩ := List.getElem?_eq_some_iff.mp found
  have inside' : axis < (block.components.map Labels.count).length := by
    rwa [List.length_map]
  rw [Dense.lengthAt, wellFormed.shape, labelledShape, List.getElem?_cons_succ,
    List.getElem?_append_left inside', List.getElem?_map, found]
  rfl

theorem lengthAt_last :
    block.values.lengthAt (block.values.shape.length - 1) = block.properties.count := by
  rw [Dense.lengthAt, wellFormed.shape, labelledShape]
  simp

/-- Along the axes that move and the last one there are as many values as new properties. -/
theorem prod_lengthAt {axes : List Nat} {count : Nat} (flattens : FlattensTo axes count block) :
    ((axes.map (· + 1) ++ [block.values.shape.length - 1]).map block.values.lengthAt).prod =
      count := by
  obtain ⟨moved, found, rfl⟩ := flattens
  have lengths : (axes.map (· + 1)).map block.values.lengthAt = moved.map Labels.count := by
    rw [List.map_map]
    exact map_eq_map_of_forall₂ found fun _ _ here => lengthAt_component wellFormed here
  rw [List.map_append, List.prod_append, lengths, List.map_singleton, List.prod_singleton,
    lengthAt_last wellFormed]

/-- The values in their new order fill the new shape. -/
theorem filled_flattened {axes kept : List Nat} {count : Nat}
    (flattens : FlattensTo axes count block) {found : List (Nat × Nat)}
    (looked : kept.mapM block.values.axis = .ok found) {data : Array FloatBits}
    (copied : block.values.valuesAlong
      (kept ++ axes.map (· + 1) ++ [block.values.shape.length - 1]) = .ok data) :
    Dense.Filled ⟨found.map (·.1) ++ [count], data⟩ := by
  rw [Dense.Filled, Dense.size_valuesAlong copied, List.append_assoc, List.map_append,
    List.prod_append, prod_lengthAt wellFormed flattens, Dense.map_fst_axes looked,
    List.prod_append, List.prod_singleton]

end Values

/-! ### Flattening at every depth -/

/-- The axes, apart from the last one, that stay when the component axes `axes` move. -/
def keptAxes (axes : List Nat) (block : Block) : List Nat :=
  (List.range (block.values.shape.length - 1)).filter (· ∉ axes.map (· + 1))

def keptComponents (axes : List Nat) (block : Block) : List Labels :=
  (block.components.zipIdx.filter fun entry => entry.2 ∉ axes).map (·.1)

theorem mem_of_mem_keptComponents {axes : List Nat} {block : Block} {labels : Labels}
    (member : labels ∈ block.keptComponents axes) : labels ∈ block.components := by
  obtain ⟨entry, kept, rfl⟩ := List.mem_map.mp member
  exact List.fst_mem_of_mem_zipIdx (List.mem_of_mem_filter kept)

/-- The axes that stay, those that move and the last one are different axes. -/
theorem axisOrder_subperm {block : Block} (wellFormed : block.WellFormed) {axes : List Nat}
    (nodup : axes.Nodup) {count : Nat} (flattens : FlattensTo axes count block) :
    (block.keptAxes axes ++ (axes.map (· + 1) ++ [block.values.shape.length - 1])).Subperm
      (List.range block.values.shape.length) := by
  have length : block.values.shape.length = block.components.length + 2 := by
    simp [wellFormed.shape, labelledShape]
  rw [keptAxes, length, Nat.add_succ_sub_one]
  have moves : ∀ axis ∈ axes.map (· + 1), axis < block.components.length + 1 := by
    obtain ⟨moved, standing, _⟩ := flattens
    intro axis member
    obtain ⟨axis, isMoved, rfl⟩ := List.mem_map.mp member
    obtain ⟨labels, _, here⟩ := exists_of_mem_right standing.flip isMoved
    exact Nat.succ_lt_succ (List.getElem?_eq_some_iff.mp here).1
  apply List.subperm_of_subset
  · refine List.nodup_append.mpr ⟨List.nodup_range.filter _, List.nodup_append.mpr ⟨?_, ?_, ?_⟩, ?_⟩
    · exact nodup.map fun _ _ => Nat.succ.inj
    · exact List.nodup_singleton _
    · rintro axis isMoved last isLast rfl
      rw [List.mem_singleton.mp isLast] at isMoved
      exact Nat.lt_irrefl _ (moves _ isMoved)
    · rintro axis stays other member rfl
      obtain ⟨small, notMoved⟩ := List.mem_filter.mp stays
      rcases List.mem_append.mp member with isMoved | isLast
      · exact of_decide_eq_true notMoved isMoved
      · rw [List.mem_singleton.mp isLast, List.mem_range] at small
        exact Nat.lt_irrefl _ small
  · intro axis member
    rw [List.mem_append, List.mem_append, List.mem_singleton] at member
    rw [List.mem_range]
    rcases member with stays | isMoved | rfl
    · exact Nat.lt_succ_of_lt (List.mem_range.mp (List.mem_of_mem_filter stays))
    · exact Nat.lt_succ_of_lt (moves axis isMoved)
    · exact Nat.lt_succ_self _

/-- Flattened components span no more than before. -/
theorem span_flattened_le {block : Block} (wellFormed : block.WellFormed) {axes : List Nat}
    (nodup : axes.Nodup) {count : Nat} (flattens : FlattensTo axes count block)
    {found : List (Nat × Nat)} (looked : (block.keptAxes axes).mapM block.values.axis = .ok found) :
    Dense.span (found.map (·.1) ++ [count]) ≤ Dense.span block.values.shape := by
  have whole : (List.range block.values.shape.length).map block.values.lengthAt =
      block.values.shape := by
    refine List.ext_getElem (by simp) fun i _ inside => ?_
    rw [List.getElem_map, List.getElem_range, Dense.lengthAt, List.getElem?_eq_getElem inside,
      Option.getD_some]
  obtain ⟨axes', perm, sublist⟩ := axisOrder_subperm wellFormed nodup flattens
  have perm := perm.map block.values.lengthAt
  have sublist := sublist.map block.values.lengthAt
  rw [List.map_append, ← Dense.map_fst_axes looked] at perm
  rw [whole] at sublist
  refine Nat.le_trans ?_ (Dense.span_le_of_subperm ⟨_, perm, sublist⟩)
  rw [Dense.span_append, Dense.span_append, ← prod_lengthAt wellFormed flattens]
  exact Nat.mul_le_mul_left _ (Dense.span_prod_le _)

variable {axes : List Nat} {properties : Labels}

/-- The steps of flattening, in terms of the parts of the block. -/
theorem flattenAxes_eq (block : Block) :
    flattenAxes axes properties block = (do
      let kept ← (block.keptAxes axes).mapM block.values.axis
      let data ← block.values.valuesAlong (block.keptAxes axes ++ axes.map (· + 1) ++
        [block.values.shape.length - 1])
      let result ← ofValues ⟨kept.map (·.1) ++ [properties.count], data⟩ block.samples
        (block.keptComponents axes) properties
      flattenGradientAxes axes properties result block.gradients) := by
  obtain ⟨values, samples, components, old, gradients⟩ := block
  rw [flattenAxes]
  rfl

/-- The steps of moving component axes, in terms of the parts of the block. -/
theorem flattenAxes_steps {block result : Block} :
    flattenAxes axes properties block = .ok result ↔
      ∃ kept, (block.keptAxes axes).mapM block.values.axis = .ok kept ∧
        ∃ data, block.values.valuesAlong (block.keptAxes axes ++ axes.map (· + 1) ++
            [block.values.shape.length - 1]) = .ok data ∧
          ∃ own, ofValues ⟨kept.map (·.1) ++ [properties.count], data⟩ block.samples
              (block.keptComponents axes) properties = .ok own ∧
            flattenGradientAxes axes properties own block.gradients = .ok result := by
  simp only [flattenAxes_eq, bind_eq_ok]

/-- One gradient after the other is flattened and added. -/
theorem sound_flattenGradientAxes {gradients : List (String × Block)} {result final : Block}
    (inner : ∀ entry ∈ gradients, ∀ flattened,
      flattenAxes axes properties entry.2 = .ok flattened → flattened.Sound)
    (sound : result.Sound)
    (h : flattenGradientAxes axes properties result gradients = .ok final) : final.Sound := by
  induction gradients generalizing result with
  | nil =>
    rw [flattenGradientAxes, Except.ok.injEq] at h
    exact h ▸ sound
  | cons entry gradients ih =>
    rw [List.forall_mem_cons] at inner
    simp only [flattenGradientAxes, bind_eq_ok] at h
    obtain ⟨flattened, made, added, adds, rest⟩ := h
    have flattenedSound := inner.1 flattened made
    exact ih inner.2 (sound_addGradient sound flattenedSound adds) rest

/-- A sound block stays sound when components are made part of as many properties as come of it. -/
theorem sound_flattenAxes {block result : Block} (sound : block.Sound)
    (regular : properties.Regular) (nodup : axes.Nodup)
    (flattens : FlattensTo axes properties.count block)
    (h : flattenAxes axes properties block = .ok result) : result.Sound := by
  induction sound generalizing result with
  | @intro block own _ ih =>
    obtain ⟨kept, found, data, copied, own', built, rest⟩ := flattenAxes_steps.mp h
    have filled := filled_flattened own.wellFormed flattens found copied
    have bounded := Nat.le_trans (span_flattened_le own.wellFormed nodup flattens found)
      own.wellFormed.bounded
    have components : ∀ labels ∈ block.keptComponents axes, labels.Regular := fun labels member =>
      own.regular.components labels (mem_of_mem_keptComponents member)
    apply sound_flattenGradientAxes _
      (sound_ofValues filled bounded own.regular.samples components regular built) rest
    intro entry member flattened made
    have goes := own.wellFormed.gradients entry.1 entry.2 member
    exact ih entry.1 entry.2 member (flattens.gradient goes) made

end LabeledBlocks.Block
