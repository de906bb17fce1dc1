import LabeledBlocks.Proofs.Block.Flattened
import LabeledBlocks.Proofs.Block.Reordered

/-!
# Flattening in two steps

When some component axes are flattened first and others then, each value goes where it would have
gone at once: the axes of the second step stay in the first one, with all positions on them, and the
properties that come of the first step are the last part of those of the second. A flattened block
is determined by the block that it is made of.

* `Block.movedCell_movedCell` — two steps lead a value to the place where one leads it.
* `Block.Flattened.trans` — what is flattened in two steps is flattened.
* `Block.Flattened.unique` — there is only one flattened block.
-/

namespace LabeledBlocks.Block

/-! ### Axes by name, in two steps -/

theorem isMoved_append (names more : List String) (labels : Labels) :
    isMoved (names ++ more) labels = (isMoved names labels || isMoved more labels) :=
  List.any_append

theorem axesNamed_append (names more : List String) (components : List Labels) :
    axesNamed (names ++ more) components =
      axesNamed names components ++ axesNamed more components :=
  List.filterMap_append

theorem indexNamed_append (names more : List String) (components : List Labels)
    (index : List Nat) :
    indexNamed (names ++ more) components index =
      indexNamed names components index ++ indexNamed more components index :=
  List.filterMap_append

theorem propertyParts_append (names more : List String) (block : Block) :
    propertyParts (names ++ more) block =
      axesNamed names block.components ++ propertyParts more block := by
  rw [propertyParts, axesNamed_append, List.append_assoc]
  rfl

/-- The axes with some names, each with the position of an index on it. -/
theorem within_indexNamed {components : List Labels} {index : List Nat}
    (within : Within (components.map Labels.count) index) (names : List String) :
    Within ((axesNamed names components).map Labels.count)
      (indexNamed names components index) := by
  have length : components.length = index.length := by
    rw [within.length_eq, List.length_map]
  have axes : axesNamed names components =
      (names.filterMap fun name =>
        (components.zip index).find? fun axis => axis.1.names == [name]).map (·.1) := by
    conv => lhs; rw [axesNamed, ← List.map_fst_zip (Nat.le_of_eq length)]
    simp only [List.find?_map, List.map_filterMap, Function.comp_def]
  rw [axes, indexNamed, ← List.map_filterMap, List.map_map, Within, List.forall₂_map_left_iff,
    List.forall₂_map_right_iff, List.forall₂_same]
  intro entry member
  obtain ⟨name, _, found⟩ := List.mem_filterMap.mp member
  have paired := (List.forall₂_map_right_iff.mp within).flip
  exact List.forall₂_zip paired (List.mem_of_find?_eq_some found)

section Apart

variable {first second : List String} (apart : ∀ name ∈ second, name ∉ first)

include apart

/-- The axes of the second step are found among those that the first step leaves. -/
theorem find?_besides {α : Type} (labelsOf : α → Labels) (l : List α) {name : String}
    (member : name ∈ second) :
    (l.filter fun a => !isMoved first (labelsOf a)).find?
        (fun a => (labelsOf a).names == [name]) =
      l.find? fun a => (labelsOf a).names == [name] := by
  rw [List.find?_filter]
  refine congrArg (l.find? ·) (funext fun a => ?_)
  by_cases named : (labelsOf a).names = [name]
  · have stays : isMoved first (labelsOf a) = false := by
      rw [isMoved, List.any_eq_false]
      intro other isFirst same
      rw [named, beq_iff_eq, List.cons.injEq] at same
      exact apart name member (same.1 ▸ isFirst)
    simp [named, stays]
  · simp [named]

theorem axesNamed_besides (components : List Labels) :
    axesNamed second (axesBesides first components) = axesNamed second components :=
  List.filterMap_congr fun _ member => find?_besides apart id components member

end Apart

theorem axesBesides_besides (first second : List String) (components : List Labels) :
    axesBesides second (axesBesides first components) =
      axesBesides (second ++ first) components := by
  rw [axesBesides, axesBesides, List.filter_filter, axesBesides]
  exact List.filter_congr fun labels _ => by rw [isMoved_append, Bool.not_or]

section Index

variable {components : List Labels} {index : List Nat} (length : components.length = index.length)

include length

/-- The axes that stay, each with the position of the index on it. -/
theorem zip_besides (names : List String) :
    (axesBesides names components).zip (indexBesides names components index) =
      (components.zip index).filter fun axis => !isMoved names axis.1 := by
  have axes : axesBesides names components =
      ((components.zip index).filter fun axis => !isMoved names axis.1).map (·.1) := by
    conv => lhs; rw [axesBesides, ← List.map_fst_zip (Nat.le_of_eq length), List.filter_map]
    rfl
  rw [axes, indexBesides, List.zip_map']
  exact List.map_id _

theorem indexNamed_besides {first second : List String} (apart : ∀ name ∈ second, name ∉ first) :
    indexNamed second (axesBesides first components) (indexBesides first components index) =
      indexNamed second components index := by
  rw [indexNamed, zip_besides length]
  refine List.filterMap_congr fun name member => ?_
  rw [find?_besides apart Prod.fst _ member]

theorem indexBesides_besides (first second : List String) :
    indexBesides second (axesBesides first components) (indexBesides first components index) =
      indexBesides (second ++ first) components index := by
  rw [indexBesides, zip_besides length, List.filter_filter, indexBesides]
  refine congrArg _ (List.filter_congr fun axis _ => ?_)
  rw [isMoved_append, Bool.not_or]

end Index

/-! ### Places and combinations -/

theorem combination_append {parts : List Labels} {index : List Nat}
    (length : parts.length = index.length) (more : List Labels) (rest : List Nat) :
    combination (parts ++ more) (index ++ rest) =
      combination parts index ++ combination more rest := by
  rw [combination, List.zip_append length, List.flatMap_append]
  rfl

theorem combination_singleton (labels : Labels) (i : Nat) :
    combination [labels] [i] = labels.rows[i]?.getD [] := by
  simp [combination]

section Level

variable {first second : List String} {block mid result : Block}
  (inner : FlattenedLevel first block mid) (apart : ∀ name ∈ second, name ∉ first)

include inner

theorem FlattenedLevel.propertyParts_eq (apart : ∀ name ∈ second, name ∉ first) :
    propertyParts second mid = axesNamed second block.components ++ [mid.properties] := by
  rw [propertyParts, inner.components, axesNamed_besides apart]

include apart

/-- Two steps lead a value to the place where one leads it. -/
theorem movedCell_movedCell {cell : List Nat × Nat} (isCell : cell ∈ block.cells) :
    movedCell second mid (movedCell first block cell) = movedCell (second ++ first) block cell := by
  obtain ⟨within, _⟩ := isCell
  have length : block.components.length = cell.1.length := by
    rw [within.length_eq, List.length_map]
  have besides := indexBesides_besides length first second
  have named := indexNamed_besides length apart
  have place := offset_append_prod (within_indexNamed within second)
    ((propertyParts first block).map Labels.count)
    (indexNamed first block.components cell.1 ++ [cell.2])
  refine Prod.ext ?_ ?_
  · simp only [movedCell]
    rw [inner.components, besides]
  · simp only [movedCell]
    rw [inner.propertyParts_eq apart, inner.components, named, List.map_append, List.map_singleton,
      inner.propertyCount, place, propertyParts_append, indexNamed_append, List.map_append,
      List.append_assoc]

theorem prod_count_propertyParts :
    ((propertyParts second mid).map Labels.count).prod =
      ((propertyParts (second ++ first) block).map Labels.count).prod := by
  rw [inner.propertyParts_eq apart, propertyParts_append, List.map_append, List.map_append,
    List.prod_append, List.prod_append, List.map_singleton, List.prod_singleton,
    inner.propertyCount]

/-- Outside the gradients, what is flattened in two steps is flattened. -/
theorem FlattenedLevel.trans (outer : FlattenedLevel second mid result) :
    FlattenedLevel (second ++ first) block result := by
  constructor
  case samples => exact outer.samples.trans inner.samples
  case components => rw [outer.components, inner.components, axesBesides_besides]
  case parameters => exact outer.parameters.trans inner.parameters
  case propertyNames => rw [outer.propertyNames, inner.propertyNames, List.append_assoc]
  case propertyCount => rw [outer.propertyCount, prod_count_propertyParts inner apart]
  case distinctRows => exact outer.distinctRows
  case propertyRows =>
    intro index within
    rw [propertyParts_append, List.map_append] at within
    obtain ⟨front, rest, rfl, within, within'⟩ := within.exists_append
    -- the parts of the first step are seen as one, the properties of the block between the steps
    have inside := offset_lt within'
    rw [← inner.propertyCount] at inside
    have row := outer.propertyRows
      (front ++ [offset ((propertyParts first block).map Labels.count) rest]) <| by
        rw [inner.propertyParts_eq apart, List.map_append]
        exact within.append (.cons inside .nil)
    have length : (axesNamed second block.components).length = front.length := by
      rw [within.length_eq, List.length_map]
    rw [inner.propertyParts_eq apart, combination_append length, combination_singleton,
      inner.propertyRows rest within', Option.getD_some, List.map_append, List.map_singleton,
      inner.propertyCount, offset_append_prod within] at row
    rw [propertyParts_append, List.map_append, row, combination_append length]
  case moves =>
    exact (outer.moves.comp inner.moves).congr fun cell isCell =>
      movedCell_movedCell inner apart isCell
  case values =>
    intro sample inside cell isCell
    obtain ⟨value, here, there⟩ := inner.values sample inside cell isCell
    obtain ⟨value', here', there'⟩ :=
      outer.values sample (inner.samples ▸ inside) _ (inner.moves.mapsTo isCell)
    obtain rfl := Option.some.inj (there.symm.trans here')
    rw [movedCell_movedCell inner apart isCell] at there'
    exact ⟨value, here, there'⟩

end Level

theorem Flattened.level {names : List String} {block result : Block}
    (h : Flattened names block result) : FlattenedLevel names block result := by
  cases h with
  | intro level _ => exact level

theorem Flattened.inner {names : List String} {block result gradient flat : Block}
    {parameter : String} (h : Flattened names block result)
    (member : (parameter, gradient) ∈ block.gradients)
    (member' : (parameter, flat) ∈ result.gradients) : Flattened names gradient flat := by
  cases h with
  | intro _ deeper => exact deeper parameter gradient flat member member'

/-- There is a gradient for each of the parameters. -/
theorem exists_mem_gradients {block : Block} {parameter : String}
    (has : parameter ∈ block.parameters) : ∃ gradient, (parameter, gradient) ∈ block.gradients := by
  obtain ⟨⟨_, gradient⟩, member, rfl⟩ := List.mem_map.mp has
  exact ⟨gradient, member⟩

/-- What is flattened in two steps is flattened, at every depth. -/
theorem Flattened.trans {first second : List String} {block mid result : Block}
    (inner : Flattened first block mid) (outer : Flattened second mid result)
    (apart : ∀ name ∈ second, name ∉ first) : Flattened (second ++ first) block result := by
  induction inner generalizing result with
  | @intro block mid level deeper ih =>
    refine .intro (level.trans apart outer.level) fun parameter gradient flat member member' => ?_
    have has : parameter ∈ mid.parameters := by
      rw [level.parameters]
      exact List.mem_map_of_mem (f := Prod.fst) member
    obtain ⟨between, isMid⟩ := exists_mem_gradients has
    exact ih parameter gradient between member isMid (outer.inner isMid member')

/-! ### There is only one result -/

/-- Blocks with the same labels have the same values if each of these is the same. -/
theorem WellFormed.values_eq_of_cells {a b : Block} (own : a.WellFormed) (own' : b.WellFormed)
    (samples : a.samples = b.samples) (components : a.components = b.components)
    (properties : a.properties = b.properties)
    (same : ∀ sample < a.samples.count, ∀ cell ∈ a.cells,
      a.entryAt sample cell.1 cell.2 = b.entryAt sample cell.1 cell.2) : a.values = b.values := by
  refine own.values_eq own' samples components properties fun n inside => ?_
  refine own.valueRow_eq own' components properties inside (samples ▸ inside) ?_
  intro c insideC q insideQ
  obtain ⟨index, within, rfl⟩ := exists_offset insideC
  have entries := same n inside (index, q) ⟨within, insideQ⟩
  rwa [entryAt, entryAt, ← components] at entries

/-- Outside the gradients, there is only one flattened block. -/
theorem FlattenedLevel.unique {names : List String} {block a b : Block}
    (h : FlattenedLevel names block a) (h' : FlattenedLevel names block b) (own : a.WellFormed)
    (own' : b.WellFormed) :
    a.samples = b.samples ∧ a.components = b.components ∧ a.properties = b.properties ∧
      a.values = b.values := by
  have samples := h.samples.trans h'.samples.symm
  have components := h.components.trans h'.components.symm
  have properties : a.properties = b.properties := by
    refine Labels.ext_iff.mpr ⟨h.propertyNames.trans h'.propertyNames.symm, ?_⟩
    refine List.ext_getElem ?_ fun place inside inside' => ?_
    · rw [← Labels.count_eq, ← Labels.count_eq, h.propertyCount, h'.propertyCount]
    · have small := inside
      rw [← Labels.count_eq, h.propertyCount] at small
      obtain ⟨index, within, rfl⟩ := exists_offset small
      have rows := (h.propertyRows index within).trans (h'.propertyRows index within).symm
      rwa [List.getElem?_eq_getElem inside, List.getElem?_eq_getElem inside', Option.some.injEq]
        at rows
  refine ⟨samples, components, properties, ?_⟩
  refine own.values_eq_of_cells own' samples components properties ?_
  intro sample inside cell isCell
  obtain ⟨old, isOld, rfl⟩ := h.moves.surjOn isCell
  rw [h.samples] at inside
  obtain ⟨value, here, there⟩ := h.values sample inside old isOld
  obtain ⟨value', here', there'⟩ := h'.values sample inside old isOld
  rw [there, there', ← here, ← here']

/-- There is only one flattened block. -/
theorem Flattened.unique {names : List String} {block a b : Block} (h : Flattened names block a)
    (h' : Flattened names block b) (consistent : a.Consistent) (consistent' : b.Consistent) :
    a = b := by
  induction h generalizing b with
  | @intro block a level deeper ih =>
    obtain ⟨samples, components, properties, values⟩ :=
      level.unique h'.level consistent.own consistent'.own
    have gradients : a.gradients = b.gradients := by
      refine gradients_eq (level.parameters.trans h'.level.parameters.symm) ?_
      intro parameter flat flat' member member'
      have has : parameter ∈ block.parameters := by
        rw [← level.parameters]
        exact List.mem_map_of_mem (f := Prod.fst) member
      obtain ⟨gradient, isOwn⟩ := exists_mem_gradients has
      exact ih parameter gradient flat isOwn member (h'.inner isOwn member')
        (consistent.inner member) (consistent'.inner member')
    rw [← Block.eta a, ← Block.eta b, values, samples, components, properties, gradients]

end LabeledBlocks.Block
