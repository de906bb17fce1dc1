import LabeledBlocks.Proofs.Block.Flatten
import LabeledBlocks.Proofs.Block.Widens
import LabeledBlocks.Proofs.RowMajor
import Mathlib.Data.Set.Function

/-!
# Where values go when components are flattened

The component axes that move are found by the names of their dimensions. They make the new
properties together with the old ones: all combinations of a row of each of these axes, in the order
of the names, and an old property, the first slowest. A value keeps its sample and its positions on
the other axes, and stands below the property that is made of the rows it has left.

* `Block.Flattened` — how a flattened block holds the values of a block, at every depth.
* `Block.getElem?_products` — where a combination of rows stands.
* `Block.flattened_flattenAxes` — blocks are flattened like this.
-/

namespace LabeledBlocks.Block

/-! ### Axes by name -/

/-- Is one of these names the single dimension of the axis? -/
def isMoved (names : List String) (labels : Labels) : Bool :=
  names.any fun name => labels.names == [name]

/-- The axes with these names, in the order of the names. -/
def axesNamed (names : List String) (components : List Labels) : List Labels :=
  names.filterMap fun name => components.find? fun labels => labels.names == [name]

/-- The positions of an index on the axes with these names, in the order of the names. -/
def indexNamed (names : List String) (components : List Labels) (index : List Nat) : List Nat :=
  names.filterMap fun name =>
    ((components.zip index).find? fun axis => axis.1.names == [name]).map (·.2)

def axesBesides (names : List String) (components : List Labels) : List Labels :=
  components.filter fun labels => !isMoved names labels

/-- The positions of an index on the axes with other names. -/
def indexBesides (names : List String) (components : List Labels) (index : List Nat) :
    List Nat :=
  ((components.zip index).filter fun axis => !isMoved names axis.1).map (·.2)

def combination (parts : List Labels) (index : List Nat) : Row :=
  (parts.zip index).flatMap fun part => part.1.rows[part.2]?.getD []

/-! ### Flattened blocks -/

/-- The value of a sample at an index of the components, for one property. -/
def entryAt (block : Block) (sample : Nat) (index : List Nat) (property : Nat) :
    Option FloatBits :=
  block.valueAt sample (offset (block.components.map Labels.count) index) property

/-- What a property is made of: the axes with these names, and an old property. -/
def propertyParts (names : List String) (block : Block) : List Labels :=
  axesNamed names block.components ++ [block.properties]

/-- Where the values of a sample stand: an index of the components and a property. -/
def cells (block : Block) : Set (List Nat × Nat) :=
  {cell | Within (block.components.map Labels.count) cell.1 ∧
    cell.2 < block.properties.count}

def movedCell (names : List String) (block : Block) (cell : List Nat × Nat) : List Nat × Nat :=
  (indexBesides names block.components cell.1,
    offset ((propertyParts names block).map Labels.count)
      (indexNamed names block.components cell.1 ++ [cell.2]))

/-- How a flattened block holds the values of a block, as far as the gradients are left out of
account. -/
structure FlattenedLevel (names : List String) (block result : Block) : Prop where
  samples : result.samples = block.samples
  components : result.components = axesBesides names block.components
  parameters : result.parameters = block.parameters
  propertyNames : result.properties.names = names ++ block.properties.names
  propertyCount : result.properties.count = ((propertyParts names block).map Labels.count).prod
  propertyRows : ∀ index, Within ((propertyParts names block).map Labels.count) index →
    result.properties.rows[offset ((propertyParts names block).map Labels.count) index]? =
      some (combination (propertyParts names block) index)
  distinctRows : result.properties.rows.Nodup
  moves : Set.BijOn (movedCell names block) block.cells result.cells
  values : ∀ sample < block.samples.count, ∀ cell ∈ block.cells, ∃ value,
    block.entryAt sample cell.1 cell.2 = some value ∧
      result.entryAt sample (movedCell names block cell).1 (movedCell names block cell).2 =
        some value

/-- The block is flattened, and so are its gradients, which stay for the same parameters. -/
inductive Flattened (names : List String) : Block → Block → Prop where
  | intro {block result : Block} (level : FlattenedLevel names block result)
      (deeper : ∀ parameter gradient flat, (parameter, gradient) ∈ block.gradients →
        (parameter, flat) ∈ result.gradients → Flattened names gradient flat) :
      Flattened names block result

/-! ### Where combinations stand -/

/-- Combinations of rows stand in the row-major order of the positions of the rows. -/
theorem getElem?_products {parts : List Labels} {index : List Nat}
    (within : Within (parts.map Labels.count) index) :
    (products parts)[offset (parts.map Labels.count) index]? = some (combination parts index) := by
  induction parts generalizing index with
  | nil =>
    cases within
    rfl
  | cons labels parts ih =>
    obtain ⟨i, rest, small, further, rfl⟩ := List.forall₂_cons_right_iff.mp within
    have runs : ∀ run ∈ labels.rows.map fun row => (products parts).map (row ++ ·),
        run.length = (parts.map Labels.count).prod := by
      intro run member
      obtain ⟨row, _, rfl⟩ := List.mem_map.mp member
      rw [List.length_map, length_products]
    have inside : i < labels.rows.length := labels.count_eq ▸ small
    rw [products, List.flatMap_def, List.map_cons, offset_cons,
      getElem?_flatten_runs runs (offset_lt further), List.getElem?_map,
      List.getElem?_eq_getElem inside, Option.map_some, Option.bind_some, List.getElem?_map,
      ih further]
    simp [combination, inside]

/-! ### Finding axes by name -/

/-- The axes at these positions have these names. -/
def Standing (names : List String) (axes : List Nat) (components : List Labels) : Prop :=
  List.Forall₂ (fun name axis => ∃ labels, components[axis]? = some labels ∧ labels.names = [name])
    names axes

/-- The axes that are found have the names, and none is found twice. -/
theorem componentAxes_eq_ok {block : Block} {earlier axes : List Nat} {names : List String}
    (h : block.componentAxes earlier names = .ok axes) :
    Standing names axes block.components ∧ axes.Nodup ∧ ∀ axis ∈ axes, axis ∉ earlier := by
  induction names generalizing earlier axes with
  | nil =>
    rw [componentAxes, Except.ok.injEq] at h
    subst h
    exact ⟨.nil, List.nodup_nil, fun _ member => absurd member List.not_mem_nil⟩
  | cons name names ih =>
    rw [componentAxes] at h
    split at h
    · cases h
    · rename_i axis found
      obtain ⟨once, h⟩ := refused_eq_ok.mp h
      obtain ⟨rest, further, rfl⟩ := map_eq_ok.mp h
      obtain ⟨standing, nodup, new⟩ := ih further
      obtain ⟨inside, named, _⟩ := List.findIdx?_eq_some_iff_getElem.mp found
      have here : block.components[axis].names = [name] := beq_iff_eq.mp named
      simp only [List.mem_cons, not_or] at new
      refine ⟨.cons ⟨_, List.getElem?_eq_getElem inside, here⟩ standing,
        List.nodup_cons.mpr ⟨fun member => (new axis member).1 rfl, nodup⟩, ?_⟩
      rw [List.forall_mem_cons]
      exact ⟨once, fun other member => (new other member).2⟩

def unmoved (axes : List Nat) (rank : Nat) : List Nat :=
  (List.range rank).filter (· ∉ axes)

section Distinct

variable {components : List Labels} (distinct : (componentNames components).Nodup)

include distinct

/-- Different axes have different names. -/
theorem axis_unique {i j : Nat} {labels labels' : Labels} {name : String}
    (here : components[i]? = some labels) (there : components[j]? = some labels')
    (named : name ∈ labels.names) (named' : name ∈ labels'.names) : i = j := by
  obtain ⟨inside, rfl⟩ := List.getElem?_eq_some_iff.mp here
  obtain ⟨inside', rfl⟩ := List.getElem?_eq_some_iff.mp there
  have apart := List.pairwise_iff_getElem.mp (List.nodup_flatMap.mp distinct).2
  rcases Nat.lt_trichotomy i j with before | same | after
  · exact absurd named' (apart i j inside inside' before named)
  · exact same
  · exact absurd named (apart j i inside' inside after named')

/-- An axis is found by its name, whatever stands next to it. -/
theorem find?_named {α : Type} (labelsOf : α → Labels) {l : List α}
    (maps : l.map labelsOf = components) {axis : Nat} {a : α} {name : String}
    (found : l[axis]? = some a) (named : (labelsOf a).names = [name]) :
    l.find? (fun b => (labelsOf b).names == [name]) = some a := by
  have labelled : ∀ (i : Nat) b, l[i]? = some b → components[i]? = some (labelsOf b) := by
    intro i b here
    rw [← maps, List.getElem?_map, here, Option.map_some]
  apply find?_eq_of_unique found (by simp [named])
  intro i b here same
  have named' : name ∈ (labelsOf b).names := by simp [beq_iff_eq.mp same]
  exact axis_unique distinct (labelled i b here) (labelled axis a found) named' (by simp [named])

end Distinct

section Standing

variable {names : List String} {axes : List Nat} {components : List Labels}
  (standing : Standing names axes components)

include standing

theorem lt_of_standing {axis : Nat} (member : axis ∈ axes) : axis < components.length := by
  obtain ⟨_, _, _, found, _⟩ := exists_of_mem_right standing member
  exact (List.getElem?_eq_some_iff.mp found).1

/-- Every axis either stays or moves. -/
theorem unmoved_append_perm (nodup : axes.Nodup) :
    (unmoved axes components.length ++ axes).Perm (List.range components.length) := by
  have moved : axes.Perm ((List.range components.length).filter (· ∈ axes)) := by
    rw [List.perm_ext_iff_of_nodup nodup (List.nodup_range.filter _)]
    intro axis
    simp only [List.mem_filter, List.mem_range, decide_eq_true_eq, iff_and_self]
    exact lt_of_standing standing
  have parted := List.filter_append_perm (· ∈ axes) (List.range components.length)
  simp only [← decide_not] at parted
  exact ((moved.append_left _).trans List.perm_append_comm).trans parted

variable (distinct : (componentNames components).Nodup)

include distinct

/-- Different axes stand under different names. -/
theorem nodup_names_of_standing (nodup : axes.Nodup) : names.Nodup := by
  induction standing with
  | nil => exact List.nodup_nil
  | @cons name axis names axes here rest ih =>
    obtain ⟨new, nodup⟩ := List.nodup_cons.mp nodup
    refine List.nodup_cons.mpr ⟨fun again => new ?_, ih nodup⟩
    obtain ⟨labels, found, named⟩ := here
    obtain ⟨other, paired, labels', found', named'⟩ := exists_mem_zip_of_mem_left rest again
    have isName : name ∈ labels.names := by simp [named]
    obtain rfl := axis_unique distinct found found' isName (by simp [named'])
    exact (List.of_mem_zip paired).2

theorem axesNamed_standing :
    List.Forall₂ (fun axis labels => components[axis]? = some labels) axes
      (axesNamed names components) := by
  induction standing with
  | nil => exact .nil
  | cons here _ ih =>
    obtain ⟨labels, found, named⟩ := here
    have first := find?_named distinct id (List.map_id _) found named
    simp only [axesNamed, List.filterMap_cons, id_eq] at first ih ⊢
    rw [first]
    exact .cons found ih

/-- The axes that move are those with the names. -/
theorem isMoved_eq {axis : Nat} {labels : Labels} (found : components[axis]? = some labels) :
    isMoved names labels = decide (axis ∈ axes) := by
  rw [Bool.eq_iff_iff, isMoved, List.any_eq_true, decide_eq_true_eq]
  constructor
  · rintro ⟨name, member, same⟩
    obtain ⟨other, paired, labels', found', named⟩ := exists_mem_zip_of_mem_left standing member
    have here : name ∈ labels.names := by simp [beq_iff_eq.mp same]
    obtain rfl := axis_unique distinct found found' here (by simp [named])
    exact (List.of_mem_zip paired).2
  · intro member
    obtain ⟨name, isName, labels', found', named⟩ := exists_of_mem_right standing member
    obtain rfl := Option.some.inj (found.symm.trans found')
    exact ⟨name, isName, beq_iff_eq.mpr named⟩

theorem axesBesides_eq :
    axesBesides names components =
      (components.zipIdx.filter fun entry => entry.2 ∉ axes).map (·.1) := by
  conv => lhs; rw [axesBesides, ← List.zipIdx_map_fst 0 components, List.filter_map]
  refine congrArg _ (List.filter_congr fun entry member => ?_)
  have found := List.mem_zipIdx_iff_getElem?.mp member
  simp [isMoved_eq standing distinct found]

theorem map_count_axesBesides :
    (axesBesides names components).map Labels.count =
      along (unmoved axes components.length) (components.map Labels.count) := by
  have kept : ∀ axis labels, components[axis]? = some labels →
      (!isMoved names labels) = decide (axis ∉ axes) := by
    intro axis labels found
    simp [isMoved_eq standing distinct found]
  rw [axesBesides, map_filter_eq_of_positions kept Labels.count 0]
  simp only [along, unmoved, List.getElem?_map]

theorem map_count_axesNamed :
    (axesNamed names components).map Labels.count =
      along axes (components.map Labels.count) := by
  symm
  apply map_eq_map_of_forall₂ (axesNamed_standing standing distinct)
  intro axis labels found
  rw [List.getElem?_map, found]
  rfl

variable {index : List Nat} (length : index.length = components.length)

include length

theorem indexBesides_eq :
    indexBesides names components index = along (unmoved axes components.length) index := by
  have kept : ∀ axis entry, (components.zip index)[axis]? = some entry →
      (!isMoved names entry.1) = decide (axis ∉ axes) := by
    intro axis entry found
    simp [isMoved_eq standing distinct (List.getElem?_zip_eq_some.mp found).1]
  have positions : ∀ axis : Nat,
      (components.zip index)[axis]?.map (·.2) = index[axis]? := by
    intro axis
    rw [← List.getElem?_map, List.map_snd_zip (Nat.le_of_eq length)]
  rw [indexBesides, map_filter_eq_of_positions kept (·.2) 0, List.length_zip, length, Nat.min_self]
  simp only [along, unmoved, positions]

theorem indexNamed_eq : indexNamed names components index = along axes index := by
  have maps : (components.zip index).map (·.1) = components :=
    List.map_fst_zip (Nat.le_of_eq length.symm)
  induction standing with
  | nil => rfl
  | @cons name axis names axes here _ ih =>
    obtain ⟨labels, found, named⟩ := here
    have inside : axis < index.length := length ▸ (List.getElem?_eq_some_iff.mp found).1
    have paired : (components.zip index)[axis]? = some (labels, index[axis]) :=
      List.getElem?_zip_eq_some.mpr ⟨found, List.getElem?_eq_getElem inside⟩
    have first := find?_named distinct Prod.fst maps paired named
    simp only [indexNamed, along, List.filterMap_cons, List.map_cons] at ih ⊢
    rw [first, List.getElem?_eq_getElem inside]
    exact congrArg _ ih

end Standing

/-! ### Values of flattened blocks -/

theorem WellFormed.entryAt_eq {block : Block} (wellFormed : block.WellFormed) {index : List Nat}
    (within : Within (block.components.map Labels.count) index) (n p : Nat) :
    block.entryAt n index p =
      block.values.data[offset block.values.shape (n :: (index ++ [p]))]? := by
  rw [wellFormed.shape, labelledShape, offset_between within]
  rfl

/-- The properties of the result are all choices of a row from each of their parts, and valid
labels. -/
theorem mem_flattenedProperties {block : Block} {names : List String} {axes : List Nat}
    {properties : Labels} (standing : Standing names axes block.components)
    (distinct : (componentNames block.components).Nodup)
    (h : block.flattenedProperties names axes = .ok properties) :
    properties.names = names ++ block.properties.names ∧
      properties.rows = products (propertyParts names block) ∧ properties.Valid := by
  obtain ⟨moved, found, built⟩ := bind_eq_ok.mp h
  obtain ⟨⟨sameNames, rows⟩, valid⟩ := Labels.ofRows_eq_ok_iff.mp built
  have same : moved = axesNamed names block.components := by
    rw [← List.forall₂_eq_eq_eq]
    apply forall₂_of_common (componentsAt_eq_ok_iff.mp found) (axesNamed_standing standing distinct)
    intro axis _ labels labels' here there
    exact Option.some.inj (here.symm.trans there)
  exact ⟨sameNames, by rw [rows, combinations_eq_products, propertyParts, same], valid⟩

/-- The gradients of a block get the same properties. -/
theorem GradientOf.flattenedProperties_eq_ok {block gradient : Block} {parameter : String}
    (goes : GradientOf block parameter gradient) {names : List String} {axes : List Nat}
    {properties : Labels} (h : block.flattenedProperties names axes = .ok properties) :
    gradient.flattenedProperties names axes = .ok properties := by
  obtain ⟨moved, found, built⟩ := bind_eq_ok.mp h
  refine bind_eq_ok.mpr ⟨moved, ?_, goes.properties ▸ built⟩
  obtain ⟨more, extended⟩ := goes.components
  apply componentsAt_eq_ok_iff.mpr
  apply (componentsAt_eq_ok_iff.mp found).imp
  intro axis labels here
  rw [← extended, List.getElem?_append_left (List.getElem?_eq_some_iff.mp here).1, here]

/-- The axes of a block stand at the same positions in its gradients. -/
theorem Standing.gradient {block gradient : Block} {parameter : String}
    (goes : GradientOf block parameter gradient) {names : List String} {axes : List Nat}
    (standing : Standing names axes block.components) :
    Standing names axes gradient.components := by
  obtain ⟨more, extended⟩ := goes.components
  apply List.Forall₂.imp _ standing
  rintro name axis ⟨labels, here, named⟩
  refine ⟨labels, ?_, named⟩
  rw [← extended, List.getElem?_append_left (List.getElem?_eq_some_iff.mp here).1, here]

section Level

variable {names : List String} {axes : List Nat} {block result : Block}
  (standing : Standing names axes block.components)
  (distinct : (componentNames block.components).Nodup) (nodup : axes.Nodup)

theorem length_shape (wellFormed : block.WellFormed) :
    block.values.shape.length = block.components.length + 2 := by
  rw [wellFormed.shape, labelledShape]
  simp

theorem keptAxes_eq (wellFormed : block.WellFormed) :
    block.keptAxes axes = 0 :: (unmoved axes block.components.length).map (· + 1) := by
  have shifted : ∀ axis, axis + 1 ∈ axes.map (· + 1) ↔ axis ∈ axes := fun _ =>
    List.mem_map_of_injective Nat.succ_injective
  rw [keptAxes, unmoved, length_shape wellFormed, Nat.add_succ_sub_one, List.range_succ_eq_map,
    List.filter_cons_of_pos (by simp), List.filter_map]
  exact congrArg (0 :: List.map _ ·) (List.filter_congr fun axis _ => by
    simp only [Function.comp_apply, Nat.succ_eq_add_one, shifted])

theorem axisOrder_eq (wellFormed : block.WellFormed) :
    block.keptAxes axes ++ axes.map (· + 1) ++ [block.values.shape.length - 1] =
      between (unmoved axes block.components.length ++ axes) block.components.length := by
  rw [keptAxes_eq wellFormed, length_shape wellFormed, between, List.map_append]
  simp

include standing distinct

theorem within_indexBesides {index : List Nat}
    (within : Within (block.components.map Labels.count) index) :
    Within ((axesBesides names block.components).map Labels.count)
      (indexBesides names block.components index) := by
  have length : index.length = block.components.length := by
    rw [within.length_eq, List.length_map]
  rw [map_count_axesBesides standing distinct, indexBesides_eq standing distinct length]
  apply within_along _ within
  intro axis member
  rw [List.length_map]
  exact List.mem_range.mp (List.mem_of_mem_filter member)

theorem within_propertyParts {index : List Nat} {p : Nat}
    (within : Within (block.components.map Labels.count) index)
    (small : p < block.properties.count) :
    Within ((propertyParts names block).map Labels.count)
      (indexNamed names block.components index ++ [p]) := by
  have length : index.length = block.components.length := by
    rw [within.length_eq, List.length_map]
  rw [propertyParts, List.map_append, map_count_axesNamed standing distinct,
    indexNamed_eq standing distinct length]
  apply Within.append _ (.cons small .nil)
  apply within_along _ within
  intro axis member
  rw [List.length_map]
  exact lt_of_standing standing member

/-- The positions on all axes, those on the axes that stay first. -/
theorem along_unmoved {index : List Nat}
    (within : Within (block.components.map Labels.count) index) :
    along (unmoved axes block.components.length ++ axes) index =
      indexBesides names block.components index ++ indexNamed names block.components index := by
  have length : index.length = block.components.length := by
    rw [within.length_eq, List.length_map]
  rw [along_append, indexBesides_eq standing distinct length,
    indexNamed_eq standing distinct length]

theorem along_unmoved_count :
    along (unmoved axes block.components.length ++ axes) (block.components.map Labels.count) =
      (axesBesides names block.components).map Labels.count ++
        (axesNamed names block.components).map Labels.count := by
  rw [along_append, map_count_axesBesides standing distinct, map_count_axesNamed standing distinct]

include nodup

/-- Old and new places of values are in bijection. -/
theorem bijOn_movedCell (components : result.components = axesBesides names block.components)
    (count : result.properties.count = ((propertyParts names block).map Labels.count).prod) :
    Set.BijOn (movedCell names block) block.cells result.cells := by
  have perm : (unmoved axes block.components.length ++ axes).Perm
      (List.range (block.components.map Labels.count).length) := by
    rw [List.length_map]
    exact unmoved_append_perm standing nodup
  refine ⟨?mapsTo, ?injOn, ?surjOn⟩
  case mapsTo =>
    rintro ⟨index, p⟩ ⟨within, small⟩
    constructor
    · rw [components]
      exact within_indexBesides standing distinct within
    · rw [count]
      exact offset_lt (within_propertyParts standing distinct within small)
  case injOn =>
    rintro ⟨index, p⟩ ⟨within, small⟩ ⟨index', p'⟩ ⟨within', small'⟩ same
    obtain ⟨besides, parts⟩ := Prod.mk.inj same
    have digits := offset_inj (within_propertyParts standing distinct within small)
      (within_propertyParts standing distinct within' small') parts
    obtain ⟨named, property⟩ := List.append_inj' digits rfl
    dsimp only at besides named within within'
    have equal : index = index' := by
      apply along_inj perm within within'
      rw [along_unmoved standing distinct within, along_unmoved standing distinct within', besides,
        named]
    exact Prod.ext equal (List.singleton_injective property)
  case surjOn =>
    rintro ⟨kept, q⟩ ⟨within, small⟩
    rw [components] at within
    rw [count] at small
    -- the new property tells the positions on the axes that moved, the old index is put together
    obtain ⟨digits, inside, rfl⟩ := exists_offset small
    rw [propertyParts, List.map_append] at inside
    obtain ⟨moved, last, rfl, within', single⟩ := inside.exists_append
    obtain ⟨p, smallP, rfl⟩ := within_singleton single
    have all := within.append within'
    rw [← along_unmoved_count standing distinct] at all
    obtain ⟨index, own, same⟩ := exists_along perm all
    have length := (within_indexBesides standing distinct own).length_eq.trans within.length_eq.symm
    rw [along_unmoved standing distinct own] at same
    obtain ⟨besides, named⟩ := List.append_inj same length
    refine ⟨(index, p), ⟨own, smallP⟩, ?_⟩
    rw [movedCell, besides, named]

/-- The whole index of a value in the order in which the axes are walked through. -/
theorem along_axisOrder {index : List Nat}
    (within : Within (block.components.map Labels.count) index) (n p : Nat) :
    along (between (unmoved axes block.components.length ++ axes) block.components.length)
        (n :: (index ++ [p])) =
      n :: (indexBesides names block.components index ++
        (indexNamed names block.components index ++ [p])) := by
  have rank : block.components.length = index.length := by
    rw [within.length_eq, List.length_map]
  have inside : ∀ axis ∈ unmoved axes block.components.length ++ axes, axis < index.length :=
    fun axis member => rank ▸
      List.mem_range.mp ((unmoved_append_perm standing nodup).mem_iff.mp member)
  rw [← List.append_assoc, ← along_unmoved standing distinct within, ← along_between inside, rank]

/-- The lengths of the axes in their new order: those that stay, then the parts of a property. -/
theorem along_axisOrder_shape (samples : Nat) :
    along (between (unmoved axes block.components.length ++ axes) block.components.length)
        (samples :: (block.components.map Labels.count ++ [block.properties.count])) =
      samples :: ((axesBesides names block.components).map Labels.count ++
        (propertyParts names block).map Labels.count) := by
  have rank : block.components.length = (block.components.map Labels.count).length := by
    rw [List.length_map]
  have inside : ∀ axis ∈ unmoved axes block.components.length ++ axes,
      axis < (block.components.map Labels.count).length := fun axis member => rank ▸
    List.mem_range.mp ((unmoved_append_perm standing nodup).mem_iff.mp member)
  rw [propertyParts, List.map_append, List.map_singleton, ← List.append_assoc,
    ← along_unmoved_count standing distinct, ← along_between inside, ← rank]

/-- A value is found at its new place. -/
theorem values_flattened (wellFormed : block.WellFormed)
    (components : result.components = axesBesides names block.components)
    (count : result.properties.count = ((propertyParts names block).map Labels.count).prod)
    (copied : block.values.valuesAlong (block.keptAxes axes ++ axes.map (· + 1) ++
      [block.values.shape.length - 1]) = .ok result.values.data) :
    ∀ sample < block.samples.count, ∀ cell ∈ block.cells, ∃ value,
      block.entryAt sample cell.1 cell.2 = some value ∧
        result.entryAt sample (movedCell names block cell).1 (movedCell names block cell).2 =
          some value := by
  rintro n insideN ⟨index, p⟩ ⟨within, small⟩
  have shape : block.values.shape =
      block.samples.count :: (block.components.map Labels.count ++ [block.properties.count]) :=
    wellFormed.shape
  have whole : Within block.values.shape (n :: (index ++ [p])) := by
    rw [shape]
    exact .cons insideN (within.append (.cons small .nil))
  have perm : (between (unmoved axes block.components.length ++ axes)
      block.components.length).Perm (List.range block.values.shape.length) := by
    rw [shape]
    simpa using between_perm (unmoved_append_perm standing nodup)
  rw [axisOrder_eq wellFormed] at copied
  obtain ⟨value, here, there⟩ := Dense.getElem?_valuesAlong perm whole copied
  refine ⟨value, (wellFormed.entryAt_eq within n p).trans here, ?_⟩
  -- the axes that move and the last one are seen as one axis, that of the new properties
  have besides := within_indexBesides standing distinct within
  have place := offset_append_prod (List.Forall₂.cons insideN besides)
    ((propertyParts names block).map Labels.count) (indexNamed names block.components index ++ [p])
  rw [List.cons_append, List.cons_append, offset_between besides] at place
  rw [shape, along_axisOrder standing distinct nodup within,
    along_axisOrder_shape standing distinct nodup, ← List.cons_append, ← List.cons_append,
    ← place] at there
  rw [entryAt, valueAt, componentSize, components, count]
  exact there

end Level

/-! ### Flattening at every depth -/

section Flatten

variable {names : List String} {axes : List Nat} {properties : Labels}

/-- Each gradient is flattened, for the same parameter. -/
theorem flattenGradientAxes_eq_ok {gradients : List (String × Block)} {result final : Block}
    (ordered : ((result.gradients ++ gradients).map (·.1)).Pairwise (· < ·))
    (h : flattenGradientAxes axes properties result gradients = .ok final) :
    ∃ added, final = { result with gradients := result.gradients ++ added } ∧
      List.Forall₂ (fun old new => new.1 = old.1 ∧ flattenAxes axes properties old.2 = .ok new.2)
        gradients added := by
  induction gradients generalizing result with
  | nil =>
    rw [flattenGradientAxes, Except.ok.injEq] at h
    subst h
    exact ⟨[], by rw [List.append_nil, eta], .nil⟩
  | cons entry gradients ih =>
    obtain ⟨parameter, gradient⟩ := entry
    simp only [flattenGradientAxes, bind_eq_ok] at h
    obtain ⟨flat, made, next, adds, rest⟩ := h
    obtain rfl := pure_eq_ok.mp (check_bind_eq_ok.mp adds).2
    have last : ∀ other ∈ result.gradients.map (·.1), other < parameter := by
      rw [List.map_append, List.map_cons, List.pairwise_append] at ordered
      exact fun other member => ordered.2.2 other member parameter List.mem_cons_self
    rw [insertGradient_eq_append last] at rest
    obtain ⟨added, rfl, further⟩ := ih (by simpa using ordered) rest
    exact ⟨(parameter, flat) :: added, by simp, .cons ⟨rfl, made⟩ further⟩

/-- A block is flattened with all its gradients. -/
theorem flattened_flattenAxes {block result : Block} (consistent : block.Consistent)
    (standing : Standing names axes block.components) (nodup : axes.Nodup)
    (combined : block.flattenedProperties names axes = .ok properties)
    (h : flattenAxes axes properties block = .ok result) : Flattened names block result := by
  induction consistent generalizing result with
  | @intro block own _ ih =>
    have distinct := own.distinctNames
    obtain ⟨kept, _, data, copied, bare, built, rest⟩ := flattenAxes_steps.mp h
    obtain ⟨_, _, _, rfl⟩ := ofValues_eq_ok_iff.mp built
    obtain ⟨added, rfl, flattened⟩ := flattenGradientAxes_eq_ok (by exact own.ordered) rest
    obtain ⟨propertyNames, rows, valid⟩ := mem_flattenedProperties standing distinct combined
    have components : block.keptComponents axes = axesBesides names block.components :=
      (axesBesides_eq standing distinct).symm
    have count : properties.count = ((propertyParts names block).map Labels.count).prod := by
      rw [properties.count_eq, rows, length_products]
    refine .intro ⟨rfl, components, ?parameters, propertyNames, count, ?propertyRows, valid.nodup,
      ?moves, ?values⟩ ?deeper
    case parameters =>
      exact (map_eq_map_of_forall₂ flattened fun _ _ made => made.1.symm).symm
    case propertyRows =>
      intro index within
      exact rows ▸ getElem?_products within
    case moves => exact bijOn_movedCell standing distinct nodup components count
    case values => exact values_flattened standing distinct nodup own components count copied
    case deeper =>
      intro parameter gradient flat member member'
      obtain ⟨⟨parameter', gradient'⟩, member'', same, made⟩ :=
        exists_of_mem_right flattened member'
      obtain rfl : parameter = parameter' := same
      have here := (gradient?_eq_some own.ordered).mpr member
      have here' := (gradient?_eq_some own.ordered).mpr member''
      obtain rfl := Option.some.inj (here.symm.trans here')
      have goes := own.gradients parameter gradient member
      exact ih parameter gradient member (standing.gradient goes)
        (goes.flattenedProperties_eq_ok combined) made

end Flatten

end LabeledBlocks.Block
