import LabeledBlocks.Proofs.Dense
import LabeledBlocks.Proofs.Groups

/-!
# Row-major order

An index has one position for every axis, and its place in row-major order is a number whose digits
are these positions, each with the length of its axis as base. When the axes of an array are walked
through in another order, every value is found again where the same positions, in that order, say.

* `offset` — the place of an index in row-major order.
* `offset_append_prod` — axes at the end can be seen as one.
* `exists_offset`, `offset_inj` — every place belongs to exactly one index.
* `exists_along`, `along_inj` — positions on axes in another order belong to exactly one index.
* `Dense.getElem?_valuesAlong` — where a value goes when the axes change places.
* `Dense.exists_valuesAlong` — the axes can be walked through in every order.
-/

namespace LabeledBlocks

/-! ### Places of indices -/

/-- The place of an index in the row-major order of axes with these lengths. -/
def offset : (shape index : List Nat) → Nat
  | _ :: shape, i :: index => i * shape.prod + offset shape index
  | _, _ => 0

/-- An index has one position on every axis. -/
abbrev Within (shape index : List Nat) : Prop :=
  List.Forall₂ (· < ·) index shape

theorem Within.append {shape index more rest : List Nat} (within : Within shape index)
    (further : Within more rest) : Within (shape ++ more) (index ++ rest) := by
  induction within with
  | nil => exact further
  | cons small _ ih => exact .cons small ih

theorem Within.exists_append {shape more index : List Nat} (within : Within (shape ++ more) index) :
    ∃ front rest, index = front ++ rest ∧ Within shape front ∧ Within more rest :=
  ⟨index.take shape.length, index.drop shape.length, (List.take_append_drop _ _).symm,
    List.forall₂_take_append _ _ _ within, List.forall₂_drop_append _ _ _ within⟩

theorem within_singleton {length : Nat} {index : List Nat} (within : Within [length] index) :
    ∃ i < length, index = [i] := by
  obtain ⟨i, rest, small, none, rfl⟩ := List.forall₂_cons_right_iff.mp within
  obtain rfl := List.forall₂_nil_right_iff.mp none
  exact ⟨i, small, rfl⟩

theorem offset_nil : offset [] [] = 0 :=
  rfl

theorem offset_cons (length i : Nat) (shape index : List Nat) :
    offset (length :: shape) (i :: index) = i * shape.prod + offset shape index :=
  rfl

/-- A place within the shape is a place in the array. -/
theorem offset_lt {shape index : List Nat} (within : Within shape index) :
    offset shape index < shape.prod := by
  induction within with
  | nil => exact Nat.one_pos
  | @cons i length index shape small _ ih =>
    have next : (i + 1) * shape.prod ≤ length * shape.prod := Nat.mul_le_mul_right _ small
    rw [offset_cons, List.prod_cons]
    rw [Nat.succ_mul] at next
    omega

/-- Places in a row-major order are places in the order of the outer axes, then of the inner ones.
-/
theorem offset_append {shape index : List Nat} (within : Within shape index)
    (more rest : List Nat) :
    offset (shape ++ more) (index ++ rest) = offset shape index * more.prod + offset more rest := by
  induction within with
  | nil => rw [List.nil_append, List.nil_append, offset_nil, Nat.zero_mul, Nat.zero_add]
  | cons _ _ ih =>
    rw [List.cons_append, List.cons_append, offset_cons, offset_cons, ih, List.prod_append,
      Nat.add_mul, Nat.mul_assoc, Nat.add_assoc]

theorem offset_singleton (length i : Nat) : offset [length] [i] = i := by
  rw [offset_cons, offset_nil, List.prod_nil, Nat.mul_one, Nat.add_zero]

/-- The axes at the end can be seen as one, on which the places of their indices are the
positions. -/
theorem offset_append_prod {shape index : List Nat} (within : Within shape index)
    (more rest : List Nat) :
    offset (shape ++ [more.prod]) (index ++ [offset more rest]) =
      offset (shape ++ more) (index ++ rest) := by
  rw [offset_append within, offset_append within, offset_singleton, List.prod_singleton]

/-- Every place belongs to an index. -/
theorem exists_offset {shape : List Nat} {place : Nat} (inside : place < shape.prod) :
    ∃ index, Within shape index ∧ offset shape index = place := by
  induction shape generalizing place with
  | nil =>
    rw [List.prod_nil] at inside
    exact ⟨[], .nil, by rw [offset_nil]; omega⟩
  | cons length shape ih =>
    rw [List.prod_cons] at inside
    have some : 0 < shape.prod := Nat.pos_of_ne_zero fun none => by simp [none] at inside
    obtain ⟨index, within, rest⟩ := ih (Nat.mod_lt place some)
    refine ⟨place / shape.prod :: index, .cons ?_ within, ?_⟩
    · exact Nat.div_lt_of_lt_mul (Nat.mul_comm length shape.prod ▸ inside)
    · rw [offset_cons, rest]
      exact Nat.div_add_mod' place shape.prod

/-- Different indices have different places. -/
theorem offset_inj {shape index index' : List Nat} (within : Within shape index)
    (within' : Within shape index') (same : offset shape index = offset shape index') :
    index = index' := by
  induction within generalizing index' with
  | nil => exact (List.forall₂_nil_right_iff.mp within').symm
  | @cons i length index shape _ further ih =>
    obtain ⟨i', rest, _, further', rfl⟩ := List.forall₂_cons_right_iff.mp within'
    rw [offset_cons, offset_cons] at same
    have small := offset_lt further
    have small' := offset_lt further'
    have some := Nat.zero_lt_of_lt small
    -- the rest stays below one step of the first axis, so division by that step gives its position
    have first : i = i' := by
      have digits := congrArg (· / shape.prod) same
      simpa only [Nat.mul_comm _ shape.prod, Nat.mul_add_div some, Nat.div_eq_of_lt small,
        Nat.div_eq_of_lt small', Nat.add_zero] using digits
    subst first
    rw [ih further' (Nat.add_left_cancel same)]

/-- An index can be given an axis in front and one at the end. -/
theorem offset_between {shape index : List Nat} (within : Within shape index)
    (length n last p : Nat) :
    offset (length :: (shape ++ [last])) (n :: (index ++ [p])) =
      (n * shape.prod + offset shape index) * last + p := by
  rw [offset_cons, offset_append within, offset_singleton, List.prod_append, List.prod_singleton,
    Nat.add_mul, Nat.mul_assoc, Nat.add_assoc]

/-! ### Axes in another order -/

/-- The positions of an index on some axes. -/
def along (order index : List Nat) : List Nat :=
  order.map fun axis => index[axis]?.getD 0

theorem along_append (order rest index : List Nat) :
    along (order ++ rest) index = along order index ++ along rest index :=
  List.map_append

theorem within_along {order shape index : List Nat} (inside : ∀ axis ∈ order, axis < shape.length)
    (within : Within shape index) : Within (along order shape) (along order index) := by
  rw [Within, along, along, List.forall₂_map_left_iff, List.forall₂_map_right_iff,
    List.forall₂_same]
  intro axis member
  have inside' : axis < index.length := within.length_eq ▸ inside axis member
  rw [List.getElem?_eq_getElem (inside axis member), List.getElem?_eq_getElem inside']
  exact within.get inside' (inside axis member)

section Along

variable {order shape : List Nat} (perm : order.Perm (List.range shape.length))

include perm

/-- An index is known by its positions on all axes, in whatever order. -/
theorem along_inj {index index' : List Nat} (within : Within shape index)
    (within' : Within shape index') (same : along order index = along order index') :
    index = index' := by
  have length : index.length = shape.length := within.length_eq
  have length' : index'.length = shape.length := within'.length_eq
  refine List.ext_getElem (length.trans length'.symm) fun axis inside inside' => ?_
  have member := perm.mem_iff.mpr (List.mem_range.mpr (length ▸ inside))
  have here := List.map_inj_left.mp same axis member
  rwa [List.getElem?_eq_getElem inside, List.getElem?_eq_getElem inside'] at here

/-- Positions on all axes in another order belong to an index. -/
theorem exists_along {positions : List Nat} (within : Within (along order shape) positions) :
    ∃ index, Within shape index ∧ along order index = positions := by
  have nodup : order.Nodup := perm.nodup_iff.mpr List.nodup_range
  have length : positions.length = order.length := by
    rw [within.length_eq, along, List.length_map]
  -- every axis has one place in the order, and its position stands there
  let index := (List.range shape.length).map fun axis => positions[order.idxOf axis]?.getD 0
  have stands : ∀ axis ∈ order, index[axis]? = some (positions[order.idxOf axis]?.getD 0) := by
    intro axis member
    rw [List.getElem?_map, List.getElem?_range (List.mem_range.mp (perm.mem_iff.mp member)),
      Option.map_some]
  refine ⟨index, ?_, ?_⟩
  · rw [Within, List.forall₂_iff_get]
    refine ⟨by rw [List.length_map, List.length_range], fun axis inside inside' => ?_⟩
    have member := perm.mem_iff.mpr (List.mem_range.mpr inside')
    have place := List.idxOf_lt_length_of_mem member
    have small := within.get (length ▸ place) (by rwa [along, List.length_map])
    rw [List.get_eq_getElem, List.get_eq_getElem]
    have found := stands axis member
    rw [List.getElem?_eq_getElem inside, Option.some.injEq] at found
    rw [found, List.getElem?_eq_getElem (length ▸ place), Option.getD_some]
    simpa only [along, List.get_eq_getElem, List.getElem_map, List.getElem_idxOf,
      List.getElem?_eq_getElem inside', Option.getD_some] using small
  · refine List.ext_getElem (by rw [along, List.length_map, length]) fun i inside inside' => ?_
    rw [along, List.length_map] at inside
    simp only [along, List.getElem_map]
    rw [stands _ (List.getElem_mem inside), nodup.idxOf_getElem, Option.getD_some,
      List.getElem?_eq_getElem inside', Option.getD_some]

end Along

/-- The order of the axes when those between the first and the last stand in this order. -/
def between (order : List Nat) (rank : Nat) : List Nat :=
  0 :: (order.map (· + 1) ++ [rank + 1])

theorem between_perm {order : List Nat} {rank : Nat} (perm : order.Perm (List.range rank)) :
    (between order rank).Perm (List.range (rank + 2)) := by
  rw [List.range_succ, List.range_succ_eq_map]
  exact ((perm.map _).append_right _).cons 0

/-- The first position and the last one stay where they are. -/
theorem along_between {order index : List Nat} (inside : ∀ axis ∈ order, axis < index.length)
    (first last : Nat) :
    along (between order index.length) (first :: (index ++ [last])) =
      first :: (along order index ++ [last]) := by
  have inner : ∀ axis ∈ order, (index ++ [last])[axis]?.getD 0 = index[axis]?.getD 0 := by
    intro axis member
    rw [List.getElem?_append_left (inside axis member)]
  rw [along, between, List.map_cons, List.map_append, List.map_map]
  simp only [Function.comp_def, List.getElem?_cons_zero, List.getElem?_cons_succ]
  rw [List.map_congr_left inner, List.map_singleton, List.getElem?_cons_succ,
    List.getElem?_concat_length]
  rfl

/-! ### Walking through the axes -/

namespace Dense

/-- Where an index leads to along axes with these strides. -/
def reach (strides index : List Nat) : Nat :=
  (index.zipWith (· * ·) strides).sum

/-- The positions are walked through in the row-major order of their indices. -/
theorem getElem?_steps {axes : List (Nat × Nat)} {index : List Nat}
    (within : Within (axes.map (·.1)) index) :
    (steps axes)[offset (axes.map (·.1)) index]? = some (reach (axes.map (·.2)) index) := by
  induction axes generalizing index with
  | nil =>
    cases within
    rfl
  | cons axis axes ih =>
    obtain ⟨i, rest, small, further, rfl⟩ := List.forall₂_cons_right_iff.mp within
    have runs : ∀ run ∈ (List.range axis.1).map fun i => (steps axes).map (i * axis.2 + ·),
        run.length = (axes.map (·.1)).prod := by
      intro run member
      obtain ⟨i, _, rfl⟩ := List.mem_map.mp member
      rw [List.length_map, length_steps]
    rw [steps, List.flatMap_def, List.map_cons, offset_cons,
      getElem?_flatten_runs runs (offset_lt further), List.getElem?_map,
      List.getElem?_range small, Option.map_some, Option.bind_some, List.getElem?_map, ih further]
    rfl

theorem length_strides (shape : List Nat) : (strides shape).length = shape.length := by
  induction shape with
  | nil => rfl
  | cons _ shape ih => rw [strides, List.length_cons, List.length_cons, ih]

/-- Along its own axes an index leads to its place. -/
theorem reach_strides {shape index : List Nat} (within : Within shape index) :
    reach (strides shape) index = offset shape index := by
  induction within with
  | nil => rfl
  | cons _ _ ih =>
    rw [strides, offset_cons, ← ih]
    rfl

def strideAt (array : Dense) (axis : Nat) : Nat :=
  (strides array.shape)[axis]?.getD 0

theorem strideAt_eq {array : Dense} {i : Nat} {found : Nat × Nat} (h : array.axis i = .ok found) :
    found.2 = array.strideAt i := by
  unfold axis at h
  split at h
  · rename_i known
    obtain rfl := Except.ok.inj h
    rw [strideAt, (List.getElem?_zip_eq_some.mp known).2, Option.getD_some]
  · cases h

theorem map_snd_axes {array : Dense} {order : List Nat} {axes : List (Nat × Nat)}
    (h : order.mapM array.axis = .ok axes) : axes.map (·.2) = order.map array.strideAt :=
  (map_eq_map_of_forall₂ (mapM_eq_ok.mp h) fun _ _ found => (strideAt_eq found).symm).symm

section Order

variable {array : Dense} {order index : List Nat}
  (perm : order.Perm (List.range array.shape.length)) (within : Within array.shape index)

include perm within

/-- An index leads to the same place whatever the order of the axes is. -/
theorem reach_along : reach (order.map array.strideAt) (along order index) =
    offset array.shape index := by
  have all : index.zipWith (· * ·) (strides array.shape) =
      (List.range array.shape.length).map fun axis =>
        index[axis]?.getD 0 * array.strideAt axis := by
    have length : index.length = array.shape.length := within.length_eq
    refine List.ext_getElem ?_ fun axis inside _ => ?_
    · rw [List.length_zipWith, length_strides, List.length_map, List.length_range, length,
        Nat.min_self]
    · rw [List.length_zipWith, Nat.lt_min] at inside
      rw [List.getElem_zipWith, List.getElem_map, List.getElem_range, strideAt,
        List.getElem?_eq_getElem inside.1, List.getElem?_eq_getElem inside.2]
      rfl
  rw [← reach_strides within, reach, reach, along, all, List.zipWith_map, List.zipWith_self]
  exact (perm.map _).sum_nat

/-- When the axes are walked through in another order, a value is found where the positions of its
index in that order say. -/
theorem getElem?_valuesAlong {data : Array FloatBits} (h : array.valuesAlong order = .ok data) :
    ∃ value, array.data[offset array.shape index]? = some value ∧
      data[offset (along order array.shape) (along order index)]? = some value := by
  obtain ⟨axes, found, h⟩ := bind_eq_ok.mp h
  obtain ⟨values, looked, h⟩ := bind_eq_ok.mp h
  obtain rfl := pure_eq_ok.mp h
  have within' := within_along (fun _ member => List.mem_range.mp (perm.mem_iff.mp member)) within
  have lengths : axes.map (·.1) = along order array.shape := map_fst_axes found
  rw [← lengths] at within' ⊢
  have stands := getElem?_steps within'
  rw [map_snd_axes found, reach_along perm within, ← walk_eq_steps] at stands
  obtain ⟨value, copied, read⟩ := exists_getElem?_right (mapM_eq_ok.mp looked) stands
  refine ⟨value, ?_, by rw [List.getElem?_toArray, copied]⟩
  unfold Dense.value at read
  split at read
  · rename_i here
    rw [here, Except.ok.inj read]
  · cases read

end Order

theorem exists_axis {array : Dense} {i : Nat} (inside : i < array.shape.length) :
    ∃ found, array.axis i = .ok found := by
  have inside' : i < (array.shape.zip (strides array.shape)).length := by
    rwa [List.length_zip, length_strides, Nat.min_self]
  exact ⟨_, by rw [axis, List.getElem?_eq_getElem inside']⟩

/-- The axes of an array can be walked through in every order, and no step leads out of it. -/
theorem exists_valuesAlong {array : Dense} {order : List Nat}
    (perm : order.Perm (List.range array.shape.length)) (filled : array.Filled) :
    ∃ data, array.valuesAlong order = .ok data := by
  have known : ∀ i ∈ order, ∃ found, array.axis i = .ok found := fun i member =>
    exists_axis (List.mem_range.mp (perm.mem_iff.mp member))
  obtain ⟨axes, found⟩ := exists_forall₂ known
  have found := mapM_eq_ok.mpr found
  have lengths : axes.map (·.1) = along order array.shape := map_fst_axes found
  have read : ∀ position ∈ walk axes, ∃ value, array.value position = .ok value := by
    intro position member
    rw [walk_eq_steps] at member
    -- a step is reached by positions on the axes, and these belong to an index of the array
    obtain ⟨place, inside, rfl⟩ := List.mem_iff_getElem.mp member
    have small := inside
    rw [length_steps] at small
    obtain ⟨positions, within, rfl⟩ := exists_offset small
    have stands := getElem?_steps within
    rw [List.getElem?_eq_getElem inside, Option.some.injEq] at stands
    obtain ⟨index, whole, rfl⟩ := exists_along perm (lengths ▸ within)
    have reached := offset_lt whole
    rw [map_snd_axes found, reach_along perm whole] at stands
    rw [← stands, ← filled] at reached
    exact ⟨_, by rw [value, Array.getElem?_eq_getElem reached]⟩
  obtain ⟨values, looked⟩ := exists_forall₂ read
  exact ⟨values.toArray,
    bind_eq_ok.mpr ⟨axes, found, bind_eq_ok.mpr ⟨values, mapM_eq_ok.mpr looked, rfl⟩⟩⟩

end Dense

end LabeledBlocks
