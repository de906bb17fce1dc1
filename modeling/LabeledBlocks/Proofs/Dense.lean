import LabeledBlocks.Dense
import LabeledBlocks.Proofs.Outcomes

/-!
# Arrays that hold what their shape says

However an array is made, it has one value for every position of its shape. When values are copied
out of an array, there are as many as were asked for, whatever the array holds.

* `Dense.Filled` — as many values as positions.
* `Dense.prod_le_span` — what the size is at most.
* `Dense.span_mono`, `Dense.span_last_mono` — longer axes span no less.
* `Dense.checkSpan_eq_ok_iff` — when there can be an array.
* `Dense.size_row`, `Dense.size_valuesAlong` — how many values are copied.
-/

namespace LabeledBlocks.Dense

/-- As many values as the shape has positions. -/
def Filled (array : Dense) : Prop :=
  array.data.size = array.shape.prod

instance : DecidablePred Filled := fun array =>
  inferInstanceAs (Decidable (array.data.size = array.shape.prod))

theorem filled_filled (shape : List Nat) (value : FloatBits) : (filled shape value).Filled :=
  Array.size_replicate

theorem filled_zeros (shape : List Nat) : (zeros shape).Filled :=
  filled_filled shape 0

theorem filled_ofValues {shape : List Nat} {values : Array FloatBits} {array : Dense}
    (h : ofValues shape values = .ok array) : array.Filled := by
  rw [ofValues, refused_eq_ok, refused_eq_ok, not_not, Except.ok.injEq] at h
  obtain ⟨enough, _, rfl⟩ := h
  exact enough

theorem bounded_ofValues {shape : List Nat} {values : Array FloatBits} {array : Dense}
    (h : ofValues shape values = .ok array) : span array.shape ≤ maxLength := by
  rw [ofValues, refused_eq_ok, refused_eq_ok, Except.ok.injEq] at h
  obtain ⟨_, small, rfl⟩ := h
  exact Nat.not_lt.mp small

/-! ### Empty axes left out of account -/

theorem span_pos (shape : List Nat) : 0 < span shape :=
  List.prod_pos_iff_forall_pos_nat.mpr fun _ member =>
    Nat.pos_of_ne_zero (of_decide_eq_true (List.mem_filter.mp member).2)

theorem span_cons {axis : Nat} (some : axis ≠ 0) (shape : List Nat) :
    span (axis :: shape) = axis * span shape := by
  simp [span, some]

theorem span_cons_zero (shape : List Nat) : span (0 :: shape) = span shape := by
  simp [span]

theorem span_append (shape more : List Nat) : span (shape ++ more) = span shape * span more := by
  rw [span, List.filter_append, List.prod_append, span, span]

/-- The order of the axes does not matter. -/
theorem span_perm {shape shape' : List Nat} (perm : shape.Perm shape') : span shape = span shape' :=
  (perm.filter _).prod_nat

/-- A longer axis never spans less, also in place of an empty one, and with longer axes behind it. -/
theorem span_mono {a b : Nat} (le : a ≤ b) {shape shape' : List Nat}
    (le' : span shape ≤ span shape') : span (a :: shape) ≤ span (b :: shape') := by
  rcases Nat.eq_zero_or_pos b with rfl | some
  · rwa [Nat.le_zero.mp le, span_cons_zero, span_cons_zero]
  rw [span_cons (Nat.ne_of_gt some)]
  rcases Nat.eq_zero_or_pos a with rfl | some'
  · rw [span_cons_zero]
    exact Nat.le_trans le' (Nat.le_mul_of_pos_left _ some)
  · rw [span_cons (Nat.ne_of_gt some')]
    exact Nat.mul_le_mul le le'

theorem span_last_mono {a b : Nat} (le : a ≤ b) (shape : List Nat) :
    span (shape ++ [a]) ≤ span (shape ++ [b]) := by
  rw [span_append, span_append]
  exact Nat.mul_le_mul_left _ (span_mono le (Nat.le_refl _))

/-- No shape has more positions than it spans. -/
theorem prod_le_span (shape : List Nat) : shape.prod ≤ span shape := by
  induction shape with
  | nil => exact Nat.le_refl 1
  | cons axis shape ih =>
    rw [List.prod_cons]
    by_cases empty : axis = 0
    · rw [empty, Nat.zero_mul]
      exact Nat.zero_le _
    · rw [span_cons empty]
      exact Nat.mul_le_mul_left axis ih

/-- Some of the axes never span more than all of them. -/
theorem span_le_of_subperm {shape shape' : List Nat} (some : shape.Subperm shape') :
    span shape ≤ span shape' := by
  obtain ⟨order, perm, sublist⟩ := some
  rw [← span_perm perm]
  clear perm
  induction sublist with
  | slnil => exact Nat.le_refl _
  | cons axis _ ih =>
    rw [← span_cons_zero] at ih
    exact Nat.le_trans ih (span_mono (Nat.zero_le _) (Nat.le_refl _))
  | cons_cons axis _ ih => exact span_mono (Nat.le_refl _) ih

/-- A single axis of as many positions spans no more. -/
theorem span_prod_le (shape : List Nat) : span [shape.prod] ≤ span shape := by
  by_cases empty : shape.prod = 0
  · rw [empty]
    exact span_pos shape
  · rw [span_cons empty]
    exact Nat.le_trans (Nat.le_of_eq (Nat.mul_one _)) (prod_le_span shape)

theorem checkSpan_eq_ok_iff {shape : List Nat} :
    checkSpan shape = .ok () ↔ span shape ≤ maxLength := by
  rw [checkSpan, refused_eq_ok, Nat.not_lt, and_iff_left rfl]

theorem create_eq_ok_iff {shape : List Nat} {array : Dense} :
    create shape = .ok array ↔ span shape ≤ maxLength ∧ zeros shape = array := by
  rw [create, check_bind_eq_ok, checkSpan_eq_ok_iff, pure_eq_ok]

/-! ### Copying values -/

/-- A run is as long as was asked for. -/
theorem size_row {array : Dense} {length index : Nat} {run : Array FloatBits}
    (h : array.row length index = .ok run) : run.size = length := by
  unfold row at h
  split at h
  · rename_i enough
    obtain rfl := Except.ok.inj h
    rw [Array.size_extract, Nat.min_eq_left enough, Nat.succ_mul, Nat.add_sub_cancel_left]
  · cases h

/-- A walk has as many steps as the product of the lengths. -/
theorem length_steps (axes : List (Nat × Nat)) : (steps axes).length = (axes.map (·.1)).prod := by
  induction axes with
  | nil => rfl
  | cons axis axes ih =>
    have inner : ∀ i ∈ List.range axis.1,
        ((steps axes).map (i * axis.2 + ·)).length = (axes.map (·.1)).prod := by
      intro i _
      rw [List.length_map, ih]
    rw [steps, List.length_flatMap, List.map_congr_left inner, List.map_const', List.length_range,
      List.sum_replicate_nat, List.map_cons, List.prod_cons]

/-- The length of an axis, of which there may be none. -/
def lengthAt (array : Dense) (axis : Nat) : Nat :=
  array.shape[axis]?.getD 0

theorem lengthAt_eq {array : Dense} {i : Nat} {found : Nat × Nat} (h : array.axis i = .ok found) :
    found.1 = array.lengthAt i := by
  unfold axis at h
  split at h
  · rename_i known
    obtain rfl := Except.ok.inj h
    rw [lengthAt, (List.getElem?_zip_eq_some.mp known).1, Option.getD_some]
  · cases h

/-- The lengths of some axes that are looked up. -/
theorem map_fst_axes {array : Dense} {order : List Nat} {axes : List (Nat × Nat)}
    (h : order.mapM array.axis = .ok axes) : axes.map (·.1) = order.map array.lengthAt :=
  (map_eq_map_of_forall₂ (mapM_eq_ok.mp h) fun _ _ found => (lengthAt_eq found).symm).symm

/-- In another order of the axes there are as many values as their lengths say. -/
theorem size_valuesAlong {array : Dense} {order : List Nat} {data : Array FloatBits}
    (h : array.valuesAlong order = .ok data) : data.size = (order.map array.lengthAt).prod := by
  obtain ⟨axes, found, h⟩ := bind_eq_ok.mp h
  obtain ⟨values, looked, h⟩ := bind_eq_ok.mp h
  obtain rfl := pure_eq_ok.mp h
  rw [List.size_toArray, ← (mapM_eq_ok.mp looked).length_eq, walk_eq_steps, length_steps,
    map_fst_axes found]

theorem filled_permuteAxes {array permuted : Dense} {order : List Nat}
    (h : array.permuteAxes order = .ok permuted) : permuted.Filled := by
  obtain ⟨axes, found, h⟩ := bind_eq_ok.mp h
  obtain ⟨data, copied, h⟩ := bind_eq_ok.mp h
  obtain rfl := pure_eq_ok.mp h
  rw [Filled, size_valuesAlong copied, map_fst_axes found]

end LabeledBlocks.Dense
