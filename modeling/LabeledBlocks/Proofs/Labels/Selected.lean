import LabeledBlocks.Proofs.Block.Divided
import LabeledBlocks.Proofs.Labels.Selection

/-!
# Rows that are selected

A selection chooses the rows that agree with one of its rows in the dimensions that it names. One
that names all dimensions is looked up row by row, after its values are put into the order of the
labels; from a smaller one it is asked for every row whether it has what is left of it. Both ways
give the positions of the same rows, in increasing order.

* `Labels.select_iff` — which rows are selected, and which selections are refused.
-/

namespace LabeledBlocks.Labels

/-! ### Ascending positions -/

theorem mem_ascending {positions : List Nat} {p : Nat} :
    p ∈ ascending positions ↔ p ∈ positions := by
  rw [ascending, Std.TreeMap.mem_keys, Std.TreeMap.mem_ofList, List.map_map]
  simp

theorem pairwise_ascending (positions : List Nat) : (ascending positions).Pairwise (· < ·) :=
  Std.TreeMap.ordered_keys.imp Nat.compare_eq_lt.mp

/-! ### All dimensions in another order -/

section Reorder

variable {names wanted : List String}

/-- Names that are told apart and are as many as the dimensions are all of them, in another
order. -/
theorem perm_of_length_eq (known : ∀ name ∈ wanted, name ∈ names) (nodup : wanted.Nodup)
    (count : wanted.length = names.length) : wanted.Perm names :=
  (List.subperm_of_subset nodup known).perm_of_length_le count.ge

variable (perm : wanted.Perm names)

include perm

/-- The values in another order are put back. -/
theorem valuesOf_inverse (nodup : names.Nodup) {row : Row} (width : row.length = names.length) :
    valuesOf wanted names (valuesOf names wanted row) = row := by
  rw [valuesOf_valuesOf (fun _ => perm.mem_iff.mp) width fun _ => perm.mem_iff.mpr,
    valuesOf_self nodup width]

/-- A row of a selection of all dimensions is put into the order of the labels. -/
theorem reorder_eq (nodup : names.Nodup) (row : Row) :
    reorder names.length (wanted.map names.idxOf) row = valuesOf wanted names row := by
  have nodup' : (wanted.map names.idxOf).Nodup :=
    (perm.nodup_iff.mpr nodup).map_on fun _ member _ _ same =>
      List.idxOf_inj (perm.mem_iff.mp member) |>.mp same
  have places : (List.range names.length).map
      (fun d => ((wanted.map names.idxOf).idxOf? d).getD d) = names.map wanted.idxOf := by
    refine List.ext_getElem (by simp) fun d inRange _ => ?_
    have inside : d < names.length := by simpa using inRange
    have isWanted : names[d] ∈ wanted := perm.mem_iff.mpr (List.getElem_mem inside)
    have place : (wanted.map names.idxOf).idxOf? d = some (wanted.idxOf names[d]) := by
      rw [idxOf?_eq_some_iff_getElem? nodup', List.getElem?_map,
        List.getElem?_eq_getElem (List.idxOf_lt_length_of_mem isWanted), List.getElem_idxOf,
        Option.map_some, nodup.idxOf_getElem]
    rw [List.getElem_map, List.getElem_map, List.getElem_range, place, Option.getD_some]
  rw [reorder, places, pick_idxOf fun _ => perm.mem_iff.mpr]

end Reorder

/-! ### Both ways of selecting -/

section Select

variable {labels selection : Labels} (regular : labels.Regular) (regular' : selection.Regular)

/-- The row at this position agrees with a row of the selection in the dimensions that it names. -/
def Selects (selection labels : Labels) (p : Nat) : Prop :=
  ∃ row, labels.row? p = some row ∧ valuesOf labels.names selection.names row ∈ selection.rows

include regular regular'

/-- Rows that have all dimensions are found in the labels. -/
theorem selects_iff_of_perm (perm : selection.names.Perm labels.names)
    (nodup : selection.names.Nodup) {p : Nat} :
    selection.Selects labels p ↔ ∃ row ∈ selection.rows,
      labels.position (valuesOf selection.names labels.names row) = some p := by
  have nodup' := perm.nodup_iff.mp nodup
  constructor
  · rintro ⟨row, standing, member⟩
    refine ⟨_, member, (position_eq_some_iff regular).mpr ?_⟩
    rw [valuesOf_inverse perm nodup' (regular.width row (List.mem_of_getElem? standing))]
    exact standing
  · rintro ⟨row, member, found⟩
    refine ⟨_, (position_eq_some_iff regular).mp found, ?_⟩
    rwa [valuesOf_inverse perm.symm nodup (regular'.width row member)]

/-- The dimensions are known, whether they are all or some of them. -/
theorem exists_select (nodup : selection.names.Nodup)
    (known : ∀ name ∈ selection.names, name ∈ labels.names) :
    ∃ positions, labels.select selection = .ok positions ∧ positions.Pairwise (· < ·) ∧
      ∀ p, p ∈ positions ↔ selection.Selects labels p := by
  rw [select, dimensions_eq_ok_iff.mpr ⟨known, rfl⟩, ok_bind_eq, List.length_map]
  split
  case isTrue all =>
    have perm := perm_of_length_eq known nodup all
    refine ⟨_, rfl, pairwise_ascending _, fun p => ?_⟩
    rw [mem_ascending, List.mem_filterMap, selects_iff_of_perm regular regular' perm nodup]
    simp only [size, reorder_eq perm (perm.nodup_iff.mp nodup)]
  case isFalse =>
    have agrees : ∀ row : Row,
        selection.contains (pick (selection.names.map labels.names.idxOf) row) = true ↔
          valuesOf labels.names selection.names row ∈ selection.rows := fun row => by
      rw [pick_idxOf known, contains_iff regular']
    exact ⟨Block.positionsWhere (fun row => selection.contains (pick _ row)) labels.rows, rfl,
      Block.pairwise_positionsWhere _ _, fun p => Block.mem_positionsWhere.trans
        (exists_congr fun row => and_congr_right fun _ => agrees row)⟩

end Select

/-- A selection with distinct names is refused for the first of them that is no dimension, and for
nothing else. It selects the rows that agree with one of its rows, whether it names all dimensions,
in whatever order, or some of them. All labels that are made are regular
(`Making.regular_of_made`). -/
theorem select_iff {labels selection : Labels} (regular : labels.Regular)
    (regular' : selection.Regular) (nodup : selection.names.Nodup) :
    (∀ e, labels.select selection = .error e ↔
      ∃ name, selection.names.find? (· ∉ labels.names) = some name ∧
        e = .invalidArgument (.unknownDimension name labels.names)) ∧
    ∀ positions, labels.select selection = .ok positions ↔
      (∀ name ∈ selection.names, name ∈ labels.names) ∧ positions.Pairwise (· < ·) ∧
        ∀ p, p ∈ positions ↔ selection.Selects labels p := by
  by_cases known : ∀ name ∈ selection.names, name ∈ labels.names
  · obtain ⟨selected, chosen, increasing, members⟩ := exists_select regular regular' nodup known
    have none : selection.names.find? (· ∉ labels.names) = none :=
      List.find?_eq_none.mpr (by simpa using known)
    rw [chosen, none]
    refine ⟨fun e => by simp, fun positions => ⟨?_, ?_⟩⟩
    · rintro ⟨⟩
      exact ⟨known, increasing, members⟩
    · rintro ⟨_, increasing', members'⟩
      exact congrArg Except.ok (increasing.eq_of_mem_iff increasing' fun {p} =>
        (members p).trans (members' p).symm)
  · obtain ⟨name, found⟩ : ∃ name, selection.names.find? (· ∉ labels.names) = some name := by
      rw [← Option.isSome_iff_exists, List.find?_isSome]
      simpa using known
    have refused : labels.select selection =
        .error (.invalidArgument (.unknownDimension name labels.names)) := by
      rw [select, dimensions_eq_error_iff.mpr ⟨name, found, rfl⟩]
      rfl
    rw [refused, found]
    refine ⟨fun e => by simp [eq_comm], fun positions => ⟨?_, ?_⟩⟩
    · rintro ⟨⟩
    · rintro ⟨known', _⟩
      exact absurd known' known

def pairs : Labels :=
  .of ["a", "b"] [[0, 1], [1, 1], [0, 6]]

/-- A selection of both dimensions in the other order, with a row that is not among them. -/
def shuffled : Labels :=
  .of ["b", "a"] [[6, 0], [7, 7], [1, 0]]

theorem pairs_selected : pairs.select shuffled = .ok [0, 2] ∧
    (∀ name ∈ shuffled.names, name ∈ pairs.names) ∧ [0, 2].Pairwise (· < ·) ∧
      ∀ p, p ∈ [0, 2] ↔ shuffled.Selects pairs p := by
  have valid : pairs.Valid := by decide
  have valid' : shuffled.Valid := by decide
  have chosen : pairs.select shuffled = .ok [0, 2] := by decide +kernel
  exact ⟨chosen, ((select_iff valid.toRegular valid'.toRegular valid'.distinct).2 _).mp chosen⟩

example : pairs.select (.of ["b"] [[1], [2]]) = .ok [0, 1] := by decide +kernel

end LabeledBlocks.Labels
