import LabeledBlocks.Labels.Json
import LabeledBlocks.Proofs.Groups
import LabeledBlocks.Proofs.Labels.Selection
import LabeledBlocks.Proofs.Labels.SetOperations

/-!
# Values and index of labels

Labels store the values of all rows in one list, and next to it an index that finds rows. Only the
index tells how many rows there are, and a row is the slice of the values at its position. Every
operation extends the two on their own, row after row. They stay in step: at any time they show the
rows of the labels that the operation makes.

* `Stored` — values and index, with the operations on them.
* `Stored.Shows` — they show the rows of some labels.
* `Stored.Shows.add` — they still do when a new row is added to both.
* `Stored.alike_ofRows`, `Stored.alike_union`, `Stored.alike_project` and so on — every operation is
  refused as it is for the labels, or makes values and an index that show the labels it makes.
-/

namespace LabeledBlocks

/-- Labels as they are stored: the values of all rows, and an index that finds rows. -/
structure Stored where
  names : List String
  values : List Int32
  index : RowIndex

namespace Stored

def size (stored : Stored) : Nat :=
  stored.names.length

/-- How many rows there are, which the index tells. -/
def count (stored : Stored) : Nat :=
  stored.index.size

def slice (stored : Stored) (i : Nat) : Row :=
  (stored.values.drop (i * stored.size)).take stored.size

/-- The rows from a position on, one after the other as long as there is one. -/
def rowsFrom (stored : Stored) (i : Nat) : List Row :=
  if i < stored.count then stored.slice i :: stored.rowsFrom (i + 1) else []
termination_by stored.count - i

def rows (stored : Stored) : List Row :=
  stored.rowsFrom 0

def position (stored : Stored) (row : Row) : Option Nat :=
  if row.length = stored.size then stored.index[row]? else none

theorem rowsFrom_eq (stored : Stored) (i : Nat) :
    stored.rowsFrom i = (List.range' i (stored.count - i)).map stored.slice := by
  induction more : stored.count - i generalizing i with
  | zero =>
    rw [rowsFrom, if_neg (by omega)]
    rfl
  | succ more ih =>
    rw [rowsFrom, if_pos (by omega), ih (i + 1) (by omega)]
    rfl

theorem rows_eq (stored : Stored) : stored.rows = (List.range stored.count).map stored.slice := by
  rw [rows, rowsFrom_eq, List.range_eq_range', Nat.sub_zero]

/-! ### Operations -/

def blank (names : List String) : Stored :=
  ⟨names, [], ∅⟩

def add (stored : Stored) (row : Row) (position : Nat) : Stored where
  names := stored.names
  values := stored.values ++ row
  index := stored.index.insert row position

/-- Rows are checked and added, the first of them at position `start`. -/
def addRows (stored : Stored) (start : Nat) : List Row → Except Error Stored
  | [] => .ok stored
  | row :: rows =>
    if row.length ≠ stored.size then .error (.widthMismatch start stored.size row.length)
    else if stored.index.contains row then .error (.duplicateRow stored.names row)
    else addRows (stored.add row start) (start + 1) rows

def ofRows (names : List String) (rows : List Row) : Except Error Stored := do
  Labels.checkNames [] names
  if names.isEmpty && !rows.isEmpty then
    throw (.invalidArgument .rowsWithoutNames)
  (blank names).addRows 0 rows

def ofValues (names : List String) (values : List Int32) : Except Error Stored :=
  if names = [] then
    if values ≠ [] then .error (.widthMismatch 0 0 values.length)
    else ofRows names []
  else if values.length % names.length ≠ 0 then
    .error (.widthMismatch (values.length / names.length) names.length
      (values.length % names.length))
  else ofRows names (groups names.length (values.length / names.length) values)

def single : Stored where
  names := ["_"]
  values := [0]
  index := (∅ : RowIndex).insert [0] 0

/-- A row is added at the end, if the index does not have it. -/
def withRow (stored : Stored) (row : Row) : Stored :=
  match stored.index[row]? with
  | some _ => stored
  | none => stored.add row stored.count

def union (a b : Stored) : Except Error Stored :=
  if a.names ≠ b.names then .error (.incompatibleNames a.names b.names)
  else .ok (b.rows.foldl withRow a)

def intersection (a b : Stored) : Except Error Stored :=
  if a.names ≠ b.names then .error (.incompatibleNames a.names b.names)
  else .ok (a.rows.foldl
    (fun common row => if (b.position row).isSome then common.add row common.count else common)
    (blank a.names))

def project (stored : Stored) (names : List String) : Except Error Stored := do
  let dimensions ← names.mapM fun name =>
    match stored.names.idxOf? name with
    | some d => .ok d
    | none => .error (.invalidArgument (.unknownDimension name stored.names))
  pure (stored.rows.foldl (fun cut row => cut.withRow (Labels.pick dimensions row)) (blank names))

def ofJson (value : Json) : Except JsonFault Stored := do
  let (names, values) ← value.namesAndValues
  (ofValues names values).mapError .invalid

/-! ### Values and index in step -/

/-- Values and index show the rows of some labels. -/
structure Shows (stored : Stored) (labels : Labels) : Prop where
  regular : labels.Regular
  names : stored.names = labels.names
  values : stored.values = labels.values
  index : Labels.Indexes stored.index labels.rows

section Shows

variable {stored : Stored} {labels : Labels}

theorem Shows.size (shows : Shows stored labels) : stored.size = labels.size := by
  rw [Stored.size, shows.names, Labels.size]

theorem Shows.count (shows : Shows stored labels) : stored.count = labels.count := by
  rw [Stored.count, shows.index.size, labels.count_eq]

/-- The slices of the values are the rows. -/
theorem Shows.rows (shows : Shows stored labels) : stored.rows = labels.rows := by
  have slices := groups_eq_map labels.size labels.rows.length labels.values
  rw [Labels.values, groups_flatten shows.regular.width] at slices
  rw [rows_eq, shows.count, labels.count_eq]
  conv => rhs; rw [slices]
  refine List.map_congr_left fun i _ => ?_
  rw [slice, shows.values, shows.size, Labels.values]

theorem Shows.position (shows : Shows stored labels) (row : Row) :
    stored.position row = labels.position row := by
  rw [Stored.position, Labels.position, shows.size, shows.index.found, Labels.getElem?_index]

theorem Shows.contains (shows : Shows stored labels) (row : Row) :
    stored.index.contains row = true ↔ row ∈ labels.rows := by
  rw [Std.TreeMap.contains_eq_isSome_getElem?, shows.index.found, List.isSome_idxOf?]

theorem shows_blank (names : List String) : Shows (blank names) (.of names []) :=
  ⟨⟨fun _ none => absurd none List.not_mem_nil, .nil⟩, rfl, rfl, Labels.indexes_empty⟩

/-- Values and index stay in step when a new row is added to both. -/
theorem Shows.add (shows : Shows stored labels) {row : Row} (width : row.length = labels.size)
    (new : row ∉ labels.rows) :
    Shows (stored.add row stored.count) (.of labels.names (labels.rows ++ [row])) where
  regular := by
    constructor
    · intro other member
      rcases List.mem_append.mp member with before | here
      · exact shows.regular.width other before
      · rwa [List.mem_singleton.mp here]
    · rw [Labels.of, List.nodup_append_comm]
      exact List.nodup_cons.mpr ⟨new, shows.regular.nodup⟩
  names := shows.names
  values := by
    simp [Stored.add, Labels.of, Labels.values, shows.values]
  index := shows.index.insert new

/-- Values and index stay in step when rows are added that are not there. -/
theorem Shows.withRows (shows : Shows stored labels) {rows : List Row}
    (width : ∀ row ∈ rows, row.length = labels.size) :
    Shows (rows.foldl withRow stored) (.of labels.names (labels.rows ++ rows).eraseDups) := by
  induction rows generalizing stored labels with
  | nil =>
    have same : Labels.of labels.names (labels.rows ++ []).eraseDups = labels := by
      rw [List.append_nil, eraseDups_eq_self shows.regular.nodup]
      exact Labels.ext_iff.mpr ⟨rfl, rfl⟩
    rwa [same]
  | cons row rows ih =>
    rw [List.forall_mem_cons] at width
    rw [List.foldl_cons, withRow, shows.index.found]
    by_cases known : row ∈ labels.rows
    · have skipped : (labels.rows ++ row :: rows).eraseDups = (labels.rows ++ rows).eraseDups := by
        rw [List.eraseDups_append, List.eraseDups_append, List.cons_removeAll,
          if_neg (by simpa using known)]
      rw [idxOf?_of_mem known, skipped]
      exact ih shows width.2
    · have whole : labels.rows ++ row :: rows = labels.rows ++ [row] ++ rows :=
        (List.append_cons ..)
      rw [List.idxOf?_eq_none_iff.mpr known, whole]
      exact ih (shows.add width.1 known) width.2

/-- Labels with the same names and rows are shown as well. -/
theorem Shows.congr (shows : Shows stored labels) {labels' : Labels}
    (names : labels'.names = labels.names) (rows : labels'.rows = labels.rows) :
    Shows stored labels' :=
  Labels.ext_iff.mpr ⟨names, rows⟩ ▸ shows

end Shows

/-! ### Every operation -/

section Operations

variable {stored a b : Stored} {labels first second : Labels}

/-- Rows are checked and added alike. -/
theorem alike_addRows (shows : Shows stored labels) (rows : List Row) :
    Alike (fun after (_ : Unit) => Shows after (.of labels.names (labels.rows ++ rows)))
      (stored.addRows stored.count rows)
      (Labels.checkRows labels.names stored.index stored.count rows) := by
  induction rows generalizing stored labels with
  | nil =>
    exact .given (shows.congr rfl (List.append_nil _))
  | cons row rows ih =>
    rw [addRows, Labels.checkRows, shows.names, shows.size]
    refine .checked _ fun width => .checked _ fun known => ?_
    have new : row ∉ labels.rows := fun member => known ((shows.contains row).mpr member)
    have shows' := shows.add (not_not.mp width) new
    have count : (stored.add row stored.count).count = stored.count + 1 := by
      rw [shows'.count, shows.count, labels.count_eq]
      exact List.length_append
    have rest := ih shows'
    rw [count] at rest
    rwa [List.append_cons]

theorem alike_ofRows (names : List String) (rows : List Row) :
    Alike Shows (ofRows names rows) (Labels.ofRows names rows) := by
  unfold ofRows Labels.ofRows
  refine .behind _ fun _ => .checked _ fun _ => ?_
  dsimp only
  rw [← bind_pure ((blank names).addRows 0 rows)]
  exact (alike_addRows (shows_blank names) rows).bind fun _ _ shows => .given shows

/-- Labels are made of flat values alike. -/
theorem alike_ofValues (names : List String) (values : List Int32) :
    Alike Shows (ofValues names values) (Labels.ofValues names values) := by
  unfold ofValues Labels.ofValues
  by_cases unnamed : names = []
  · subst unnamed
    -- without names all values are left over
    rw [if_pos rfl]
    simp only [List.length_nil, Nat.mod_zero, Nat.div_zero, groups, ne_eq, List.length_eq_zero_iff]
    exact .checked _ fun _ => alike_ofRows [] []
  · rw [if_neg unnamed]
    exact .checked _ fun _ => alike_ofRows names _

theorem shows_single : Shows single .single where
  regular := Labels.regular_single
  names := rfl
  values := rfl
  index := Labels.indexes_empty.insert List.not_mem_nil

theorem alike_union (shows : Shows a first) (shows' : Shows b second) :
    Alike Shows (a.union b) (first.union second) := by
  rw [union, Labels.union_eq shows.regular shows'.regular, shows.names, shows'.names, shows'.rows]
  refine .checked _ fun same => .given (shows.withRows ?_)
  rw [Labels.size, not_not.mp same]
  exact shows'.regular.width

/-- Values and index stay in step when those of some new rows are added that are common. -/
theorem Shows.withCommon (shows : Shows stored labels) (common : Row → Bool) {rows : List Row}
    (width : ∀ row ∈ rows, row.length = labels.size) (nodup : (labels.rows ++ rows).Nodup) :
    Shows (rows.foldl
        (fun found row => if common row = true then found.add row found.count else found) stored)
      (.of labels.names (labels.rows ++ rows.filter common)) := by
  induction rows generalizing stored labels with
  | nil => exact shows.congr rfl (List.append_nil _)
  | cons row rows ih =>
    rw [List.forall_mem_cons] at width
    rw [List.foldl_cons, List.filter_cons]
    by_cases found : common row = true
    · have new : row ∉ labels.rows := fun member =>
        (List.nodup_append.mp nodup).2.2 row member row List.mem_cons_self rfl
      rw [if_pos found, if_pos found, List.append_cons]
      rw [List.append_cons] at nodup
      exact ih (shows.add width.1 new) width.2 nodup
    · rw [if_neg found, if_neg found]
      exact ih shows width.2 (nodup.sublist ((List.sublist_cons_self row rows).append_left _))

/-- Intersections are made alike. -/
theorem alike_intersection (shows : Shows a first) (shows' : Shows b second) :
    Alike Shows (a.intersection b) (first.intersection second) := by
  have found (row : Row) : (b.position row).isSome = second.contains row := by
    rw [shows'.position, Labels.contains]
  rw [intersection, Labels.intersection_eq, shows.names, shows'.names, shows.rows]
  simp only [found]
  refine .checked _ fun _ => .given ?_
  exact (shows_blank first.names).withCommon second.contains shows.regular.width
    shows.regular.nodup

/-- Labels are cut down alike. -/
theorem alike_project (shows : Shows stored labels) (wanted : List String) :
    Alike Shows (stored.project wanted) ((labels.project wanted).map (·.1)) := by
  have dimensions : (wanted.mapM fun name =>
      match stored.names.idxOf? name with
      | some d => .ok d
      | none => .error (.invalidArgument (.unknownDimension name stored.names))) =
        labels.dimensions wanted := by
    rw [shows.names]
    rfl
  rw [project, dimensions, shows.rows]
  cases found : labels.dimensions wanted with
  | error e =>
    rw [Labels.project, found]
    exact .refused e
  | ok dimensions =>
    obtain ⟨known, rfl⟩ := Labels.dimensions_eq_ok_iff.mp found
    have width : ∀ row ∈ labels.rows.map (Labels.valuesOf labels.names wanted),
        row.length = wanted.length := by
      intro row member
      obtain ⟨whole, isRow, rfl⟩ := List.mem_map.mp member
      exact Labels.length_valuesOf known (shows.regular.width whole isRow)
    have cut := (shows_blank wanted).withRows width
    rw [List.foldl_map] at cut
    rw [Labels.project_eq known, ok_bind_eq]
    simp only [Labels.pick_idxOf known]
    exact .given cut

theorem alike_ofJson (value : Json) : Alike Shows (ofJson value) (Labels.ofJson value) :=
  .behind _ fun parts => (alike_ofValues parts.1 parts.2).mapError _

end Operations

end Stored

end LabeledBlocks
