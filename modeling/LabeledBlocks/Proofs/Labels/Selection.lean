import LabeledBlocks.Labels.Selection
import LabeledBlocks.Proofs.Labels.Valid

/-!
# Dimensions that are kept

Dimensions are found by their names, so what is left of a row when it is cut down to some of them
can be said in terms of names alone. Rows that become equal are collapsed, and the first of them
keeps its place.

* `Labels.valuesOf` — the values of a row in the dimensions of some names.
* `Labels.dimensions_eq_ok_iff`, `Labels.dimensions_eq_error_iff`, `Labels.pick_idxOf` — dimensions
  and their values by name.
* `Labels.project_eq` — the distinct rows that are left, and where every row went.
* `Labels.regular_project` — they make regular labels.
-/

namespace LabeledBlocks.Labels

/-! ### Rows without repetitions -/

/-- An index that finds the rows of a list where they first stand. -/
structure Indexes (seen : RowIndex) (rows : List Row) : Prop where
  found : ∀ row, seen[row]? = rows.idxOf? row
  size : seen.size = rows.length

theorem indexes_empty : Indexes ∅ [] :=
  ⟨fun _ => by simp, rfl⟩

/-- An index stays one when a row is added behind the others. -/
theorem Indexes.insert {seen : RowIndex} {rows : List Row} (indexes : Indexes seen rows) {row : Row}
    (new : row ∉ rows) : Indexes (seen.insert row seen.size) (rows ++ [row]) := by
  have absent : row ∉ seen := by
    rw [← Std.TreeMap.isSome_getElem?_iff_mem, indexes.found, List.isSome_idxOf?]
    exact new
  refine ⟨fun other => ?_, ?_⟩
  · have apart : (rows ++ [row]).idxOf? other =
        (rows.idxOf? other).or (if row = other then some rows.length else none) := by
      rw [List.idxOf?, List.findIdx?_append, List.findIdx?_singleton]
      by_cases same : row = other
      · simp [same]
      · simp [same]
    rw [Std.TreeMap.getElem?_insert, apart, indexes.found, indexes.size]
    by_cases same : row = other
    · subst same
      have none : rows.idxOf? row = none := List.idxOf?_eq_none_iff.mpr new
      simp [none]
    · have different : ¬compare row other = .eq := fun h => same (Std.LawfulEqOrd.eq_of_compare h)
      simp [same, different]
  · have unknown : ¬seen.contains row = true := absent
    rw [Std.TreeMap.size_insert, if_neg unknown, indexes.size, List.length_append,
      List.length_singleton]

/-- The rows that are new, each once, and the place of every row behind those that came before. -/
theorem distinct_eq {seen : RowIndex} {before : List Row} (indexes : Indexes seen before)
    (rows : List Row) :
    distinct seen rows =
      ((rows.removeAll before).eraseDups,
        rows.map (before ++ (rows.removeAll before).eraseDups).idxOf) := by
  induction rows generalizing seen before with
  | nil => simp [distinct, List.removeAll]
  | cons row rows ih =>
    rw [distinct, indexes.found]
    by_cases known : row ∈ before
    · have kept : (row :: rows).removeAll before = rows.removeAll before := by
        simp [List.removeAll, known]
      rw [idxOf?_of_mem known, ih indexes, kept, List.map_cons, List.idxOf_append, if_pos known]
    · have absent : before.idxOf? row = none := List.idxOf?_eq_none_iff.mpr known
      have later : rows.removeAll (before ++ [row]) =
          (rows.removeAll before).filter fun other => !other == row := by
        rw [List.removeAll, List.removeAll, List.filter_filter]
        refine List.filter_congr fun other _ => ?_
        by_cases same : other = row
        · simp [same]
        · simp [same]
      have fresh : ((row :: rows).removeAll before).eraseDups =
          row :: (rows.removeAll (before ++ [row])).eraseDups := by
        rw [later, ← List.eraseDups_cons]
        simp [List.removeAll, known]
      have place : (before ++ row :: (rows.removeAll (before ++ [row])).eraseDups).idxOf row =
          before.length := by
        rw [List.idxOf_append, if_neg known, List.idxOf_cons_self, Nat.zero_add]
      rw [absent]
      dsimp only
      rw [ih (indexes.insert known), fresh, List.map_cons, place, indexes.size, List.append_assoc,
        List.singleton_append]

/-- The rows, each once and in the order of first appearance, and the place of every row. -/
theorem distinct_empty (rows : List Row) :
    distinct ∅ rows = (rows.eraseDups, rows.map rows.eraseDups.idxOf) := by
  rw [distinct_eq indexes_empty, List.removeAll_nil, List.nil_append]

/-! ### Dimensions by name -/

/-- The values of a row in the dimensions of the names that are wanted. -/
def valuesOf (names wanted : List String) (row : Row) : Row :=
  wanted.filterMap fun name => (names.zip row).lookup name

/-- Dimensions are found exactly if all names are known. -/
theorem dimensions_eq_ok_iff {labels : Labels} {names : List String} {dimensions : List Nat} :
    labels.dimensions names = .ok dimensions ↔
      (∀ name ∈ names, name ∈ labels.names) ∧ dimensions = names.map labels.names.idxOf := by
  refine mapM_eq_ok_map fun name d => ?_
  unfold dimension?
  by_cases known : name ∈ labels.names
  · rw [idxOf?_of_mem known]
    simp [known, eq_comm]
  · rw [List.idxOf?_eq_none_iff.mpr known]
    simp [known]

/-- The first name that is unknown is refused. -/
theorem dimensions_eq_error_iff {labels : Labels} {names : List String} {e : Error} :
    labels.dimensions names = .error e ↔
      ∃ name, names.find? (· ∉ labels.names) = some name ∧
        e = .invalidArgument (.unknownDimension name labels.names) := by
  induction names with
  | nil => simp [dimensions, pure, Except.pure]
  | cons name names ih =>
    rw [dimensions, List.mapM_cons]
    unfold dimension?
    by_cases known : name ∈ labels.names
    · have later : (name :: names).find? (· ∉ labels.names) = names.find? (· ∉ labels.names) :=
        List.find?_cons_of_neg (by simpa using known)
      rw [idxOf?_of_mem known, later, ← ih, ok_bind_eq]
      change (labels.dimensions names >>= fun rest => _) = _ ↔ _
      cases labels.dimensions names <;> simp [bind, Except.bind, pure, Except.pure]
    · have here : (name :: names).find? (· ∉ labels.names) = some name :=
        List.find?_cons_of_pos (by simpa using known)
      rw [List.idxOf?_eq_none_iff.mpr known, here]
      simp [bind, Except.bind, eq_comm]

/-- The value of a dimension is found by the position of its name. -/
theorem lookup_zip {names : List String} {name : String} (known : name ∈ names) (row : Row) :
    (names.zip row).lookup name = row[names.idxOf name]? := by
  induction names generalizing row with
  | nil => cases known
  | cons first names ih =>
    cases row with
    | nil => rfl
    | cons value row =>
      rw [List.zip_cons_cons, List.lookup_cons, List.idxOf_cons]
      by_cases same : name = first
      · subst same
        simp
      · rcases List.mem_cons.mp known with here | further
        · exact absurd here same
        · have differs : (name == first) = false := beq_eq_false_iff_ne.mpr same
          have differs' : (first == name) = false := beq_eq_false_iff_ne.mpr (Ne.symm same)
          rw [differs, differs', ih further]
          rfl

theorem pick_idxOf {names wanted : List String} (known : ∀ name ∈ wanted, name ∈ names)
    (row : Row) : pick (wanted.map names.idxOf) row = valuesOf names wanted row := by
  rw [pick, valuesOf, List.filterMap_map]
  exact List.filterMap_congr fun name member => (lookup_zip (known name member) row).symm

/-- A row has a value for every name. -/
theorem isSome_lookup_zip {names : List String} {row : Row} (width : row.length = names.length)
    {name : String} (known : name ∈ names) : ((names.zip row).lookup name).isSome := by
  have inside : names.idxOf name < row.length := width ▸ List.idxOf_lt_length_of_mem known
  rw [lookup_zip known, List.getElem?_eq_getElem inside]
  rfl

theorem length_valuesOf {names wanted : List String} {row : Row}
    (known : ∀ name ∈ wanted, name ∈ names) (width : row.length = names.length) :
    (valuesOf names wanted row).length = wanted.length :=
  length_filterMap fun name member => isSome_lookup_zip width (known name member)

/-- All names are wanted, and all values are there. -/
theorem valuesOf_self {names : List String} (nodup : names.Nodup) {row : Row}
    (width : row.length = names.length) : valuesOf names names row = row := by
  induction names generalizing row with
  | nil => exact (List.eq_nil_of_length_eq_zero width).symm
  | cons name names ih =>
    cases row with
    | nil => cases width
    | cons value row =>
      obtain ⟨new, nodup⟩ := List.nodup_cons.mp nodup
      have later : ∀ other ∈ names,
          ((name :: names).zip (value :: row)).lookup other = (names.zip row).lookup other := by
        intro other member
        have differs : (other == name) = false :=
          beq_eq_false_iff_ne.mpr fun same => new (same ▸ member)
        rw [List.zip_cons_cons, List.lookup_cons, differs]
      have here : ((name :: names).zip (value :: row)).lookup name = some value := by
        rw [List.zip_cons_cons, List.lookup_cons_self]
      refine Eq.trans (List.filterMap_cons_some here) ?_
      rw [List.filterMap_congr later]
      exact congrArg (value :: ·) (ih nodup (Nat.succ.inj width))

/-- Values are found as before in what is left of a row. -/
theorem valuesOf_valuesOf {names kept wanted : List String} {row : Row}
    (known : ∀ name ∈ kept, name ∈ names) (width : row.length = names.length)
    (stays : ∀ name ∈ wanted, name ∈ kept) :
    valuesOf kept wanted (valuesOf names kept row) = valuesOf names wanted row := by
  refine List.filterMap_congr fun name member => ?_
  have isKept := stays name member
  have total : ∀ name ∈ kept, ((names.zip row).lookup name).isSome := fun name member =>
    isSome_lookup_zip width (known name member)
  have place : kept[kept.idxOf name]? = some name := by
    rw [List.getElem?_eq_getElem (List.idxOf_lt_length_of_mem isKept), List.getElem_idxOf]
  rw [lookup_zip isKept, valuesOf, getElem?_filterMap total, place, Option.bind_some]

section Append

variable {names more : List String} {row values : Row} (width : row.length = names.length)

include width

theorem lookup_zip_append (name : String) :
    ((names ++ more).zip (row ++ values)).lookup name =
      ((names.zip row).lookup name).or ((more.zip values).lookup name) := by
  rw [List.zip_append width.symm, List.lookup_append]

/-- The values behind a row are found under the names behind the others. -/
theorem valuesOf_append_right (nodup : (names ++ more).Nodup)
    (width' : values.length = more.length) :
    valuesOf (names ++ more) more (row ++ values) = values := by
  obtain ⟨_, nodup', apart⟩ := List.nodup_append.mp nodup
  refine Eq.trans (List.filterMap_congr fun name member => ?_) (valuesOf_self nodup' width')
  have absent : (names.zip row).lookup name = none := by
    rw [List.lookup_eq_none_iff]
    rintro ⟨other, value⟩ inside
    have isName := (List.of_mem_zip inside).1
    simpa using fun same => apart other isName name member same.symm
  rw [lookup_zip_append width, absent, Option.none_or]

/-- The values of a row are found as before when others stand behind it. -/
theorem valuesOf_append_left (nodup : names.Nodup) :
    valuesOf (names ++ more) names (row ++ values) = row := by
  refine Eq.trans (List.filterMap_congr fun name member => ?_) (valuesOf_self nodup width)
  obtain ⟨value, found⟩ := Option.isSome_iff_exists.mp (isSome_lookup_zip width member)
  rw [lookup_zip_append width, found, Option.some_or]

end Append

/-- Rows with the same values under the same names have the same value under each of them. -/
theorem lookup_eq_of_valuesOf {names wanted : List String} {row row' : Row}
    (known : ∀ name ∈ wanted, name ∈ names) (width : row.length = names.length)
    (width' : row'.length = names.length)
    (same : valuesOf names wanted row = valuesOf names wanted row') :
    ∀ name ∈ wanted, (names.zip row).lookup name = (names.zip row').lookup name :=
  eq_of_filterMap_eq (fun name member => isSome_lookup_zip width (known name member))
    (fun name member => isSome_lookup_zip width' (known name member)) same

/-! ### Projection -/

/-- The labels cut down to some dimensions, with the rows that became equal collapsed. -/
def projected (labels : Labels) (wanted : List String) : Labels where
  names := wanted
  rows := (labels.rows.map (valuesOf labels.names wanted)).eraseDups

/-- Labels are cut down to the rows that differ, each at its first appearance. -/
theorem project_eq {labels : Labels} {wanted : List String}
    (known : ∀ name ∈ wanted, name ∈ labels.names) :
    labels.project wanted = .ok (labels.projected wanted, labels.rows.map fun row =>
      (labels.projected wanted).rows.idxOf (valuesOf labels.names wanted row)) := by
  have found := dimensions_eq_ok_iff.mpr ⟨known, rfl⟩
  have rows : labels.rows.map (pick (wanted.map labels.names.idxOf)) =
      labels.rows.map (valuesOf labels.names wanted) :=
    List.map_congr_left fun row _ => pick_idxOf known row
  rw [project, bind_eq_ok]
  refine ⟨_, found, ?_⟩
  rw [rows, distinct_empty, List.map_map]
  rfl

/-- Rows that are cut down alike and collapsed make regular labels. -/
theorem regular_project {labels projected : Labels} (regular : labels.Regular) {names : List String}
    {positions : List Nat} (h : labels.project names = .ok (projected, positions)) :
    projected.Regular := by
  obtain ⟨dimensions, found, _⟩ := bind_eq_ok.mp h
  have known := (dimensions_eq_ok_iff.mp found).1
  rw [project_eq known] at h
  cases h
  constructor
  · intro row member
    obtain ⟨whole, isRow, rfl⟩ := List.mem_map.mp (List.mem_eraseDups.mp member)
    exact length_valuesOf known (regular.width whole isRow)
  · exact nodup_eraseDups _

end LabeledBlocks.Labels
