import LabeledBlocks.Labels.Builder
import LabeledBlocks.Proofs.Outcomes
import LabeledBlocks.Proofs.Positions

/-!
# Valid labels

Labels are regular when every row has one value per name and no row stands twice, and valid when
moreover their names are distinct identifiers and there is no row without names. Regular labels
are looked up exactly; valid labels are the ones that can be built.

* `Labels.getElem?_index` — the index gives the first position of a row.
* `Labels.position_eq_some_iff` — a row of regular labels is found where it stands, and only there.
* `Labels.identical_iff` — regular labels are identical when they are equal.
* `Labels.ofRows_eq_ok_iff` — exactly the valid labels are built, from their own names and rows.
* `Labels.regular_ofRows` — labels that are built are regular.
-/

namespace LabeledBlocks

/-! ### The index of rows -/

namespace RowIndex

/-- A row is found where it stood before, and else where it first stands among the new rows. -/
theorem getElem?_extend (index : RowIndex) (start : Nat) (rows : List Row) (row : Row) :
    (index.extend start rows)[row]? =
      index[row]?.or ((rows.idxOf? row).map (start + ·)) := by
  unfold extend
  induction rows generalizing index start with
  | nil => simp
  | cons first rows ih =>
    rw [List.zipIdx_cons, List.foldl_cons, ih, Std.TreeMap.getElem?_insertIfNew,
      List.idxOf?_cons]
    by_cases same : first = row
    · subst same
      cases found : index[first]? with
      | none =>
        have fresh : first ∉ index := by
          rw [← Std.TreeMap.isSome_getElem?_iff_mem, found]
          exact Bool.false_ne_true
        simp [fresh]
      | some i =>
        have known : first ∈ index := by
          rw [← Std.TreeMap.isSome_getElem?_iff_mem, found]
          rfl
        simp [known]
    · have different : ¬compare first row = .eq := fun h => same (Std.LawfulEqOrd.eq_of_compare h)
      have step : (fun i => start + 1 + i) = fun i => start + (i + 1) := by
        funext i
        omega
      simp [different, same, Function.comp_def, step]

end RowIndex

namespace Labels

/-- The index gives the first position of a row. -/
theorem getElem?_index (labels : Labels) (row : Row) :
    labels.index[row]? = labels.rows.idxOf? row := by
  rw [labels.index_eq, RowIndex.ofRows, RowIndex.getElem?_extend]
  simp

theorem count_eq_zero_iff {labels : Labels} : labels.count = 0 ↔ labels.rows = [] := by
  rw [labels.count_eq, List.length_eq_zero_iff]

/-! ### Regular labels -/

/-- Every row has one value per name, and no row stands twice. -/
structure Regular (labels : Labels) : Prop where
  width : ∀ row ∈ labels.rows, row.length = labels.size
  nodup : labels.rows.Nodup

/-- A row of regular labels is found where it stands, and nowhere else. -/
theorem position_eq_some_iff {labels : Labels} (regular : labels.Regular) {row : Row} {i : Nat} :
    labels.position row = some i ↔ labels.rows[i]? = some row := by
  unfold position
  rw [getElem?_index, ← idxOf?_eq_some_iff_getElem? regular.nodup]
  constructor
  · intro h
    split at h
    · exact h
    · cases h
  · intro h
    have member := List.isSome_idxOf?.mp (Option.isSome_of_eq_some h)
    rw [if_pos (regular.width row member), h]

theorem contains_iff {labels : Labels} (regular : labels.Regular) {row : Row} :
    labels.contains row = true ↔ row ∈ labels.rows := by
  rw [contains, Option.isSome_iff_exists, List.mem_iff_getElem?]
  exact exists_congr fun i => position_eq_some_iff regular

/-- Lists of rows of one width are told apart by their values, if they are equally many. -/
theorem eq_of_flatten_eq {width : Nat} {rows rows' : List Row}
    (h : ∀ row ∈ rows, row.length = width) (h' : ∀ row ∈ rows', row.length = width)
    (count : rows.length = rows'.length) (values : rows.flatten = rows'.flatten) :
    rows = rows' := by
  induction rows generalizing rows' with
  | nil => exact (List.eq_nil_of_length_eq_zero count.symm).symm
  | cons row rows ih =>
    cases rows' with
    | nil => simp at count
    | cons row' rows' =>
      rw [List.forall_mem_cons] at h h'
      rw [List.flatten_cons, List.flatten_cons] at values
      obtain ⟨rfl, rest⟩ := List.append_inj values (h.1.trans h'.1.symm)
      rw [ih h.2 h'.2 (Nat.succ.inj count) rest]

theorem identical_self (labels : Labels) : labels.identical labels = true := by
  simp [identical]

/-- Regular labels are identical when they are equal. -/
theorem identical_iff {a b : Labels} (ha : a.Regular) (hb : b.Regular) :
    a.identical b = true ↔ a = b := by
  rw [ext_iff]
  simp only [identical, Bool.and_eq_true, beq_iff_eq]
  constructor
  · rintro ⟨⟨names, values⟩, count⟩
    have width : a.size = b.size := by rw [size, size, names]
    rw [a.count_eq, b.count_eq] at count
    exact ⟨names, eq_of_flatten_eq ha.width (fun row hrow => (hb.width row hrow).trans width.symm)
      count values⟩
  · rintro ⟨names, rows⟩
    exact ⟨⟨names, by rw [values, values, rows]⟩, by rw [a.count_eq, b.count_eq, rows]⟩

/-! ### Valid labels -/

/-- ASCII letters, digits and underscores, at least one of them, and no digit in front. -/
def IsIdentifier (name : String) : Prop :=
  ∃ c rest, name.toList = c :: rest ∧ c.isDigit = false ∧
    ∀ d ∈ c :: rest, d.isAlphanum = true ∨ d = '_'

/-- Distinct identifiers as names, and rows that go with them. -/
structure Valid (labels : Labels) : Prop extends Regular labels where
  identifiers : ∀ name ∈ labels.names, IsIdentifier name
  distinct : labels.names.Nodup
  unnamed : labels.names = [] → labels.rows = []

/-- A name has no fault exactly if it is an identifier. -/
theorem ofName_eq_none_iff (name : String) : NameFault.ofName name = none ↔ IsIdentifier name := by
  unfold NameFault.ofName IsIdentifier
  cases name.toList with
  | nil => simp
  | cons c rest =>
    by_cases digit : c.isDigit = true
    · simp [digit]
    · simp only [digit, Bool.false_eq_true, if_false, ite_eq_left_iff, reduceCtorEq, imp_false,
        not_not, List.all_eq_true, Bool.or_eq_true, beq_iff_eq]
      constructor
      · intro allowed
        exact ⟨c, rest, rfl, Bool.eq_false_iff.mpr digit, allowed⟩
      · rintro ⟨_, _, ⟨⟩, _, allowed⟩
        exact allowed

instance : DecidablePred IsIdentifier := fun name =>
  decidable_of_iff ((NameFault.ofName name).isNone = true)
    (Option.isNone_iff_eq_none.trans (ofName_eq_none_iff name))

instance : DecidablePred Valid := fun labels =>
  decidable_of_iff
    (((∀ row ∈ labels.rows, row.length = labels.size) ∧ labels.rows.Nodup) ∧
      (∀ name ∈ labels.names, IsIdentifier name) ∧ labels.names.Nodup ∧
      (labels.names = [] → labels.rows = []))
    ⟨fun ⟨⟨width, nodup⟩, identifiers, distinct, unnamed⟩ =>
        ⟨⟨width, nodup⟩, identifiers, distinct, unnamed⟩,
      fun ⟨⟨width, nodup⟩, identifiers, distinct, unnamed⟩ =>
        ⟨⟨width, nodup⟩, identifiers, distinct, unnamed⟩⟩

/-- Names are accepted behind `earlier` ones when they are new and distinct identifiers. -/
theorem checkNames_eq_ok_iff {earlier names : List String} :
    checkNames earlier names = .ok () ↔
      (∀ name ∈ names, IsIdentifier name) ∧ names.Nodup ∧ ∀ name ∈ names, name ∉ earlier := by
  induction names generalizing earlier with
  | nil => simp [checkNames]
  | cons name names ih =>
    rw [checkNames]
    cases fault : NameFault.ofName name with
    | some fault =>
      have : ¬IsIdentifier name := by
        rw [← ofName_eq_none_iff, fault]
        exact Option.some_ne_none _
      simp [this]
    | none =>
      have identifier := (ofName_eq_none_iff name).mp fault
      rw [refused_eq_ok, ih, List.forall_mem_cons, List.forall_mem_cons, List.nodup_cons]
      simp only [List.mem_cons, not_or]
      constructor
      · rintro ⟨new, identifiers, nodup, apart⟩
        exact ⟨⟨identifier, identifiers⟩, ⟨fun h => (apart name h).1 rfl, nodup⟩, new,
          fun other h => (apart other h).2⟩
      · rintro ⟨⟨_, identifiers⟩, ⟨once, nodup⟩, new, apart⟩
        exact ⟨new, identifiers, nodup, fun other h => ⟨fun same => once (same ▸ h), apart other h⟩⟩

/-- Rows are accepted behind `seen` ones when they are new, distinct and have the right width. -/
theorem checkRows_eq_ok_iff {names : List String} {seen : RowIndex} {start : Nat}
    {rows : List Row} :
    checkRows names seen start rows = .ok () ↔
      (∀ row ∈ rows, row.length = names.length) ∧ rows.Nodup ∧ ∀ row ∈ rows, row ∉ seen := by
  induction rows generalizing seen start with
  | nil => simp [checkRows]
  | cons row rows ih =>
    simp only [checkRows, refused_eq_ok, ih, List.forall_mem_cons, List.nodup_cons,
      Std.TreeMap.mem_insert, Std.LawfulEqOrd.compare_eq_iff_eq, not_or, not_not,
      Std.TreeMap.contains_iff_mem, ne_eq]
    constructor
    · rintro ⟨width, new, widths, nodup, apart⟩
      exact ⟨⟨width, widths⟩, ⟨fun h => (apart row h).1 rfl, nodup⟩, new,
        fun other h => (apart other h).2⟩
    · rintro ⟨⟨width, widths⟩, ⟨once, nodup⟩, new, apart⟩
      exact ⟨width, new, widths, nodup, fun other h => ⟨fun same => once (same ▸ h), apart other h⟩⟩

/-- Exactly the valid labels are built, from their own names and rows. -/
theorem ofRows_eq_ok_iff {names : List String} {rows : List Row} {labels : Labels} :
    ofRows names rows = .ok labels ↔
      (labels.names = names ∧ labels.rows = rows) ∧ labels.Valid := by
  simp only [ofRows, check_bind_eq_ok, throw_bind_eq, refused_eq_ok, checkNames_eq_ok_iff,
    checkRows_eq_ok_iff, pure_eq_ok, Bool.and_eq_true, List.isEmpty_iff, Bool.not_eq_true',
    List.isEmpty_eq_false_iff]
  constructor
  · rintro ⟨⟨identifiers, distinct, _⟩, unnamed, ⟨width, nodup, _⟩, rfl⟩
    exact ⟨⟨rfl, rfl⟩, ⟨width, nodup⟩, identifiers, distinct,
      fun h => not_not.mp fun rest => unnamed ⟨h, rest⟩⟩
  · rintro ⟨⟨rfl, rfl⟩, valid⟩
    exact ⟨⟨valid.identifiers, valid.distinct, fun _ _ => List.not_mem_nil⟩,
      fun h => h.2 (valid.unnamed h.1),
      ⟨valid.width, valid.nodup, fun _ _ => Std.TreeMap.not_mem_emptyc⟩, ext_iff.mpr ⟨rfl, rfl⟩⟩

theorem ofRows_of_valid {labels : Labels} (valid : labels.Valid) :
    ofRows labels.names labels.rows = .ok labels :=
  ofRows_eq_ok_iff.mpr ⟨⟨rfl, rfl⟩, valid⟩

theorem regular_ofRows {names : List String} {rows : List Row} {labels : Labels}
    (h : ofRows names rows = .ok labels) : labels.Regular :=
  (ofRows_eq_ok_iff.mp h).2.toRegular

theorem regular_single : single.Regular :=
  ⟨by decide, by decide⟩

end Labels

end LabeledBlocks
