import LabeledBlocks.Proofs.Groups
import LabeledBlocks.Proofs.Labels.Valid

/-!
# What labels are refused for

Labels are built unless something about them offends: a name that is no identifier, a name or a row
that stands twice, a row of another width, or a row where there are no names. Of several offences
the first is reported, names before rows, and the error tells which it is.

* `Distinct` — members that fit, each once, as the names and the rows of labels have to be.
* `Offence` — what may offend, with the error that reports it.
* `Offence.refused`, `exists_offence` — an offence is reported, and without one labels are built.
* `Labels.first_offence_reported` — when labels are built, and what they are refused for else.
-/

namespace LabeledBlocks

namespace Labels

/-! ### Members that fit -/

section Distinct

variable {α : Type}

/-- Every member fits, and none stands twice. -/
@[mk_iff]
structure Distinct (fits : α → Prop) (l : List α) : Prop where
  fit : ∀ a ∈ l, fits a
  once : l.Nodup

variable {fits : α → Prop}

theorem distinct_nil : Distinct fits [] :=
  ⟨fun _ none => absurd none List.not_mem_nil, .nil⟩

theorem distinct_concat_iff {l : List α} {a : α} :
    Distinct fits (l ++ [a]) ↔ Distinct fits l ∧ fits a ∧ a ∉ l := by
  rw [distinct_iff, distinct_iff, List.forall_mem_append, List.forall_mem_singleton,
    List.nodup_append_comm, List.singleton_append, List.nodup_cons]
  tauto

/-- Else there is a first member which offends: it does not fit, or it stands before. -/
theorem exists_first_offender {l : List α} (offending : ¬Distinct fits l) :
    ∃ before a after, l = before ++ a :: after ∧ Distinct fits before ∧ (¬fits a ∨ a ∈ before) := by
  induction l using List.reverseRecOn with
  | nil => exact absurd distinct_nil offending
  | append_singleton l a ih =>
    by_cases distinct : Distinct fits l
    · refine ⟨l, a, [], rfl, distinct, ?_⟩
      by_contra neither
      rw [not_or, not_not] at neither
      exact offending (distinct_concat_iff.mpr ⟨distinct, neither⟩)
    · obtain ⟨before, b, after, rfl, rest⟩ := ih distinct
      exact ⟨before, b, after ++ [a], by rw [List.append_assoc, List.cons_append], rest⟩

end Distinct

/-! ### Names that are no identifiers -/

/-- What is wrong with a name, as the fault says. -/
def Misnamed (name : String) : NameFault → Prop
  | .empty => name = ""
  | .leadingDigit => ∃ c ∈ name.toList.head?, c.isDigit = true
  | .foreignCharacter =>
    (∃ c ∈ name.toList.head?, c.isDigit = false) ∧
      ∃ d ∈ name.toList, d.isAlphanum = false ∧ d ≠ '_'

/-- A fault of a name is found exactly if the name has it. -/
theorem ofName_eq_some_iff {name : String} {fault : NameFault} :
    NameFault.ofName name = some fault ↔ Misnamed name fault := by
  unfold NameFault.ofName
  cases spelled : name.toList with
  | nil =>
    have empty : name = "" := String.toList_eq_nil_iff.mp spelled
    cases fault <;> simp [Misnamed, empty]
  | cons c rest =>
    have notEmpty : name ≠ "" := by
      rintro rfl
      cases spelled
    by_cases digit : c.isDigit = true
    · cases fault <;> simp [Misnamed, spelled, notEmpty, digit]
    · have foreign : (∃ d ∈ c :: rest, d.isAlphanum = false ∧ d ≠ '_') ↔
          ((c :: rest).all fun c => c.isAlphanum || c == '_') = false := by
        simp only [List.all_eq_false, Bool.or_eq_true, beq_iff_eq, not_or, Bool.not_eq_true, ne_eq]
      cases fault with
      | empty => simp [Misnamed, notEmpty, digit]
      | leadingDigit => simp [Misnamed, spelled, digit]
      | foreignCharacter =>
        rw [Misnamed, spelled, foreign]
        simp [digit]

theorem exists_misnamed {name : String} (h : ¬IsIdentifier name) :
    ∃ fault, Misnamed name fault := by
  rw [← ofName_eq_none_iff, ← ne_eq, Option.ne_none_iff_exists'] at h
  exact h.imp fun _ => ofName_eq_some_iff.mp

/-! ### Offences -/

/-- What offends about names and rows, and the error that reports it. No name or row before it
offends, so a name that stands before is an identifier and a row that stands before has the right
width: the kinds of offence exclude each other. -/
inductive Offence (names : List String) (rows : List Row) : Error → Prop where
  | invalidName {before after : List String} {name : String} {fault : NameFault}
      (split : names = before ++ name :: after) (distinct : Distinct IsIdentifier before)
      (misnamed : Misnamed name fault) : Offence names rows (.invalidName name fault)
  | duplicateName {before after : List String} {name : String}
      (split : names = before ++ name :: after) (distinct : Distinct IsIdentifier before)
      (again : name ∈ before) : Offence names rows (.duplicateName name .withinLabels)
  | rowsWithoutNames (unnamed : names = []) (some : rows ≠ []) :
      Offence names rows (.invalidArgument .rowsWithoutNames)
  | widthMismatch {before after : List Row} {row : Row} (named : names ≠ [])
      (identifiers : Distinct IsIdentifier names) (split : rows = before ++ row :: after)
      (distinct : Distinct (·.length = names.length) before) (width : row.length ≠ names.length) :
      Offence names rows (.widthMismatch before.length names.length row.length)
  | duplicateRow {before after : List Row} {row : Row} (named : names ≠ [])
      (identifiers : Distinct IsIdentifier names) (split : rows = before ++ row :: after)
      (distinct : Distinct (·.length = names.length) before) (again : row ∈ before) :
      Offence names rows (.duplicateRow names row)

variable {names : List String} {rows : List Row} {error : Error}

/-- Names and rows that do not make labels have an offence. -/
theorem exists_offence
    (h : ¬(Distinct IsIdentifier names ∧ (names = [] → rows = []) ∧
      Distinct (·.length = names.length) rows)) : ∃ error, Offence names rows error := by
  by_cases identifiers : Distinct IsIdentifier names
  · by_cases unnamed : names = []
    · have some : rows ≠ [] := by
        rintro rfl
        exact h ⟨identifiers, fun _ => rfl, distinct_nil⟩
      exact ⟨_, .rowsWithoutNames unnamed some⟩
    · have offending : ¬Distinct (·.length = names.length) rows := fun distinct =>
        h ⟨identifiers, fun none => absurd none unnamed, distinct⟩
      obtain ⟨before, row, after, split, distinct, width | again⟩ := exists_first_offender offending
      · exact ⟨_, .widthMismatch unnamed identifiers split distinct width⟩
      · exact ⟨_, .duplicateRow unnamed identifiers split distinct again⟩
  · obtain ⟨before, name, after, split, distinct, foreign | again⟩ :=
      exists_first_offender identifiers
    · obtain ⟨fault, misnamed⟩ := exists_misnamed foreign
      exact ⟨_, .invalidName split distinct misnamed⟩
    · exact ⟨_, .duplicateName split distinct again⟩

/-! ### Checks behind what passed -/

theorem checkNames_of_distinct (distinct : Distinct IsIdentifier names) :
    checkNames [] names = .ok () :=
  checkNames_eq_ok_iff.mpr ⟨distinct.fit, distinct.once, fun _ _ => List.not_mem_nil⟩

theorem checkRows_of_distinct (distinct : Distinct (·.length = names.length) rows) :
    checkRows names ∅ 0 rows = .ok () :=
  checkRows_eq_ok_iff.mpr ⟨distinct.fit, distinct.once, fun _ _ => Std.TreeMap.not_mem_emptyc⟩

/-- Names behind accepted ones are checked against these too. -/
theorem checkNames_append {earlier before : List String}
    (passed : checkNames earlier before = .ok ()) (names : List String) :
    checkNames earlier (before ++ names) = checkNames (before.reverse ++ earlier) names := by
  induction before generalizing earlier with
  | nil => rfl
  | cons name before ih =>
    rw [List.cons_append, List.reverse_cons, List.append_assoc, List.singleton_append]
    rw [checkNames] at passed ⊢
    cases fault : NameFault.ofName name with
    | some fault =>
      rw [fault] at passed
      cases passed
    | none =>
      rw [fault] at passed
      obtain ⟨new, passed⟩ := refused_eq_ok.mp passed
      exact (if_neg new).trans (ih passed)

/-- Rows behind accepted ones are checked against an index that has these too. -/
theorem checkRows_append {seen : RowIndex} {start : Nat} {before : List Row}
    (passed : checkRows names seen start before = .ok ()) :
    ∃ seen' : RowIndex, (∀ row, row ∈ seen' ↔ row ∈ before ∨ row ∈ seen) ∧
      ∀ rows, checkRows names seen start (before ++ rows) =
        checkRows names seen' (start + before.length) rows := by
  induction before generalizing seen start with
  | nil => exact ⟨seen, by simp, fun rows => rfl⟩
  | cons row before ih =>
    rw [checkRows] at passed
    obtain ⟨width, passed⟩ := refused_eq_ok.mp passed
    obtain ⟨new, passed⟩ := refused_eq_ok.mp passed
    obtain ⟨seen', known, same⟩ := ih passed
    refine ⟨seen', fun other => ?_, fun rows => ?_⟩
    · rw [known, Std.TreeMap.mem_insert, Std.LawfulEqOrd.compare_eq_iff_eq, List.mem_cons,
        or_left_comm, eq_comm, or_assoc]
    · rw [List.cons_append, checkRows, if_neg width, if_neg new, same, List.length_cons,
        Nat.add_assoc, Nat.add_comm 1]

/-! ### Offences are reported -/

theorem ofRows_of_checkNames (refused : checkNames [] names = .error error) :
    ofRows names rows = .error error := by
  rw [ofRows, refused]
  rfl

theorem ofRows_of_checkRows (named : names ≠ []) (identifiers : Distinct IsIdentifier names)
    (refused : checkRows names ∅ 0 rows = .error error) : ofRows names rows = .error error := by
  rw [ofRows, checkNames_of_distinct identifiers, refused]
  cases names with
  | nil => exact absurd rfl named
  | cons name names => rfl

/-- The error of an offence is the one that is reported. -/
theorem Offence.refused (offence : Offence names rows error) :
    ofRows names rows = .error error := by
  cases offence with
  | invalidName split distinct misnamed =>
    apply ofRows_of_checkNames
    rw [split, checkNames_append (checkNames_of_distinct distinct), checkNames,
      ofName_eq_some_iff.mpr misnamed]
  | @duplicateName before after name split distinct again =>
    have identifier := (ofName_eq_none_iff name).mpr (distinct.fit name again)
    apply ofRows_of_checkNames
    rw [split, checkNames_append (checkNames_of_distinct distinct), List.append_nil, checkNames,
      identifier]
    exact if_pos (List.mem_reverse.mpr again)
  | rowsWithoutNames unnamed some =>
    subst unnamed
    cases rows with
    | nil => exact absurd rfl some
    | cons row rows => rfl
  | widthMismatch named identifiers split distinct width =>
    obtain ⟨seen, _, same⟩ := checkRows_append (checkRows_of_distinct distinct)
    apply ofRows_of_checkRows named identifiers
    rw [split, same, checkRows, if_pos width, Nat.zero_add]
  | @duplicateRow before after row named identifiers split distinct again =>
    obtain ⟨seen, known, same⟩ := checkRows_append (checkRows_of_distinct distinct)
    have contained : seen.contains row = true :=
      Std.TreeMap.contains_iff_mem.mpr ((known row).mpr (.inl again))
    apply ofRows_of_checkRows named identifiers
    rw [split, same, checkRows, if_neg (not_not.mpr (distinct.fit row again)), if_pos contained]

/-- Labels are made exactly of distinct identifiers and distinct rows of their width. -/
theorem exists_ofRows_iff :
    (∃ labels, ofRows names rows = .ok labels) ↔
      Distinct IsIdentifier names ∧ (names = [] → rows = []) ∧
        Distinct (·.length = names.length) rows := by
  constructor
  · rintro ⟨labels, built⟩
    obtain ⟨⟨rfl, rfl⟩, valid⟩ := ofRows_eq_ok_iff.mp built
    exact ⟨⟨valid.identifiers, valid.distinct⟩, valid.unnamed, valid.width, valid.nodup⟩
  · rintro ⟨identifiers, unnamed, distinct⟩
    have valid : (of names rows).Valid :=
      ⟨⟨distinct.fit, distinct.once⟩, identifiers.fit, identifiers.once, unnamed⟩
    exact ⟨of names rows, ofRows_of_valid valid⟩

/-- Errors are reported for offences only, and only the error of the first. -/
theorem ofRows_eq_error_iff : ofRows names rows = .error error ↔ Offence names rows error := by
  refine ⟨fun refused => ?_, Offence.refused⟩
  have unbuilt : ¬∃ labels, ofRows names rows = .ok labels := by
    rintro ⟨labels, built⟩
    cases refused.symm.trans built
  obtain ⟨error', offence⟩ := exists_offence (exists_ofRows_iff.not.mp unbuilt)
  cases refused.symm.trans offence.refused
  exact offence

/-! ### Values in one list -/

/-- Rows of one width that stand one after the other. -/
structure Consecutive (width : Nat) (values : List Int32) (rows : List Row) : Prop where
  width : ∀ row ∈ rows, row.length = width
  values : rows.flatten = values

theorem ofValues_of_not_dvd {values : List Int32} (h : ¬names.length ∣ values.length) :
    ofValues names values =
      .error (.widthMismatch (values.length / names.length) names.length
        (values.length % names.length)) :=
  if_pos fun none => h (Nat.dvd_of_mod_eq_zero none)

/-- Values that divide evenly are rows, one after the other. -/
theorem ofValues_of_dvd {values : List Int32} (h : names.length ∣ values.length) :
    ∃ rows, Consecutive names.length values rows ∧ ofValues names values = ofRows names rows := by
  have whole : values.length = values.length / names.length * names.length :=
    (Nat.div_mul_cancel h).symm
  refine ⟨groups names.length (values.length / names.length) values, ⟨?_, ?_⟩, ?_⟩
  · exact fun row member => length_of_mem_groups whole member
  · exact flatten_groups whole
  · exact if_neg (not_not.mpr (Nat.mod_eq_zero_of_dvd h))

/-- Labels are built of names and rows exactly when the names are distinct identifiers, every row
has one value per name, no row stands twice and none stands without names, and they have these
names and rows. Else the first offence is reported. Values in one list are refused when they are not
cut into whole rows, and are otherwise treated as their rows are. -/
theorem first_offence_reported (names : List String) (rows : List Row) (values : List Int32) :
    ((∃ labels, ofRows names rows = .ok labels) ↔
        Distinct IsIdentifier names ∧ (names = [] → rows = []) ∧
          Distinct (·.length = names.length) rows) ∧
      (∀ labels, ofRows names rows = .ok labels → labels.names = names ∧ labels.rows = rows) ∧
      (∀ error, ofRows names rows = .error error ↔ Offence names rows error) ∧
      (names ≠ [] →
        (¬names.length ∣ values.length → ofValues names values =
          .error (.widthMismatch (values.length / names.length) names.length
            (values.length % names.length))) ∧
        (names.length ∣ values.length → ∃ cut, Consecutive names.length values cut ∧
          ofValues names values = ofRows names cut)) :=
  ⟨exists_ofRows_iff, fun _ built => (ofRows_eq_ok_iff.mp built).1, fun _ => ofRows_eq_error_iff,
    fun _ => ⟨ofValues_of_not_dvd, ofValues_of_dvd⟩⟩

/-- The third row stands before, and half a row is left over of three values. -/
theorem repeated_row_reported :
    ["a", "b"] ≠ [] ∧
      ofRows ["a", "b"] [[0, 1], [1, 1], [0, 1], [2]] = .error (.duplicateRow ["a", "b"] [0, 1]) ∧
      ofValues ["a", "b"] [0, 1, 1] = .error (.widthMismatch 1 2 1) := by
  have named : ["a", "b"] ≠ [] := by decide
  have split : [[0, 1], [1, 1], [0, 1], [2]] = [[0, 1], [1, 1]] ++ [0, 1] :: [([2] : Row)] := rfl
  obtain ⟨_, _, reported, values⟩ :=
    first_offence_reported ["a", "b"] [[0, 1], [1, 1], [0, 1], [2]] [0, 1, 1]
  have repeated : Offence ["a", "b"] [[0, 1], [1, 1], [0, 1], [2]]
      (.duplicateRow ["a", "b"] [0, 1]) :=
    .duplicateRow named ⟨by decide, by decide⟩ split ⟨by decide, by decide⟩ (by decide)
  exact ⟨named, (reported _).mpr repeated, (values named).1 (by decide)⟩

end Labels

end LabeledBlocks
