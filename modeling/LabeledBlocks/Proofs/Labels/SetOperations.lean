import LabeledBlocks.Labels.SetOperations
import LabeledBlocks.Proofs.Labels.Valid

/-!
# Unions and intersections of labels

A union has the rows of both sides, each once, in order of first appearance, and it tells for every
row of either side where it stands now. An intersection has some of the rows of its first side.

* `Labels.newRows_eq` — the new rows, and the positions of all rows.
* `Labels.unionWithPositions_eq_ok_iff`, `Labels.union_eq` — labels with the same names have a union.
* `Labels.Regular.union`, `Labels.Valid.union` — the union of regular labels is regular, and that of
  valid labels is valid.
* `Labels.intersection_eq` — labels with the same names have an intersection.
* `Labels.regular_intersection` — the intersection of regular labels is regular.
-/

namespace LabeledBlocks.Labels

/-- The rows that were put behind the labels before are new and do not come again. -/
theorem newRows_eq {labels : Labels} (regular : labels.Regular) {before rows : List Row}
    (nodup : (before ++ rows).Nodup) (new : ∀ row ∈ before, row ∉ labels.rows) {next : Nat}
    (length : next = (labels.rows ++ before).length) :
    newRows labels next rows =
      (rows.removeAll labels.rows,
        rows.map (labels.rows ++ before ++ rows.removeAll labels.rows).idxOf) := by
  induction rows generalizing before next with
  | nil => rfl
  | cons row rows ih =>
    rw [newRows, List.cons_removeAll, List.map_cons]
    cases found : labels.position row with
    | some i =>
      have here := (position_eq_some_iff regular).mp found
      have member := List.mem_of_getElem? here
      have position : labels.rows.idxOf row = i := by
        obtain ⟨inside, rfl⟩ := List.getElem?_eq_some_iff.mp here
        exact regular.nodup.idxOf_getElem i inside
      have skipped : (before ++ rows).Nodup :=
        nodup.sublist ((List.sublist_cons_self row rows).append_left before)
      rw [if_neg (by simpa using member), ih skipped new length, List.append_assoc,
        List.idxOf_append, if_pos member, position]
    | none =>
      have absent : row ∉ labels.rows := by
        intro member
        obtain ⟨i, here⟩ := List.mem_iff_getElem?.mp member
        rw [(position_eq_some_iff regular).mpr here] at found
        cases found
      have apart : row ∉ labels.rows ++ before := by
        rw [List.mem_append, not_or]
        refine ⟨absent, fun earlier => ?_⟩
        exact (List.nodup_append.mp nodup).2.2 row earlier row List.mem_cons_self rfl
      have moved : (before ++ [row] ++ rows).Nodup := by
        rwa [List.append_assoc]
      have fresh : ∀ other ∈ before ++ [row], other ∉ labels.rows := by
        intro other member
        rcases List.mem_append.mp member with earlier | same
        · exact new other earlier
        · rwa [List.mem_singleton.mp same]
      have further : next + 1 = (labels.rows ++ (before ++ [row])).length := by
        rw [length]
        simp
        omega
      have regroup : labels.rows ++ (before ++ [row]) ++ rows.removeAll labels.rows =
          labels.rows ++ before ++ row :: rows.removeAll labels.rows := by
        simp
      have position : (labels.rows ++ before ++ row :: rows.removeAll labels.rows).idxOf row =
          next := by
        rw [List.idxOf_append, if_neg apart, List.idxOf_cons_self, Nat.zero_add, length]
      rw [if_pos (by simpa using absent), position, ih moved fresh further, regroup]

/-- A union has the rows of both sides in order of first appearance, and finds every one of them. -/
theorem unionWithPositions_eq_ok_iff {a b : Labels} (ha : a.Regular) (hb : b.Regular)
    {union : Labels} {first second : List Nat} :
    unionWithPositions a b = .ok (union, first, second) ↔
      (a.names = b.names ∧ union.names = a.names ∧ union.rows = (a.rows ++ b.rows).eraseDups) ∧
        first = List.range a.count ∧ second = b.rows.map union.rows.idxOf := by
  have nodup : (([] : List Row) ++ b.rows).Nodup := hb.nodup
  have given : newRows a a.count b.rows =
      (b.rows.removeAll a.rows, b.rows.map (a.rows ++ [] ++ b.rows.removeAll a.rows).idxOf) :=
    newRows_eq ha nodup (fun row member => absurd member List.not_mem_nil)
      (by rw [List.append_nil, a.count_eq])
  rw [List.append_nil] at given
  have rows : (a.append (b.rows.removeAll a.rows)).rows = (a.rows ++ b.rows).eraseDups :=
    (eraseDups_append_of_nodup ha.nodup hb.nodup).symm
  rw [unionWithPositions, check_bind_eq_ok, checkSameNames, given]
  dsimp only
  rw [pure_eq_ok, Prod.mk.injEq, Prod.mk.injEq]
  constructor
  · rintro ⟨same, rfl, rfl, rfl⟩
    by_cases names : a.names = b.names
    · exact ⟨⟨names, rfl, rows⟩, rfl, rfl⟩
    · rw [if_neg names] at same
      cases same
  · rintro ⟨⟨names, names', rows'⟩, rfl, rfl⟩
    have whole : a.append (b.rows.removeAll a.rows) = union :=
      ext_iff.mpr ⟨names'.symm, rows.trans rows'.symm⟩
    rw [if_pos names]
    exact ⟨rfl, whole, rfl, congrArg (fun labels : Labels => b.rows.map labels.rows.idxOf) whole⟩

/-- Rows of regular labels make regular labels when each of them is taken once. -/
theorem Regular.union {a b union : Labels} (ha : a.Regular) (hb : b.Regular)
    (names : a.names = b.names) (names' : union.names = a.names)
    (rows : union.rows = (a.rows ++ b.rows).eraseDups) : union.Regular := by
  constructor
  · intro row member
    rw [rows, List.mem_eraseDups, List.mem_append] at member
    rw [size, names']
    rcases member with inA | inB
    · exact ha.width row inA
    · rw [names]
      exact hb.width row inB
  · rw [rows]
    exact nodup_eraseDups _

/-- Rows of valid labels make valid labels when each of them is taken once. -/
theorem Valid.union {a b union : Labels} (ha : a.Valid) (hb : b.Valid) (names : a.names = b.names)
    (names' : union.names = a.names) (rows : union.rows = (a.rows ++ b.rows).eraseDups) :
    union.Valid := by
  refine ⟨ha.toRegular.union hb.toRegular names names' rows, ?_, ?_, ?_⟩
  · rw [names']
    exact ha.identifiers
  · rw [names']
    exact ha.distinct
  · intro unnamed
    rw [names'] at unnamed
    rw [rows, ha.unnamed unnamed, hb.unnamed (names ▸ unnamed)]
    rfl

/-- Labels with the same names have a union: their rows in order of first appearance. -/
theorem union_eq {a b : Labels} (ha : a.Regular) (hb : b.Regular) :
    a.union b =
      if a.names ≠ b.names then .error (.incompatibleNames a.names b.names)
      else .ok (.of a.names (a.rows ++ b.rows).eraseDups) := by
  by_cases same : a.names = b.names
  · let whole := of a.names (a.rows ++ b.rows).eraseDups
    have united : a.unionWithPositions b =
        .ok (whole, List.range a.count, b.rows.map whole.rows.idxOf) :=
      (unionWithPositions_eq_ok_iff ha hb).mpr ⟨⟨same, rfl, rfl⟩, rfl, rfl⟩
    rw [if_neg (not_not.mpr same), union, united]
    rfl
  · rw [if_pos same, union, unionWithPositions, checkSameNames, if_neg same]
    rfl

theorem regular_unionWithPositions {a b union : Labels} (ha : a.Regular) (hb : b.Regular)
    {first second : List Nat} (h : unionWithPositions a b = .ok (union, first, second)) :
    union.Regular := by
  obtain ⟨⟨names, names', rows⟩, _, _⟩ := (unionWithPositions_eq_ok_iff ha hb).mp h
  exact ha.union hb names names' rows

theorem regular_union {a b union : Labels} (ha : a.Regular) (hb : b.Regular)
    (h : a.union b = .ok union) : union.Regular := by
  obtain ⟨⟨_, first, second⟩, united, rfl⟩ := map_eq_ok.mp h
  exact regular_unionWithPositions ha hb united

/-! ### Intersections -/

/-- The rows that are found are those that are common. -/
theorem commonRows_fst (labels : Labels) (next : Nat) (rows : List Row) :
    (commonRows labels next rows).1 = rows.filter labels.contains := by
  induction rows generalizing next with
  | nil => rfl
  | cons row rows ih =>
    rw [commonRows, List.filter_cons]
    by_cases common : labels.contains row = true
    · rw [if_pos common, if_pos common, ← ih (next + 1)]
    · rw [if_neg common, if_neg common, ← ih next]

/-- Labels with the same names have an intersection: the rows that are found in both. -/
theorem intersection_eq (a b : Labels) :
    a.intersection b =
      if a.names ≠ b.names then .error (.incompatibleNames a.names b.names)
      else .ok (.of a.names (a.rows.filter b.contains)) := by
  rw [intersection, intersectionWithPositions, checkSameNames]
  by_cases same : a.names = b.names
  · rw [if_pos same, if_neg (not_not.mpr same), ← commonRows_fst b 0]
    rfl
  · rw [if_neg same, if_pos same]
    rfl

/-- Some of the rows of regular labels make regular labels. -/
theorem regular_intersection {a b common : Labels} (ha : a.Regular)
    (h : a.intersection b = .ok common) : common.Regular := by
  rw [intersection_eq, refused_eq_ok] at h
  obtain ⟨_, h⟩ := h
  cases h
  exact ⟨fun row member => ha.width row (List.mem_of_mem_filter member), ha.nodup.filter _⟩

end LabeledBlocks.Labels
