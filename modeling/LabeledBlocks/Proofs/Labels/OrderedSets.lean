import LabeledBlocks.Proofs.Labels.Comparison
import LabeledBlocks.Proofs.Labels.SetOperations

/-!
# Labels as ordered sets

A union keeps the rows of its first side in their places and puts the rows that are new behind them;
an intersection keeps those rows of its first side that its second side has as well. Both tell of
every row of either side where it stands now. A union has its rows in the order of first appearance,
so it does not matter how three labels are bracketed, but it does matter which of two comes first.

* `Labels.Tells` — what is told of a row: where it stands, or that it does not.
* `Labels.IsUnion`, `Labels.IsIntersection` — what the operations give.
* `Labels.exists_union`, `Labels.exists_intersection` — they give it if the names are the same.
* `Labels.union_assoc`, `Labels.union_comm`, `Labels.intersection_comm`,
  `Labels.union_intersection_self`, `Labels.intersection_union_self` — laws of ordered sets.
* `Labels.ordered_sets` — when the operations are refused, what they give, and the laws.
-/

namespace LabeledBlocks.Labels

/-! ### Where rows stand -/

/-- What is told of a row: the position at which it stands among others, or that it does not. -/
def Tells (rows : List Row) (row : Row) : Option Nat → Prop
  | some i => rows[i]? = some row
  | none => row ∉ rows

/-- What is told of a row is where it stands. -/
theorem tells_position {labels : Labels} (regular : labels.Regular) (row : Row) :
    Tells labels.rows row (labels.position row) := by
  cases found : labels.position row with
  | some i => exact (position_eq_some_iff regular).mp found
  | none =>
    intro member
    have contained := (contains_iff regular).mpr member
    rw [contains, found] at contained
    cases contained

/-- The rows of `a`, then those that only `b` has, and where every row of either side stands. -/
structure IsUnion (a b union : Labels) (first second : List Nat) : Prop where
  names : union.names = a.names
  rows : union.rows = a.rows ++ b.rows.filter (· ∉ a.rows)
  first : List.Forall₂ (fun row i => Tells union.rows row (some i)) a.rows first
  second : List.Forall₂ (fun row i => Tells union.rows row (some i)) b.rows second

/-- The rows of `a` that `b` has too, and where every row of either side stands if it is one of
them. -/
structure IsIntersection (a b common : Labels) (first second : List (Option Nat)) : Prop where
  names : common.names = a.names
  rows : common.rows = a.rows.filter (· ∈ b.rows)
  first : List.Forall₂ (Tells common.rows) a.rows first
  second : List.Forall₂ (Tells common.rows) b.rows second

/-! ### What the operations give -/

/-- The rows of both, each once. -/
def together (a b : Labels) : Labels :=
  .of a.names (a.rows ++ b.rows).eraseDups

/-- The names differ, and the error shows them. -/
def Incompatible (a b : Labels) (e : Error) : Prop :=
  a.names ≠ b.names ∧ e = .incompatibleNames a.names b.names

section Given

variable {a b : Labels}

theorem checkSameNames_bind_eq_error {α : Type} {next : Unit → Except Error α} {given : α}
    (total : next () = .ok given) {e : Error} :
    (checkSameNames a b >>= next) = .error e ↔ Incompatible a b e := by
  rw [checkSameNames, Incompatible]
  by_cases same : a.names = b.names
  · simp [same, ok_bind_eq, total]
  · simp [same, bind, Except.bind, eq_comm]

theorem unionWithPositions_eq_error {e : Error} :
    a.unionWithPositions b = .error e ↔ Incompatible a b e := by
  rw [unionWithPositions]
  exact checkSameNames_bind_eq_error (by rfl)

theorem union_eq_error {e : Error} : a.union b = .error e ↔ Incompatible a b e := by
  rw [union, map_eq_error, unionWithPositions_eq_error]

theorem intersectionWithPositions_eq_error {e : Error} :
    a.intersectionWithPositions b = .error e ↔ Incompatible a b e := by
  rw [intersectionWithPositions]
  exact checkSameNames_bind_eq_error (by rfl)

theorem intersection_eq_error {e : Error} : a.intersection b = .error e ↔ Incompatible a b e := by
  rw [intersection, map_eq_error, intersectionWithPositions_eq_error]

variable (ha : a.Regular) (hb : b.Regular) (same : a.names = b.names)

include same

include ha hb in
theorem union_of_same : a.union b = .ok (together a b) := by
  rw [union_eq ha hb, if_neg (not_not.mpr same), together]

include ha hb in
theorem regular_together : (together a b).Regular :=
  ha.union hb same rfl rfl

theorem intersection_of_same : a.intersection b = .ok (.of a.names (a.rows.filter b.contains)) := by
  rw [intersection_eq, if_neg (not_not.mpr same)]

include ha hb

/-- The new rows stand behind all others, and no row has moved. -/
theorem exists_union : ∃ union first second,
    a.unionWithPositions b = .ok (union, first, second) ∧ a.union b = .ok union ∧
      IsUnion a b union first second := by
  have rows : (together a b).rows = a.rows ++ b.rows.filter (· ∉ a.rows) := by
    simp [together, of, eraseDups_append_of_nodup ha.nodup hb.nodup, List.removeAll]
  refine ⟨together a b, List.range a.count, b.rows.map (together a b).rows.idxOf, ?_,
    union_of_same ha hb same, rfl, rows, ?_, ?_⟩
  · exact (unionWithPositions_eq_ok_iff ha hb).mpr ⟨⟨same, rfl, rfl⟩, rfl, rfl⟩
  · rw [List.forall₂_iff_get, rows, a.count_eq]
    refine ⟨List.length_range.symm, fun i inside _ => ?_⟩
    simp [Tells, List.getElem?_append_left inside]
  · rw [List.forall₂_map_right_iff, List.forall₂_same]
    intro row member
    have inUnion : row ∈ (together a b).rows :=
      List.mem_eraseDups.mpr (List.mem_append_right _ member)
    exact List.getElem?_idxOf inUnion

omit ha hb same in
/-- Rows are numbered as they are found to be common. The rows `before` were found already, and none
of them comes again. -/
theorem tells_commonRows (labels : Labels) (before : List Row) {rows : List Row}
    (nodup : (before ++ rows).Nodup) :
    List.Forall₂ (Tells (before ++ rows.filter labels.contains)) rows
      (commonRows labels before.length rows).2 := by
  induction rows generalizing before with
  | nil => exact .nil
  | cons row rows ih =>
    rw [commonRows, List.filter_cons]
    by_cases common : labels.contains row = true
    · rw [if_pos common, if_pos common]
      have moved : (before ++ [row] ++ rows).Nodup := by rwa [List.append_assoc]
      have rest := ih (before ++ [row]) moved
      rw [List.length_append, List.length_singleton, List.append_assoc, List.singleton_append] at rest
      have here : Tells (before ++ row :: rows.filter labels.contains) row (some before.length) := by
        simp [Tells]
      exact .cons here rest
    · rw [if_neg common, if_neg common]
      obtain ⟨_, nodup', apart⟩ := List.nodup_append.mp nodup
      have absent : row ∉ before ++ rows.filter labels.contains := by
        intro member
        rcases List.mem_append.mp member with earlier | later
        · exact apart row earlier row List.mem_cons_self rfl
        · exact (List.nodup_cons.mp nodup').1 (List.mem_of_mem_filter later)
      have skipped : (before ++ rows).Nodup :=
        nodup.sublist ((List.sublist_cons_self row rows).append_left before)
      exact .cons absent (ih before skipped)

/-- An intersection is always given for the same names, and is what it should be. -/
theorem exists_intersection : ∃ common first second,
    a.intersectionWithPositions b = .ok (common, first, second) ∧ a.intersection b = .ok common ∧
      IsIntersection a b common first second := by
  let common := of a.names (commonRows b 0 a.rows).1
  have found : common.rows = a.rows.filter b.contains := commonRows_fst b 0 a.rows
  have rows : common.rows = a.rows.filter (· ∈ b.rows) := by
    rw [found]
    refine List.filter_congr fun row _ => ?_
    rw [Bool.eq_iff_iff, contains_iff hb, decide_eq_true_iff]
  have given : a.intersectionWithPositions b =
      .ok (common, (commonRows b 0 a.rows).2, b.rows.map common.position) := by
    rw [intersectionWithPositions, checkSameNames, if_pos same]
    rfl
  have alone : a.intersection b = .ok common := by
    rw [intersection, given]
    rfl
  refine ⟨common, _, _, given, alone, rfl, rows, ?_, ?_⟩
  · rw [found]
    exact tells_commonRows b [] ha.nodup
  · rw [List.forall₂_map_right_iff, List.forall₂_same]
    exact fun row _ => tells_position (regular_intersection ha alone) row

end Given

/-! ### Laws -/

/-- Both are given, and they compare. -/
def BothGiven (compares : Labels → Labels → Bool) (x y : Except Error Labels) : Prop :=
  ∃ labels labels', x = .ok labels ∧ y = .ok labels' ∧ compares labels labels' = true

theorem BothGiven.of_identical {x y : Except Error Labels} (labels : Labels) (given : x = .ok labels)
    (given' : y = .ok labels) : BothGiven identical x y :=
  ⟨labels, labels, given, given', identical_self labels⟩

section Laws

variable {a b c : Labels} (ha : a.Regular) (hb : b.Regular) (hc : c.Regular)
  (same : a.names = b.names) (same' : b.names = c.names)

include ha hb same

include hc same' in
/-- However three labels are bracketed, their rows come in order of first appearance. -/
theorem union_assoc :
    BothGiven identical (a.union b >>= (·.union c)) (b.union c >>= (a.union ·)) := by
  have regular := regular_together ha hb same
  have regular' := regular_together hb hc same'
  apply BothGiven.of_identical (of a.names (a.rows ++ b.rows ++ c.rows).eraseDups)
  · rw [union_of_same ha hb same, ok_bind_eq, union_of_same regular hc (same.trans same')]
    simp only [together, of, eraseDups_eraseDups_append]
  · rw [union_of_same hb hc same', ok_bind_eq, union_of_same ha regular' same]
    simp only [together, of, eraseDups_append_eraseDups, List.append_assoc]

theorem union_comm : BothGiven sameRows (a.union b) (b.union a) := by
  refine ⟨_, _, union_of_same ha hb same, union_of_same hb ha same.symm, ?_⟩
  rw [sameRows_iff_mem (regular_together ha hb same) (regular_together hb ha same.symm)]
  refine ⟨same, fun row => ?_⟩
  simp only [together, of, List.mem_eraseDups, List.mem_append]
  exact or_comm

/-- It does not matter which labels come first in an intersection, up to the order of the rows. -/
theorem intersection_comm : BothGiven sameRows (a.intersection b) (b.intersection a) := by
  have given := intersection_of_same same
  have given' := intersection_of_same same.symm
  refine ⟨_, _, given, given', ?_⟩
  rw [sameRows_iff_mem (regular_intersection ha given) (regular_intersection hb given')]
  refine ⟨same, fun row => ?_⟩
  simp only [of, List.mem_filter, contains_iff ha, contains_iff hb]
  exact and_comm

omit hb in
/-- What both have is nothing new. -/
theorem union_intersection_self :
    BothGiven identical (a.intersection b >>= (a.union ·)) (.ok a) := by
  have given := intersection_of_same same
  have nothing : (a.rows.filter b.contains).removeAll a.rows = [] := by
    rw [List.removeAll, List.filter_eq_nil_iff]
    intro row member
    simpa using List.mem_of_mem_filter member
  have rows : (a.rows ++ a.rows.filter b.contains).eraseDups = a.rows := by
    rw [eraseDups_append_of_nodup ha.nodup (ha.nodup.filter _), nothing, List.append_nil]
  apply BothGiven.of_identical a _ rfl
  rw [given, ok_bind_eq, union_of_same ha (regular_intersection ha given) rfl]
  exact congrArg Except.ok (ext_iff.mpr ⟨rfl, rows⟩)

/-- All rows are among those of the union. -/
theorem intersection_union_self :
    BothGiven identical (a.union b >>= (a.intersection ·)) (.ok a) := by
  have given : a.intersection (together a b) = .ok (of a.names _) := intersection_of_same rfl
  have rows : a.rows.filter (together a b).contains = a.rows := by
    rw [List.filter_eq_self]
    intro row member
    rw [contains_iff (regular_together ha hb same)]
    exact List.mem_eraseDups.mpr (List.mem_append_left _ member)
  apply BothGiven.of_identical a _ rfl
  rw [union_of_same ha hb same, ok_bind_eq, given]
  exact congrArg Except.ok (ext_iff.mpr ⟨rfl, rows⟩)

end Laws

/-- **Unions and intersections are those of ordered sets.** They are refused exactly if the names
differ. Otherwise a union is the rows of the first side followed by the new rows of the second, an
intersection the rows of the first side that the second has, and of every row of either side it is
told where it stands or that it does not. Unions of three labels are identical however they are
bracketed, unions and intersections have the same rows whichever side comes first, and either of
them takes back the other. All labels that are reached are regular (`sound_of_reachable`). -/
theorem ordered_sets {a b c : Labels} (ha : a.Regular) (hb : b.Regular) (hc : c.Regular) :
    (∀ e, (a.union b = .error e ↔ Incompatible a b e) ∧
      (a.unionWithPositions b = .error e ↔ Incompatible a b e) ∧
      (a.intersection b = .error e ↔ Incompatible a b e) ∧
      (a.intersectionWithPositions b = .error e ↔ Incompatible a b e)) ∧
    (a.names = b.names →
      (∃ union first second, a.unionWithPositions b = .ok (union, first, second) ∧
        a.union b = .ok union ∧ IsUnion a b union first second) ∧
      ∃ common first second, a.intersectionWithPositions b = .ok (common, first, second) ∧
        a.intersection b = .ok common ∧ IsIntersection a b common first second) ∧
    (a.names = b.names → b.names = c.names →
      BothGiven identical (a.union b >>= (·.union c)) (b.union c >>= (a.union ·)) ∧
      BothGiven sameRows (a.union b) (b.union a) ∧
      BothGiven sameRows (a.intersection b) (b.intersection a) ∧
      BothGiven identical (a.intersection b >>= (a.union ·)) (.ok a) ∧
      BothGiven identical (a.union b >>= (a.intersection ·)) (.ok a)) := by
  refine ⟨fun e => ?_, fun same => ?_, fun same same' => ?_⟩
  · exact ⟨union_eq_error, unionWithPositions_eq_error, intersection_eq_error,
      intersectionWithPositions_eq_error⟩
  · exact ⟨exists_union ha hb same, exists_intersection ha hb same⟩
  · exact ⟨union_assoc ha hb hc same same', union_comm ha hb same, intersection_comm ha hb same,
      union_intersection_self ha same, intersection_union_self ha hb same⟩

/-- Four rows, some of which each of two other labels have. -/
def evens : Labels :=
  .of ["x"] [[4], [0], [2], [6]]

def thirds : Labels :=
  .of ["x"] [[6], [3], [0]]

def fifths : Labels :=
  .of ["x"] [[5], [0]]

theorem evens_thirds :
    evens.unionWithPositions thirds =
        .ok (.of ["x"] [[4], [0], [2], [6], [3]], [0, 1, 2, 3], [3, 4, 1]) ∧
      evens.intersectionWithPositions thirds =
        .ok (.of ["x"] [[0], [6]], [none, some 0, none, some 1], [some 1, none, some 0]) ∧
      IsUnion evens thirds (.of ["x"] [[4], [0], [2], [6], [3]]) [0, 1, 2, 3] [3, 4, 1] ∧
      BothGiven identical (evens.union thirds >>= (·.union fifths))
        (thirds.union fifths >>= (evens.union ·)) := by
  have valid : evens.Valid ∧ thirds.Valid ∧ fifths.Valid := by decide
  obtain ⟨_, given, laws⟩ :=
    ordered_sets valid.1.toRegular valid.2.1.toRegular valid.2.2.toRegular
  obtain ⟨⟨union, first, second, united, _, isUnion⟩, _⟩ := given rfl
  have computed : evens.unionWithPositions thirds =
      .ok (.of ["x"] [[4], [0], [2], [6], [3]], [0, 1, 2, 3], [3, 4, 1]) := by decide +kernel
  rw [computed] at united
  cases united
  exact ⟨computed, by decide +kernel, isUnion, (laws rfl rfl).1⟩

end LabeledBlocks.Labels
