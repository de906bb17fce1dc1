import LabeledBlocks.Groups
import LabeledBlocks.Proofs.Outcomes
import LabeledBlocks.Proofs.Positions
import Mathlib.Data.List.Perm.Basic

/-!
# Members of groups

Runs of one length are cut apart again, and each of them stands where its number says. When the
number of a group is the position of a value, its members are those that have this value.

* `groups_flatMap` — runs of one length are the groups of the list that they form.
* `getElem?_flatten_runs` — a member of a run is found by the numbers of both.
* `groups_eq_map` — a group is found by its number.
* `groupsByNumber_idxOf` — groups by the position of a value.
* `filter_flatten_eq`, `eraseDups_map_flatten` — lists whose members belong to one key each.
* `sum_map_le_of_subperm` — some of the members add up to less.
-/

namespace LabeledBlocks

variable {α β : Type}

/-- Runs of one length are cut apart again. -/
theorem groups_flatMap (encode : α → List β) {width : Nat} {values : List α}
    (length : ∀ value ∈ values, (encode value).length = width) :
    groups width values.length (values.flatMap encode) = values.map encode := by
  induction values with
  | nil => rfl
  | cons first rest ih =>
    rw [List.forall_mem_cons] at length
    rw [List.length_cons, groups, List.flatMap_cons, List.take_left' length.1,
      List.drop_left' length.1, ih length.2, List.map_cons]

theorem groups_flatten {width : Nat} {runs : List (List α)}
    (length : ∀ run ∈ runs, run.length = width) :
    groups width runs.length runs.flatten = runs := by
  have cut := groups_flatMap id length
  rwa [List.flatMap_id, List.map_id] at cut

/-- Groups that hold the list have the length that was asked for. -/
theorem length_of_mem_groups {width count : Nat} {members group : List α}
    (length : members.length = count * width) (member : group ∈ groups width count members) :
    group.length = width := by
  induction count generalizing members with
  | zero => cases member
  | succ count ih =>
    rw [Nat.succ_mul] at length
    rcases List.mem_cons.mp member with rfl | later
    · rw [List.length_take]
      omega
    · apply ih _ later
      rw [List.length_drop]
      omega

/-- A member of a run stands behind the runs before. -/
theorem getElem?_flatten_runs {width : Nat} {runs : List (List α)}
    (length : ∀ run ∈ runs, run.length = width) {k : Nat} (inside : k < width) (i : Nat) :
    runs.flatten[i * width + k]? = runs[i]?.bind (·[k]?) := by
  induction runs generalizing i with
  | nil => simp
  | cons run runs ih =>
    rw [List.forall_mem_cons] at length
    rw [List.flatten_cons]
    cases i with
    | zero =>
      rw [Nat.zero_mul, Nat.zero_add, List.getElem?_append_left (by omega)]
      rfl
    | succ i =>
      have behind : (i + 1) * width + k = run.length + (i * width + k) := by
        rw [length.1, Nat.succ_mul]
        omega
      rw [behind, List.getElem?_append_right (Nat.le_add_right _ _), Nat.add_sub_cancel_left,
        ih length.2]
      rfl

theorem length_flatten_runs {width : Nat} {runs : List (List α)}
    (length : ∀ run ∈ runs, run.length = width) : runs.flatten.length = runs.length * width := by
  have lengths : runs.map List.length = runs.map fun _ => width := List.map_congr_left length
  rw [List.length_flatten, lengths, List.map_const', List.sum_replicate_nat]

/-- A group starts behind the groups before it. -/
theorem groups_eq_map (width count : Nat) (members : List α) :
    groups width count members =
      (List.range count).map fun i => (members.drop (i * width)).take width := by
  induction count generalizing members with
  | zero => rfl
  | succ count ih =>
    rw [groups, ih, List.range_succ_eq_map, List.map_cons, List.map_map, Nat.zero_mul,
      List.drop_zero]
    refine congrArg _ (List.map_congr_left fun i _ => ?_)
    rw [List.drop_drop, Function.comp_apply, Nat.succ_mul, Nat.add_comm]

theorem zip_map_self {γ : Type} (l : List α) (f : α → γ) :
    l.zip (l.map f) = l.map fun a => (a, f a) := by
  induction l with
  | nil => rfl
  | cons a l ih => rw [List.map_cons, List.zip_cons_cons, ih, List.map_cons]

/-- Members stay in their order. -/
theorem sublist_of_mem_group {count : Nat} {members : List α} {numbers : List Nat} {group : List α}
    (isGroup : group ∈ groupsByNumber count (members.zip numbers)) : group.Sublist members := by
  rw [groupsByNumber_eq_map] at isGroup
  obtain ⟨n, _, rfl⟩ := List.mem_map.mp isGroup
  have numbered : ((members.zip numbers).map (·.1)).Sublist members := by
    rw [List.zip_eq_zip_take_min, List.map_fst_zip (by simp)]
    exact List.take_sublist _ _
  exact (List.filter_sublist.map _).trans numbered

/-- Members grouped by the position of a value that each of them has. -/
theorem groupsByNumber_idxOf [BEq β] [LawfulBEq β] {values : List β} (nodup : values.Nodup)
    {valueOf : α → β} {members : List α} {numbers : List Nat}
    (numbered : numbers = members.map fun member => values.idxOf (valueOf member)) :
    groupsByNumber values.length (members.zip numbers) =
      values.map fun value => members.filter (valueOf · == value) := by
  rw [numbered, zip_map_self, groupsByNumber_eq_map]
  refine List.ext_getElem (by simp) fun n _ inside => ?_
  rw [List.length_map] at inside
  rw [List.getElem_map, List.getElem_map, List.getElem_range, List.filter_map, List.map_map]
  have same : ∀ member ∈ members,
      (values.idxOf (valueOf member) == n) = (valueOf member == values[n]) := by
    intro member _
    rw [Bool.eq_iff_iff, beq_iff_eq, beq_iff_eq]
    constructor
    · rintro rfl
      exact (List.getElem_idxOf inside).symm
    · intro value
      rw [value, nodup.idxOf_getElem]
  exact (List.map_id _).trans (List.filter_congr same)

/-! ### Lists that belong to keys -/

section Keyed

variable {κ : Type} [BEq κ] [LawfulBEq κ] {l : List α} {lists : List (List β)} {keyOf : α → κ}
  {keyOf' : β → κ}

/-- The members with one key are those of the list that belongs to it. -/
theorem filter_flatten_eq (nodup : (l.map keyOf).Nodup)
    (all : List.Forall₂ (fun a list => ∀ b ∈ list, keyOf' b = keyOf a) l lists) {a : α}
    {list : List β} (paired : (a, list) ∈ l.zip lists) :
    lists.flatten.filter (keyOf' · == keyOf a) = list := by
  induction all with
  | nil => cases paired
  | @cons first own l lists here further ih =>
    rw [List.map_cons, List.nodup_cons] at nodup
    rw [List.flatten_cons, List.filter_append]
    rcases List.mem_cons.mp paired with same | inside
    · cases same
      have own : list.filter (keyOf' · == keyOf a) = list := by
        rw [List.filter_eq_self]
        exact fun b member => beq_iff_eq.mpr (here b member)
      have others : lists.flatten.filter (keyOf' · == keyOf a) = [] := by
        rw [List.filter_eq_nil_iff]
        intro b member same
        obtain ⟨other, isList, inOther⟩ := List.mem_flatten.mp member
        obtain ⟨owner, isOwner, keyed⟩ := exists_of_mem_right further isList
        rw [keyed b inOther, beq_iff_eq] at same
        exact nodup.1 (same ▸ List.mem_map_of_mem isOwner)
      rw [own, others, List.append_nil]
    · have others : own.filter (keyOf' · == keyOf a) = [] := by
        rw [List.filter_eq_nil_iff]
        intro b member same
        rw [here b member, beq_iff_eq] at same
        exact nodup.1 (same ▸ List.mem_map_of_mem (List.of_mem_zip inside).1)
      rw [others, List.nil_append, ih nodup.2 inside]

/-- The keys that occur are those whose lists are not empty. -/
theorem eraseDups_map_flatten (nodup : (l.map keyOf).Nodup) {p : α → Bool}
    (all : List.Forall₂ (fun a list => (∀ b ∈ list, keyOf' b = keyOf a) ∧ (p a = true ↔ list ≠ []))
      l lists) :
    (lists.flatten.map keyOf').eraseDups = (l.filter p).map keyOf := by
  induction all with
  | nil => rfl
  | @cons a own l lists here further ih =>
    rw [List.map_cons, List.nodup_cons] at nodup
    obtain ⟨keyed, some⟩ := here
    have keys : own.map keyOf' = own.map fun _ => keyOf a := List.map_congr_left keyed
    have apart : (lists.flatten.map keyOf').removeAll (own.map fun _ => keyOf a) =
        lists.flatten.map keyOf' := by
      rw [List.removeAll, List.filter_eq_self]
      intro key isKey
      obtain ⟨b, member, rfl⟩ := List.mem_map.mp isKey
      obtain ⟨other, isList, inOther⟩ := List.mem_flatten.mp member
      obtain ⟨owner, isOwner, keyed, _⟩ := exists_of_mem_right further isList
      rw [keyed b inOther, Bool.not_eq_true', ← Bool.not_eq_true, List.elem_iff]
      intro isOwn
      obtain ⟨_, _, same⟩ := List.mem_map.mp isOwn
      exact nodup.1 (same ▸ List.mem_map_of_mem isOwner)
    rw [List.flatten_cons, List.map_append, keys, List.eraseDups_append, apart, ih nodup.2]
    by_cases none : own = []
    · have dropped : p a = false := Bool.eq_false_iff.mpr fun kept => some.mp kept none
      rw [none, List.filter_cons_of_neg (Bool.eq_false_iff.mp dropped)]
      rfl
    · rw [List.filter_cons_of_pos (some.mpr none), List.map_cons, eraseDups_map_const none]
      rfl

end Keyed

/-- Some of the members of a list, in any order, add up to no more than all of them. -/
theorem sum_map_le_of_subperm (f : α → Nat) {some all : List α} (among : some.Subperm all) :
    (some.map f).sum ≤ (all.map f).sum := by
  obtain ⟨order, perm, sublist⟩ := among
  rw [(perm.map f).symm.sum_nat]
  clear perm
  induction sublist with
  | slnil => exact Nat.le_refl _
  | cons member _ ih => exact Nat.le_trans ih (Nat.le_add_left _ (f member))
  | cons_cons member _ ih => exact Nat.add_le_add_left ih (f member)

end LabeledBlocks
