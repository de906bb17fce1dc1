/-!
# Groups

A list taken apart into consecutive groups of one length, or into groups by a number that every
member comes with.

* `flatten_groups` — the consecutive groups hold the list when their lengths add up to its length.
* `groupsByNumber_eq_map` — the members of a group by number are those with its number.
-/

namespace LabeledBlocks

/-! ### Consecutive groups -/

/-- The first `count` consecutive groups of `width` members. -/
def groups {α : Type} (width : Nat) : (count : Nat) → List α → List (List α)
  | 0, _ => []
  | count + 1, members => members.take width :: groups width count (members.drop width)

@[simp]
theorem length_groups {α : Type} (width count : Nat) (members : List α) :
    (groups width count members).length = count := by
  induction count generalizing members with
  | zero => rfl
  | succ count ih => simp [groups, ih]

/-- Nothing is lost when a list is cut into groups that use it up. -/
theorem flatten_groups {α : Type} {width count : Nat} {members : List α}
    (h : members.length = count * width) : (groups width count members).flatten = members := by
  induction count generalizing members with
  | zero =>
    have : members = [] := List.eq_nil_of_length_eq_zero (by simpa using h)
    simp [groups, this]
  | succ count ih =>
    have hdrop : (members.drop width).length = count * width := by
      rw [List.length_drop, h, Nat.succ_mul]
      omega
    simp [groups, ih hdrop]

/-! ### Groups by number -/

/-- The members of each of `count` groups, when every member comes with the number of its group.
The list is gone through once, from its end, and every member is put in front of its group. -/
def groupsByNumber {α : Type} (count : Nat) (members : List (α × Nat)) : List (List α) :=
  (members.foldr (fun member found => found.modify member.2 (member.1 :: ·))
    (Array.replicate count [])).toList

/-- The groups while the list is gone through. -/
theorem getElem?_foldr_modify {α : Type} (count : Nat) (members : List (α × Nat)) (n : Nat) :
    (members.foldr (fun member found => found.modify member.2 (member.1 :: ·))
      (Array.replicate count []))[n]? =
    if n < count then some ((members.filter (·.2 == n)).map (·.1)) else none := by
  induction members with
  | nil => simp [Array.getElem?_replicate]
  | cons member members ih =>
    rw [List.foldr_cons, Array.getElem?_modify, ih]
    by_cases h : member.2 = n
    · by_cases hn : n < count <;> simp [h, hn]
    · simp [h]

theorem groupsByNumber_eq_map {α : Type} (count : Nat) (members : List (α × Nat)) :
    groupsByNumber count members =
      (List.range count).map fun n => (members.filter (·.2 == n)).map (·.1) := by
  apply List.ext_getElem?
  intro n
  rw [groupsByNumber, Array.getElem?_toList, getElem?_foldr_modify, List.getElem?_map]
  by_cases h : n < count <;> simp [h]

end LabeledBlocks
