import Mathlib.Data.List.Forall2
import Mathlib.Data.List.Induction
import Mathlib.Data.List.Nodup

/-!
# Positions in lists

* `idxOf?_eq_some_iff_getElem?` — the position of a member of a list without repetitions.
* `nodup_eraseDups`, `eraseDups_eq_self` — a list loses its repetitions, and nothing else.
* `eraseDups_append_eraseDups`, `eraseDups_map_eraseDups` — repetitions may be dropped before more
  is done with a list.
* `pairwise_idxOf_eraseDups` — what is left is in the order of first appearance.
* `map_filter_eq_of_positions` — what is kept of a list, by the positions.
* `getElem?_filterMap` — positions stay when every member is mapped to something.
* `flatMap_zipIdx_eq` — a list of which only one member is made use of.
-/

namespace LabeledBlocks

variable {α β : Type}

/-- In a list without repetitions a member is found where it stands, and nowhere else. -/
theorem idxOf?_eq_some_iff_getElem? [BEq α] [LawfulBEq α] {l : List α} (nodup : l.Nodup) {a : α}
    {i : Nat} : l.idxOf? a = some i ↔ l[i]? = some a := by
  rw [List.idxOf?_eq_some_iff, List.getElem?_eq_some_iff]
  constructor
  · rintro ⟨inside, here, _⟩
    exact ⟨inside, here⟩
  · rintro ⟨inside, here⟩
    refine ⟨inside, here, fun j before same => ?_⟩
    have := (List.Nodup.getElem_inj_iff nodup).mp (same.trans here.symm)
    omega

theorem idxOf?_of_mem [BEq α] [LawfulBEq α] {l : List α} {a : α} (member : a ∈ l) :
    l.idxOf? a = some (l.idxOf a) := by
  rw [List.idxOf?_eq_some_iff]
  refine ⟨List.idxOf_lt_length_of_mem member, List.getElem_idxOf _, fun j before => ?_⟩
  exact beq_eq_false_iff_ne.mp (List.not_of_lt_findIdx before)

theorem nodup_eraseDups [BEq α] [LawfulBEq α] (l : List α) : l.eraseDups.Nodup := by
  match l with
  | [] => exact List.nodup_nil
  | a :: l =>
    rw [List.eraseDups_cons, List.nodup_cons, List.mem_eraseDups]
    exact ⟨by simp, nodup_eraseDups _⟩
termination_by l.length
decreasing_by
  exact Nat.lt_succ_of_le (List.length_filter_le _ l)

/-- Nothing is dropped from a list without repetitions. -/
theorem eraseDups_eq_self [BEq α] [LawfulBEq α] {l : List α} (nodup : l.Nodup) :
    l.eraseDups = l := by
  induction l with
  | nil => rfl
  | cons a l ih =>
    obtain ⟨new, nodup⟩ := List.nodup_cons.mp nodup
    have kept : (l.filter fun b => !b == a) = l := by
      rw [List.filter_eq_self]
      intro b member
      rw [Bool.not_eq_true', beq_eq_false_iff_ne]
      rintro rfl
      exact new member
    rw [List.eraseDups_cons, kept, ih nodup]

/-- What a list gains of another one that is put behind it, when both are without repetitions. -/
theorem eraseDups_append_of_nodup [BEq α] [LawfulBEq α] {l l' : List α} (nodup : l.Nodup)
    (nodup' : l'.Nodup) : (l ++ l').eraseDups = l ++ l'.removeAll l := by
  have nodup'' : (l'.removeAll l).Nodup := nodup'.filter _
  rw [List.eraseDups_append, eraseDups_eq_self nodup, eraseDups_eq_self nodup'']

/-- Repetitions may be dropped at the beginning first. -/
theorem eraseDups_eraseDups_append [BEq α] [LawfulBEq α] (l l' : List α) :
    (l.eraseDups ++ l').eraseDups = (l ++ l').eraseDups := by
  have same : l'.removeAll l.eraseDups = l'.removeAll l := by
    refine List.filter_congr fun a _ => ?_
    rw [Bool.not_inj_iff, Bool.eq_iff_iff, List.elem_iff, List.elem_iff, List.mem_eraseDups]
  rw [List.eraseDups_append, List.eraseDups_append, eraseDups_eq_self (nodup_eraseDups l), same]

/-- A member of a list that comes once more is dropped. -/
theorem eraseDups_concat_of_mem [BEq α] [LawfulBEq α] {l : List α} {a : α} (known : a ∈ l) :
    (l ++ [a]).eraseDups = l.eraseDups := by
  have nothing : [a].removeAll l = [] := by simp [List.removeAll, known]
  rw [List.eraseDups_append, nothing, List.eraseDups_nil, List.append_nil]

theorem eraseDups_concat_of_not_mem [BEq α] [LawfulBEq α] {l : List α} {a : α} (new : a ∉ l) :
    (l ++ [a]).eraseDups = l.eraseDups ++ [a] := by
  have all : [a].removeAll l = [a] := by simp [List.removeAll, new]
  rw [List.eraseDups_append, all, eraseDups_eq_self (List.nodup_singleton a)]

/-- Repetitions may be dropped at the end first. -/
theorem eraseDups_append_eraseDups [BEq α] [LawfulBEq α] (l l' : List α) :
    (l ++ l'.eraseDups).eraseDups = (l ++ l').eraseDups := by
  induction l' using List.reverseRecOn with
  | nil => rfl
  | append_singleton l' a ih =>
    by_cases known : a ∈ l'
    · rw [eraseDups_concat_of_mem known, ih, ← List.append_assoc,
        eraseDups_concat_of_mem (List.mem_append_right l known)]
    · rw [eraseDups_concat_of_not_mem known, ← List.append_assoc, ← eraseDups_eraseDups_append, ih,
        eraseDups_eraseDups_append, List.append_assoc]

/-- Members come in the order in which they appear first. -/
theorem pairwise_idxOf_eraseDups [BEq α] [LawfulBEq α] (l : List α) :
    l.eraseDups.Pairwise fun a b => l.idxOf a < l.idxOf b := by
  induction l using List.reverseRecOn with
  | nil => exact .nil
  | append_singleton l last ih =>
    have place : ∀ a ∈ l.eraseDups, (l ++ [last]).idxOf a = l.idxOf a := fun a member => by
      rw [List.idxOf_append, if_pos (List.mem_eraseDups.mp member)]
    have before : l.eraseDups.Pairwise fun a b => (l ++ [last]).idxOf a < (l ++ [last]).idxOf b :=
      ih.imp_of_mem fun inA inB less => by rwa [place _ inA, place _ inB]
    by_cases known : last ∈ l
    · rwa [eraseDups_concat_of_mem known]
    · rw [eraseDups_concat_of_not_mem known, List.pairwise_append]
      refine ⟨before, List.pairwise_singleton _ _, fun a member b isLast => ?_⟩
      have inside := List.idxOf_lt_length_of_mem (List.mem_eraseDups.mp member)
      rw [List.mem_singleton.mp isLast, place a member, List.idxOf_append, if_neg known]
      omega

/-- A member of a list keeps its position when more is put behind the list. -/
theorem idxOf_eraseDups_append [BEq α] [LawfulBEq α] {l : List α} (l' : List α) {a : α}
    (member : a ∈ l) : (l ++ l').eraseDups.idxOf a = l.eraseDups.idxOf a := by
  rw [List.eraseDups_append, List.idxOf_append, if_pos (List.mem_eraseDups.mpr member)]

/-- Repetitions may be dropped before a list is mapped. -/
theorem eraseDups_map_eraseDups [BEq α] [LawfulBEq α] [BEq β] [LawfulBEq β] (f : α → β)
    (l : List α) : (l.eraseDups.map f).eraseDups = (l.map f).eraseDups := by
  induction l using List.reverseRecOn with
  | nil => rfl
  | append_singleton l a ih =>
    rw [List.map_append, List.map_singleton]
    by_cases known : a ∈ l
    · rw [eraseDups_concat_of_mem known, ih, eraseDups_concat_of_mem (List.mem_map_of_mem known)]
    · rw [eraseDups_concat_of_not_mem known, List.map_append, List.map_singleton,
        ← eraseDups_eraseDups_append, ih, eraseDups_eraseDups_append]

theorem eraseDups_map_const [BEq β] [LawfulBEq β] {b : β} {l : List α} (some : l ≠ []) :
    (l.map fun _ => b).eraseDups = [b] := by
  obtain ⟨first, l, rfl⟩ := List.exists_cons_of_ne_nil some
  have repeated : ((l.map fun _ => b).filter fun other => !other == b) = [] := by
    rw [List.filter_eq_nil_iff]
    intro other member
    obtain ⟨_, _, rfl⟩ := List.mem_map.mp member
    simp
  rw [List.map_cons, List.eraseDups_cons, repeated, List.eraseDups_nil]

/-- What is looked for is found if there is only one position where it can stand. -/
theorem find?_eq_of_unique {p : α → Bool} {l : List α} {k : Nat} {a : α} (found : l[k]? = some a)
    (holds : p a = true) (unique : ∀ i b, l[i]? = some b → p b = true → i = k) :
    l.find? p = some a := by
  obtain ⟨inside, rfl⟩ := List.getElem?_eq_some_iff.mp found
  refine List.find?_eq_some_iff_getElem.mpr ⟨holds, k, inside, rfl, fun i before => ?_⟩
  rw [Bool.not_eq_true']
  refine Bool.eq_false_iff.mpr fun here => ?_
  have same := unique i _ (List.getElem?_eq_getElem (Nat.lt_trans before inside)) here
  omega

/-- What is kept of a list can be told by the positions, if these tell it of every member. -/
theorem map_filter_eq_of_positions {p : α → Bool} {q : Nat → Bool} {l : List α}
    (same : ∀ i a, l[i]? = some a → p a = q i) (f : α → β) (other : β) :
    (l.filter p).map f =
      ((List.range l.length).filter q).map fun i => (l[i]?.map f).getD other := by
  induction l using List.reverseRecOn with
  | nil => rfl
  | append_singleton l a ih =>
    have last : (l ++ [a])[l.length]? = some a := by simp
    have before : ∀ i < l.length, (l ++ [a])[i]? = l[i]? := fun i inside =>
      List.getElem?_append_left inside
    have kept : ((List.range l.length).filter q).map (fun i => ((l ++ [a])[i]?.map f).getD other) =
        ((List.range l.length).filter q).map fun i => (l[i]?.map f).getD other := by
      refine List.map_congr_left fun i member => ?_
      rw [before i (List.mem_range.mp (List.mem_of_mem_filter member))]
    have rest := ih fun i b found => by
      rw [← before i (List.getElem?_eq_some_iff.mp found).1] at found
      exact same i b found
    rw [List.filter_append, List.map_append, rest, List.length_append, List.length_singleton,
      List.range_succ, List.filter_append, List.map_append, kept]
    refine congrArg _ ?_
    rw [List.filter_singleton, List.filter_singleton, same _ a last]
    by_cases holds : q l.length = true
    · simp [holds]
    · simp [holds]

/-- If every member is mapped to something, it stays at its position. -/
theorem getElem?_filterMap {f : α → Option β} {l : List α} (total : ∀ a ∈ l, (f a).isSome)
    (i : Nat) : (l.filterMap f)[i]? = l[i]?.bind f := by
  induction l generalizing i with
  | nil => rfl
  | cons a l ih =>
    rw [List.forall_mem_cons] at total
    obtain ⟨b, hb⟩ := Option.isSome_iff_exists.mp total.1
    rw [List.filterMap_cons_some hb]
    cases i with
    | zero => exact hb.symm
    | succ i => exact ih total.2 i

theorem length_filterMap {f : α → Option β} {l : List α} (total : ∀ a ∈ l, (f a).isSome) :
    (l.filterMap f).length = l.length := by
  rw [List.length_filterMap_eq_countP, List.countP_eq_length]
  exact total

theorem eq_of_filterMap_eq {f g : α → Option β} {l : List α} (total : ∀ a ∈ l, (f a).isSome)
    (total' : ∀ a ∈ l, (g a).isSome) (same : l.filterMap f = l.filterMap g) :
    ∀ a ∈ l, f a = g a := by
  induction l with
  | nil => exact fun a member => absurd member List.not_mem_nil
  | cons a l ih =>
    rw [List.forall_mem_cons] at total total' ⊢
    obtain ⟨b, hb⟩ := Option.isSome_iff_exists.mp total.1
    obtain ⟨c, hc⟩ := Option.isSome_iff_exists.mp total'.1
    rw [List.filterMap_cons_some hb, List.filterMap_cons_some hc] at same
    obtain ⟨rfl, rest⟩ := List.cons.inj same
    exact ⟨hb.trans hc.symm, ih total.2 total'.2 rest⟩

theorem forall₂_filterMap {f : α → Option β} {l : List α} (total : ∀ a ∈ l, (f a).isSome) :
    List.Forall₂ (fun a b => f a = some b) l (l.filterMap f) := by
  induction l with
  | nil => exact .nil
  | cons a l ih =>
    rw [List.forall_mem_cons] at total
    obtain ⟨b, here⟩ := Option.isSome_iff_exists.mp total.1
    rw [List.filterMap_cons_some here]
    exact .cons here (ih total.2)

/-- If only the member at one position is mapped to something, nothing else is seen of the list. -/
theorem flatMap_zipIdx_eq {f : α × Nat → List β} {l : List α} {start i : Nat} {a : α}
    (found : l[i]? = some a)
    (others : ∀ entry ∈ l.zipIdx start, entry.2 ≠ start + i → f entry = []) :
    (l.zipIdx start).flatMap f = f (a, start + i) := by
  induction l generalizing start i with
  | nil => cases found
  | cons first l ih =>
    rw [List.zipIdx_cons, List.forall_mem_cons] at others
    rw [List.zipIdx_cons, List.flatMap_cons]
    cases i with
    | zero =>
      cases found
      have rest : (l.zipIdx (start + 1)).flatMap f = [] := by
        rw [List.flatMap_eq_nil_iff]
        intro entry member
        have := List.le_snd_of_mem_zipIdx member
        exact others.2 entry member (by omega)
      rw [rest, List.append_nil]
      rfl
    | succ i =>
      have same : start + 1 + i = start + (i + 1) := by omega
      have first_eq : f (first, start) = [] := others.1 (by dsimp only; omega)
      rw [first_eq, List.nil_append,
        ih found fun entry member different => others.2 entry member (same ▸ different), same]

theorem getElem?_map_snd_of_mem {l : List (α × β)} {entry : (α × β) × Nat}
    (member : entry ∈ l.zipIdx) : (l.map (·.2))[entry.2]? = some entry.1.2 := by
  rw [List.getElem?_map, List.mem_zipIdx_iff_getElem?.mp member, Option.map_some]

/-- What is looked up by position, when the positions are those of some of the members beside it. -/
theorem filterMap_positions (p : α → Bool) (l : List (α × β)) :
    (((l.map (·.1)).zipIdx.filter fun entry => p entry.1).map (·.2)).filterMap
        ((l.map (·.2))[·]?) =
      (l.filter fun entry => p entry.1).map (·.2) := by
  have found : ∀ entry ∈ l.zipIdx.filter fun entry => p entry.1.1,
      (l.map (·.2))[entry.2]? = some entry.1.2 :=
    fun entry kept => getElem?_map_snd_of_mem (List.mem_of_mem_filter kept)
  rw [List.zipIdx_map, List.filter_map, List.map_map, List.filterMap_map]
  refine (List.filterMap_congr found).trans ?_
  conv => rhs; rw [← List.zipIdx_map_fst 0 l, List.filter_map, List.map_map]
  exact congrFun List.filterMap_eq_map' _

/-- What is kept of a list, when each member that is kept is looked up in another list by the
position that it had. -/
theorem filterMap_zipIdx_lookup {γ : Type} (f : α → Option γ) (l : List (α × β)) :
    ((l.map (·.1)).zipIdx.filterMap fun entry => (f entry.1).map (·, entry.2)).filterMap
        (fun entry => (l.map (·.2))[entry.2]?.map (entry.1, ·)) =
      l.filterMap fun entry => (f entry.1).map (·, entry.2) := by
  have found : ∀ entry ∈ l.zipIdx,
      (((f entry.1.1).map (·, entry.2)).bind fun kept =>
          (l.map (·.2))[kept.2]?.map (kept.1, ·)) =
        (f entry.1.1).map (·, entry.1.2) := by
    rintro ⟨⟨a, b⟩, i⟩ member
    have here : (l.map (·.2))[i]? = some b := getElem?_map_snd_of_mem member
    dsimp only
    cases f a with
    | none => rfl
    | some c =>
      rw [Option.map_some, Option.bind_some, here]
      rfl
  rw [List.zipIdx_map, List.filterMap_map, List.filterMap_filterMap]
  refine (List.filterMap_congr found).trans ?_
  conv => rhs; rw [← List.zipIdx_map_fst 0 l, List.filterMap_map]
  rfl

end LabeledBlocks
