import Mathlib.Data.List.Forall2

/-!
# Outcomes of checked computations

What it means that a computation which may be refused gives a value: every step of it does, and no
condition on the way holds that would have refused it. A list of computations gives a list of
values member by member.

* `bind_eq_ok`, `check_bind_eq_ok`, `refused_eq_ok` open one step, `mapM_eq_ok` a list of them.
* `RefusedOnly` — what a computation is refused for, step by step.
* `Alike` — two computations are refused alike or give related values.
* `run_bind_of_ok`, `run_bind_of_error`, `run_bind_eq_ok` do the same for steps that change a state.
-/

namespace LabeledBlocks

variable {ε ε' α β : Type}

theorem bind_eq_ok {x : Except ε α} {f : α → Except ε β} {b : β} :
    (x >>= f) = .ok b ↔ ∃ a, x = .ok a ∧ f a = .ok b := by
  cases x with
  | error e => simp [bind, Except.bind]
  | ok a => simp [bind, Except.bind]

theorem ok_bind_eq {a : α} {f : α → Except ε β} : ((.ok a : Except ε α) >>= f) = f a :=
  rfl

instance decidableEqError [DecidableEq ε] (x : Except ε α) (e : ε) : Decidable (x = .error e) :=
  match x with
  | .ok _ => isFalse nofun
  | .error _ => decidable_of_iff _ (Except.error.injEq _ _).to_iff.symm

/-- What has been found to pass gives a value. -/
theorem exists_eq_ok {x : Except ε α} (passes : x.isOk = true) : ∃ a, x = .ok a := by
  cases x with
  | error e => cases passes
  | ok a => exact ⟨a, rfl⟩

theorem exists_eq_ok_and {x : Except ε α} {P : α → Prop} [DecidablePred P]
    (passes : (x.toOption.any fun a => decide (P a)) = true) : ∃ a, x = .ok a ∧ P a := by
  cases x with
  | error e => cases passes
  | ok a => exact ⟨a, rfl, of_decide_eq_true passes⟩

/-- A check passes or refuses, and gives nothing that the next step could depend on. -/
theorem check_bind_eq_ok {x : Except ε Unit} {f : Unit → Except ε β} {b : β} :
    (x >>= f) = .ok b ↔ x = .ok () ∧ f () = .ok b := by
  rw [bind_eq_ok]
  exact ⟨fun ⟨(), h⟩ => h, fun h => ⟨(), h⟩⟩

theorem check_bind_eq_error {x : Except ε Unit} {f : Unit → Except ε β} {e : ε} :
    (x >>= f) = .error e ↔ x = .error e ∨ x = .ok () ∧ f () = .error e := by
  cases x with
  | error e => simp [bind, Except.bind]
  | ok a => simp [bind, Except.bind]

@[simp]
theorem pure_eq_ok {a b : α} : (pure a : Except ε α) = .ok b ↔ a = b := by
  simp [pure, Except.pure]

@[simp]
theorem throw_bind_eq {e : ε} {f : α → Except ε β} : ((throw e : Except ε α) >>= f) = .error e :=
  rfl

/-- A condition that refuses did not hold. -/
theorem refused_eq_ok {c : Prop} [Decidable c] {e : ε} {x : Except ε β} {b : β} :
    (if c then .error e else x) = .ok b ↔ ¬c ∧ x = .ok b := by
  by_cases h : c
  · simp [h]
  · simp [h]

/-- A condition that refuses held, or what is behind it is refused. -/
theorem refused_eq_error {c : Prop} [Decidable c] {e e' : ε} {x : Except ε β} :
    (if c then .error e' else x) = .error e ↔ c ∧ e' = e ∨ ¬c ∧ x = .error e := by
  by_cases h : c
  · simp [h]
  · simp [h]

theorem map_eq_ok {x : Except ε α} {f : α → β} {b : β} :
    x.map f = .ok b ↔ ∃ a, x = .ok a ∧ f a = b := by
  cases x with
  | error e => simp [Except.map]
  | ok a => simp [Except.map]

theorem map_eq_error {x : Except ε α} {f : α → β} {e : ε} : x.map f = .error e ↔ x = .error e := by
  cases x with
  | error e => simp [Except.map]
  | ok a => simp [Except.map]

/-- Rewording errors does not change what is accepted. -/
theorem mapError_eq_ok {x : Except ε α} {f : ε → ε'} {a : α} :
    x.mapError f = .ok a ↔ x = .ok a := by
  cases x with
  | error e => simp [Except.mapError]
  | ok a => simp [Except.mapError]

/-- A list of computations succeeds exactly if each of them does. -/
theorem mapM_eq_ok {f : α → Except ε β} {l : List α} {r : List β} :
    l.mapM f = .ok r ↔ List.Forall₂ (fun a b => f a = .ok b) l r := by
  induction l generalizing r with
  | nil =>
    rw [List.mapM_nil, pure_eq_ok, List.forall₂_nil_left_iff]
    exact eq_comm
  | cons a l ih =>
    rw [List.mapM_cons, bind_eq_ok, List.forall₂_cons_left_iff]
    constructor
    · rintro ⟨b, hb, h⟩
      obtain ⟨rest, hrest, h⟩ := bind_eq_ok.mp h
      exact ⟨b, rest, hb, ih.mp hrest, (pure_eq_ok.mp h).symm⟩
    · rintro ⟨b, rest, hb, hrest, rfl⟩
      exact ⟨b, hb, bind_eq_ok.mpr ⟨rest, ih.mpr hrest, rfl⟩⟩

/-- Where every member gives a value, a list of them is given. -/
theorem mapM_eq_map {f : α → Except ε β} {g : α → β} {l : List α}
    (h : ∀ a ∈ l, f a = .ok (g a)) : l.mapM f = .ok (l.map g) := by
  rw [mapM_eq_ok, List.forall₂_map_right_iff, List.forall₂_same]
  exact h

/-- A list of computations, each of which gives one value or is refused. -/
theorem mapM_eq_ok_map {f : α → Except ε β} {P : α → Prop} {g : α → β}
    (h : ∀ a b, f a = .ok b ↔ P a ∧ b = g a) {l : List α} {r : List β} :
    l.mapM f = .ok r ↔ (∀ a ∈ l, P a) ∧ r = l.map g := by
  rw [mapM_eq_ok]
  induction l generalizing r with
  | nil => simp
  | cons a l ih =>
    rw [List.forall₂_cons_left_iff, List.forall_mem_cons, List.map_cons]
    constructor
    · rintro ⟨b, rest, here, further, rfl⟩
      obtain ⟨hold, rfl⟩ := (h a b).mp here
      obtain ⟨all, rfl⟩ := ih.mp further
      exact ⟨⟨hold, all⟩, rfl⟩
    · rintro ⟨⟨hold, all⟩, rfl⟩
      exact ⟨g a, l.map g, (h a _).mpr ⟨hold, rfl⟩, ih.mpr ⟨all, rfl⟩, rfl⟩

theorem exists_of_mem_right {R : α → β → Prop} {l : List α} {r : List β} (h : List.Forall₂ R l r)
    {b : β} (member : b ∈ r) : ∃ a ∈ l, R a b := by
  induction h with
  | nil => cases member
  | cons here _ ih =>
    rcases List.mem_cons.mp member with rfl | inside
    · exact ⟨_, List.mem_cons_self, here⟩
    · obtain ⟨a, known, related⟩ := ih inside
      exact ⟨a, List.mem_cons_of_mem _ known, related⟩

theorem exists_getElem?_right {R : α → β → Prop} {l : List α} {r : List β} (h : List.Forall₂ R l r)
    {i : Nat} {a : α} (found : l[i]? = some a) : ∃ b, r[i]? = some b ∧ R a b := by
  induction h generalizing i with
  | nil => cases found
  | cons here _ ih =>
    cases i with
    | zero =>
      cases found
      exact ⟨_, rfl, here⟩
    | succ i => exact ih found

/-- What is related by `R` is related by `S` if this holds of the members. -/
theorem forall₂_imp_of_mem {R S : α → β → Prop} {l : List α} {r : List β} (h : List.Forall₂ R l r)
    (imp : ∀ a ∈ l, ∀ b ∈ r, R a b → S a b) : List.Forall₂ S l r := by
  induction h with
  | nil => exact .nil
  | cons here _ ih =>
    refine .cons (imp _ List.mem_cons_self _ List.mem_cons_self here) (ih fun a ha b hb => ?_)
    exact imp a (List.mem_cons_of_mem _ ha) b (List.mem_cons_of_mem _ hb)

/-- Two lists are related if members are that belong to the same member of a third list. -/
theorem forall₂_of_common {γ : Type} {R : α → β → Prop} {S : α → γ → Prop} {Q : β → γ → Prop}
    {l : List α} {r : List β} {s : List γ} (h : List.Forall₂ R l r) (h' : List.Forall₂ S l s)
    (join : ∀ a ∈ l, ∀ b c, R a b → S a c → Q b c) : List.Forall₂ Q r s := by
  induction h generalizing s with
  | nil =>
    cases h'
    exact .nil
  | cons here _ ih =>
    cases h' with
    | cons here' further' =>
      refine .cons (join _ List.mem_cons_self _ _ here here') (ih further' fun a member => ?_)
      exact join a (List.mem_cons_of_mem _ member)

/-- Two steps that lead from list to list lead from member to member. -/
theorem forall₂_comp_iff {γ : Type} {R : α → β → Prop} {S : β → γ → Prop} {l : List α}
    {s : List γ} :
    List.Forall₂ (fun a c => ∃ b, R a b ∧ S b c) l s ↔
      ∃ r, List.Forall₂ R l r ∧ List.Forall₂ S r s := by
  constructor
  · intro h
    induction h with
    | nil => exact ⟨[], .nil, .nil⟩
    | cons here _ ih =>
      obtain ⟨b, first, second⟩ := here
      obtain ⟨r, all, all'⟩ := ih
      exact ⟨b :: r, .cons first all, .cons second all'⟩
  · rintro ⟨r, h, h'⟩
    exact forall₂_of_common h.flip h' fun b _ _ _ here here' => ⟨b, here, here'⟩

theorem exists_mem_zip_of_mem_left {R : α → β → Prop} {l : List α} {r : List β}
    (h : List.Forall₂ R l r) {a : α} (member : a ∈ l) : ∃ b, (a, b) ∈ l.zip r ∧ R a b := by
  induction h with
  | nil => cases member
  | cons here _ ih =>
    rcases List.mem_cons.mp member with rfl | inside
    · exact ⟨_, List.mem_cons_self, here⟩
    · obtain ⟨b, paired, related⟩ := ih inside
      exact ⟨b, List.mem_cons_of_mem _ paired, related⟩

theorem map_eq_map_of_forall₂ {γ : Type} {R : α → β → Prop} {f : α → γ} {g : β → γ} {l : List α}
    {r : List β} (h : List.Forall₂ R l r) (same : ∀ a b, R a b → f a = g b) :
    l.map f = r.map g := by
  rw [← List.forall₂_eq_eq_eq, List.forall₂_map_left_iff, List.forall₂_map_right_iff]
  exact h.imp same

theorem exists_forall₂ {R : α → β → Prop} {l : List α} (h : ∀ a ∈ l, ∃ b, R a b) :
    ∃ r, List.Forall₂ R l r := by
  induction l with
  | nil => exact ⟨[], .nil⟩
  | cons a l ih =>
    rw [List.forall_mem_cons] at h
    obtain ⟨⟨b, here⟩, further⟩ := h
    obtain ⟨r, rest⟩ := ih further
    exact ⟨b :: r, .cons here rest⟩

theorem exists_forall₂_and {R S : α → β → Prop} {l : List α} (h : ∀ a ∈ l, ∃ b, R a b ∧ S a b) :
    ∃ r, List.Forall₂ R l r ∧ List.Forall₂ S l r := by
  obtain ⟨r, all⟩ := exists_forall₂ h
  exact ⟨r, all.imp fun _ _ h => h.1, all.imp fun _ _ h => h.2⟩

/-! ### What computations are refused for -/

/-- If the computation is refused, then with an error that has the property. -/
def RefusedOnly (P : ε → Prop) (x : Except ε α) : Prop :=
  ∀ e, x = .error e → P e

namespace RefusedOnly

variable {P Q : ε → Prop} {x : Except ε α}

theorem of_ok {a : α} (given : x = .ok a) : RefusedOnly P x := by
  intro e refused
  rw [given] at refused
  cases refused

theorem of_error {e : ε} (broken : P e) : RefusedOnly P (.error e : Except ε α) := by
  rintro _ ⟨⟩
  exact broken

theorem imp (h : RefusedOnly P x) (weaker : ∀ e, P e → Q e) : RefusedOnly Q x :=
  fun e refused => weaker e (h e refused)

theorem bind {f : α → Except ε β} (first : RefusedOnly P x)
    (rest : ∀ a, x = .ok a → RefusedOnly P (f a)) : RefusedOnly P (x >>= f) := by
  cases x with
  | error e => exact fun e' refused => first e' (congrArg Except.error (Except.error.inj refused))
  | ok a => exact rest a rfl

theorem map {f : α → β} (h : RefusedOnly P x) : RefusedOnly P (x.map f) := by
  cases x with
  | error e => exact fun e' refused => h e' (congrArg Except.error (Except.error.inj refused))
  | ok a => exact of_ok rfl

theorem checked {c : Prop} [Decidable c] {e : ε} (broken : c → P e)
    (rest : ¬c → RefusedOnly P x) : RefusedOnly P (if c then .error e else x) := by
  by_cases h : c
  · rw [if_pos h]
    rintro _ ⟨⟩
    exact broken h
  · rw [if_neg h]
    exact rest h

/-- A list of computations is refused for what one of them is refused for. -/
theorem mapM {f : α → Except ε β} {l : List α} (each : ∀ a ∈ l, RefusedOnly P (f a)) :
    RefusedOnly P (l.mapM f) := by
  induction l with
  | nil => exact of_ok rfl
  | cons a l ih =>
    rw [List.forall_mem_cons] at each
    rw [List.mapM_cons]
    refine .bind each.1 fun b _ => .bind (ih each.2) fun rest _ => .of_ok rfl

/-- A check of a list, member by member from a position on, is refused for one of the members. -/
theorem of_each {f : Nat → List α → Except ε Unit} {R : Nat → α → ε → Prop}
    (none : ∀ start, f start [] = .ok ())
    (one : ∀ start a l,
      RefusedOnly (fun e => R start a e ∨ f (start + 1) l = .error e) (f start (a :: l)))
    (start : Nat) (l : List α) :
    RefusedOnly (fun e => ∃ i a, l[i]? = some a ∧ R (start + i) a e) (f start l) := by
  induction l generalizing start with
  | nil => exact of_ok (none start)
  | cons a l ih =>
    intro e refused
    rcases one start a l e refused with here | later
    · exact ⟨0, a, rfl, here⟩
    · obtain ⟨i, other, standing, broken⟩ := ih (start + 1) e later
      refine ⟨i + 1, other, standing, ?_⟩
      rwa [← Nat.add_assoc, Nat.add_right_comm]

end RefusedOnly

/-! ### Computations that end alike -/

/-- Both computations are refused with the same error, or give values that are related. -/
inductive Alike (R : α → β → Prop) : Except ε α → Except ε β → Prop where
  | refused (e : ε) : Alike R (.error e) (.error e)
  | given {a : α} {b : β} (related : R a b) : Alike R (.ok a) (.ok b)

namespace Alike

variable {γ δ : Type} {R : α → β → Prop} {S : γ → δ → Prop} {x : Except ε α} {y : Except ε β}

theorem bind {f : α → Except ε γ} {g : β → Except ε δ} (first : Alike R x y)
    (rest : ∀ a b, R a b → Alike S (f a) (g b)) : Alike S (x >>= f) (y >>= g) := by
  cases first with
  | refused e => exact .refused e
  | given related => exact rest _ _ related

/-- A step that both take may stand in front. -/
theorem behind (x : Except ε α) {f : α → Except ε γ} {g : α → Except ε δ}
    (rest : ∀ a, Alike S (f a) (g a)) : Alike S (x >>= f) (x >>= g) := by
  cases x with
  | error e => exact .refused e
  | ok a => exact rest a

/-- Both may be refused for the same reason. -/
theorem checked {c : Prop} [Decidable c] (e : ε) (rest : ¬c → Alike R x y) :
    Alike R (if c then .error e else x) (if c then .error e else y) := by
  by_cases h : c
  · rw [if_pos h, if_pos h]
    exact .refused e
  · rw [if_neg h, if_neg h]
    exact rest h

theorem mapError (f : ε → ε') (h : Alike R x y) : Alike R (x.mapError f) (y.mapError f) := by
  cases h with
  | refused e => exact .refused (f e)
  | given related => exact .given related

theorem toOption (h : Alike R x y) : Option.Rel R x.toOption y.toOption := by
  cases h with
  | refused e => exact .none
  | given related => exact .some related

end Alike

/-! ### Computations with a state -/

section State

variable {σ : Type} {m : EStateM ε σ α} {f : α → EStateM ε σ β} {s t : σ} {a : α} {b : β} {e : ε}

theorem run_bind_of_ok (h : m s = .ok a t) : (m >>= f) s = f a t := by
  simp [bind, EStateM.bind, h]

theorem run_bind_of_error (h : m s = .error e t) : (m >>= f) s = .error e t := by
  simp [bind, EStateM.bind, h]

/-- What follows a step may be exchanged for what does the same wherever the step ends. -/
theorem run_bind_congr {g : α → EStateM ε σ β}
    (h : ∀ a middle, m s = .ok a middle → f a middle = g a middle) : (m >>= f) s = (m >>= g) s := by
  cases done : m s with
  | ok a middle => rw [run_bind_of_ok done, run_bind_of_ok done, h a middle done]
  | error e middle => rw [run_bind_of_error done, run_bind_of_error done]

theorem run_get : (get : EStateM ε σ σ) s = .ok s s :=
  rfl

theorem run_modify_bind {change : σ → σ} {f : Unit → EStateM ε σ β} :
    (modify change >>= f) s = f () (change s) :=
  rfl

/-- Two steps succeed when the first one does, and the second one from where it ended. -/
theorem run_bind_eq_ok :
    (m >>= f) s = .ok b t ↔ ∃ a middle, m s = .ok a middle ∧ f a middle = .ok b t := by
  cases h : m s with
  | ok a middle => simp [run_bind_of_ok h]
  | error e middle => simp [run_bind_of_error h]

theorem run_check_bind_eq_ok {m : EStateM ε σ Unit} {f : Unit → EStateM ε σ β} :
    (m >>= f) s = .ok b t ↔ ∃ middle, m s = .ok () middle ∧ f () middle = .ok b t := by
  rw [run_bind_eq_ok]
  exact ⟨fun ⟨(), h⟩ => h, fun h => ⟨(), h⟩⟩

end State

end LabeledBlocks
