import LabeledBlocks.Proofs.Block.Gathered

/-!
# What joined blocks have in common

The checks that the joining along the samples and along the properties share, and the look-up of a
sample number in a table.

* `Block.checkSameComponents_eq_ok_iff`, `Block.checkSameParameters_eq_ok_iff` — blocks match the
  first one.
* `Block.mapM_gradientFor_eq_ok_iff` — every block has a gradient.
* `Block.Gains` — gradients are added to a block one after the other.
* `Block.reference_table` — a sample number is looked up in a table of all samples.
-/

namespace LabeledBlocks.Block

/-! ### Blocks that match the first one -/

/-- Components are accepted when they are those of the first block. -/
theorem checkSameComponents_eq_ok_iff {position : Nat} {first block : List Labels}
    (regular : ∀ labels ∈ first, labels.Regular) (regular' : ∀ labels ∈ block, labels.Regular) :
    checkSameComponents position first block = .ok () ↔ block = first := by
  have same := sameAxes_iff regular regular'
  rw [sameAxes, Bool.and_eq_true, beq_iff_eq, Option.isNone_iff_eq_none] at same
  rw [checkSameComponents, refused_eq_ok, not_not, eq_comm, @eq_comm _ block, ← same]
  refine and_congr_right fun _ => ?_
  cases firstDifference 0 first block with
  | none => simp
  | some axis => simp

/-- Parameters are accepted when all blocks have the expected ones. -/
theorem checkSameParameters_eq_ok_iff {expected : List String} {position : Nat}
    {blocks : List Block} :
    checkSameParameters expected position blocks = .ok () ↔
      ∀ block ∈ blocks, block.parameters = expected := by
  induction blocks generalizing position with
  | nil => simp [checkSameParameters]
  | cons block blocks ih =>
    rw [checkSameParameters, refused_eq_ok, ih, not_not, List.forall_mem_cons]

theorem gradientFor_eq_ok_iff {parameter : String} {block gradient : Block} :
    gradientFor parameter block = .ok gradient ↔ block.gradient? parameter = some gradient := by
  unfold gradientFor
  cases block.gradient? parameter with
  | none => simp
  | some found => simp

/-- Gradients are found when all blocks have one for the parameter. -/
theorem mapM_gradientFor_eq_ok_iff {parameter : String} {blocks gradients : List Block} :
    blocks.mapM (gradientFor parameter) = .ok gradients ↔
      (∀ block ∈ blocks, parameter ∈ block.parameters) ∧
        gradients = gradientsFor parameter blocks := by
  rw [mapM_eq_ok]
  simp only [gradientFor_eq_ok_iff]
  induction blocks generalizing gradients with
  | nil => simp [gradientsFor]
  | cons block blocks ih =>
    rw [List.forall₂_cons_left_iff, List.forall_mem_cons, gradientsFor, List.filterMap_cons,
      ← gradientsFor, ← isSome_gradient?_iff]
    cases found : block.gradient? parameter with
    | none => simp
    | some gradient =>
      simp only [Option.some.injEq, ih, Option.isSome_some, true_and]
      constructor
      · rintro ⟨_, rest, rfl, ⟨all, rfl⟩, rfl⟩
        exact ⟨all, rfl⟩
      · rintro ⟨all, rfl⟩
        exact ⟨gradient, _, rfl, ⟨all, rfl⟩, rfl⟩

theorem gradientsFor_cons {first gradient : Block} {others : List Block} {parameter : String}
    (found : first.gradient? parameter = some gradient) :
    gradientsFor parameter (first :: others) = gradient :: gradientsFor parameter others :=
  List.filterMap_cons_some found

/-- Sample names are accepted when all gradients have the expected ones. -/
theorem checkSampleNames_eq_ok_iff {parameter : String} {expected : List String} {position : Nat}
    {gradients : List Block} :
    checkSampleNames parameter expected position gradients = .ok () ↔
      ∀ gradient ∈ gradients, gradient.samples.names = expected := by
  induction gradients generalizing position with
  | nil => simp [checkSampleNames]
  | cons gradient gradients ih =>
    rw [checkSampleNames, refused_eq_ok, ih, not_not, List.forall_mem_cons]

/-- Blocks that are the same up to their gradients. -/
def SameUpToGradients (a b : Block) : Prop :=
  { a with gradients := [] } = { b with gradients := [] }

theorem SameUpToGradients.axes {a b : Block} (same : SameUpToGradients a b) :
    a.samples = b.samples ∧ a.components = b.components ∧ a.properties = b.properties := by
  unfold SameUpToGradients at same
  rw [Block.mk.injEq] at same
  exact ⟨same.2.1, same.2.2.1, same.2.2.2.1⟩

theorem addGradient_same {block gradient result : Block} {parameter : String}
    (h : block.addGradient parameter gradient = .ok result) : SameUpToGradients result block := by
  rw [addGradient, check_bind_eq_ok, pure_eq_ok] at h
  rw [← h.2]
  rfl

/-- Gradients with these parameters, in order, are added to a block, one after the other. -/
inductive Gains : (parameters : List String) → (block result : Block) → Prop where
  | nothing {block : Block} : Gains [] block block
  | another {parameter : String} {parameters : List String} {block gradient next result : Block}
      (adds : block.addGradient parameter gradient = .ok next)
      (rest : Gains parameters next result) : Gains (parameter :: parameters) block result

/-- Nothing else becomes of the block. -/
theorem Gains.same {parameters : List String} {block result : Block}
    (gains : Gains parameters block result) : SameUpToGradients result block := by
  induction gains with
  | nothing => rfl
  | another adds _ ih => exact ih.trans (addGradient_same adds)

/-- A parameter that comes behind all others stands there. -/
theorem parameters_addGradient {block gradient result : Block} {parameter : String}
    {rest : List String} (ordered : (block.parameters ++ [parameter] ++ rest).Pairwise (· < ·))
    (h : block.addGradient parameter gradient = .ok result) :
    result.parameters = block.parameters ++ [parameter] := by
  have last : ∀ other ∈ block.parameters, other < parameter := fun other before =>
    (List.pairwise_append.mp (List.pairwise_append.mp ordered).1).2.2 other before parameter
      List.mem_cons_self
  rw [addGradient, check_bind_eq_ok, pure_eq_ok] at h
  rw [← h.2, parameters, insertGradient_eq_append last, List.map_append]
  rfl

/-- Parameters that come in order, behind those of the block, stand in this order. -/
theorem Gains.parameters {parameters : List String} {block result : Block}
    (gains : Gains parameters block result)
    (ordered : (block.parameters ++ parameters).Pairwise (· < ·)) :
    result.parameters = block.parameters ++ parameters := by
  induction gains with
  | nothing => rw [List.append_nil]
  | another adds _ ih =>
    rw [List.append_cons] at ordered ⊢
    have added := parameters_addGradient ordered adds
    rw [← added] at ordered ⊢
    exact ih ordered

/-- Whether a gradient goes with a block does not depend on the gradients of the block. -/
theorem GradientOf.of_same {block block' gradient : Block} {parameter : String}
    (h : GradientOf block parameter gradient) (same : SameUpToGradients block block') :
    GradientOf block' parameter gradient := by
  obtain ⟨samples, components, properties⟩ := same.axes
  refine ⟨h.named, h.referring, ?_, ?_, ?_⟩
  · exact components ▸ h.components
  · exact properties ▸ h.properties
  · exact samples ▸ h.inRange

/-! ### Looking up sample numbers -/

/-- A table of what belongs to each of `count` samples. -/
def table {α : Type} (count : Nat) (place : Nat → α) : Array α :=
  ((List.range count).map place).toArray

theorem getElem?_table {α : Type} (count : Nat) (place : Nat → α) (n : Nat) :
    (table count place)[n]? = if n < count then some (place n) else none := by
  rw [table, List.getElem?_toArray, List.getElem?_map]
  by_cases inside : n < count
  · rw [List.getElem?_range inside, if_pos inside, Option.map_some]
  · rw [List.getElem?_eq_none (by simpa using inside), if_neg inside, Option.map_none]

theorem setIfInBounds_table {count n j : Nat} {place : Nat → Option Nat} :
    (table count place).setIfInBounds n (some j) =
      table count fun m => if n = m then some j else place m := by
  refine Array.ext_getElem? fun m => ?_
  rw [Array.getElem?_setIfInBounds, getElem?_table, getElem?_table]
  by_cases same : n = m
  · subst same
    by_cases inside : n < count
    · simp [table, inside]
    · simp [table, inside]
  · simp [same]

/-- A row that refers to one of the samples finds what belongs to it. -/
theorem reference_table {α : Type} (count : Nat) (place : Nat → α) {row rest : Row} {found : α} :
    reference (table count place) row = .ok (found, rest) ↔
      Refers count row ∧ ∃ number, row = number :: rest ∧ found = place number.toInt.toNat := by
  cases row with
  | nil => simp [reference]
  | cons number rest' =>
    rw [reference, refused_eq_ok, Int32.lt_iff_toInt_lt, Int32.toInt_zero, Int.not_lt,
      getElem?_table]
    constructor
    · rintro ⟨positive, h⟩
      by_cases inside : number.toInt.toNat < count
      · rw [if_pos inside] at h
        cases h
        exact ⟨⟨number, rest, rfl, positive, by omega⟩, number, rfl, rfl⟩
      · rw [if_neg inside] at h
        cases h
    · rintro ⟨⟨_, _, same, positive, small⟩, _, same', rfl⟩
      cases same
      cases same'
      have inside : number.toInt.toNat < count := by omega
      rw [if_pos inside]
      exact ⟨positive, rfl⟩

end LabeledBlocks.Block
