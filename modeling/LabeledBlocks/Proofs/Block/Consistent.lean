import LabeledBlocks.Block.Basic
import LabeledBlocks.Proofs.Labels.Valid

/-!
# Consistent blocks

What the checks of blocks and gradients establish, as a property of a block and of its gradients at
every depth: the array has the shape that the labels ask for, the names of the axes do not clash,
the gradients stand in the order of their parameters, and every gradient goes with its block.

* `Block.Everywhere` — a property of a block and of its gradients at every depth.
* `Block.Consistent`, `Block.Labelled` — consistency, and a property of all labels.
* `Block.ofValues_eq_ok_iff`, `Block.addGradient_eq_ok_iff` — what the checks let through.
* `Block.consistent_ofValues`, `Block.consistent_addGradient` — every block that is built is
  consistent.
-/

namespace LabeledBlocks.Block

theorem eta (block : Block) :
    ⟨block.values, block.samples, block.components, block.properties, block.gradients⟩ =
      block := by
  cases block
  rfl

/-! ### Properties at every depth -/

/-- The property holds of the block and of its gradients at every depth. -/
inductive Everywhere (P : Block → Prop) : Block → Prop where
  | intro {block : Block} (own : P block)
      (deeper : ∀ parameter gradient, (parameter, gradient) ∈ block.gradients →
        Everywhere P gradient) :
      Everywhere P block

namespace Everywhere

variable {P Q : Block → Prop} {block gradient : Block} {parameter : String}

theorem own (h : block.Everywhere P) : P block := by
  cases h with
  | intro own _ => exact own

theorem inner (h : block.Everywhere P) (member : (parameter, gradient) ∈ block.gradients) :
    gradient.Everywhere P := by
  cases h with
  | intro _ deeper => exact deeper parameter gradient member

theorem imp (h : block.Everywhere P) (weaker : ∀ block, P block → Q block) :
    block.Everywhere Q := by
  induction h with
  | intro own _ ih => exact .intro (weaker _ own) ih

theorem and (hP : block.Everywhere P) (hQ : block.Everywhere Q) :
    block.Everywhere fun block => P block ∧ Q block := by
  induction hP with
  | intro own _ ih =>
    exact .intro ⟨own, hQ.own⟩ fun parameter gradient member =>
      ih parameter gradient member (hQ.inner member)

end Everywhere

section Decidable

variable {P : Block → Prop} [DecidablePred P]

mutual

instance decidableEverywhere : (block : Block) → Decidable (block.Everywhere P)
  | ⟨values, samples, components, properties, gradients⟩ =>
    have := decidableBelow gradients
    decidable_of_iff
      (P ⟨values, samples, components, properties, gradients⟩ ∧
        ∀ entry ∈ gradients, entry.2.Everywhere P)
      ⟨fun h => .intro h.1 fun parameter gradient member => h.2 (parameter, gradient) member,
        fun h => ⟨h.own, fun _ member => h.inner member⟩⟩

def decidableBelow : (gradients : List (String × Block)) →
    Decidable (∀ entry ∈ gradients, entry.2.Everywhere P)
  | [] => .isTrue fun _ member => absurd member List.not_mem_nil
  | (_, block) :: rest =>
    have := decidableEverywhere block
    have := decidableBelow rest
    decidable_of_iff (block.Everywhere P ∧ ∀ entry ∈ rest, entry.2.Everywhere P) (by simp)

end

end Decidable

/-- All labels of the axes of a block have the property. -/
structure AxesLabelled (P : Labels → Prop) (block : Block) : Prop where
  samples : P block.samples
  components : ∀ labels ∈ block.components, P labels
  properties : P block.properties

instance {P : Labels → Prop} [DecidablePred P] : DecidablePred (AxesLabelled P) := fun block =>
  decidable_of_iff
    (P block.samples ∧ (∀ labels ∈ block.components, P labels) ∧ P block.properties)
    ⟨fun ⟨samples, components, properties⟩ => ⟨samples, components, properties⟩,
      fun ⟨samples, components, properties⟩ => ⟨samples, components, properties⟩⟩

theorem AxesLabelled.regular {block : Block} (valid : block.AxesLabelled Labels.Valid) :
    block.AxesLabelled Labels.Regular :=
  ⟨valid.samples.toRegular, fun labels member => (valid.components labels member).toRegular,
    valid.properties.toRegular⟩

/-- All labels in the block and its gradients have the property. -/
abbrev Labelled (P : Labels → Prop) (block : Block) : Prop :=
  block.Everywhere (AxesLabelled P)

theorem Labelled.regular {block : Block} (valid : block.Labelled Labels.Valid) :
    block.Labelled Labels.Regular :=
  valid.imp fun _ own => own.regular

/-! ### Consistency -/

def componentNames (components : List Labels) : List String :=
  components.flatMap Labels.names

/-- The first value of a row is a number below `count`. -/
def Refers (count : Nat) (row : Row) : Prop :=
  ∃ reference rest, row = reference :: rest ∧ 0 ≤ reference.toInt ∧ reference.toInt < count

instance (count : Nat) : DecidablePred (Refers count)
  | [] => .isFalse fun ⟨_, _, same, _⟩ => List.cons_ne_nil _ _ same.symm
  | reference :: rest =>
    decidable_of_iff (0 ≤ reference.toInt ∧ reference.toInt < count)
      ⟨fun inRange => ⟨reference, rest, rfl, inRange⟩, fun ⟨_, _, same, inRange⟩ => by
        obtain ⟨rfl, rfl⟩ := List.cons.inj same
        exact inRange⟩

/-- A gradient that goes with its block: its rows refer to samples of the block, its components
start with those of the block, and its properties are those of the block. -/
structure GradientOf (block : Block) (parameter : String) (gradient : Block) : Prop where
  named : parameter ≠ ""
  referring : gradient.samples.names.head? = some sampleName
  components : block.components <+: gradient.components
  properties : gradient.properties = block.properties
  inRange : ∀ row ∈ gradient.samples.rows, Refers block.samples.count row

instance (block : Block) (parameter : String) (gradient : Block) :
    Decidable (GradientOf block parameter gradient) :=
  decidable_of_iff
    (parameter ≠ "" ∧ gradient.samples.names.head? = some sampleName ∧
      block.components <+: gradient.components ∧ gradient.properties = block.properties ∧
      ∀ row ∈ gradient.samples.rows, Refers block.samples.count row)
    ⟨fun ⟨named, referring, components, properties, inRange⟩ =>
        ⟨named, referring, components, properties, inRange⟩,
      fun ⟨named, referring, components, properties, inRange⟩ =>
        ⟨named, referring, components, properties, inRange⟩⟩

/-- The array is one that there can be and goes with the labels, the names of the axes do not clash,
and the gradients go with the block. -/
structure WellFormed (block : Block) : Prop where
  shape : block.values.shape = labelledShape block.samples block.components block.properties
  filled : block.values.data.size = block.values.shape.prod
  bounded : Dense.span block.values.shape ≤ Dense.maxLength
  distinctNames : (componentNames block.components).Nodup
  newNames : ∀ name ∈ componentNames block.components,
    name ∉ block.samples.names ∧ name ∉ block.properties.names
  ordered : block.parameters.Pairwise (· < ·)
  gradients : ∀ parameter gradient, (parameter, gradient) ∈ block.gradients →
    GradientOf block parameter gradient

instance : DecidablePred WellFormed := fun block =>
  decidable_of_iff
    (block.values.shape = labelledShape block.samples block.components block.properties ∧
      block.values.data.size = block.values.shape.prod ∧
      Dense.span block.values.shape ≤ Dense.maxLength ∧
      (componentNames block.components).Nodup ∧
      (∀ name ∈ componentNames block.components,
        name ∉ block.samples.names ∧ name ∉ block.properties.names) ∧
      block.parameters.Pairwise (· < ·) ∧
      ∀ entry ∈ block.gradients, GradientOf block entry.1 entry.2)
    ⟨fun ⟨shape, filled, bounded, distinctNames, newNames, ordered, gradients⟩ =>
        ⟨shape, filled, bounded, distinctNames, newNames, ordered,
          fun parameter gradient member => gradients (parameter, gradient) member⟩,
      fun ⟨shape, filled, bounded, distinctNames, newNames, ordered, gradients⟩ =>
        ⟨shape, filled, bounded, distinctNames, newNames, ordered, fun _ member => gradients _ _ member⟩⟩

/-- The block and its gradients at every depth are well-formed. -/
abbrev Consistent (block : Block) : Prop :=
  block.Everywhere WellFormed

/-! ### What the checks of a block let through -/

/-- Axes are accepted when all lengths are those that were asked for. -/
theorem checkAxes_eq_ok_iff {last axis : Nat} {expected got : List Nat}
    (length : got.length = expected.length) :
    checkAxes last axis expected got = .ok () ↔ got = expected := by
  induction expected generalizing axis got with
  | nil =>
    have : got = [] := List.eq_nil_of_length_eq_zero length
    simp [checkAxes, this]
  | cons wanted expected ih =>
    cases got with
    | nil => cases length
    | cons found got =>
      rw [checkAxes, refused_eq_ok, ih (Nat.succ.inj length), not_not, List.cons.injEq]
      exact and_congr_left fun _ => eq_comm

theorem checkShape_eq_ok_iff {expected got : List Nat} :
    checkShape expected got = .ok () ↔ got = expected := by
  rw [checkShape, refused_eq_ok, not_not]
  constructor
  · rintro ⟨length, same⟩
    exact (checkAxes_eq_ok_iff length).mp same
  · rintro rfl
    exact ⟨rfl, (checkAxes_eq_ok_iff rfl).mpr rfl⟩

/-- Component names are accepted when they are distinct and stand nowhere else. -/
theorem checkComponentNames_eq_ok_iff {samples properties : Labels} {seen names : List String} :
    checkComponentNames samples properties seen names = .ok () ↔
      names.Nodup ∧ (∀ name ∈ names, name ∉ seen) ∧
        ∀ name ∈ names, name ∉ samples.names ∧ name ∉ properties.names := by
  induction names generalizing seen with
  | nil => simp [checkComponentNames]
  | cons name names ih =>
    rw [checkComponentNames, refused_eq_ok, refused_eq_ok, refused_eq_ok, ih,
      List.forall_mem_cons, List.forall_mem_cons, List.nodup_cons]
    simp only [List.mem_cons, not_or]
    constructor
    · rintro ⟨unseen, noSample, noProperty, nodup, apart, new⟩
      exact ⟨⟨fun h => (apart name h).1 rfl, nodup⟩, ⟨unseen, fun other h => (apart other h).2⟩,
        ⟨noSample, noProperty⟩, new⟩
    · rintro ⟨⟨once, nodup⟩, ⟨unseen, apart⟩, ⟨noSample, noProperty⟩, new⟩
      exact ⟨unseen, noSample, noProperty, nodup,
        fun other h => ⟨fun same => once (same ▸ h), apart other h⟩, new⟩

/-- An array becomes a block with labels that ask for its shape and whose names do not clash. -/
theorem ofValues_eq_ok_iff {values : Dense} {samples : Labels} {components : List Labels}
    {properties : Labels} {block : Block} :
    ofValues values samples components properties = .ok block ↔
      values.shape = labelledShape samples components properties ∧
      (componentNames components).Nodup ∧
      (∀ name ∈ componentNames components,
        name ∉ samples.names ∧ name ∉ properties.names) ∧
      block = ⟨values, samples, components, properties, []⟩ := by
  rw [ofValues, check_bind_eq_ok, check_bind_eq_ok, checkShape_eq_ok_iff,
    checkComponentNames_eq_ok_iff, pure_eq_ok]
  constructor
  · rintro ⟨shape, ⟨nodup, _, new⟩, rfl⟩
    exact ⟨shape, nodup, new, rfl⟩
  · rintro ⟨shape, nodup, new, rfl⟩
    exact ⟨shape, ⟨nodup, fun _ _ => List.not_mem_nil, new⟩, rfl⟩

/-! ### What the checks of a gradient let through -/

/-- Regular labels differ on no axis when they are the same as far as both lists go. -/
theorem firstDifference_eq_none_iff (axis : Nat) {a b : List Labels}
    (ha : ∀ labels ∈ a, labels.Regular) (hb : ∀ labels ∈ b, labels.Regular)
    (length : a.length ≤ b.length) : firstDifference axis a b = none ↔ a <+: b := by
  induction a generalizing axis b with
  | nil => simp [firstDifference]
  | cons first a ih =>
    cases b with
    | nil => simp at length
    | cons other b =>
      rw [List.forall_mem_cons] at ha hb
      rw [firstDifference, List.cons_prefix_cons]
      by_cases same : first.identical other = true
      · rw [if_pos same, ih (axis + 1) ha.2 hb.2 (Nat.le_of_succ_le_succ length)]
        simp [(Labels.identical_iff ha.1 hb.1).mp same]
      · rw [if_neg same]
        simp only [reduceCtorEq, false_iff, not_and]
        intro equal
        exact absurd ((Labels.identical_iff ha.1 hb.1).mpr equal) same

/-- On regular labels the comparison of axes is equality. -/
theorem sameAxes_iff {a b : List Labels} (ha : ∀ labels ∈ a, labels.Regular)
    (hb : ∀ labels ∈ b, labels.Regular) : sameAxes a b = true ↔ a = b := by
  rw [sameAxes, Bool.and_eq_true, beq_iff_eq, Option.isNone_iff_eq_none]
  constructor
  · rintro ⟨length, same⟩
    exact ((firstDifference_eq_none_iff 0 ha hb (Nat.le_of_eq length)).mp same).eq_of_length length
  · rintro rfl
    exact ⟨rfl, (firstDifference_eq_none_iff 0 ha hb (Nat.le_refl _)).mpr (List.prefix_refl a)⟩

/-- Rows are accepted when all of them refer to one of the samples. -/
theorem checkReferences_eq_ok_iff {parentCount start : Nat} {rows : List Row} :
    checkReferences parentCount start rows = .ok () ↔ ∀ row ∈ rows, Refers parentCount row := by
  induction rows generalizing start with
  | nil => simp [checkReferences]
  | cons row rows ih =>
    cases row with
    | nil => simp [checkReferences, Refers]
    | cons reference rest =>
      rw [checkReferences, refused_eq_ok, ih, List.forall_mem_cons]
      refine and_congr_left fun _ => ?_
      rw [not_or, Int32.lt_iff_toInt_lt, Int32.toInt_zero]
      constructor
      · rintro ⟨nonneg, inside⟩
        exact ⟨reference, rest, rfl, by omega, by omega⟩
      · rintro ⟨_, _, ⟨⟩, nonneg, inside⟩
        exact ⟨by omega, by omega⟩

/-- In a list with increasing keys every member is found by its key. -/
theorem lookup_eq_some_iff_mem {β : Type} {entries : List (String × β)}
    (ordered : (entries.map (·.1)).Pairwise (· < ·)) {key : String} {value : β} :
    entries.lookup key = some value ↔ (key, value) ∈ entries := by
  induction entries with
  | nil => simp
  | cons entry rest ih =>
    obtain ⟨other, first⟩ := entry
    rw [List.map_cons, List.pairwise_cons] at ordered
    rw [List.lookup_cons, List.mem_cons, Prod.mk.injEq]
    by_cases same : key = other
    · subst same
      have absent : (key, value) ∉ rest := fun h =>
        String.lt_irrefl key (ordered.1 key (List.mem_map.mpr ⟨_, h, rfl⟩))
      simp only [BEq.rfl, Option.some.injEq, true_and, absent, or_false]
      exact eq_comm
    · have : (key == other) = false := beq_false_of_ne same
      simp [this, same, ih ordered.2]

theorem gradient?_eq_some {block : Block} (ordered : block.parameters.Pairwise (· < ·))
    {parameter : String} {gradient : Block} :
    block.gradient? parameter = some gradient ↔ (parameter, gradient) ∈ block.gradients :=
  lookup_eq_some_iff_mem ordered

theorem gradient?_eq_none {block : Block} {parameter : String} :
    block.gradient? parameter = none ↔ parameter ∉ block.parameters := by
  unfold gradient? parameters
  rw [List.lookup_eq_none_iff]
  simp only [List.mem_map, not_exists, not_and, bne_iff_ne, ne_eq]
  exact forall_congr' fun entry => imp_congr_right fun _ => not_congr eq_comm

/-- A block takes a gradient that goes with it, for a parameter without one. -/
theorem checkGradient_eq_ok_iff {block gradient : Block} {parameter : String}
    (hblock : block.AxesLabelled Labels.Regular)
    (hgradient : gradient.AxesLabelled Labels.Regular) :
    block.checkGradient parameter gradient = .ok () ↔
      parameter ∉ block.parameters ∧ GradientOf block parameter gradient := by
  have properties := Labels.identical_iff hgradient.properties hblock.properties
  have difference := fun length : block.components.length ≤ gradient.components.length =>
    firstDifference_eq_none_iff 0 hblock.components hgradient.components length
  simp only [checkGradient, throw_bind_eq, refused_eq_ok, Nat.not_lt, Decidable.not_not,
    Option.not_isSome_iff_eq_none, gradient?_eq_none, String.isEmpty_iff]
  constructor
  · rintro ⟨named, new, referring, enough, h⟩
    cases found : firstDifference 0 block.components gradient.components with
    | some axis => simp [found] at h
    | none =>
      simp only [found, refused_eq_ok, Bool.not_eq_true', Bool.not_eq_false,
        checkReferences_eq_ok_iff] at h
      exact ⟨new, named, referring, (difference enough).mp found, properties.mp h.1, h.2⟩
  · rintro ⟨new, goes⟩
    have enough := goes.components.length_le
    refine ⟨goes.named, new, goes.referring, enough, ?_⟩
    rw [(difference enough).mpr goes.components]
    simp only [refused_eq_ok, Bool.not_eq_true', Bool.not_eq_false, checkReferences_eq_ok_iff]
    exact ⟨properties.mpr goes.properties, goes.inRange⟩

/-- What a block with one more gradient is. -/
theorem addGradient_eq_ok_iff {block gradient result : Block} {parameter : String}
    (hblock : block.AxesLabelled Labels.Regular)
    (hgradient : gradient.AxesLabelled Labels.Regular) :
    block.addGradient parameter gradient = .ok result ↔
      parameter ∉ block.parameters ∧ GradientOf block parameter gradient ∧
        { block with gradients := insertGradient parameter gradient block.gradients } = result := by
  rw [addGradient, check_bind_eq_ok, checkGradient_eq_ok_iff hblock hgradient, pure_eq_ok,
    and_assoc]

/-! ### Gradients in order -/

/-- A gradient that is put at its place comes to those that are there. -/
theorem mem_insertGradient {parameter : String} {gradient : Block}
    {gradients : List (String × Block)} {entry : String × Block} :
    entry ∈ insertGradient parameter gradient gradients ↔
      entry = (parameter, gradient) ∨ entry ∈ gradients := by
  induction gradients with
  | nil => simp [insertGradient]
  | cons first rest ih =>
    obtain ⟨other, block⟩ := first
    rw [insertGradient]
    by_cases before : parameter < other
    · rw [if_pos before, List.mem_cons]
    · rw [if_neg before, List.mem_cons, ih, List.mem_cons]
      exact or_left_comm

/-- A gradient for a new parameter keeps the parameters in order. -/
theorem ordered_insertGradient {parameter : String} {gradient : Block}
    {gradients : List (String × Block)}
    (ordered : (gradients.map (·.1)).Pairwise (· < ·)) (new : parameter ∉ gradients.map (·.1)) :
    ((insertGradient parameter gradient gradients).map (·.1)).Pairwise (· < ·) := by
  induction gradients with
  | nil => simp [insertGradient]
  | cons first rest ih =>
    obtain ⟨other, block⟩ := first
    rw [List.map_cons, List.pairwise_cons] at ordered
    rw [List.map_cons, List.mem_cons, not_or] at new
    rw [insertGradient]
    by_cases before : parameter < other
    · rw [if_pos before, List.map_cons, List.map_cons, List.pairwise_cons, List.pairwise_cons]
      refine ⟨?_, ordered⟩
      rw [List.forall_mem_cons]
      exact ⟨before, fun later member => String.lt_trans before (ordered.1 later member)⟩
    · have after : other < parameter := by
        apply Decidable.byContradiction
        intro h
        exact new.1 (String.le_antisymm (String.not_lt.mp h) (String.not_lt.mp before))
      rw [if_neg before, List.map_cons, List.pairwise_cons]
      refine ⟨?_, ih ordered.2 new.2⟩
      intro later member
      obtain ⟨entry, inserted, rfl⟩ := List.mem_map.mp member
      rcases mem_insertGradient.mp inserted with rfl | old
      · exact after
      · exact ordered.1 entry.1 (List.mem_map.mpr ⟨entry, old, rfl⟩)

/-- A gradient whose parameter comes last is put behind the others. -/
theorem insertGradient_eq_append {parameter : String} {gradient : Block}
    {gradients : List (String × Block)} (last : ∀ other ∈ gradients.map (·.1), other < parameter) :
    insertGradient parameter gradient gradients = gradients ++ [(parameter, gradient)] := by
  induction gradients with
  | nil => rfl
  | cons first rest ih =>
    obtain ⟨other, block⟩ := first
    rw [List.map_cons, List.forall_mem_cons] at last
    have : ¬parameter < other := fun h =>
      String.lt_irrefl other (String.lt_trans last.1 h)
    rw [insertGradient, if_neg this, ih last.2, List.cons_append]

/-! ### Blocks that are built are consistent -/

/-- What is accepted as the values and the labels of a block is consistent. -/
theorem consistent_ofValues {values : Dense} {samples : Labels} {components : List Labels}
    {properties : Labels} {block : Block} (filled : values.data.size = values.shape.prod)
    (bounded : Dense.span values.shape ≤ Dense.maxLength)
    (h : ofValues values samples components properties = .ok block) : block.Consistent := by
  obtain ⟨shape, distinct, new, rfl⟩ := ofValues_eq_ok_iff.mp h
  refine .intro ⟨shape, filled, bounded, distinct, new, List.Pairwise.nil, ?_⟩ ?_
  · intro parameter gradient member
    exact absurd member List.not_mem_nil
  · intro parameter gradient member
    exact absurd member List.not_mem_nil

/-- A gradient that is accepted leaves the block consistent. -/
theorem consistent_addGradient {block gradient result : Block} {parameter : String}
    (hblock : block.AxesLabelled Labels.Regular)
    (hgradient : gradient.AxesLabelled Labels.Regular)
    (consistent : block.Consistent) (inner : gradient.Consistent)
    (h : block.addGradient parameter gradient = .ok result) : result.Consistent := by
  obtain ⟨new, goes, rfl⟩ := (addGradient_eq_ok_iff hblock hgradient).mp h
  have own := consistent.own
  refine .intro ⟨own.shape, own.filled, own.bounded, own.distinctNames, own.newNames,
    ordered_insertGradient own.ordered new, ?_⟩ ?_
  · intro other block' member
    rcases mem_insertGradient.mp member with same | old
    · cases same
      exact { goes with }
    · exact { own.gradients other block' old with }
  · intro other block' member
    rcases mem_insertGradient.mp member with same | old
    · cases same
      exact inner
    · exact consistent.inner old

end LabeledBlocks.Block
