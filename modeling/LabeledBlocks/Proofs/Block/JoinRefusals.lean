import LabeledBlocks.Proofs.Block.Room
import Mathlib.Algebra.Order.BigOperators.Group.List
import Mathlib.Algebra.Order.Group.Nat

/-!
# What blocks are refused for that are joined along their samples

Every level of gradients is checked anew when blocks are joined: the axes and the parameters of the
blocks, the names of the gradient samples, the labels that the samples of the result get, the block
that is made of them and each gradient that is added to it. Of consistent blocks with the same
properties, none is refused for what is made of it on the way. Either two blocks differ, and the
error shows where, or the samples of the result clash with a component, or there can be no array
with a shape that is asked for.

* `Block.SameTree` — the same components, and gradients that match at every depth.
* `Block.Differs` — what shows that two blocks do not have the same tree.
* `Block.Numberable` — the samples of all blocks together can be numbered.
* `Block.refusedOnly_joinSamples` — blocks are refused for nothing else.
-/

namespace LabeledBlocks.Block

/-! ### Blocks that have the same tree -/

/-- The blocks have the same components and gradients for the same parameters, and so do these, with
samples of the same names, at every depth. -/
inductive SameTree : (a b : Block) → Prop where
  | intro {a b : Block} (components : a.components = b.components)
      (parameters : a.parameters = b.parameters)
      (names : ∀ parameter gradient gradient', a.gradient? parameter = some gradient →
        b.gradient? parameter = some gradient' → gradient.samples.names = gradient'.samples.names)
      (deeper : ∀ parameter gradient gradient', a.gradient? parameter = some gradient →
        b.gradient? parameter = some gradient' → SameTree gradient gradient') :
      SameTree a b

/-- A consistent block has the same tree as itself. -/
theorem SameTree.refl {block : Block} (consistent : block.Consistent) : SameTree block block := by
  induction consistent with
  | intro own _ ih =>
    refine .intro rfl rfl ?_ ?_
    · intro parameter gradient gradient' has has'
      rw [Option.some.inj (has.symm.trans has')]
    · intro parameter gradient gradient' has has'
      obtain rfl := Option.some.inj (has.symm.trans has')
      exact ih parameter gradient ((gradient?_eq_some own.ordered).mp has)

/-- Blocks of which another one is gathered have the same tree. -/
theorem Gathered.sameTree {blocks : List Block} {sources : List Source} {result : Block}
    (h : Gathered blocks sources result) : ∀ a ∈ blocks, ∀ b ∈ blocks, SameTree a b := by
  induction h with
  | @intro blocks sources result level names rows deeper ih =>
    intro a isOne b isOther
    have isGradient {parameter : String} {gradient : Block}
        (has : a.gradient? parameter = some gradient) :
        ∃ joined, (parameter, joined) ∈ result.gradients := by
      have isParameter := isSome_gradient?_iff.mp (Option.isSome_of_mem has)
      rw [level.parameters a isOne] at isParameter
      obtain ⟨⟨_, joined⟩, member, rfl⟩ := List.mem_map.mp isParameter
      exact ⟨joined, member⟩
    refine .intro ?_ ?_ ?_ ?_
    · rw [level.components a isOne, level.components b isOther]
    · rw [level.parameters a isOne, level.parameters b isOther]
    · intro parameter gradient gradient' has has'
      obtain ⟨joined, member⟩ := isGradient has
      have same := names parameter joined member
      rw [same gradient (List.mem_filterMap.mpr ⟨a, isOne, has⟩),
        same gradient' (List.mem_filterMap.mpr ⟨b, isOther, has'⟩)]
    · intro parameter gradient gradient' has has'
      obtain ⟨joined, member⟩ := isGradient has
      apply ih parameter joined member
      · exact List.mem_filterMap.mpr ⟨a, isOne, has⟩
      · exact List.mem_filterMap.mpr ⟨b, isOther, has'⟩

/-- The error shows how the tree of the block at this position differs from that of the first
one. -/
inductive Differs (position : Nat) : (first other : Block) → Error → Prop where
  | axisCount {first other : Block} (differ : other.components.length ≠ first.components.length) :
      Differs position first other (.inconsistentComponents position
        (.axisCount first.components.length other.components.length))
  | axis {first other : Block} {axis : Nat}
      (differ : first.components[axis]? ≠ other.components[axis]?) :
      Differs position first other (.inconsistentComponents position (.labels axis))
  | parameters {first other : Block} (differ : other.parameters ≠ first.parameters) :
      Differs position first other
        (.inconsistentGradients position first.parameters other.parameters)
  | sampleNames {first other gradient gradient' : Block} {parameter : String}
      (has : first.gradient? parameter = some gradient)
      (has' : other.gradient? parameter = some gradient')
      (differ : gradient'.samples.names ≠ gradient.samples.names) :
      Differs position first other (.invalidGradient parameter
        (.differentSampleNames position gradient'.samples.names gradient.samples.names))
  | deeper {first other gradient gradient' : Block} {parameter : String} {e : Error}
      (has : first.gradient? parameter = some gradient)
      (has' : other.gradient? parameter = some gradient')
      (differs : Differs position gradient gradient' e) : Differs position first other e

/-- An error that tells two blocks apart tells the truth. -/
theorem Differs.not_sameTree {position : Nat} {first other : Block} {e : Error}
    (h : Differs position first other e) : ¬SameTree first other := by
  induction h with
  | axisCount differ =>
    rintro ⟨components, _, _, _⟩
    exact differ (congrArg List.length components.symm)
  | axis differ =>
    rintro ⟨components, _, _, _⟩
    exact differ (congrArg (·[_]?) components)
  | parameters differ =>
    rintro ⟨_, parameters, _, _⟩
    exact differ parameters.symm
  | sampleNames has has' differ =>
    rintro ⟨_, _, names, _⟩
    exact differ (names _ _ _ has has').symm
  | deeper has has' _ ih =>
    rintro ⟨_, _, _, deeper⟩
    exact ih (deeper _ _ _ has has')

/-- One of the blocks has another tree than the first one, and the error shows it. -/
def OneDiffers (first : Block) (others : List Block) (e : Error) : Prop :=
  ∃ position other, (first :: others)[position]? = some other ∧ Differs position first other e

/-- One of the arrays that are asked for can not be made, and the error shows its shape. -/
def TooLarge (blocks : List Block) (sources : List Source) (e : Error) : Prop :=
  ∃ shape, TakenShape blocks sources shape ∧ Dense.maxLength < Dense.span shape ∧
    e = .outOfRange (.shape shape)

theorem Roomy.not_tooLarge {blocks : List Block} {sources : List Source} {e : Error}
    (roomy : Roomy blocks) (nodup : sources.Nodup)
    (inRange : ∀ source ∈ sources, InRange blocks source) : ¬TooLarge blocks sources e := by
  rintro ⟨shape, taken, large, _⟩
  exact Nat.not_lt.mpr (roomy.taken taken nodup inRange) large

/-! ### Numbers for all samples together -/

/-- The samples of the blocks together can be numbered, and so can those of the gradients that all
of them have, at every depth. -/
inductive Numberable : List Block → Prop where
  | intro {blocks : List Block}
      (own : (blocks.map fun block => block.samples.count).sum ≤ 2 ^ 31)
      (deeper : ∀ parameter, blocks ≠ [] → (∀ block ∈ blocks, parameter ∈ block.parameters) →
        Numberable (gradientsFor parameter blocks)) :
      Numberable blocks

namespace Numberable

variable {blocks : List Block} {parameter : String}

theorem own (h : Numberable blocks) :
    (blocks.map fun block => block.samples.count).sum ≤ 2 ^ 31 := by
  cases h with
  | intro own _ => exact own

theorem inner (h : Numberable blocks) (nonempty : blocks ≠ [])
    (all : ∀ block ∈ blocks, parameter ∈ block.parameters) :
    Numberable (gradientsFor parameter blocks) := by
  cases h with
  | intro _ deeper => exact deeper parameter nonempty all

end Numberable

/-! ### What the single checks are refused for -/

/-- The axis that is reported is one where the labels differ. -/
theorem firstDifference_eq_some {start axis : Nat} {a b : List Labels}
    (h : firstDifference start a b = some axis) : ∃ i, axis = start + i ∧ a[i]? ≠ b[i]? := by
  induction a generalizing start b with
  | nil => simp [firstDifference] at h
  | cons one a ih =>
    cases b with
    | nil => simp [firstDifference] at h
    | cons other b =>
      rw [firstDifference] at h
      by_cases same : one.identical other = true
      · rw [if_pos same] at h
        obtain ⟨i, rfl, differ⟩ := ih h
        exact ⟨i + 1, by omega, differ⟩
      · rw [if_neg same] at h
        refine ⟨0, (Option.some.inj h).symm, fun equal => same ?_⟩
        obtain rfl := Option.some.inj equal
        exact Labels.identical_self one

theorem sameAxes_self (axes : List Labels) : sameAxes axes axes = true := by
  rw [sameAxes, Bool.and_eq_true, beq_iff_eq, Option.isNone_iff_eq_none]
  refine ⟨rfl, Option.eq_none_iff_forall_ne_some.mpr fun axis found => ?_⟩
  obtain ⟨_, _, differ⟩ := firstDifference_eq_some found
  exact differ rfl

/-- Components are only refused when they differ, and the error shows it. -/
theorem refusedOnly_checkSameComponents {position : Nat} {first other : Block} :
    RefusedOnly (Differs position first other)
      (checkSameComponents position first.components other.components) := by
  refine .checked (fun differ => .axisCount differ) fun _ => ?_
  cases found : firstDifference 0 first.components other.components with
  | none => exact .of_ok rfl
  | some axis =>
    obtain ⟨i, rfl, differ⟩ := firstDifference_eq_some found
    rintro _ ⟨⟩
    rw [Nat.zero_add]
    exact .axis differ

section Checks

variable {first : Block} {others : List Block} {e : Error}

/-- What is counted from the second block on stands there among all blocks. -/
theorem oneDiffers_of_others
    (h : ∃ i other, others[i]? = some other ∧ Differs (1 + i) first other e) :
    OneDiffers first others e := by
  obtain ⟨i, other, standing, differs⟩ := h
  refine ⟨1 + i, other, ?_, differs⟩
  rwa [Nat.add_comm, List.getElem?_cons_succ]

/-- Blocks are refused for their components, or for other properties than those of the first one. -/
theorem refusedOnly_checkJoinable :
    RefusedOnly (fun e => OneDiffers first others e ∨ ∃ other ∈ others,
        other.properties ≠ first.properties ∧ ∃ position, e = .propertyMismatch (.joining position))
      (checkJoinable first.components first.properties 1 others) := by
  have each := RefusedOnly.of_each (f := checkJoinable first.components first.properties)
    (R := fun position other e => Differs position first other e ∨
      other.properties ≠ first.properties ∧ e = .propertyMismatch (.joining position))
    (fun _ => rfl) (fun start other others => ?_) 1 others
  · refine each.imp ?_
    rintro e ⟨i, other, standing, differs | ⟨differ, rfl⟩⟩
    · exact .inl (oneDiffers_of_others ⟨i, other, standing, differs⟩)
    · exact .inr ⟨other, List.mem_of_getElem? standing, differ, _, rfl⟩
  · simp only [checkJoinable, throw_bind_eq]
    refine .bind (refusedOnly_checkSameComponents.imp fun _ differs => .inl (.inl differs)) ?_
    refine fun _ _ => .checked (fun differ => .inl (.inr ⟨fun same => ?_, rfl⟩)) fun _ _ => .inr
    rw [same, Labels.identical_self] at differ
    cases differ

theorem refusedOnly_checkSameParameters :
    RefusedOnly (OneDiffers first others) (checkSameParameters first.parameters 1 others) := by
  have each := RefusedOnly.of_each (f := checkSameParameters first.parameters)
    (R := fun position other e => Differs position first other e) (fun _ => rfl)
    (fun start other others => ?_) 1 others
  · exact each.imp fun e => oneDiffers_of_others
  · rw [checkSameParameters]
    exact .checked (fun differ => .inl (.parameters differ)) fun _ _ later => .inr later

/-- The gradients of blocks that all have a gradient are refused for the names of their samples. -/
theorem refusedOnly_checkSampleNames {parameter : String} {gradient : Block}
    (has : first.gradient? parameter = some gradient)
    (all : ∀ other ∈ others, parameter ∈ other.parameters) :
    RefusedOnly (OneDiffers first others)
      (checkSampleNames parameter gradient.samples.names 1 (gradientsFor parameter others)) := by
  have each := RefusedOnly.of_each (f := checkSampleNames parameter gradient.samples.names)
    (R := fun position gradient' e => gradient'.samples.names ≠ gradient.samples.names ∧
      e = .invalidGradient parameter
        (.differentSampleNames position gradient'.samples.names gradient.samples.names))
    (fun _ => rfl) (fun start other others => ?_) 1 (gradientsFor parameter others)
  · refine each.imp fun e broken => oneDiffers_of_others ?_
    obtain ⟨i, gradient', standing, differ, rfl⟩ := broken
    rw [getElem?_gradientsFor all] at standing
    obtain ⟨other, standing, has'⟩ := Option.bind_eq_some_iff.mp standing
    exact ⟨i, other, standing, .sampleNames has has' differ⟩
  · rw [checkSampleNames]
    exact .checked (fun differ => .inl ⟨differ, rfl⟩) fun _ _ later => .inr later

end Checks

/-- The samples of the result clash with a component of the first block. -/
def Clashes (first : Block) (samples : Labels) (e : Error) : Prop :=
  ∃ name ∈ componentNames first.components, name ∈ samples.names ∧
    e = .duplicateName name .componentsAndSamples

/-- Component names that are new to the properties are only refused for those of the samples. -/
theorem refusedOnly_checkComponentNames {samples properties : Labels} {seen names : List String}
    (nodup : names.Nodup) (unseen : ∀ name ∈ names, name ∉ seen)
    (new : ∀ name ∈ names, name ∉ properties.names) :
    RefusedOnly (fun e => ∃ name ∈ names, name ∈ samples.names ∧
        e = .duplicateName name .componentsAndSamples)
      (checkComponentNames samples properties seen names) := by
  induction names generalizing seen with
  | nil => exact .of_ok rfl
  | cons name names ih =>
    rw [List.nodup_cons] at nodup
    rw [List.forall_mem_cons] at unseen new
    refine .checked (fun known => absurd known unseen.1) fun _ => ?_
    refine .checked (fun isSample => ⟨name, List.mem_cons_self, isSample, rfl⟩) fun _ => ?_
    refine .checked (fun isProperty => absurd isProperty new.1) fun _ => ?_
    refine (ih nodup.2 ?_ new.2).imp ?_
    · intro other member
      rw [List.mem_cons, not_or]
      exact ⟨fun same => nodup.1 (same ▸ member), unseen.2 other member⟩
    · rintro e ⟨other, member, clash⟩
      exact ⟨other, List.mem_cons_of_mem _ member, clash⟩

/-- The joined block without its gradients is refused for the names of its samples. -/
theorem refusedOnly_ofValues {first : Block} (wellFormed : first.WellFormed) {samples : Labels}
    {sources : List Source} {data : Array FloatBits} (count : samples.count = sources.length) :
    RefusedOnly (Clashes first samples)
      (ofValues ⟨sources.length :: first.values.shape.tail, data⟩ samples first.components
        first.properties) := by
  have shape := checkShape_eq_ok_iff.mpr ((joinedOwn_shape_iff wellFormed).mpr count)
  refine .bind (.of_ok shape) fun _ _ => .bind ?_ fun _ _ => .of_ok rfl
  exact refusedOnly_checkComponentNames wellFormed.distinctNames (fun _ _ => List.not_mem_nil)
    fun name member => (wellFormed.newNames name member).2

/-! ### What a gradient is refused for -/

/-- A gradient is joined with those of the other blocks and added, before the next one is. -/
theorem joinSampleGradients_cons (entry : String × Block) (gradients : List (String × Block))
    (others : List Block) (placed : List (Array (Option Nat))) (result : Block) :
    joinSampleGradients (entry :: gradients) others placed result = (do
      let next ← joinSampleGradients [entry] others placed result
      joinSampleGradients gradients others placed next) := by
  simp only [joinSampleGradients, bind_assoc]
  rfl

/-- Whatever samples are taken, blocks are joined unless one of them differs from the first, the
samples clash with a component, or an array is too large. -/
def JoinsUnlessDifferent (first : Block) (others : List Block) : Prop :=
  ∀ samples sources, samples.Regular → sources.Nodup →
    (∀ source ∈ sources, InRange (first :: others) source) → samples.count = sources.length →
    RefusedOnly (fun e => OneDiffers first others e ∨ Clashes first samples e ∨
        TooLarge (first :: others) sources e)
      (joinSamples first others samples sources)

/-- Where gradients differ, their blocks do, at the same position. -/
theorem OneDiffers.of_gradients {first gradient : Block} {others : List Block} {parameter : String}
    {e : Error} (h : OneDiffers gradient (gradientsFor parameter others) e)
    (has : first.gradient? parameter = some gradient)
    (all : ∀ block ∈ first :: others, parameter ∈ block.parameters) :
    OneDiffers first others e := by
  obtain ⟨position, gradient', standing, differs⟩ := h
  rw [← gradientsFor_cons has, getElem?_gradientsFor all] at standing
  obtain ⟨other, standing, has'⟩ := Option.bind_eq_some_iff.mp standing
  exact ⟨position, other, standing, .deeper has has' differs⟩

/-- Where the array of a gradient is too large, it is asked for by the blocks. -/
theorem TooLarge.of_gradients {blocks : List Block} {sources : List Source} {parameter : String}
    {e : Error} (h : TooLarge (gradientsFor parameter blocks)
      ((following sources (gradientsFor parameter blocks)).map (·.2)) e)
    (all : ∀ block ∈ blocks, parameter ∈ block.parameters) : TooLarge blocks sources e := by
  obtain ⟨shape, taken, large, rfl⟩ := h
  exact ⟨shape, .deeper all taken, large, rfl⟩

section Gradients

variable {first : Block} {others : List Block} {samples : Labels} {sources : List Source}
  (consistent : ∀ block ∈ first :: others, block.Consistent)
  (valid : ∀ block ∈ first :: others, block.Labelled Labels.Valid)
  (matching : ∀ other ∈ others, Matching first other)
  (small : sources.length ≤ 2 ^ 31) (count : samples.count = sources.length)

include consistent valid matching small count

/-- A gradient is refused when it or a gradient of its own differs or is too large, but never for its
samples when they follow those of the block. -/
theorem refusedOnly_joinGradient {parameter : String} {gradient result : Block}
    (member : (parameter, gradient) ∈ first.gradients)
    (one : JoinsUnlessDifferent gradient (gradientsFor parameter others))
    (regular : result.AxesLabelled Labels.Regular)
    (same : SameUpToGradients result (joinedOwn first others samples sources))
    (last : ∀ other ∈ result.parameters, other < parameter) :
    RefusedOnly (fun e => OneDiffers first others e ∨ TooLarge (first :: others) sources e)
      (joinSampleGradients [(parameter, gradient)] others (placesOf (first :: others) sources)
        result) := by
  have wellFormed : ∀ block ∈ first :: others, block.WellFormed :=
    fun block inside => (consistent block inside).own
  have own := wellFormed first List.mem_cons_self
  have found : first.gradient? parameter = some gradient :=
    (gradient?_eq_some own.ordered).mpr member
  have hasAll := mem_parameters_of_gradient matching member
  have hasOthers := (List.forall_mem_cons.mp hasAll).2
  obtain ⟨parts, copied, flat⟩ := exists_survivingRows wellFormed matching member sources
  simp only [joinSampleGradients]
  rw [mapM_gradientFor_eq_ok_iff.mpr ⟨hasOthers, rfl⟩, ok_bind_eq]
  refine .bind ((refusedOnly_checkSampleNames found hasOthers).imp fun _ => .inl) fun _ named => ?_
  have kept := valid_followingSamples_gradientsFor small wellFormed valid member
    (checkSampleNames_eq_ok_iff.mp named)
  have built : Labels.ofRows gradient.samples.names
      ((following sources (gradient :: gradientsFor parameter others)).map (·.1)) =
        .ok (followingSamples sources gradient.samples.names
          (gradient :: gradientsFor parameter others)) :=
    Labels.ofRows_of_valid kept
  rw [copied, ok_bind_eq, flat, built, ok_bind_eq]
  refine .bind ?_ fun joined made => ?_
  · have refused := one _ _ kept.toRegular (nodup_following sources _) inRange_following
      (by rw [Labels.count_eq, followingSamples, List.length_map, List.length_map])
    refine refused.imp fun e broken => ?_
    rcases broken with differs | ⟨name, isAxis, isSample, rfl⟩ | large
    · exact .inl (differs.of_gradients found hasAll)
    · have inner := (consistent first List.mem_cons_self).inner member
      exact absurd isSample (inner.own.newNames name isAxis).1
    · rw [← gradientsFor_cons found] at large
      exact .inr (large.of_gradients hasAll)
  · have gradientRegular := ((valid first List.mem_cons_self).inner member).own.regular
    have joinedRegular := joinSamples_regular gradientRegular kept.toRegular made
    have goes : GradientOf (joinedOwn first others samples sources) parameter joined :=
      (own.gradients parameter gradient member).joined made rfl (count ▸ refers_following small)
    have new : parameter ∉ result.parameters := fun inside =>
      String.lt_irrefl parameter (last parameter inside)
    rw [(addGradient_eq_ok_iff regular joinedRegular).mpr ⟨new, goes.of_same same.symm, rfl⟩]
    exact .of_ok rfl

/-- One gradient after the other. -/
theorem refusedOnly_joinSampleGradients {gradients : List (String × Block)}
    (among : ∀ entry ∈ gradients, entry ∈ first.gradients)
    (one : ∀ entry ∈ gradients, JoinsUnlessDifferent entry.2 (gradientsFor entry.1 others))
    {result : Block} (regular : result.AxesLabelled Labels.Regular)
    (same : SameUpToGradients result (joinedOwn first others samples sources))
    (ordered : (result.parameters ++ gradients.map (·.1)).Pairwise (· < ·)) :
    RefusedOnly (fun e => OneDiffers first others e ∨ TooLarge (first :: others) sources e)
      (joinSampleGradients gradients others (placesOf (first :: others) sources) result) := by
  have wellFormed : ∀ block ∈ first :: others, block.WellFormed :=
    fun block inside => (consistent block inside).own
  induction gradients generalizing result with
  | nil => exact .of_ok (by rw [joinSampleGradients])
  | cons entry gradients ih =>
    rw [List.forall_mem_cons] at among one
    have last : ∀ other ∈ result.parameters, other < entry.1 := by
      rw [List.map_cons, List.pairwise_append] at ordered
      exact fun other before => ordered.2.2 other before entry.1 List.mem_cons_self
    have gradientRegular := ((valid first List.mem_cons_self).inner among.1).own.regular
    rw [joinSampleGradients_cons]
    refine .bind (refusedOnly_joinGradient consistent valid matching small count among.1 one.1
      regular same last) fun next added => ?_
    obtain ⟨joined, made, done⟩ := (joinSampleGradients_cons_iff wellFormed matching among.1
      gradientRegular regular last).mp added
    rw [joinSampleGradients, Except.ok.injEq] at done
    subst done
    refine ih among.2 one.2 ⟨regular.samples, regular.components, regular.properties⟩
      (Eq.trans rfl same) ?_
    rw [Block.parameters, List.map_append, List.map_singleton, made.parameter, List.append_assoc]
    exact ordered

end Gradients

/-! ### All levels -/

/-- Consistent blocks with the same properties are refused because they differ, because their
samples get the name of a component, or because there can be no array for them, but for nothing else
that is made of them. -/
theorem refusedOnly_joinSamples {first : Block} {others : List Block}
    (numberable : Numberable (first :: others))
    (consistent : ∀ block ∈ first :: others, block.Consistent)
    (valid : ∀ block ∈ first :: others, block.Labelled Labels.Valid)
    (properties : ∀ other ∈ others, other.properties = first.properties) :
    JoinsUnlessDifferent first others := by
  have firstConsistent := consistent first List.mem_cons_self
  induction firstConsistent generalizing others with
  | @intro first own _ ih =>
    intro samples sources regular nodup inRange count
    have wellFormed : ∀ block ∈ first :: others, block.WellFormed :=
      fun block member => (consistent block member).own
    have axes : ∀ block ∈ first :: others, block.AxesLabelled Labels.Regular :=
      fun block member => (valid block member).own.regular
    rw [List.forall_mem_cons] at axes
    rw [joinSamples_eq]
    refine .bind (refusedOnly_checkJoinable.imp ?_) fun _ joinable => ?_
    · rintro e (differs | ⟨other, isOther, differ, _⟩)
      · exact .inl differs
      · exact absurd (properties other isOther) differ
    refine .bind (refusedOnly_checkSameParameters.imp fun _ => .inl) fun _ sameParameters => ?_
    have components := (checkJoinable_eq_ok_iff axes.1 axes.2).mp joinable
    have parameters := checkSameParameters_eq_ok_iff.mp sameParameters
    have matching : ∀ other ∈ others, Matching first other := fun other member =>
      ⟨(components other member).1, (components other member).2, parameters other member⟩
    have copied := (sampleValues_eq_ok_iff (aligned_of_matching wellFormed matching)).mpr
      ⟨inRange, rfl⟩
    refine .bind ?_ fun _ _ => ?_
    · rw [own.tail_shape]
      exact .checked (fun large => .inr (.inr ⟨_, .own rfl, large, rfl⟩)) fun _ => .of_ok rfl
    refine .bind (.of_ok copied) fun data given => ?_
    obtain rfl := Except.ok.inj (copied.symm.trans given)
    refine .bind ((refusedOnly_ofValues own count).imp fun _ => .inr ∘ .inl) fun result made => ?_
    obtain ⟨_, _, _, rfl⟩ := ofValues_eq_ok_iff.mp made
    rw [newPositions_eq _ nodup]
    have small := Nat.le_trans (length_sources_le nodup inRange) numberable.own
    refine RefusedOnly.imp (refusedOnly_joinSampleGradients consistent valid matching small count
      (fun _ member => member) ?_ ⟨regular, axes.1.components, axes.1.properties⟩ rfl own.ordered)
      fun _ => Or.imp_right .inr
    -- the gradients of the first block are accounted for by induction, together with those of the
    -- others, whose properties are those of their blocks
    rintro ⟨parameter, gradient⟩ member
    have found := (gradient?_eq_some own.ordered).mpr member
    have inner := numberable.inner (List.cons_ne_nil _ _)
      (mem_parameters_of_gradient matching member)
    have consistent' := @everywhere_gradientsFor _ parameter _ wellFormed consistent
    have valid' := @everywhere_gradientsFor _ parameter _ wellFormed valid
    rw [gradientsFor_cons found] at inner consistent' valid'
    refine ih parameter gradient member inner consistent' valid' ?_
    intro gradient' isGradient
    obtain ⟨other, isOther, has'⟩ := List.mem_filterMap.mp isGradient
    have own' := wellFormed other (List.mem_cons_of_mem _ isOther)
    have goes' := own'.gradients parameter gradient' ((gradient?_eq_some own'.ordered).mp has')
    rw [goes'.properties, properties other isOther,
      (own.gradients parameter gradient member).properties]

end LabeledBlocks.Block
