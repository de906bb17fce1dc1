import LabeledBlocks.Proofs.Block.JoinProperties
import LabeledBlocks.Proofs.Block.JoinSamples
import LabeledBlocks.Proofs.Dense

/-!
# Sound blocks

A block is sound when it and its gradients are well-formed and all their labels are regular. Joined
blocks are put together anew, values, samples, references and properties each on their own; whatever
is joined to a sound block, the result is sound. The checks of blocks and gradients see to all but
the number of values, and there are as many values as were asked for.

* `Block.Sound` — well-formed with regular labels at every depth.
* `Block.sound_ofValues`, `Block.sound_addGradient` — blocks that are built are sound.
* `Block.sound_joinSamples`, `Block.sound_joinProperties` — blocks that are joined are sound.
-/

namespace LabeledBlocks.Block

/-- A well-formed block with regular labels on its axes. -/
structure Proper (block : Block) : Prop where
  wellFormed : block.WellFormed
  regular : block.AxesLabelled Labels.Regular

/-- The block and its gradients at every depth are well-formed and have regular labels. -/
abbrev Sound (block : Block) : Prop :=
  block.Everywhere Proper

theorem Sound.consistent {block : Block} (sound : block.Sound) : block.Consistent :=
  sound.imp fun _ own => own.wellFormed

theorem Sound.of_consistent {block : Block} (consistent : block.Consistent)
    (regular : block.Labelled Labels.Regular) : block.Sound :=
  (consistent.and regular).imp fun _ own => ⟨own.1, own.2⟩

/-! ### Building blocks -/

/-- What is accepted as the values and the labels of a block is sound. -/
theorem sound_ofValues {values : Dense} {samples : Labels} {components : List Labels}
    {properties : Labels} {block : Block} (filled : values.Filled)
    (bounded : Dense.span values.shape ≤ Dense.maxLength) (regular : samples.Regular)
    (regularComponents : ∀ labels ∈ components, labels.Regular)
    (regularProperties : properties.Regular)
    (h : ofValues values samples components properties = .ok block) : block.Sound := by
  have consistent := consistent_ofValues filled bounded h
  obtain ⟨_, _, _, rfl⟩ := ofValues_eq_ok_iff.mp h
  refine .of_consistent consistent (.intro ⟨regular, regularComponents, regularProperties⟩ ?_)
  intro parameter gradient member
  cases member

/-- A gradient that is accepted leaves the block sound. -/
theorem sound_addGradient {block gradient result : Block} {parameter : String} (sound : block.Sound)
    (inner : gradient.Sound) (h : block.addGradient parameter gradient = .ok result) :
    result.Sound := by
  have own := sound.own.regular
  have consistent :=
    consistent_addGradient own inner.own.regular sound.consistent inner.consistent h
  obtain ⟨_, _, rfl⟩ := (addGradient_eq_ok_iff own inner.own.regular).mp h
  refine .intro ⟨consistent.own, { own with }⟩ fun other block' member => ?_
  rcases mem_insertGradient.mp member with same | old
  · cases same
    exact inner
  · exact sound.inner old

/-! ### Joining along the samples -/

/-- There are as many values as the samples that were asked for have. -/
theorem size_sampleValues {donors : Array (Dense × Nat)} {rowLength : Nat} {sources : List Source}
    {data : Array FloatBits} (h : sampleValues donors rowLength sources = .ok data) :
    data.size = sources.length * rowLength := by
  obtain ⟨rows, copied, h⟩ := bind_eq_ok.mp h
  obtain rfl := pure_eq_ok.mp h
  have copies := mapM_eq_ok.mp copied
  have length : ∀ row ∈ rows, row.toList.length = rowLength := by
    intro row member
    obtain ⟨source, _, copied⟩ := exists_of_mem_right copies member
    split at copied
    · split at copied
      · exact Dense.size_row copied
      · cases copied
    · cases copied
  rw [List.size_toArray, List.length_flatMap, List.map_congr_left length, List.map_const',
    List.sum_replicate_nat, copies.length_eq]

section Samples

variable {others : List Block} {result final : Block}

/-- One gradient after the other is joined and added. -/
theorem sound_joinSampleGradients {gradients : List (String × Block)}
    {placed : List (Array (Option Nat))}
    (inner : ∀ entry ∈ gradients, ∀ (others : List Block) (samples : Labels)
      (sources : List Source) (joined : Block), samples.Regular →
        joinSamples entry.2 others samples sources = .ok joined → joined.Sound)
    (sound : result.Sound) (h : joinSampleGradients gradients others placed result = .ok final) :
    final.Sound := by
  induction gradients generalizing result with
  | nil =>
    rw [joinSampleGradients, Except.ok.injEq] at h
    exact h ▸ sound
  | cons entry gradients ih =>
    rw [List.forall_mem_cons] at inner
    simp only [joinSampleGradients, bind_eq_ok] at h
    obtain ⟨_, _, _, _, _, _, samples, built, joined, made, added, adds, rest⟩ := h
    have regular := Labels.regular_ofRows built
    have joinedSound := inner.1 _ _ _ joined regular made
    exact ih inner.2 (sound_addGradient sound joinedSound adds) rest

/-- Whatever is joined to a sound block along the samples, the result is sound. -/
theorem sound_joinSamples {first : Block} (sound : first.Sound) {samples : Labels}
    (regular : samples.Regular) {sources : List Source}
    (h : joinSamples first others samples sources = .ok result) : result.Sound := by
  induction sound generalizing others samples sources result with
  | @intro first own _ ih =>
    obtain ⟨_, _, room, data, copied, block, built, rest⟩ := joinSamples_steps.mp h
    have bounded := Dense.checkSpan_eq_ok_iff.mp room
    have filled : Dense.Filled ⟨sources.length :: first.values.shape.tail, data⟩ := by
      rw [Dense.Filled, List.prod_cons]
      exact size_sampleValues copied
    refine sound_joinSampleGradients ?_
      (sound_ofValues filled bounded regular own.regular.components own.regular.properties built)
      rest
    intro entry member _ _ _ _ regular' made
    exact ih entry.1 entry.2 member regular' made

end Samples

/-! ### Joining along the properties -/

/-- The rows of all gradients make regular labels. -/
theorem regular_unionSamples {parameter : String} {names : List String} {merged samples : Labels}
    {number : Nat} {gradients : List (Block × Array Nat)} {placed : List (Array Nat)}
    (regular : merged.Regular)
    (h : unionSamples parameter names merged number gradients = .ok (samples, placed)) :
    samples.Regular := by
  induction gradients generalizing merged number placed with
  | nil =>
    rw [unionSamples, Except.ok.injEq, Prod.mk.injEq] at h
    exact h.1 ▸ regular
  | cons entry gradients ih =>
    simp only [unionSamples, bind_eq_ok] at h
    obtain ⟨_, _, rows, _, own, built, ⟨union, first, second⟩, united, ⟨samples', others⟩, further,
      done⟩ := h
    obtain ⟨rfl, _⟩ := Prod.mk.inj (pure_eq_ok.mp done)
    have ownRegular := Labels.regular_ofRows built
    exact ih (Labels.regular_unionWithPositions regular ownRegular united) further

section Properties

variable {others : List Block} {properties : Labels} {sources : List Source} {result final : Block}

/-- One gradient after the other is joined and added. -/
theorem sound_joinPropertyGradients {gradients : List (String × Block)}
    {positions : List (Array Nat)}
    (inner : ∀ entry ∈ gradients, ∀ (others : List Block) (samples : Labels)
      (positions : List (Array Nat)) (joined : Block), samples.Regular →
        joinProperties entry.2 others samples positions properties sources = .ok joined →
          joined.Sound)
    (sound : result.Sound)
    (h : joinPropertyGradients gradients others positions properties sources result = .ok final) :
    final.Sound := by
  induction gradients generalizing result with
  | nil =>
    rw [joinPropertyGradients, Except.ok.injEq] at h
    exact h ▸ sound
  | cons entry gradients ih =>
    rw [List.forall_mem_cons] at inner
    simp only [joinPropertyGradients, bind_eq_ok] at h
    obtain ⟨_, _, unmerged, emptied, ⟨samples, placed⟩, united, joined, made, added, adds, rest⟩ :=
      h
    have emptyRegular := Labels.regular_ofRows emptied
    have joinedSound := inner.1 _ _ _ joined (regular_unionSamples emptyRegular united) made
    exact ih inner.2 (sound_addGradient sound joinedSound adds) rest

/-- Whatever is joined to a sound block along the properties, the result is sound. -/
theorem sound_joinProperties {first : Block} (sound : first.Sound) {samples : Labels}
    (regular : samples.Regular) (regularProperties : properties.Regular)
    {positions : List (Array Nat)}
    (h : joinProperties first others samples positions properties sources = .ok result) :
    result.Sound := by
  induction sound generalizing others samples positions result with
  | @intro first own _ ih =>
    obtain ⟨_, _, room, _, _, data, looked, block, built, rest⟩ := joinProperties_steps.mp h
    have bounded := Dense.checkSpan_eq_ok_iff.mp room
    have filled : Dense.Filled
        ⟨samples.count :: (first.values.shape.tail.dropLast ++ [sources.length]), data⟩ := by
      rw [Dense.Filled, List.prod_cons, List.prod_append, List.prod_singleton, ← Nat.mul_assoc]
      exact (propertyValues_eq_ok looked).1
    refine sound_joinPropertyGradients ?_
      (sound_ofValues filled bounded regular own.regular.components regularProperties built) rest
    intro entry member _ _ _ _ regular' made
    exact ih entry.1 entry.2 member regular' made

end Properties

end LabeledBlocks.Block
