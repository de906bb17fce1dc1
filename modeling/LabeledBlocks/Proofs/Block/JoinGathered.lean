import LabeledBlocks.Proofs.Block.JoinSamples

/-!
# Joined blocks are gathered

Blocks that are joined along their samples give the block that is gathered from them, at every depth
of gradients.

* `Block.gathered_joinSamples` — the joined block is gathered from the others, consistent and valid.
-/

namespace LabeledBlocks.Block

variable {first : Block} {others : List Block} {samples : Labels} {sources : List Source}
  {result : Block} {added : List (String × Block)}

/-! ### One level -/

/-- The parameters of the joined block are those of the first one. -/
theorem map_fst_added {gradients : List (String × Block)}
    (all : List.Forall₂ (GradientJoined others sources result) gradients added) :
    gradients.map (·.1) = added.map (·.1) :=
  map_eq_map_of_forall₂ all fun _ _ joined => joined.parameter.symm

/-- Every source has as many values as a sample of the first block. -/
theorem length_sourceRow (wellFormed : ∀ block ∈ first :: others, block.WellFormed)
    (can : CanJoin first others samples sources) :
    ∀ source ∈ sources, (sourceRow (first :: others) source).length = first.rowLength := by
  intro source member
  obtain ⟨block, found, inside⟩ := can.inRange source member
  have inBlocks := List.mem_of_getElem? found
  rw [sourceRow_eq found, (wellFormed block inBlocks).length_valueRow inside]
  exact (aligned_of_matching wellFormed can.matching).rowLength block inBlocks

/-- What is joined of well-formed blocks is well-formed. -/
theorem wellFormed_joined (wellFormed : ∀ block ∈ first :: others, block.WellFormed)
    (can : CanJoin first others samples sources)
    (all : List.Forall₂ (GradientJoined others sources (joinedOwn first others samples sources))
      first.gradients added) :
    WellFormed { joinedOwn first others samples sources with gradients := added } := by
  have own := wellFormed first List.mem_cons_self
  refine ⟨(joinedOwn_shape_iff own).mpr can.count, ?_, can.room, own.distinctNames, ?_, ?_, ?_⟩
  · have lengths : (sources.map fun source => (sourceRow (first :: others) source).length) =
        sources.map fun _ => first.rowLength :=
      List.map_congr_left (length_sourceRow wellFormed can)
    simp only [joinedOwn, List.size_toArray, List.prod_cons]
    rw [List.length_flatMap, lengths, List.map_const', List.sum_replicate_nat]
    rfl
  · exact fun name member => ⟨can.newNames name member, (own.newNames name member).2⟩
  · rw [Block.parameters, ← map_fst_added all]
    exact own.ordered
  · intro parameter gradient member
    obtain ⟨entry, _, joined⟩ := exists_of_mem_right all member
    have goes := joined.goes
    rw [← joined.parameter] at goes
    exact { goes with }

/-- On one level, the joined block has exactly the rows that its sources ask for. -/
theorem gatheredLevel_joined (wellFormed : ∀ block ∈ first :: others, block.WellFormed)
    (can : CanJoin first others samples sources)
    (all : List.Forall₂ (GradientJoined others sources (joinedOwn first others samples sources))
      first.gradients added) :
    GatheredLevel (first :: others) sources
      { joinedOwn first others samples sources with gradients := added } := by
  have parameters : first.parameters = added.map (·.1) := map_fst_added all
  refine ⟨?_, ?_, ?_, can.inRange, can.count, ?_⟩
  · rw [List.forall_mem_cons]
    exact ⟨rfl, fun other member => (can.matching other member).components⟩
  · rw [List.forall_mem_cons]
    exact ⟨rfl, fun other member => (can.matching other member).properties⟩
  · rw [List.forall_mem_cons]
    exact ⟨parameters, fun other member => (can.matching other member).parameters.trans parameters⟩
  · intro j source block found standing
    have length : ∀ source ∈ sources, (sourceRow (first :: others) source).length =
        rowLength { joinedOwn first others samples sources with gradients := added } :=
      length_sourceRow wellFormed can
    rw [← sourceRow_eq standing]
    exact valueRow_of_rows length (List.toList_toArray ..) found

/-! ### All levels -/

/-- The joined block is gathered from the blocks by its sources. It is consistent, and its labels
are valid. -/
theorem gathered_joinSamples (consistent : ∀ block ∈ first :: others, block.Consistent)
    (valid : ∀ block ∈ first :: others, block.Labelled Labels.Valid)
    (valid' : samples.Valid) (nodup : sources.Nodup)
    (h : joinSamples first others samples sources = .ok result) :
    Gathered (first :: others) sources result ∧ result.Consistent ∧
      result.Labelled Labels.Valid := by
  have firstConsistent := consistent first List.mem_cons_self
  induction firstConsistent generalizing others samples sources result with
  | @intro first own deeper ih =>
    have wellFormed : ∀ block ∈ first :: others, block.WellFormed :=
      fun block member => (consistent block member).own
    have axes : ∀ block ∈ first :: others, block.AxesLabelled Labels.Regular :=
      fun block member => (valid block member).own.regular
    have firstValid := valid first List.mem_cons_self
    have inner : ∀ entry ∈ first.gradients, entry.2.AxesLabelled Labels.Regular :=
      fun entry member => (firstValid.inner member).own.regular
    obtain ⟨can, added, all, rfl⟩ :=
      (joinSamples_level_iff wellFormed axes inner valid'.toRegular nodup).mp h
    have level := gatheredLevel_joined wellFormed can all
    have step : ∀ parameter gradient, (parameter, gradient) ∈ added →
        (∀ other ∈ gradientsFor parameter (first :: others),
            other.samples.names = gradient.samples.names) ∧
          gradient.samples.rows =
            (following sources (gradientsFor parameter (first :: others))).map (·.1) ∧
          Gathered (gradientsFor parameter (first :: others))
            ((following sources (gradientsFor parameter (first :: others))).map (·.2)) gradient ∧
          gradient.Consistent ∧ gradient.Labelled Labels.Valid := by
      intro parameter gradient member
      obtain ⟨⟨parameter', own'⟩, inside, joined⟩ := exists_of_mem_right all member
      obtain ⟨same, names, _, samples', built, made⟩ := joined
      dsimp only at same names built made
      subst same
      have found := (gradient?_eq_some own.ordered).mpr inside
      have cons : gradientsFor parameter (first :: others) =
          own' :: gradientsFor parameter others := gradientsFor_cons found
      obtain ⟨⟨names', rows'⟩, valid''⟩ := Labels.ofRows_eq_ok_iff.mp built
      have axes' := joinSamples_axes made
      rw [cons, axes'.1, names', rows']
      refine ⟨List.forall_mem_cons.mpr ⟨rfl, names⟩, rfl, ?_⟩
      refine ih parameter own' inside ?_ ?_ valid'' (nodup_following sources _) made
      · rw [← cons]
        exact everywhere_gradientsFor wellFormed consistent
      · rw [← cons]
        exact everywhere_gradientsFor wellFormed valid
    refine ⟨.intro level ?_ ?_ ?_, .intro (wellFormed_joined wellFormed can all) ?_, .intro ?_ ?_⟩
    · exact fun parameter gradient member => (step parameter gradient member).1
    · exact fun parameter gradient member => (step parameter gradient member).2.1
    · exact fun parameter gradient member => (step parameter gradient member).2.2.1
    · exact fun parameter gradient member => (step parameter gradient member).2.2.2.1
    · exact ⟨valid', firstValid.own.components, firstValid.own.properties⟩
    · exact fun parameter gradient member => (step parameter gradient member).2.2.2.2

end LabeledBlocks.Block
