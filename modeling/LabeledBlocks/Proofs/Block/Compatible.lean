import LabeledBlocks.Proofs.Block.JoinGathered
import LabeledBlocks.Proofs.Block.JoinRefusals
import LabeledBlocks.Proofs.Block.Merges

/-!
# Compatible blocks

Whether blocks can be joined along their samples does not depend on the samples that are taken. They
can if they have the same components, properties and parameters, if their gradients have samples of
the same names, at every depth, and if all their samples together can be numbered and have room in
an array. Blocks that are merged of others are compatible when the others are.

* `Block.Compatible` — blocks that can be joined along their samples.
* `Block.exists_joinSamples_compatible` — they can be joined.
* `Block.Merges.compatible` — blocks that have been merged were compatible.
* `Block.compatible_flatten_iff` — blocks are compatible if those are that they were merged of.
-/

namespace LabeledBlocks.Block

/-- What blocks have in common that can be joined along their samples. -/
def frame (block : Block) : List Labels × Labels × List String :=
  (block.components, block.properties, block.parameters)

theorem frame_eq_iff {a b : Block} : a.frame = b.frame ↔ Matching a b := by
  simp only [frame, Prod.mk.injEq]
  exact ⟨fun ⟨components, properties, parameters⟩ =>
      ⟨components.symm, properties.symm, parameters.symm⟩,
    fun h => ⟨h.components.symm, h.properties.symm, h.parameters.symm⟩⟩

/-- A parameter that one of matching blocks has is one of all of them. -/
theorem mem_parameters_of_matching {blocks : List Block} {parameter : String}
    (matching : ∀ a ∈ blocks, ∀ b ∈ blocks, Matching a b)
    (some : ∃ block ∈ blocks, parameter ∈ block.parameters) :
    ∀ block ∈ blocks, parameter ∈ block.parameters := by
  obtain ⟨one, isOne, has⟩ := some
  intro block member
  rwa [(matching one isOne block member).parameters]

/-- The blocks match, and so do their gradients, and the samples of all of them can be numbered and
have room in an array, at every depth. -/
inductive Compatible : List Block → Prop where
  | intro {blocks : List Block}
      (matching : ∀ a ∈ blocks, ∀ b ∈ blocks, Matching a b)
      (numbered : (blocks.map fun block => block.samples.count).sum ≤ 2 ^ 31)
      (room : ∀ block ∈ blocks, Dense.span
        ((blocks.map fun block => block.samples.count).sum :: block.sampleShape) ≤ Dense.maxLength)
      (names : ∀ parameter, ∀ a ∈ gradientsFor parameter blocks,
        ∀ b ∈ gradientsFor parameter blocks, a.samples.names = b.samples.names)
      (deeper : ∀ parameter, (∃ block ∈ blocks, parameter ∈ block.parameters) →
        Compatible (gradientsFor parameter blocks)) :
      Compatible blocks

namespace Compatible

variable {blocks : List Block} {parameter : String}

theorem matching (h : Compatible blocks) : ∀ a ∈ blocks, ∀ b ∈ blocks, Matching a b := by
  cases h with
  | intro matching _ _ _ _ => exact matching

theorem numbered (h : Compatible blocks) :
    (blocks.map fun block => block.samples.count).sum ≤ 2 ^ 31 := by
  cases h with
  | intro _ numbered _ _ _ => exact numbered

theorem names (h : Compatible blocks) (parameter : String) :
    ∀ a ∈ gradientsFor parameter blocks, ∀ b ∈ gradientsFor parameter blocks,
      a.samples.names = b.samples.names := by
  cases h with
  | intro _ _ _ names _ => exact names parameter

theorem inner (h : Compatible blocks) (some : ∃ block ∈ blocks, parameter ∈ block.parameters) :
    Compatible (gradientsFor parameter blocks) := by
  cases h with
  | intro _ _ _ _ deeper => exact deeper parameter some

/-- Some of the blocks, in any order, are compatible, too. -/
theorem subperm (h : Compatible blocks) {some : List Block} (among : some.Subperm blocks) :
    Compatible some := by
  induction h generalizing some with
  | @intro blocks matching numbered room names deeper ih =>
    have subset := among.subset
    have gradients : ∀ parameter, (gradientsFor parameter some).Subperm
        (gradientsFor parameter blocks) := by
      intro parameter
      obtain ⟨order, perm, sublist⟩ := among
      exact ⟨_, perm.filterMap _, sublist.filterMap _⟩
    have fewer : (some.map fun block => block.samples.count).sum ≤
        (blocks.map fun block => block.samples.count).sum := sum_map_le_of_subperm _ among
    refine .intro (fun a ha b hb => matching a (subset ha) b (subset hb))
      (Nat.le_trans fewer numbered) ?_ ?_ ?_
    · intro block member
      exact Nat.le_trans (Dense.span_mono fewer (Nat.le_refl _)) (room block (subset member))
    · intro parameter a ha b hb
      have subset := (gradients parameter).subset
      exact names parameter a (subset ha) b (subset hb)
    · rintro parameter ⟨block, member, has⟩
      exact ih parameter ⟨block, subset member, has⟩ (gradients parameter)

theorem perm_iff {others : List Block} (perm : blocks.Perm others) :
    Compatible blocks ↔ Compatible others :=
  ⟨fun h => h.subperm perm.symm.subperm, fun h => h.subperm perm.subperm⟩

/-- The samples of each of the blocks can be numbered. -/
theorem numbered_of_mem (h : Compatible blocks) {block : Block} (consistent : block.Consistent)
    (member : block ∈ blocks) : block.Numbered := by
  induction consistent generalizing blocks with
  | @intro block own _ ih =>
    apply Everywhere.intro
    · have among := List.mem_map_of_mem (f := fun block => block.samples.count) member
      exact Nat.le_trans (List.le_sum_of_mem among) h.numbered
    · intro parameter gradient isGradient
      have has : parameter ∈ block.parameters := List.mem_map_of_mem (f := Prod.fst) isGradient
      apply ih parameter gradient isGradient (h.inner ⟨block, member, has⟩)
      exact List.mem_filterMap.mpr ⟨block, member, (gradient?_eq_some own.ordered).mpr isGradient⟩

/-- Compatible blocks have the same tree. -/
theorem sameTree (h : Compatible blocks) : ∀ a ∈ blocks, ∀ b ∈ blocks, SameTree a b := by
  induction h with
  | @intro blocks matching _ _ names _ ih =>
    intro a isOne b isOther
    have same := matching b isOther a isOne
    have among {block gradient : Block} {parameter : String} (member : block ∈ blocks)
        (has : block.gradient? parameter = some gradient) :
        gradient ∈ gradientsFor parameter blocks :=
      List.mem_filterMap.mpr ⟨block, member, has⟩
    refine .intro same.components same.parameters ?_ ?_
    · intro parameter gradient gradient' has has'
      exact names parameter gradient (among isOne has) gradient' (among isOther has')
    · intro parameter gradient gradient' has has'
      have isParameter := isSome_gradient?_iff.mp (Option.isSome_of_mem has)
      exact ih parameter ⟨a, isOne, isParameter⟩ gradient (among isOne has) gradient'
        (among isOther has')

theorem numberable (h : Compatible blocks) : Numberable blocks := by
  induction h with
  | intro _ numbered _ _ _ ih =>
    refine .intro numbered fun parameter nonempty all => ?_
    obtain ⟨one, isOne⟩ := List.exists_mem_of_ne_nil _ nonempty
    exact ih parameter ⟨one, isOne, all one isOne⟩

/-- There is room for all samples of compatible blocks. -/
theorem roomy (h : Compatible blocks) : Roomy blocks := by
  intro shape stacked
  induction stacked with
  | own member =>
    obtain ⟨_, _, room, _, _⟩ := h
    exact room _ member
  | @deeper blocks parameter shape all inner ih =>
    cases blocks with
    | nil => exact absurd inner not_stackedShape_nil
    | cons first others =>
      exact ih (h.inner ⟨first, List.mem_cons_self, all first List.mem_cons_self⟩)

end Compatible

/-- What is gathered from compatible blocks can be numbered. -/
theorem Gathered.numbered_of_compatible {blocks : List Block} {sources : List Source}
    {result : Block} (h : Gathered blocks sources result) (compatible : Compatible blocks)
    (nodup : sources.Nodup) (nonempty : blocks ≠ []) : result.Numbered := by
  induction h with
  | @intro blocks sources result level names rows deeper ih =>
    apply Everywhere.intro
    · rw [level.count]
      exact Nat.le_trans (length_sources_le nodup level.inRange) compatible.numbered
    · intro parameter gradient member
      have all := level.mem_parameters member
      obtain ⟨one, isOne⟩ := List.exists_mem_of_ne_nil _ nonempty
      exact ih parameter gradient member (compatible.inner ⟨one, isOne, all one isOne⟩)
        (nodup_following _ _) (gradientsFor_ne_nil nonempty all)

/-! ### Joining compatible blocks -/

/-- Compatible blocks can be joined, whichever of their samples are taken, when the labels of the
samples do not clash with those of the other axes. -/
theorem exists_joinSamples_compatible {first : Block} {others : List Block} {samples : Labels}
    {sources : List Source} (compatible : Compatible (first :: others))
    (consistent : ∀ block ∈ first :: others, block.Consistent)
    (valid : ∀ block ∈ first :: others, block.Labelled Labels.Valid) (regular : samples.Regular)
    (nodup : sources.Nodup) (inRange : ∀ source ∈ sources, InRange (first :: others) source)
    (count : samples.count = sources.length)
    (newNames : ∀ name ∈ componentNames first.components, name ∉ samples.names) :
    ∃ result, joinSamples first others samples sources = .ok result := by
  have properties : ∀ other ∈ others, other.properties = first.properties := fun other isOther =>
    (compatible.matching first List.mem_cons_self other (List.mem_cons_of_mem _ isOther)).properties
  have refused := refusedOnly_joinSamples compatible.numberable consistent valid properties samples
    sources regular nodup inRange count
  cases made : joinSamples first others samples sources with
  | ok result => exact ⟨result, rfl⟩
  | error e =>
    rcases refused e made with ⟨_, other, standing, differs⟩ | ⟨name, isAxis, isSample, _⟩ | large
    · have isOther := List.mem_of_getElem? standing
      exact absurd (compatible.sameTree first List.mem_cons_self other isOther) differs.not_sameTree
    · exact absurd isSample (newNames name isAxis)
    · exact absurd large (compatible.roomy.not_tooLarge nodup inRange)

/-! ### Taking samples out of one block -/

/-- A block alone is compatible with itself. -/
theorem compatible_singleton {block : Block} (consistent : block.Consistent)
    (numbered : block.Numbered) : Compatible [block] := by
  induction consistent with
  | @intro block own _ ih =>
    have alone {parameter : String} (has : parameter ∈ block.parameters) :
        ∃ gradient, (parameter, gradient) ∈ block.gradients ∧
          gradientsFor parameter [block] = [gradient] := by
      obtain ⟨⟨_, gradient⟩, member, rfl⟩ := List.mem_map.mp has
      exact ⟨gradient, member, gradientsFor_singleton ((gradient?_eq_some own.ordered).mpr member)⟩
    refine .intro ?_ ?_ ?_ ?_ ?_
    · intro a ha b hb
      rw [List.mem_singleton.mp ha, List.mem_singleton.mp hb]
      exact ⟨rfl, rfl, rfl⟩
    · simpa using numbered.own
    · intro one isOne
      have bounded := own.bounded
      rw [own.shape] at bounded
      rwa [List.mem_singleton.mp isOne]
    · intro parameter a ha b hb
      obtain ⟨one, isOne, has⟩ := List.mem_filterMap.mp ha
      obtain rfl := List.mem_singleton.mp isOne
      rw [gradientsFor_singleton has] at ha hb
      rw [List.mem_singleton.mp ha, List.mem_singleton.mp hb]
    · rintro parameter ⟨one, isOne, has⟩
      obtain rfl := List.mem_singleton.mp isOne
      obtain ⟨gradient, member, same⟩ := alone has
      exact same ▸ ih parameter gradient member (numbered.inner member)

/-- Samples can be taken out of a block when their labels do not clash with those of the other
axes. -/
theorem exists_joinSamples {block : Block} (consistent : block.Consistent)
    (valid : block.Labelled Labels.Valid) (numbered : block.Numbered) {samples : Labels}
    {positions : List Nat} (regular : samples.Regular) (nodup : positions.Nodup)
    (inRange : ∀ p ∈ positions, p < block.samples.count)
    (count : samples.count = positions.length)
    (newNames : ∀ name ∈ componentNames block.components, name ∉ samples.names) :
    ∃ result, joinSamples block [] samples (samplesAt 0 positions) = .ok result := by
  have one : ∀ other ∈ [block], other = block := fun other => List.mem_singleton.mp
  apply exists_joinSamples_compatible (compatible_singleton consistent numbered)
    (fun other member => one other member ▸ consistent)
    (fun other member => one other member ▸ valid) regular (nodup_samplesAt.mpr nodup) _ _ newNames
  · intro source member
    obtain ⟨n, inside, rfl⟩ := List.mem_map.mp member
    exact ⟨block, rfl, inRange n inside⟩
  · rw [count, samplesAt, List.length_map]

/-! ### Blocks that are merged of others -/

/-- Blocks that were merged were compatible. -/
theorem Merges.compatible {blocks : List Block} {sources : List Source} {result : Block}
    (h : Merges blocks sources result) (numbered : result.Numbered)
    (consistent : result.Consistent) : Compatible blocks := by
  induction h with
  | @intro blocks sources result level complete names rows deeper ih =>
    have inResult : ∀ block ∈ blocks, ∀ parameter ∈ block.parameters,
        ∃ gradient, (parameter, gradient) ∈ result.gradients := by
      intro block member parameter has
      rw [level.parameters block member] at has
      obtain ⟨⟨_, gradient⟩, isGradient, rfl⟩ := List.mem_map.mp has
      exact ⟨gradient, isGradient⟩
    have count : result.samples.count = (blocks.map fun block => block.samples.count).sum := by
      rw [level.count, complete.length_eq, List.length_map, length_sourcedRows]
    refine .intro ?_ (count ▸ numbered.own) ?_ ?_ ?_
    · intro a ha b hb
      exact ⟨(level.components b hb).trans (level.components a ha).symm,
        (level.properties b hb).trans (level.properties a ha).symm,
        (level.parameters b hb).trans (level.parameters a ha).symm⟩
    · intro block member
      have bounded := consistent.own.bounded
      rw [consistent.own.shape, labelledShape, count] at bounded
      rwa [sampleShape, level.components block member, level.properties block member]
    · intro parameter a ha b hb
      obtain ⟨block, member, has⟩ := List.mem_filterMap.mp ha
      obtain ⟨gradient, isGradient⟩ := inResult block member parameter
        (isSome_gradient?_iff.mp (Option.isSome_of_mem has))
      rw [names parameter gradient isGradient a ha, names parameter gradient isGradient b hb]
    · rintro parameter ⟨block, member, has⟩
      obtain ⟨gradient, isGradient⟩ := inResult block member parameter has
      exact ih parameter gradient isGradient (numbered.inner isGradient)
        (consistent.inner isGradient)

/-- A block that was merged of the blocks of a group. -/
structure MergedOf (group : List Block) (merged : Block) : Prop where
  nonempty : group ≠ []
  consistent : merged.Consistent
  merges : ∃ sources, Merges group sources merged

/-- What is the same for all members of each group is the same for all of them exactly if it is the
same for all groups. -/
theorem alike_flatten_iff {α : Type} {f : Block → α} {groups : List (List Block)}
    {mids : List Block} (all : List.Forall₂ (fun group mid => group ≠ [] ∧ ∀ block ∈ group,
      f block = f mid) groups mids) :
    (∀ a ∈ groups.flatten, ∀ b ∈ groups.flatten, f a = f b) ↔
      ∀ a ∈ mids, ∀ b ∈ mids, f a = f b := by
  constructor
  · intro same a ha b hb
    obtain ⟨group, isGroup, nonempty, alike⟩ := exists_of_mem_right all ha
    obtain ⟨group', isGroup', nonempty', alike'⟩ := exists_of_mem_right all hb
    obtain ⟨one, inGroup⟩ := List.exists_mem_of_ne_nil _ nonempty
    obtain ⟨other, inGroup'⟩ := List.exists_mem_of_ne_nil _ nonempty'
    rw [← alike one inGroup, ← alike' other inGroup']
    apply same one (List.mem_flatten.mpr ⟨group, isGroup, inGroup⟩)
    exact List.mem_flatten.mpr ⟨group', isGroup', inGroup'⟩
  · intro same a ha b hb
    obtain ⟨group, isGroup, inGroup⟩ := List.mem_flatten.mp ha
    obtain ⟨group', isGroup', inGroup'⟩ := List.mem_flatten.mp hb
    obtain ⟨mid, paired, _, alike⟩ := exists_mem_zip_of_mem_left all isGroup
    obtain ⟨mid', paired', _, alike'⟩ := exists_mem_zip_of_mem_left all isGroup'
    rw [alike a inGroup, alike' b inGroup']
    exact same mid (List.of_mem_zip paired).2 mid' (List.of_mem_zip paired').2

namespace MergedOf

variable {group : List Block} {merged : Block} {parameter : String}

theorem frame (h : MergedOf group merged) : ∀ block ∈ group, block.frame = merged.frame := by
  intro block member
  obtain ⟨_, level, _⟩ := h.merges
  rw [frame_eq_iff]
  exact ⟨(level.components block member).symm, (level.properties block member).symm,
    (level.parameters block member).symm⟩

theorem count (h : MergedOf group merged) :
    merged.samples.count = (group.map fun block => block.samples.count).sum := by
  obtain ⟨_, level, complete, _, _, _⟩ := h.merges
  rw [level.count, complete.length_eq, List.length_map, length_sourcedRows]

/-- A gradient of a merged block was merged of gradients with samples of the same names. -/
theorem gradient (h : MergedOf group merged) {gradient : Block}
    (has : merged.gradient? parameter = some gradient) :
    MergedOf (gradientsFor parameter group) gradient ∧
      ∀ other ∈ gradientsFor parameter group, other.samples.names = gradient.samples.names := by
  have member := (gradient?_eq_some h.consistent.own.ordered).mp has
  obtain ⟨_, level, _, names, _, deeper⟩ := h.merges
  exact ⟨⟨gradientsFor_ne_nil h.nonempty (level.mem_parameters member),
    h.consistent.inner member, _, deeper parameter gradient member⟩,
    names parameter gradient member⟩

end MergedOf

theorem gradientsFor_flatten (parameter : String) (groups : List (List Block)) :
    gradientsFor parameter groups.flatten = (groups.map (gradientsFor parameter)).flatten :=
  List.filterMap_flatten

section Flatten

variable {groups : List (List Block)} {mids : List Block} (all : List.Forall₂ MergedOf groups mids)

include all

theorem sum_count_flatten : (groups.flatten.map fun block => block.samples.count).sum =
    (mids.map fun mid => mid.samples.count).sum := by
  have each : groups.map (fun group => (group.map fun block => block.samples.count).sum) =
      mids.map fun mid => mid.samples.count :=
    map_eq_map_of_forall₂ all fun _ _ h => h.count.symm
  rw [List.map_flatten, List.sum_flatten, List.map_map, ← each]
  rfl

theorem matching_flatten_iff :
    (∀ a ∈ groups.flatten, ∀ b ∈ groups.flatten, Matching a b) ↔
      ∀ a ∈ mids, ∀ b ∈ mids, Matching a b := by
  have frames := alike_flatten_iff (all.imp fun _ _ h => ⟨h.nonempty, h.frame⟩)
  simpa only [frame_eq_iff] using frames

/-- There is room for all samples of the blocks exactly if there is for those of the merged ones. -/
theorem room_flatten_iff {count : Nat} :
    (∀ block ∈ groups.flatten, Dense.span (count :: block.sampleShape) ≤ Dense.maxLength) ↔
      ∀ mid ∈ mids, Dense.span (count :: mid.sampleShape) ≤ Dense.maxLength := by
  have same {group : List Block} {mid block : Block} (h : MergedOf group mid)
      (inGroup : block ∈ group) : block.sampleShape = mid.sampleShape := by
    have matching := frame_eq_iff.mp (h.frame block inGroup)
    rw [sampleShape, sampleShape, matching.components, matching.properties]
  constructor
  · intro room mid isMid
    obtain ⟨group, isGroup, h⟩ := exists_of_mem_right all isMid
    obtain ⟨block, inGroup⟩ := List.exists_mem_of_ne_nil _ h.nonempty
    exact same h inGroup ▸ room block (List.mem_flatten.mpr ⟨group, isGroup, inGroup⟩)
  · intro room block member
    obtain ⟨group, isGroup, inGroup⟩ := List.mem_flatten.mp member
    obtain ⟨mid, paired, h⟩ := exists_mem_zip_of_mem_left all isGroup
    exact same h inGroup ▸ room mid (List.of_mem_zip paired).2

/-- The blocks have a parameter exactly if the merged ones have it. -/
theorem exists_parameter_flatten_iff {parameter : String} :
    (∃ block ∈ groups.flatten, parameter ∈ block.parameters) ↔
      ∃ mid ∈ mids, parameter ∈ mid.parameters := by
  constructor
  · rintro ⟨block, member, has⟩
    obtain ⟨group, isGroup, inGroup⟩ := List.mem_flatten.mp member
    obtain ⟨mid, paired, h⟩ := exists_mem_zip_of_mem_left all isGroup
    have matching := frame_eq_iff.mp (h.frame block inGroup)
    exact ⟨mid, (List.of_mem_zip paired).2, matching.parameters ▸ has⟩
  · rintro ⟨mid, isMid, has⟩
    obtain ⟨group, isGroup, h⟩ := exists_of_mem_right all isMid
    obtain ⟨block, inGroup⟩ := List.exists_mem_of_ne_nil _ h.nonempty
    refine ⟨block, List.mem_flatten.mpr ⟨group, isGroup, inGroup⟩, ?_⟩
    exact (frame_eq_iff.mp (h.frame block inGroup)).parameters ▸ has

section Gradients

variable {parameter : String} (has : ∀ mid ∈ mids, parameter ∈ mid.parameters)

include has

theorem forall₂_gradients : List.Forall₂
    (fun group gradient => MergedOf group gradient ∧
      ∀ other ∈ group, other.samples.names = gradient.samples.names)
    (groups.map (gradientsFor parameter)) (gradientsFor parameter mids) := by
  rw [List.forall₂_map_left_iff]
  exact forall₂_gradientsFor all has fun _ _ _ h found => h.gradient found

theorem mergedOf_gradientsFor :
    List.Forall₂ MergedOf (groups.map (gradientsFor parameter)) (gradientsFor parameter mids) :=
  (forall₂_gradients all has).imp fun _ _ h => h.1

theorem names_flatten_iff :
    (∀ a ∈ gradientsFor parameter groups.flatten, ∀ b ∈ gradientsFor parameter groups.flatten,
        a.samples.names = b.samples.names) ↔
      ∀ a ∈ gradientsFor parameter mids, ∀ b ∈ gradientsFor parameter mids,
        a.samples.names = b.samples.names := by
  rw [gradientsFor_flatten]
  exact alike_flatten_iff ((forall₂_gradients all has).imp fun _ _ h => ⟨h.1.nonempty, h.2⟩)

end Gradients

end Flatten

/-- Merged blocks are compatible exactly if all blocks are that they were merged of. -/
theorem compatible_flatten_iff {groups : List (List Block)} {mids : List Block}
    (all : List.Forall₂ MergedOf groups mids) : Compatible groups.flatten ↔ Compatible mids := by
  -- both ways by induction on the compatible blocks: the gradients of merged blocks were merged of
  -- the gradients, so what is to be shown of them is the same
  constructor
  · intro h
    generalize whole : groups.flatten = blocks at h
    induction h generalizing groups mids with
    | @intro blocks matching numbered room names deeper ih =>
      subst whole
      rw [sum_count_flatten all] at numbered room
      have matching' := (matching_flatten_iff all).mp matching
      have someHas := @exists_parameter_flatten_iff _ _ all
      apply Compatible.intro matching' numbered ((room_flatten_iff all).mp room)
      · intro parameter a ha
        obtain ⟨mid, isMid, found⟩ := List.mem_filterMap.mp ha
        have has := mem_parameters_of_matching matching'
          ⟨mid, isMid, isSome_gradient?_iff.mp (Option.isSome_of_mem found)⟩
        exact (names_flatten_iff all has).mp (names parameter) a ha
      · intro parameter some
        have has := mem_parameters_of_matching matching' some
        exact ih parameter (someHas.mpr some) (mergedOf_gradientsFor all has)
          (gradientsFor_flatten parameter groups).symm
  · intro h
    induction h generalizing groups with
    | @intro mids matching numbered room names deeper ih =>
      rw [← sum_count_flatten all] at numbered room
      have someHas := @exists_parameter_flatten_iff _ _ all
      apply Compatible.intro ((matching_flatten_iff all).mpr matching) numbered
        ((room_flatten_iff all).mpr room)
      · intro parameter a ha
        obtain ⟨block, member, found⟩ := List.mem_filterMap.mp ha
        have some := someHas.mp
          ⟨block, member, isSome_gradient?_iff.mp (Option.isSome_of_mem found)⟩
        have has := mem_parameters_of_matching matching some
        exact (names_flatten_iff all has).mpr (names parameter) a ha
      · intro parameter some
        have has := mem_parameters_of_matching matching (someHas.mp some)
        rw [gradientsFor_flatten]
        exact ih parameter (someHas.mp some) (mergedOf_gradientsFor all has)

end LabeledBlocks.Block
