import LabeledBlocks.Proofs.Block.JoinBlame
import LabeledBlocks.Proofs.BlockMap.MergeRefusals
import LabeledBlocks.Proofs.BlockMap.Moves

/-!
# Which block a refused move names

Blocks that come together are checked twice: with their keys, before they are joined, and as a list
of blocks, while they are joined. In both cases an error may carry the number of a block that does
not go with the first one of its group. But the first checks count the blocks of the map, and those
of the list know the group only. So the number is the position in the map or in the group, and
which of them it is can be told from the error.

* `BlockMap.Shows` — how the checks within a group show that a block differs.
* `BlockMap.IsGroup` — the groups that blocks come into.
* `BlockMap.merge_blames` — what the number of a block in an error stands for.
* `BlockMap.staggeredMap_misled` — a map of which the wrong block is named.
-/

namespace LabeledBlocks.BlockMap

/-- The error of a check within a group shows how the block of this number differs from the first
one. -/
inductive Shows (number : Nat) (first other : Block) : Error → Prop where
  | samples (differ : other.samples ≠ first.samples) :
      Shows number first other (.sampleMismatch number)
  | propertyNames (differ : other.properties.names ≠ first.properties.names) :
      Shows number first other
        (.inconsistentProperties number first.properties.names other.properties.names)
  | components (differ : other.components ≠ first.components) :
      Shows number first other (.inconsistentComponents number .joining)

theorem Shows.block? {number : Nat} {first other : Block} {e : Error}
    (shows : Shows number first other e) : e.block? = some number := by
  cases shows <;> rfl

/-- The error shows that a block of the group differs from the first one, with the number that the
block has in the map or in the group. -/
inductive Blames (group : List Member) : Error → Prop where
  | checked {first member : Member} {e : Error} (isFirst : group[0]? = some first)
      (isMember : member ∈ group) (shows : Shows member.position first.block member.block e) :
      Blames group e
  | joined {first member : Member} {position : Nat} {e : Error} (isFirst : group[0]? = some first)
      (standing : group[position]? = some member)
      (differs : Block.Differs position first.block member.block e) : Blames group e

/-- The error carries no number, or blames a block of the group. -/
abbrev ErrsInGroup (group : List Member) (x : Except Error Block) : Prop :=
  RefusedOnly (fun e => e.block? = none ∨ Blames group e) x

/-! ### One group -/

section Group

theorem unnumbered_checkNewSampleNames {samples : Labels} {names : List String} :
    Unnumbered (checkNewSampleNames samples names) := by
  refine refusedOnly_checkNewSampleNames.imp ?_
  rintro _ ⟨_, _, _, rfl⟩
  rfl

theorem unnumbered_checkNewPropertyNames {properties : Labels} {names : List String} :
    Unnumbered (checkNewPropertyNames properties names) := by
  induction names with
  | nil => exact .of_ok rfl
  | cons name names ih => exact .checked (fun _ => rfl) fun _ => ih

/-- A block is only refused when it differs from the first one of its group. -/
theorem refusedOnly_checkPropertyMembers {first : Block} {members : List Member} :
    RefusedOnly (fun e => ∃ member ∈ members, Shows member.position first member.block e)
      (checkPropertyMembers first members) := by
  induction members with
  | nil => exact .of_ok rfl
  | cons member members ih =>
    simp only [checkPropertyMembers, throw_bind_eq]
    refine .checked (fun differ => ⟨member, List.mem_cons_self, .samples fun same => ?_⟩)
      fun _ => ?_
    · rw [same, Labels.identical_self] at differ
      cases differ
    refine .checked (fun differ => ⟨member, List.mem_cons_self, .propertyNames differ⟩) fun _ => ?_
    refine ih.imp ?_
    rintro e ⟨other, isOther, shows⟩
    exact ⟨other, List.mem_cons_of_mem _ isOther, shows⟩

theorem unnumbered_movedValues {moved : List Nat} {key : Row} :
    Unnumbered (movedValues moved key) := by
  refine .mapM fun d _ => ?_
  cases key[d]? with
  | some value => exact .of_ok rfl
  | none => exact .of_error rfl

theorem unnumbered_groupSamples {moved : List Nat} {group : List Member} :
    Unnumbered (groupSamples moved group) :=
  .bind (.mapM fun _ _ => .bind unnumbered_movedValues fun _ _ => .of_ok rfl) fun _ _ => .of_ok rfl

theorem unnumbered_groupProperties {moved : List Nat} {group : List Member} :
    Unnumbered (groupProperties moved group) :=
  .bind (.mapM fun _ _ => .bind unnumbered_movedValues fun _ _ => .of_ok rfl) fun _ _ => .of_ok rfl

theorem unnumbered_mapError_asAmbiguous {names : List String} {rows : List Row} :
    Unnumbered ((Labels.ofRows names rows).mapError asAmbiguous) := by
  intro e refused
  cases built : Labels.ofRows names rows with
  | ok labels =>
    rw [built] at refused
    cases refused
  | error e' =>
    rw [built] at refused
    obtain rfl := Except.error.inj refused
    have unnumbered := Labels.unnumbered_ofRows e' built
    cases e' <;> first | rfl | exact unnumbered

/-- The blocks that are joined are those of the group. -/
theorem blames_of_errsAtOne {first : Member} {others : List Member} {x : Except Error Block}
    (errs : Block.ErrsAtOne first.block (others.map Member.block) x) :
    ErrsInGroup (first :: others) x := by
  refine errs.imp fun e => .imp_right ?_
  rintro ⟨position, other, standing, differs⟩
  rw [← List.map_cons, List.getElem?_map] at standing
  obtain ⟨member, found, rfl⟩ := Option.map_eq_some_iff.mp standing
  exact .joined rfl found differs

variable {moved : List Nat} {names : List String} {sorted : Bool} {group : List Member}
  (consistent : ∀ member ∈ group, member.block.Consistent)

include consistent

/-- If an error of merging a group along the samples carries a number, it blames a block of the
group. -/
theorem errsInGroup_mergeSampleGroup :
    ErrsInGroup group (mergeSampleGroup moved names sorted group) := by
  cases group with
  | nil => exact .of_error (.inl rfl)
  | cons first others =>
    refine .bind (unnumbered_checkNewSampleNames.imp fun _ => .inl) fun _ _ => ?_
    refine .bind (refusedOnly_checkSampleMembers.imp ?_) fun _ _ => ?_
    · rintro e ⟨member, isOther, ⟨_, rfl⟩ | ⟨differ, rfl⟩⟩
      · exact .inl rfl
      · exact .inr (.checked rfl (List.mem_cons_of_mem _ isOther) (.components differ))
    refine .bind (unnumbered_groupSamples.imp fun _ => .inl) fun _ _ => ?_
    refine .bind (unnumbered_mapError_asAmbiguous.imp fun _ => .inl) fun _ _ => ?_
    exact blames_of_errsAtOne
      (Block.errsAtOne_joinSamples (consistent first List.mem_cons_self) _ _ _)

/-- If an error of merging a group along the properties carries a number, it blames a block of the
group. -/
theorem errsInGroup_mergePropertyGroup :
    ErrsInGroup group (mergePropertyGroup moved names sorted group) := by
  cases group with
  | nil => exact .of_error (.inl rfl)
  | cons first others =>
    refine .bind (unnumbered_checkNewPropertyNames.imp fun _ => .inl) fun _ _ => ?_
    refine .bind (refusedOnly_checkPropertyMembers.imp ?_) fun _ _ => ?_
    · rintro e ⟨member, isOther, shows⟩
      exact .inr (.checked rfl (List.mem_cons_of_mem _ isOther) shows)
    refine .bind (unnumbered_groupProperties.imp fun _ => .inl) fun _ _ => ?_
    refine .bind (Labels.unnumbered_ofRows.imp fun _ => .inl) fun _ _ => ?_
    exact blames_of_errsAtOne
      (Block.errsAtOne_joinProperties (consistent first List.mem_cons_self) _ _ _ _ _)

end Group

/-! ### What merged blocks have in common -/

/-- A block that has the names and the parameters of another one, and some more names. -/
structure Extends (sampleNames propertyNames : List String) (block extended : Block) : Prop where
  samples : extended.samples.names = block.samples.names ++ sampleNames
  components : extended.components = block.components
  properties : extended.properties.names = block.properties.names ++ propertyNames
  parameters : extended.parameters = block.parameters

/-- Blocks that agree still agree when the names of both are extended alike. -/
theorem Extends.agree {sampleNames propertyNames : List String} {a b a' b' : Block}
    {mixedProperties : Bool} (h : Extends sampleNames propertyNames a a')
    (h' : Extends sampleNames propertyNames b b') (agree : Agree mixedProperties a b) :
    Agree mixedProperties a' b' := by
  refine ⟨?_, ?_, fun same => ?_, ?_⟩
  · rw [h.samples, h'.samples, agree.sampleNames]
  · rw [h.components, h'.components, agree.componentNames]
  · rw [h.properties, h'.properties, agree.propertyNames same]
  · rw [h.parameters, h'.parameters, agree.parameters]

section Merged

variable {moved : List Nat} {names : List String} {sorted : Bool} {group : List Member}
  {merged : Block} (consistent : ∀ member ∈ group, member.block.Consistent)

include consistent

/-- A group that is merged along the samples has the names of one of its blocks, extended. -/
theorem extends_mergeSampleGroup (h : mergeSampleGroup moved names sorted group = .ok merged) :
    ∃ first ∈ group, Extends names [] first.block merged := by
  cases group with
  | nil => cases h
  | cons first others =>
    simp only [mergeSampleGroup, bind_eq_ok, mapError_eq_ok] at h
    obtain ⟨_, _, _, _, rows, _, samples, built, joined⟩ := h
    obtain ⟨⟨sampleNames, _⟩, _⟩ := Labels.ofRows_eq_ok_iff.mp built
    obtain ⟨rfl, components, properties⟩ := Block.joinSamples_axes joined
    have own := (consistent first List.mem_cons_self).own
    refine ⟨first, List.mem_cons_self, sampleNames, components, ?_,
      Block.parameters_joinSamples own.ordered joined⟩
    rw [properties, List.append_nil]

/-- A group that is merged along the properties has the names of one of its blocks, extended. -/
theorem extends_mergePropertyGroup
    (h : mergePropertyGroup moved names sorted group = .ok merged) :
    ∃ first ∈ group, Extends [] names first.block merged := by
  cases group with
  | nil => cases h
  | cons first others =>
    simp only [mergePropertyGroup, bind_eq_ok] at h
    obtain ⟨_, _, _, _, rows, _, properties, built, joined⟩ := h
    obtain ⟨⟨propertyNames, _⟩, _⟩ := Labels.ofRows_eq_ok_iff.mp built
    obtain ⟨samples, components, rfl⟩ := Block.joinProperties_axes joined
    have own := (consistent first List.mem_cons_self).own
    refine ⟨first, List.mem_cons_self, ?_, components, propertyNames,
      Block.parameters_joinProperties own.ordered joined⟩
    rw [samples, List.append_nil]

end Merged

/-! ### The whole map -/

/-- One of the groups that the blocks come into when the dimensions of these names move. -/
def IsGroup (map : BlockMap) (names : List String) (group : List Member) : Prop :=
  ∃ moved keys groups, map.movedDimensions names = .ok moved ∧
    map.groupsWithout moved = .ok (keys, groups) ∧ group ∈ groups

/-- The error carries no number, or blames a block of one of the groups. -/
abbrev ErrsInMap (map : BlockMap) (names : List String) (x : Except Error BlockMap) : Prop :=
  RefusedOnly (fun e => e.block? = none ∨ ∃ group, map.IsGroup names group ∧ Blames group e) x

section Map

variable {map : BlockMap} {names : List String} {sorted : Bool} {group : List Member}

theorem IsGroup.sublist (isGroup : map.IsGroup names group) : group.Sublist map.members := by
  obtain ⟨_, _, _, _, grouped, inside⟩ := isGroup
  exact sublist_of_groupsWithout grouped group inside

/-- Blocks of a group agree in what is left of their keys. -/
theorem IsGroup.eq_membersOf (isGroup : map.IsGroup names group) (valid : map.keys.Valid)
    (count : map.keys.count = map.blocks.length) : ∃ rest, group = map.membersOf names rest := by
  obtain ⟨_, _, _, found, grouped, inside⟩ := isGroup
  obtain ⟨_, _, _, rfl⟩ := movedDimensions_eq_ok_iff.mp found
  obtain ⟨_, rfl⟩ := (groupsWithout_eq_ok_iff valid count).mp grouped
  obtain ⟨rest, _, rfl⟩ := List.mem_map.mp inside
  exact ⟨rest, rfl⟩

/-- A member of a map stands at its position. -/
theorem getElem?_position {member : Member} (isMember : member ∈ map.members) :
    map.members[member.position]? = some member := by
  obtain ⟨entry, numbered, rfl⟩ := List.mem_map.mp isMember
  have standing := List.mem_zipIdx_iff_getElem?.mp numbered
  rw [members, List.getElem?_map, List.getElem?_zipIdx, standing, Option.map_some, Option.map_some,
    Nat.zero_add]

theorem length_members_le : map.members.length ≤ map.blocks.length := by
  rw [members, List.length_map, List.length_zipIdx, entries, List.length_zip]
  exact Nat.min_le_right _ _

theorem unnumbered_dimensions {labels : Labels} {names : List String} :
    Unnumbered (labels.dimensions names) := by
  refine .mapM fun name _ => ?_
  cases labels.dimension? name with
  | some d => exact .of_ok rfl
  | none => exact .of_error rfl

theorem unnumbered_movedDimensions : Unnumbered (map.movedDimensions names) := by
  simp only [movedDimensions, throw_bind_eq]
  refine .checked (fun _ => rfl) fun _ => .bind (refusedOnly_checkMovedOnce.imp ?_) fun _ _ =>
    unnumbered_dimensions
  rintro _ ⟨_, rfl, _⟩
  rfl

theorem unnumbered_groupsWithout {moved : List Nat} : Unnumbered (map.groupsWithout moved) := by
  unfold groupsWithout
  dsimp only
  split
  · split
    · exact .bind Labels.unnumbered_ofRows fun _ _ => .of_ok rfl
    · exact .of_ok rfl
  · exact .bind (.bind unnumbered_dimensions fun _ _ => .of_ok rfl) fun _ _ => .of_ok rfl

/-- If blocks agree with each other, no error of making a map of them carries a number. -/
theorem unnumbered_ofBlocks {keys : Labels} {blocks : List Block} {mixedProperties : Bool}
    (agree : ∀ a ∈ blocks, ∀ b ∈ blocks, Agree mixedProperties a b) :
    Unnumbered (ofBlocks keys blocks mixedProperties) := by
  simp only [ofBlocks, throw_bind_eq]
  refine .checked (fun _ => rfl) fun _ => ?_
  cases blocks with
  | nil => exact .of_ok rfl
  | cons first others =>
    have go := agree_iff_agree_first.mp agree
    exact .bind (.of_ok (checkBlocks_eq_ok_iff.mpr go)) fun _ _ => .of_ok rfl

/-- An error of merging the groups is about two blocks of one of them, and none is about what they
are merged into. -/
theorem errsInMap_mergeGroups {sampleNames propertyNames : List String}
    {mergeGroup : List Nat → List Member → Except Error Block} (consistent : map.Consistent)
    (errs : ∀ moved group, (∀ member ∈ group, member.block.Consistent) →
      ErrsInGroup group (mergeGroup moved group))
    (extend : ∀ moved group merged, (∀ member ∈ group, member.block.Consistent) →
      mergeGroup moved group = .ok merged →
        ∃ first ∈ group, Extends sampleNames propertyNames first.block merged) :
    ErrsInMap map names (do
      let moved ← map.movedDimensions names
      let (keys, groups) ← map.groupsWithout moved
      let blocks ← groups.mapM (mergeGroup moved)
      ofBlocks keys blocks map.mixedProperties) := by
  refine .bind (unnumbered_movedDimensions.imp fun _ => .inl) fun moved found => ?_
  refine .bind (unnumbered_groupsWithout.imp fun _ => .inl) fun regrouped grouped => ?_
  obtain ⟨keys, groups⟩ := regrouped
  have inMap : ∀ group ∈ groups, ∀ member ∈ group, member.block ∈ map.blocks :=
    fun group isGroup member inside =>
      (mem_members ((sublist_of_groupsWithout grouped group isGroup).subset inside)).2
  have consistent' : ∀ group ∈ groups, ∀ member ∈ group, member.block.Consistent :=
    fun group isGroup member inside => consistent.blocks _ (inMap group isGroup member inside)
  refine .bind (.mapM fun group isGroup => ?_) fun blocks made => ?_
  · refine (errs moved group (consistent' group isGroup)).imp fun e => .imp_right fun blames => ?_
    exact ⟨group, ⟨moved, keys, groups, found, grouped, isGroup⟩, blames⟩
  · refine (unnumbered_ofBlocks ?_).imp fun _ => .inl
    have all := mapM_eq_ok.mp made
    have ofFirst : ∀ merged ∈ blocks, ∃ first ∈ map.blocks,
        Extends sampleNames propertyNames first merged := by
      intro merged member
      obtain ⟨group, isGroup, made⟩ := exists_of_mem_right all member
      obtain ⟨first, inside, extended⟩ := extend moved group merged (consistent' group isGroup) made
      exact ⟨first.block, inMap group isGroup first inside, extended⟩
    intro a ha b hb
    obtain ⟨first, isBlock, extended⟩ := ofFirst a ha
    obtain ⟨first', isBlock', extended'⟩ := ofFirst b hb
    exact extended.agree extended' (consistent.agree first isBlock first' isBlock')

variable (consistent : map.Consistent)

include consistent

theorem errsInMap_mergeSamples : ErrsInMap map names (map.mergeSamples names sorted) :=
  errsInMap_mergeGroups consistent (fun _ _ => errsInGroup_mergeSampleGroup)
    fun _ _ _ => extends_mergeSampleGroup

theorem errsInMap_mergeProperties : ErrsInMap map names (map.mergeProperties names sorted) :=
  errsInMap_mergeGroups consistent (fun _ _ => errsInGroup_mergePropertyGroup)
    fun _ _ _ => extends_mergePropertyGroup

/-- The number of a block in the error of a merging move is a position in the map. If the error is
one of the checks within a group, the block at this position differs from the first one of its
group. But if the blocks of a group were found to have different trees, it is the block at this
position of the group. -/
theorem merge_blames {e : Error} {n : Nat}
    (refused : map.mergeSamples names sorted = .error e ∨
      map.mergeProperties names sorted = .error e) (number : e.block? = some n) :
    n < map.blocks.length ∧ ∃ group, map.IsGroup names group ∧ ∃ first member,
      group[0]? = some first ∧
        (member ∈ group ∧ member.position = n ∧ Shows n first.block member.block e ∨
          group[n]? = some member ∧ Block.Differs n first.block member.block e) := by
  have numbered : ¬e.block? = none := by
    rw [number]
    exact Option.some_ne_none n
  obtain ⟨group, isGroup, blames⟩ : ∃ group, map.IsGroup names group ∧ Blames group e := by
    rcases refused with refused | refused
    · exact (errsInMap_mergeSamples consistent e refused).resolve_left numbered
    · exact (errsInMap_mergeProperties consistent e refused).resolve_left numbered
  cases blames with
  | @checked first member _ isFirst isMember shows =>
    obtain rfl := Option.some.inj (shows.block?.symm.trans number)
    have standing := getElem?_position (isGroup.sublist.subset isMember)
    have inside := (List.getElem?_eq_some_iff.mp standing).1
    exact ⟨inside.trans_le length_members_le, group, isGroup, first, member, isFirst,
      .inl ⟨isMember, rfl, shows⟩⟩
  | @joined first member _ _ isFirst standing differs =>
    obtain rfl := Option.some.inj ((differs.block?.resolve_left numbered).symm.trans number)
    have inside := (List.getElem?_eq_some_iff.mp standing).1
    have few := isGroup.sublist.length_le.trans length_members_le
    exact ⟨inside.trans_le few, group, isGroup, first, member, isFirst, .inr ⟨standing, differs⟩⟩

end Map

def staggeredBlock (component : Row) : Block :=
  ⟨⟨[1, 1, 1], #[1]⟩, .of ["s"] [[0]], [.of ["x"] [component]], .of ["p"] [[0]], []⟩

/-- Three blocks, of which the last one has another component. It comes together with the second
one when the dimension `b` moves. -/
def staggeredMap : BlockMap :=
  ⟨.of ["a", "b"] [[0, 0], [1, 0], [1, 1]],
    [staggeredBlock [0], staggeredBlock [0], staggeredBlock [1]], false⟩

theorem staggeredMap_refused : staggeredMap.mergeProperties ["b"] false =
    .error (.inconsistentComponents 1 (.labels 0)) := by
  with_unfolding_all rfl

theorem staggeredMap_blames : 1 < staggeredMap.blocks.length ∧
    ∃ group, staggeredMap.IsGroup ["b"] group ∧ ∃ first member, group[0]? = some first ∧
      (member ∈ group ∧ member.position = 1 ∧
          Shows 1 first.block member.block (.inconsistentComponents 1 (.labels 0)) ∨
        group[1]? = some member ∧
          Block.Differs 1 first.block member.block (.inconsistentComponents 1 (.labels 0))) :=
  merge_blames (by decide) (.inr staggeredMap_refused) rfl

/-- The block at the position of the number differs, as the error shows, from the first one of its
group. -/
def NamesGuilty (map : BlockMap) (names : List String) (e : Error) : Prop :=
  ∃ group, map.IsGroup names group ∧ ∃ first member, group[0]? = some first ∧ member ∈ group ∧
    e.block? = some member.position ∧
      (Shows member.position first.block member.block e ∨
        Block.Differs member.position first.block member.block e)

/-- The number is that of a block that was compared with no other one. When the same dimension moves
into the samples, the number is that of the block that differs. -/
theorem staggeredMap_misled : staggeredMap.Consistent ∧ staggeredMap.Labelled Labels.Valid ∧
    staggeredMap.mergeProperties ["b"] false = .error (.inconsistentComponents 1 (.labels 0)) ∧
    ¬staggeredMap.NamesGuilty ["b"] (.inconsistentComponents 1 (.labels 0)) ∧
    staggeredMap.mergeSamples ["b"] false = .error (.inconsistentComponents 2 .joining) := by
  have valid : staggeredMap.Labelled Labels.Valid := by decide
  refine ⟨by decide, valid, staggeredMap_refused, ?_, rfl⟩
  rintro ⟨group, isGroup, first, member, isFirst, isMember, number, shown⟩
  obtain ⟨rest, rfl⟩ := isGroup.eq_membersOf valid.keys rfl
  obtain ⟨inMap, agrees⟩ := List.mem_filter.mp isMember
  obtain rfl := beq_iff_eq.mp agrees
  have standing := getElem?_position inMap
  obtain ⟨position, key, block⟩ := member
  obtain rfl : 1 = position := Option.some.inj number
  obtain ⟨rfl, rfl⟩ : key = [1, 0] ∧ block = staggeredBlock [0] := by
    cases standing
    exact ⟨rfl, rfl⟩
  -- the group of the second block starts with this block
  have alone : (staggeredMap.membersOf ["b"] (restOf staggeredMap.keys.names ["b"] [1, 0]))[0]? =
      some ⟨1, [1, 0], staggeredBlock [0]⟩ := by
    with_unfolding_all rfl
  obtain rfl := Option.some.inj (isFirst.symm.trans alone)
  rcases shown with shows | differs
  · cases shows
  · refine differs.not_sameTree (.intro rfl rfl ?_ ?_)
    · intro _ _ _ has
      cases has
    · intro _ _ _ has
      cases has

end LabeledBlocks.BlockMap
