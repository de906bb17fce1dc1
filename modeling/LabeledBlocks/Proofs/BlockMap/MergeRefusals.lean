import LabeledBlocks.Proofs.Block.JoinRefusals
import LabeledBlocks.Proofs.BlockMap.GroupSamples

/-!
# What a move into the samples is refused for

The names that move are checked first, then the blocks of every group, and then everything that is
made of them once more. Whatever the samples are, a move is refused only for the names, for blocks
of a group that differ, for names that the blocks use already, and for an array whose axes would
span more than an array can. Nothing else that is made of the blocks is refused: the values that
move keep the samples of a group apart, gradient rows stay apart when they follow their samples, and
the merged blocks go together because the blocks did.

* `BlockMap.Movable` — what it takes to move some dimensions, whatever the samples are.
* `BlockMap.MoveRefused` — the errors, each with the condition that is not met.
* `BlockMap.mergeSamples_refused_only` — a move is refused with one of them, or it succeeds.
* `BlockMap.broadMap_refused` — blocks without values for which there is no array.
-/

namespace LabeledBlocks.BlockMap

/-! ### Why a move is refused -/

/-- The error shows why the blocks of a group can not be merged. -/
inductive GroupRefused (names : List String) (group : List Member) : Error → Prop where
  | sampleName {member : Member} {name : String} (isMember : member ∈ group) (moved : name ∈ names)
      (used : name ∈ member.block.samples.names) :
      GroupRefused names group (.ambiguousSamples (.dimension name))
  | componentName {member : Member} {name : String} (isMember : member ∈ group)
      (moved : name ∈ names) (used : name ∈ Block.componentNames member.block.components) :
      GroupRefused names group (.duplicateName name .componentsAndSamples)
  | properties {first member : Member} (isFirst : group[0]? = some first)
      (isMember : member ∈ group) (differ : member.block.properties ≠ first.block.properties) :
      GroupRefused names group (.propertyMismatch (.keys member.key first.key))
  | components {first member : Member} (isFirst : group[0]? = some first)
      (isMember : member ∈ group) (differ : member.block.components ≠ first.block.components) :
      GroupRefused names group (.inconsistentComponents member.position .joining)
  | gradients {first member : Member} {position : Nat} {e : Error}
      (isFirst : group[0]? = some first) (standing : group[position]? = some member)
      (differs : Block.Differs position first.block member.block e) : GroupRefused names group e
  | room {shape : List Nat} (stacked : Block.StackedShape (group.map Member.block) shape)
      (large : Dense.maxLength < Dense.span shape) :
      GroupRefused names group (.outOfRange (.shape shape))

/-- Dimensions can be moved into the samples, whatever the samples are: there are some, none twice,
all of them are dimensions of the keys, no block uses their names, and blocks that come together
have the same properties and the same tree of gradients. -/
structure Movable (map : BlockMap) (names : List String) : Prop where
  some : names ≠ []
  nodup : names.Nodup
  known : ∀ name ∈ names, name ∈ map.keys.names
  unused : ∀ block ∈ map.blocks, ∀ name ∈ names,
    name ∉ block.samples.names ∧ name ∉ Block.componentNames block.components
  alike : ∀ a ∈ map.entries, ∀ b ∈ map.entries,
    restOf map.keys.names names a.1 = restOf map.keys.names names b.1 →
      a.2.properties = b.2.properties ∧ Block.SameTree a.2 b.2

/-- There can be arrays for the samples of every group, whatever the samples are. -/
def Roomy (map : BlockMap) (names : List String) : Prop :=
  ∀ rest ∈ (map.keysWithout names).rows, Block.Roomy ((map.groupOf names rest).map (·.2))

section Conditions

variable {map : BlockMap} {names : List String}

/-- Blocks that do not use the names, do not differ and have room together have nothing to be refused
for. -/
theorem not_groupRefused {members : List Member} {e : Error}
    (unused : ∀ member ∈ members, ∀ name ∈ names,
      name ∉ member.block.samples.names ∧ name ∉ Block.componentNames member.block.components)
    (alike : ∀ a ∈ members, ∀ b ∈ members,
      a.block.properties = b.block.properties ∧ Block.SameTree a.block b.block)
    (roomy : Block.Roomy (members.map Member.block)) : ¬GroupRefused names members e := by
  rintro (⟨isMember, moved, used⟩ | ⟨isMember, moved, used⟩ | ⟨isFirst, isMember, differ⟩ |
    ⟨isFirst, isMember, differ⟩ | ⟨isFirst, standing, differs⟩ | ⟨stacked, large⟩)
  · exact (unused _ isMember _ moved).1 used
  · exact (unused _ isMember _ moved).2 used
  · exact differ (alike _ isMember _ (List.mem_of_getElem? isFirst)).1
  · obtain ⟨components, _, _, _⟩ := (alike _ isMember _ (List.mem_of_getElem? isFirst)).2
    exact differ components
  · have same := alike _ (List.mem_of_getElem? isFirst) _ (List.mem_of_getElem? standing)
    exact differs.not_sameTree same.2
  · exact Nat.not_lt.mpr (roomy _ stacked) large

end Conditions

/-! ### One group -/

/-- New sample names are only refused when one of them is taken. -/
theorem refusedOnly_checkNewSampleNames {samples : Labels} {names : List String} :
    RefusedOnly (fun e => ∃ name ∈ names, name ∈ samples.names ∧
      e = .ambiguousSamples (.dimension name)) (checkNewSampleNames samples names) := by
  induction names with
  | nil => exact .of_ok rfl
  | cons name names ih =>
    refine .checked (fun used => ⟨name, List.mem_cons_self, used, rfl⟩) fun _ => ?_
    refine ih.imp ?_
    rintro e ⟨other, member, clash⟩
    exact ⟨other, List.mem_cons_of_mem _ member, clash⟩

/-- A group is only refused for a block with other properties or components than the first one. -/
theorem refusedOnly_checkSampleMembers {first : Member} {members : List Member} :
    RefusedOnly (fun e => ∃ member ∈ members,
        member.block.properties ≠ first.block.properties ∧
            e = .propertyMismatch (.keys member.key first.key) ∨
          member.block.components ≠ first.block.components ∧
            e = .inconsistentComponents member.position .joining)
      (checkSampleMembers first members) := by
  induction members with
  | nil => exact .of_ok rfl
  | cons member members ih =>
    simp only [checkSampleMembers, throw_bind_eq]
    refine .checked (fun differ => ⟨member, List.mem_cons_self, .inl ⟨?_, rfl⟩⟩) fun _ => ?_
    · intro same
      rw [same, Labels.identical_self] at differ
      cases differ
    refine .checked (fun differ => ⟨member, List.mem_cons_self, .inr ⟨?_, rfl⟩⟩) fun _ => ?_
    · intro same
      rw [same, Block.sameAxes_self] at differ
      cases differ
    refine ih.imp ?_
    rintro e ⟨other, isOther, broken⟩
    exact ⟨other, List.mem_cons_of_mem _ isOther, broken⟩

section Group

variable {dimensions names : List String} {sorted : Bool}

/-- A group whose keys tell the blocks apart is refused for the names, for blocks that differ or for
the lack of an array. -/
theorem refusedOnly_mergeSampleGroup {members : List Member} (nonempty : members ≠ [])
    (new : NewNames names) (known : ∀ name ∈ names, name ∈ dimensions)
    (width : ∀ member ∈ members, member.key.length = dimensions.length)
    (distinct : GroupDistinct dimensions names (members.map Member.entry))
    (sameNames : ∀ a ∈ members.map Member.entry, ∀ b ∈ members.map Member.entry,
      a.2.samples.names = b.2.samples.names)
    (consistent : ∀ member ∈ members, member.block.Consistent)
    (valid : ∀ member ∈ members, member.block.Labelled Labels.Valid)
    (numberable : Block.Numberable (members.map Member.block)) :
    RefusedOnly (GroupRefused names members)
      (mergeSampleGroup (names.map dimensions.idxOf) names sorted members) := by
  cases members with
  | nil => exact absurd rfl nonempty
  | cons first others =>
    have firstValid := valid first List.mem_cons_self
    have regular : ∀ member ∈ first :: others, member.block.AxesLabelled Labels.Regular :=
      fun member isMember => (valid member isMember).own.regular
    rw [List.forall_mem_cons] at regular
    rw [mergeSampleGroup]
    refine .bind (refusedOnly_checkNewSampleNames.imp ?_) fun _ unused => ?_
    · rintro e ⟨name, moved, used, rfl⟩
      exact .sampleName List.mem_cons_self moved used
    refine .bind (refusedOnly_checkSampleMembers.imp ?_) fun _ matching => ?_
    · rintro e ⟨member, isOther, ⟨differ, rfl⟩ | ⟨differ, rfl⟩⟩
      · exact .properties rfl (List.mem_cons_of_mem _ isOther) differ
      · exact .components rfl (List.mem_cons_of_mem _ isOther) differ
    rw [checkNewSampleNames_eq_ok_iff] at unused
    rw [checkSampleMembers_eq_ok_iff regular.1 regular.2] at matching
    obtain ⟨rows, put, perm⟩ := exists_groupSamples sorted known width
    rw [put, ok_bind_eq]
    dsimp only
    generalize (if sorted then Block.sortRows rows else rows) = arranged at perm ⊢
    have valid' := valid_continuedRows distinct distinct.regular sameNames new List.mem_cons_self
      firstValid.own.samples unused perm
    have built := Labels.ofRows_of_valid valid'
    refine .bind (.of_ok (mapError_eq_ok.mpr built)) fun samples made => ?_
    obtain rfl := Except.ok.inj (built.symm.trans (mapError_eq_ok.mp made))
    have sources := perm_sources perm
    have blocks : ((first :: others).map Member.entry).map (·.2) =
        first.block :: others.map Member.block := map_snd_entry _
    rw [blocks] at sources
    refine RefusedOnly.imp (Block.refusedOnly_joinSamples numberable
      (List.forall_mem_map.mpr consistent) (List.forall_mem_map.mpr valid) ?_ _ _ valid'.toRegular
      (sources.nodup_iff.mpr (Block.nodup_sourcedRows _)) ?_ ?_) ?_
    · exact List.forall_mem_map.mpr fun other isOther => (matching other isOther).1
    · intro source member
      obtain ⟨⟨row, _⟩, isRow, rfl⟩ := List.mem_map.mp (sources.mem_iff.mp member)
      exact Block.inRange_of_mem_sourcedRows isRow
    · rw [Labels.count_eq, Labels.of, List.length_map, List.length_map]
    · rintro e (⟨position, other, standing, differs⟩ | ⟨name, isAxis, isSample, rfl⟩ |
        ⟨shape, taken, large, rfl⟩)
      · rw [← List.map_cons, List.getElem?_map] at standing
        obtain ⟨member, found, rfl⟩ := Option.map_eq_some_iff.mp standing
        exact .gradients rfl found differs
      · rcases List.mem_append.mp isSample with isOld | moved
        · exact absurd isOld ((consistent first List.mem_cons_self).own.newNames name isAxis).1
        · exact .componentName List.mem_cons_self moved isAxis
      · refine .room (taken.stacked ?_ (List.forall_mem_map.mpr consistent)) large
        exact sources

end Group

/-! ### The whole map -/

/-- A name that is refused for the second time stands twice. -/
theorem refusedOnly_checkMovedOnce {source : MoveSource} {earlier names : List String} :
    RefusedOnly (fun e => ∃ name, e = .invalidArgument (.movedTwice source name) ∧
      2 ≤ (earlier ++ names).count name) (checkMovedOnce source earlier names) := by
  induction names generalizing earlier with
  | nil => exact .of_ok rfl
  | cons name names ih =>
    refine .checked (fun known => ⟨name, rfl, ?_⟩) fun _ => ?_
    · rw [List.count_append, List.count_cons_self]
      have before := List.count_pos_iff.mpr known
      omega
    · refine ih.imp ?_
      rintro e ⟨other, same, twice⟩
      refine ⟨other, same, ?_⟩
      rwa [List.perm_middle.count_eq]

section Map

variable {map : BlockMap} {names : List String} {sorted : Bool}
  (consistent : map.Consistent) (valid : map.Labelled Labels.Valid)

include consistent

include valid

/-- What was moved could be moved. -/
theorem movable_of_merged {merged : BlockMap} (h : map.mergeSamples names sorted = .ok merged) :
    map.Movable names := by
  obtain ⟨⟨some, nodup, known⟩, _, _, keys, all⟩ := mergeSamples_eq_ok consistent valid h
  have ofEntry : ∀ entry ∈ map.entries, ∃ arranged whole,
      GroupGathered map.keys.names names sorted
        (map.groupOf names (restOf map.keys.names names entry.1)) arranged whole := by
    intro entry isEntry
    have isRest : restOf map.keys.names names entry.1 ∈ merged.keys.rows :=
      keys ▸ restOf_mem_keysWithout names isEntry
    obtain ⟨whole, _, arranged, made⟩ := exists_mem_zip_of_mem_left all isRest
    exact ⟨arranged, whole, made⟩
  refine ⟨some, nodup, known, ?_, ?_⟩
  · intro block isBlock name moved
    rw [← map_snd_entries consistent.count] at isBlock
    obtain ⟨entry, isEntry, rfl⟩ := List.mem_map.mp isBlock
    obtain ⟨_, _, made⟩ := ofEntry entry isEntry
    exact made.unused (mem_groupOf.mpr ⟨isEntry, rfl⟩) moved
  · intro a isEntry b isEntry' same
    obtain ⟨_, _, made⟩ := ofEntry a isEntry
    have inGroup : ∀ entry ∈ map.entries,
        restOf map.keys.names names entry.1 = restOf map.keys.names names a.1 →
          entry.2 ∈ (map.groupOf names (restOf map.keys.names names a.1)).map (·.2) :=
      fun entry isEntry same => List.mem_map_of_mem (mem_groupOf.mpr ⟨isEntry, same⟩)
    have level := made.gathered.level
    refine ⟨?_, made.gathered.sameTree _ (inGroup a isEntry rfl) _ (inGroup b isEntry' same.symm)⟩
    rw [level.properties _ (inGroup a isEntry rfl),
      level.properties _ (inGroup b isEntry' same.symm)]

end Map

end LabeledBlocks.BlockMap
