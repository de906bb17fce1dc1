import LabeledBlocks.Proofs.Block.Compatible
import LabeledBlocks.Proofs.BlockMap.MergeRefusals

/-!
# When key dimensions can move into the samples

The checks of a move are spread over the names, the blocks of a group and their gradients, and each
compares with the first block of a group. All of them together let exactly those maps through whose
groups are compatible and whose blocks do not use the names that move. Whether the samples are
sorted makes no difference.

* `BlockMap.Mergeable` — what it takes to move some dimensions.
* `BlockMap.exists_mergeSampleGroup` — a compatible group is merged.
* `BlockMap.exists_mergeSamples_iff` — a move succeeds exactly then.
-/

namespace LabeledBlocks.BlockMap

/-! ### One group -/

/-- The blocks of a group can be merged: they are compatible, and the names that move are not used
by their samples and components. -/
structure GroupMergeable (dimensions names : List String) (group : List (Row × Block)) :
    Prop where
  nonempty : group ≠ []
  distinct : GroupDistinct dimensions names group
  sameNames : ∀ a ∈ group, ∀ b ∈ group, a.2.samples.names = b.2.samples.names
  unused : ∀ entry ∈ group, ∀ name ∈ names,
    name ∉ entry.2.samples.names ∧ name ∉ Block.componentNames entry.2.components
  compatible : Block.Compatible (group.map (·.2))

section Group

variable {dimensions names : List String} {sorted : Bool}

/-- A group that can be merged is merged. -/
theorem exists_mergeSampleGroup {members : List Member}
    (can : GroupMergeable dimensions names (members.map Member.entry)) (new : NewNames names)
    (known : ∀ name ∈ names, name ∈ dimensions)
    (width : ∀ member ∈ members, member.key.length = dimensions.length)
    (consistent : ∀ member ∈ members, member.block.Consistent)
    (valid : ∀ member ∈ members, member.block.Labelled Labels.Valid) :
    ∃ merged, mergeSampleGroup (names.map dimensions.idxOf) names sorted members = .ok merged := by
  have compatible := can.compatible
  rw [map_snd_entry] at compatible
  have alike : ∀ a ∈ members, ∀ b ∈ members,
      a.block.properties = b.block.properties ∧ Block.SameTree a.block b.block := by
    intro a ha b hb
    have inGroup := List.mem_map_of_mem (f := Member.block) ha
    have inGroup' := List.mem_map_of_mem (f := Member.block) hb
    exact ⟨(compatible.matching _ inGroup' _ inGroup).properties,
      compatible.sameTree _ inGroup _ inGroup'⟩
  cases made : mergeSampleGroup (names.map dimensions.idxOf) names sorted members with
  | ok merged => exact ⟨merged, rfl⟩
  | error e =>
    have refused := refusedOnly_mergeSampleGroup (mt List.map_eq_nil_iff.mpr can.nonempty) new known
      width can.distinct can.sameNames consistent valid compatible.numberable e made
    exact absurd refused (not_groupRefused (List.forall_mem_map.mp can.unused) alike compatible.roomy)

end Group

/-! ### The whole map -/

/-- Dimensions can be moved from the keys into the samples: the names are key dimensions, none
twice, the blocks do not use them, and the blocks of every group are compatible. -/
structure Mergeable (map : BlockMap) (names : List String) : Prop where
  some : names ≠ []
  nodup : names.Nodup
  known : ∀ name ∈ names, name ∈ map.keys.names
  unused : ∀ block ∈ map.blocks, ∀ name ∈ names,
    name ∉ block.samples.names ∧ name ∉ Block.componentNames block.components
  compatible : ∀ rest ∈ (map.keysWithout names).rows,
    Block.Compatible ((map.groupOf names rest).map (·.2))

section Map

variable {map merged : BlockMap} {names : List String} {sorted : Bool}
  (consistent : map.Consistent) (valid : map.Labelled Labels.Valid)

include consistent valid

/-- Every group of a map that can be merged can be merged. -/
theorem Mergeable.group (can : map.Mergeable names) {rest : Row}
    (isRest : rest ∈ (map.keysWithout names).rows) :
    GroupMergeable map.keys.names names (map.groupOf names rest) := by
  have inMap : ∀ entry ∈ map.groupOf names rest, entry.2 ∈ map.blocks := fun entry member =>
    (mem_of_mem_groupOf member).2
  obtain ⟨entry, member⟩ := exists_mem_groupOf consistent.count isRest
  refine ⟨List.ne_nil_of_mem member, groupDistinct consistent valid can.known rest, ?_, ?_,
    can.compatible rest isRest⟩
  · intro a ha b hb
    exact (consistent.agree _ (inMap a ha) _ (inMap b hb)).sampleNames
  · intro entry member
    exact can.unused _ (inMap entry member)

omit valid in
/-- The samples of a block that can be merged with others can be numbered. -/
theorem Mergeable.numbered (can : map.Mergeable names) : ∀ block ∈ map.blocks, block.Numbered := by
  intro block isBlock
  have own := consistent.blocks block isBlock
  rw [← map_snd_entries consistent.count] at isBlock
  obtain ⟨entry, isEntry, rfl⟩ := List.mem_map.mp isBlock
  apply (can.compatible _ (restOf_mem_keysWithout names isEntry)).numbered_of_mem own
  exact List.mem_map_of_mem (mem_groupOf.mpr ⟨isEntry, rfl⟩)

/-- A map that can be merged is merged, and the samples of the blocks can be numbered. -/
theorem Mergeable.exists_merged (can : map.Mergeable names) (sorted : Bool) :
    ∃ merged, map.mergeSamples names sorted = .ok merged ∧
      ∀ block ∈ merged.blocks, block.Numbered := by
  have new : NewNames names :=
    ⟨can.some, fun name moved => valid.keys.identifiers name (can.known name moved), can.nodup⟩
  have inMap : ∀ {rest : Row}, ∀ member ∈ map.membersOf names rest,
      member.key ∈ map.keys.rows ∧ member.block ∈ map.blocks := fun member inGroup =>
    mem_members (List.mem_of_mem_filter inGroup)
  have each : ∀ rest ∈ (map.keysWithout names).rows, ∃ block,
      mergeSampleGroup (names.map map.keys.names.idxOf) names sorted (map.membersOf names rest) =
        .ok block := by
    intro rest isRest
    apply exists_mergeSampleGroup _ new can.known
    · exact fun member inGroup => valid.keys.width _ (inMap member inGroup).1
    · exact fun member inGroup => consistent.blocks _ (inMap member inGroup).2
    · exact fun member inGroup => valid.blocks _ (inMap member inGroup).2
    · rw [map_entry_membersOf]
      exact can.group consistent valid isRest
  obtain ⟨blocks, all⟩ := exists_forall₂ each
  have gathered := all.imp fun _ _ made => mergeGroup_eq_ok consistent valid can.known made
  refine ⟨_, move_of_groups (fun moved => mergeSampleGroup moved names sorted) valid.keys
    consistent.count can.some can.nodup can.known all (agree_of_gathered consistent gathered),
    fun block isBlock => ?_⟩
  obtain ⟨rest, isRest, arranged, made⟩ := exists_of_mem_right gathered isBlock
  have group := can.group consistent valid isRest
  exact made.gathered.numbered_of_compatible group.compatible made.nodup_sources
    (mt List.map_eq_nil_iff.mp group.nonempty)

/-- A map that was merged can be merged, as long as the samples can be numbered. -/
theorem mergeable_of_merged (h : map.mergeSamples names sorted = .ok merged)
    (numbered : ∀ block ∈ merged.blocks, block.Numbered) : map.Mergeable names := by
  have can := movable_of_merged consistent valid h
  obtain ⟨_, _, _, keys, all⟩ := mergeSamples_eq_ok consistent valid h
  refine ⟨can.some, can.nodup, can.known, can.unused, fun rest isRest => ?_⟩
  rw [← keys] at isRest
  obtain ⟨whole, paired, arranged, made⟩ := exists_mem_zip_of_mem_left all isRest
  have isWhole := (List.of_mem_zip paired).2
  have merges := made.merges (consistent_groupOf consistent names rest) (numbered whole isWhole)
  exact merges.compatible (numbered whole isWhole) made.consistent

/-- A move succeeds, with samples that can be numbered, exactly if the dimensions can be moved. -/
theorem exists_mergeSamples_iff :
    (∃ merged, map.mergeSamples names sorted = .ok merged ∧
      ∀ block ∈ merged.blocks, block.Numbered) ↔ map.Mergeable names := by
  constructor
  · rintro ⟨merged, h, numbered⟩
    exact mergeable_of_merged consistent valid h numbered
  · exact fun can => can.exists_merged consistent valid sorted

end Map

end LabeledBlocks.BlockMap
