import LabeledBlocks.BlockMap.MergeSamples
import LabeledBlocks.Proofs.Block.JoinGathered
import LabeledBlocks.Proofs.Block.Merges
import LabeledBlocks.Proofs.BlockMap.Grouping

/-!
# Moving key dimensions into the samples loses nothing

Every sample of every block stands once in the block of its group, with the values of the key that
moved behind it, and with the same values. The rows of the gradients come along at every depth.

* `BlockMap.GroupGathered` — how the block of a group is made of the blocks of the group.
* `BlockMap.mergeSamples_eq_ok` — a move makes one block for every key that is left.
* `BlockMap.mergeSamples_moves` — every row and every gradient row is moved exactly once.
-/

namespace LabeledBlocks.BlockMap

/-! ### The rows of a group -/

theorem map_snd_continuedRows (continuation : Row → Row) (group : List (Row × Block)) :
    (continuedRows (fun block => block.samples.rows) continuation group).map (·.2) =
      (Block.sourcedRows (group.map (·.2))).map (·.2) := by
  rw [continuedRows, Block.sourcedRows, List.map_flatMap, List.map_flatMap, List.zipIdx_map,
    List.flatMap_map]
  refine List.flatMap_congr fun entry _ => ?_
  rw [Block.extendRows, List.map_map, List.map_map]
  rfl

/-- The block of a group: its samples are those of the blocks, with the values that their keys had
in the dimensions that moved, and everything that belongs to a sample comes with it. -/
structure GroupGathered (dimensions names : List String) (sorted : Bool)
    (group : List (Row × Block)) (arranged : List (Row × Source)) (merged : Block) : Prop where
  order : Block.Arranged sorted
    (continuedRows (fun block => block.samples.rows) (Labels.valuesOf dimensions names) group)
    arranged
  sampleNames : ∀ entry ∈ group, merged.samples.names = entry.2.samples.names ++ names
  rows : merged.samples.rows = arranged.map (·.1)
  gathered : Block.Gathered (group.map (·.2)) (arranged.map (·.2)) merged
  consistent : merged.Consistent
  valid : merged.Labelled Labels.Valid

/-- The sources are those of all samples. -/
theorem perm_sources {continuation : Row → Row} {group : List (Row × Block)}
    {arranged : List (Row × Source)}
    (perm : arranged.Perm (continuedRows (fun block => block.samples.rows) continuation group)) :
    (arranged.map (·.2)).Perm ((Block.sourcedRows (group.map (·.2))).map (·.2)) := by
  rw [← map_snd_continuedRows continuation]
  exact perm.map _

namespace GroupGathered

variable {dimensions names : List String} {sorted : Bool} {group : List (Row × Block)}
  {arranged : List (Row × Source)} {merged : Block}
  (made : GroupGathered dimensions names sorted group arranged merged)

include made

theorem complete : (arranged.map (·.2)).Perm ((Block.sourcedRows (group.map (·.2))).map (·.2)) :=
  perm_sources made.order.perm

theorem nodup_sources : (arranged.map (·.2)).Nodup :=
  made.complete.nodup_iff.mpr (Block.nodup_sourcedRows _)

/-- The block of a group is merged of its blocks, if the samples can be numbered. -/
theorem merges (consistent : ∀ entry ∈ group, entry.2.Consistent) (numbered : merged.Numbered) :
    Block.Merges (group.map (·.2)) (arranged.map (·.2)) merged :=
  made.gathered.merges made.complete (List.forall_mem_map.mpr consistent) numbered

/-- The names that move were used neither by the samples nor by the components of the blocks. -/
theorem unused {entry : Row × Block} (isEntry : entry ∈ group) {name : String}
    (moved : name ∈ names) :
    name ∉ entry.2.samples.names ∧ name ∉ Block.componentNames entry.2.components := by
  have sampleNames := made.sampleNames entry isEntry
  have distinct := made.valid.own.samples.distinct
  rw [sampleNames] at distinct
  constructor
  · exact fun isOld => (List.nodup_append.mp distinct).2.2 name isOld name moved rfl
  · intro isAxis
    rw [made.gathered.level.components _ (List.mem_map_of_mem isEntry)] at isAxis
    apply (made.consistent.own.newNames name isAxis).1
    rw [sampleNames]
    exact List.mem_append_right _ moved

end GroupGathered

theorem checkNewSampleNames_eq_ok_iff {samples : Labels} {names : List String} :
    checkNewSampleNames samples names = .ok () ↔ ∀ name ∈ names, name ∉ samples.names := by
  induction names with
  | nil => simp [checkNewSampleNames]
  | cons name names ih => rw [checkNewSampleNames, refused_eq_ok, ih, List.forall_mem_cons]

/-- A group is accepted when its blocks have the same components and properties. -/
theorem checkSampleMembers_eq_ok_iff {first : Member}
    (regular : first.block.AxesLabelled Labels.Regular) {members : List Member}
    (regular' : ∀ member ∈ members, member.block.AxesLabelled Labels.Regular) :
    checkSampleMembers first members = .ok () ↔ ∀ member ∈ members,
      member.block.properties = first.block.properties ∧
        member.block.components = first.block.components := by
  induction members with
  | nil => simp [checkSampleMembers]
  | cons member members ih =>
    rw [List.forall_mem_cons] at regular'
    simp only [checkSampleMembers, throw_bind_eq, refused_eq_ok, Bool.not_eq_true',
      Bool.not_eq_false, ih regular'.2, List.forall_mem_cons, and_assoc,
      Labels.identical_iff regular'.1.properties regular.properties,
      Block.sameAxes_iff regular'.1.components regular.components]

section Group

variable {dimensions names : List String} {sorted : Bool} {group : List Member} {merged : Block}

/-- The block that is made of a group. -/
theorem mergeSampleGroup_eq_ok (known : ∀ name ∈ names, name ∈ dimensions)
    (width : ∀ member ∈ group, member.key.length = dimensions.length)
    (consistent : ∀ member ∈ group, member.block.Consistent)
    (valid : ∀ member ∈ group, member.block.Labelled Labels.Valid)
    (sameNames : ∀ a ∈ group, ∀ b ∈ group, a.block.samples.names = b.block.samples.names)
    (h : mergeSampleGroup (names.map dimensions.idxOf) names sorted group = .ok merged) :
    ∃ arranged, GroupGathered dimensions names sorted (group.map Member.entry) arranged merged := by
  cases group with
  | nil => cases h
  | cons first others =>
    rw [mergeSampleGroup, check_bind_eq_ok, check_bind_eq_ok, bind_eq_ok] at h
    obtain ⟨new, _, extended, put, h⟩ := h
    obtain ⟨samples, built, made⟩ := bind_eq_ok.mp h
    obtain ⟨parts, taken, flat⟩ := mapM_extendRows (fun block => block.samples.rows) known width
    rw [groupSamples, taken] at put
    obtain rfl := Except.ok.inj put
    rw [flat] at built made
    obtain ⟨⟨names', rows⟩, valid'⟩ := Labels.ofRows_eq_ok_iff.mp (mapError_eq_ok.mp built)
    have order := Block.arranged_sortRows (rows ▸ valid'.nodup)
    have blocks : ((first :: others).map Member.entry).map (·.2) =
        first.block :: others.map Member.block := map_snd_entry _
    have nodup := (perm_sources order.perm).nodup_iff.mpr (Block.nodup_sourcedRows _)
    have every {P : Block → Prop} (each : ∀ member ∈ first :: others, P member.block) :
        ∀ block ∈ first.block :: others.map Member.block, P block :=
      List.forall_mem_map.mpr each
    obtain ⟨gathered, consistent', valid''⟩ :=
      Block.gathered_joinSamples (every consistent) (every valid) valid' nodup made
    have axes := Block.joinSamples_axes made
    refine ⟨_, order, ?_, ?_, ?_, consistent', valid''⟩
    · intro entry isEntry
      obtain ⟨member, isMember, rfl⟩ := List.mem_map.mp isEntry
      rw [axes.1, names', sameNames first List.mem_cons_self member isMember]
      rfl
    · rw [axes.1, rows]
    · rw [blocks]
      exact gathered

end Group

/-! ### The whole map -/

variable {map merged : BlockMap} {names : List String} {sorted : Bool}

/-- The block that is made of the blocks with the same rest of the key. -/
theorem mergeGroup_eq_ok (consistent : map.Consistent) (valid : map.Labelled Labels.Valid)
    (known : ∀ name ∈ names, name ∈ map.keys.names) {rest : Row} {block : Block}
    (made : mergeSampleGroup (names.map map.keys.names.idxOf) names sorted
      (map.membersOf names rest) = .ok block) :
    ∃ arranged,
      GroupGathered map.keys.names names sorted (map.groupOf names rest) arranged block := by
  have isMember : ∀ member ∈ map.membersOf names rest, member ∈ map.members :=
    fun member inGroup => List.mem_of_mem_filter inGroup
  have inMap : ∀ member ∈ map.membersOf names rest, member.block ∈ map.blocks :=
    fun member inGroup => (mem_members (isMember member inGroup)).2
  rw [← map_entry_membersOf]
  refine mergeSampleGroup_eq_ok known ?_ ?_ ?_ ?_ made
  · intro member inGroup
    exact valid.keys.width _ (mem_members (isMember member inGroup)).1
  · exact fun member inGroup => consistent.blocks _ (inMap member inGroup)
  · exact fun member inGroup => valid.blocks _ (inMap member inGroup)
  · intro a ha b hb
    exact (consistent.agree _ (inMap a ha) _ (inMap b hb)).sampleNames

/-- Merged blocks go together, as the blocks do that they were merged of. -/
theorem GroupGathered.agree (consistent : map.Consistent) {rest rest' : Row} {merged merged' : Block}
    {arranged arranged' : List (Row × Source)}
    (isRest : rest ∈ (map.keysWithout names).rows) (isRest' : rest' ∈ (map.keysWithout names).rows)
    (h : GroupGathered map.keys.names names sorted (map.groupOf names rest) arranged merged)
    (h' : GroupGathered map.keys.names names sorted (map.groupOf names rest') arranged' merged') :
    Agree map.mixedProperties merged merged' := by
  obtain ⟨entry, member⟩ := exists_mem_groupOf consistent.count isRest
  obtain ⟨entry', member'⟩ := exists_mem_groupOf consistent.count isRest'
  have agree := consistent.agree _ (mem_of_mem_groupOf member).2 _ (mem_of_mem_groupOf member').2
  have level := h.gathered.level
  have level' := h'.gathered.level
  have one := List.mem_map_of_mem (f := Prod.snd) member
  have one' := List.mem_map_of_mem (f := Prod.snd) member'
  refine ⟨?_, ?_, fun same => ?_, ?_⟩
  · rw [h.sampleNames entry member, h'.sampleNames entry' member', agree.sampleNames]
  · rw [← level.components _ one, ← level'.components _ one', agree.componentNames]
  · rw [← level.properties _ one, ← level'.properties _ one', agree.propertyNames same]
  · rw [← level.parameters _ one, ← level'.parameters _ one', agree.parameters]

/-- The blocks that the groups of a consistent map are gathered to agree with each other. -/
theorem agree_of_gathered (consistent : map.Consistent) {blocks : List Block}
    (gathered : List.Forall₂ (fun rest block => ∃ arranged, GroupGathered map.keys.names names
        sorted (map.groupOf names rest) arranged block) (map.keysWithout names).rows blocks) :
    ∀ a ∈ blocks, ∀ b ∈ blocks, Agree map.mixedProperties a b := by
  intro a ha b hb
  obtain ⟨rest, isRest, _, made⟩ := exists_of_mem_right gathered ha
  obtain ⟨rest', isRest', _, made'⟩ := exists_of_mem_right gathered hb
  exact made.agree consistent isRest isRest' made'

/-- A move makes one block for every key that is left. -/
theorem mergeSamples_eq_ok (consistent : map.Consistent) (valid : map.Labelled Labels.Valid)
    (h : map.mergeSamples names sorted = .ok merged) :
    (names ≠ [] ∧ names.Nodup ∧ ∀ name ∈ names, name ∈ map.keys.names) ∧ merged.Consistent ∧
      merged.mixedProperties = map.mixedProperties ∧ merged.keys = map.keysWithout names ∧
      List.Forall₂
        (fun rest block => ∃ arranged, GroupGathered map.keys.names names sorted
          (map.groupOf names rest) arranged block)
        merged.keys.rows merged.blocks := by
  obtain ⟨named, mixed, keys, all, whole⟩ :=
    move_eq_ok (fun moved => mergeSampleGroup moved names sorted) valid.keys consistent.count h
  have each : List.Forall₂
      (fun rest block => ∃ arranged, GroupGathered map.keys.names names sorted
        (map.groupOf names rest) arranged block)
      merged.keys.rows merged.blocks :=
    all.imp fun rest block made => mergeGroup_eq_ok consistent valid named.2.2 made
  have consistent' : ∀ block ∈ merged.blocks, block.Consistent := by
    intro block member
    obtain ⟨_, _, _, gathered⟩ := exists_of_mem_right each member
    exact gathered.consistent
  exact ⟨named, whole consistent', mixed, keys, each⟩

/-- A block has exactly the samples of the blocks of a group, each of them once and with the moved
values behind it, and everything that belongs to them. -/
structure SamplesMerged (dimensions names : List String) (sorted : Bool)
    (group : List (Row × Block)) (merged : Block) : Prop where
  sampleNames : ∀ entry ∈ group, merged.samples.names = entry.2.samples.names ++ names
  moved : ∃ arranged,
    Block.Arranged sorted
      (continuedRows (fun block => block.samples.rows) (Labels.valuesOf dimensions names) group)
      arranged ∧
    merged.samples.rows = arranged.map (·.1) ∧
    Block.Merges (group.map (·.2)) (arranged.map (·.2)) merged

/-- The keys of a map are what is left of the keys of another one, and for each of them there is a
block that has exactly the samples of its group. -/
structure SamplesMoved (map : BlockMap) (names : List String) (sorted : Bool)
    (merged : BlockMap) : Prop where
  mixedProperties : merged.mixedProperties = map.mixedProperties
  keys : merged.keys = map.keysWithout names
  single : (∀ name ∈ map.keys.names, name ∈ names) → map.blocks ≠ [] → merged.keys = Labels.single
  blocks : List.Forall₂
    (fun rest block => SamplesMerged map.keys.names names sorted (map.groupOf names rest) block)
    merged.keys.rows merged.blocks

/-- Every sample and every gradient row is moved exactly once, as long as the samples can be
numbered. -/
theorem mergeSamples_moves (consistent : map.Consistent) (valid : map.Labelled Labels.Valid)
    (h : map.mergeSamples names sorted = .ok merged)
    (numbered : ∀ block ∈ merged.blocks, block.Numbered) :
    SamplesMoved map names sorted merged := by
  obtain ⟨_, _, mixed, keys, all⟩ := mergeSamples_eq_ok consistent valid h
  refine ⟨mixed, keys, ?_, ?_⟩
  · intro allMove some
    rw [keys]
    exact keysWithout_eq_single_of_blocks consistent.count allMove some
  · refine forall₂_imp_of_mem all fun rest _ block isBlock made => ?_
    obtain ⟨arranged, made⟩ := made
    have blocks : ∀ block ∈ (map.groupOf names rest).map (·.2), block.Consistent := by
      intro block member
      obtain ⟨entry, inGroup, rfl⟩ := List.mem_map.mp member
      exact consistent.blocks _ (List.of_mem_zip (List.mem_of_mem_filter inGroup)).2
    have sources := made.order.perm.map (·.2)
    rw [map_snd_continuedRows] at sources
    exact ⟨made.sampleNames, arranged, made.order, made.rows,
      made.gathered.merges sources blocks (numbered block isBlock)⟩

/-- A block with a gradient that has a gradient itself. -/
def nestedBlock (samples : List Row) (data : Array FloatBits) (first : List Row)
    (dataFirst : Array FloatBits) (second : List Row) (dataSecond : Array FloatBits) : Block :=
  let properties : Labels := .of ["p"] [[0]]
  let inner : Block := ⟨⟨[second.length, 1], dataSecond⟩,
    .of ["sample", "t"] second, [], properties, []⟩
  let outer : Block := ⟨⟨[first.length, 1], dataFirst⟩,
    .of ["sample"] first, [], properties, [("cell", inner)]⟩
  ⟨⟨[samples.length, 1], data⟩, .of ["s"] samples, [], properties,
    [("positions", outer)]⟩

/-- Two blocks whose keys agree in the first dimension, with a block without samples between
them. -/
def nestedMap : BlockMap :=
  ⟨.of ["a", "b"] [[1, 2], [4, 2], [1, -3]],
    [nestedBlock [[7], [-5]] #[0x3FF0000000000000, 0x8000000000000000] [[1]] #[1] [[0, 3]] #[2],
      nestedBlock [] #[] [] #[] [] #[],
      nestedBlock [[6]] #[5] [[0]] #[6] [[0, 1], [0, 2]] #[7, 8]], false⟩

theorem exists_merged_nestedMap : ∃ merged, nestedMap.mergeSamples ["b"] false = .ok merged ∧
    ∀ block ∈ merged.blocks, block.Numbered :=
  exists_eq_ok_and (by decide +kernel)

theorem nestedMap_moves : ∃ merged, nestedMap.mergeSamples ["b"] false = .ok merged ∧
    SamplesMoved nestedMap ["b"] false merged := by
  obtain ⟨merged, h, numbered⟩ := exists_merged_nestedMap
  exact ⟨merged, h, mergeSamples_moves (by decide) (by decide) h numbered⟩

end LabeledBlocks.BlockMap
