import LabeledBlocks.BlockMap.MergeProperties
import LabeledBlocks.Proofs.Block.JoinWidens
import LabeledBlocks.Proofs.Block.Merges
import LabeledBlocks.Proofs.BlockMap.Grouping

/-!
# Moving key dimensions into the properties keeps every value in its column

Every property of every block stands once in the block of its group, with the values of the key that
moved behind it, and above the same values. The rows of the gradients are collected at every depth,
and what a block has no value for is zero.

* `BlockMap.PropertiesMerged` — how the block of a group is made of the blocks of the group.
* `BlockMap.mergePropertyGroup_eq_ok` — the block that is made of a group.
* `BlockMap.mergeProperties_eq_ok` — the map that is made of all groups.
* `BlockMap.mergeProperties_moves` — every value is moved into its column.
-/

namespace LabeledBlocks.BlockMap

/-- A block has the samples of the blocks of a group, and exactly their properties, each of them
once and with the moved values behind it. Every value stands in its column, at every depth. -/
structure PropertiesMerged (dimensions names : List String) (sorted : Bool)
    (group : List (Row × Block)) (merged : Block) : Prop where
  samples : ∀ entry ∈ group, merged.samples = entry.2.samples
  propertyNames : ∀ entry ∈ group, merged.properties.names = entry.2.properties.names ++ names
  consistent : merged.Consistent
  valid : merged.Labelled Labels.Valid
  moved : ∃ arranged,
    Block.Arranged sorted
      (continuedRows (fun block => block.properties.rows) (Labels.valuesOf dimensions names) group)
      arranged ∧
    merged.properties.rows = arranged.map (·.1) ∧
    Block.Widens (group.map (·.2)) (fun _ n => n) (arranged.map (·.2)) merged

/-- All properties of the blocks of a group are properties of the merged block. -/
theorem PropertiesMerged.count {dimensions names : List String} {sorted : Bool}
    {group : List (Row × Block)} {merged : Block}
    (h : PropertiesMerged dimensions names sorted group merged) :
    merged.properties.count = (group.map fun entry => entry.2.properties.count).sum := by
  obtain ⟨arranged, order, rows, _⟩ := h.moved
  rw [Labels.count_eq, rows, List.length_map, order.perm.length_eq,
    length_continuedRows Block.properties]

/-! ### What the checks of a group let through -/

theorem checkNewPropertyNames_eq_ok_iff {properties : Labels} {names : List String} :
    checkNewPropertyNames properties names = .ok () ↔ ∀ name ∈ names, name ∉ properties.names := by
  induction names with
  | nil => simp [checkNewPropertyNames]
  | cons name names ih => rw [checkNewPropertyNames, refused_eq_ok, ih, List.forall_mem_cons]

/-- A group is accepted when its blocks have the same samples and no new name is taken. -/
theorem checkPropertyMembers_eq_ok_iff {first : Block}
    (regular : first.AxesLabelled Labels.Regular) {members : List Member}
    (regular' : ∀ member ∈ members, member.block.AxesLabelled Labels.Regular) :
    checkPropertyMembers first members = .ok () ↔
      ∀ member ∈ members, member.block.samples = first.samples ∧
        member.block.properties.names = first.properties.names := by
  induction members with
  | nil => simp [checkPropertyMembers]
  | cons member members ih =>
    rw [List.forall_mem_cons] at regular'
    simp only [checkPropertyMembers, throw_bind_eq, refused_eq_ok, Bool.not_eq_true',
      Bool.not_eq_false, not_not, ih regular'.2, List.forall_mem_cons, and_assoc,
      Labels.identical_iff regular'.1.samples regular.samples]

/-! ### The columns of a group -/

section Common

variable {first : Block} {blocks : List Block}
  (common : ∀ block ∈ blocks, block.samples = first.samples)

include common

/-- The samples that blocks have in common stay where they are. -/
theorem placeTables_common (start : Nat) :
    Block.placeTables start (fun _ n => n) blocks =
      blocks.map fun _ => Array.range first.samples.count := by
  induction blocks generalizing start with
  | nil => rfl
  | cons block blocks ih =>
    rw [List.forall_mem_cons] at common
    have own : Block.table block.samples.count (fun n => n) = Array.range first.samples.count := by
      rw [Block.table, List.map_id', List.toArray_range, common.1]
    have rest := ih common.2 (start + 1)
    rw [Block.placeTables] at rest ⊢
    rw [List.zipIdx_cons, List.map_cons, List.map_cons, rest, own]

/-- Common samples have different places, their own. -/
theorem placing_common : Block.Placing blocks (fun _ n => n) first.samples.count := by
  constructor
  · intro b block found n inside
    rwa [← common block (List.mem_of_getElem? found)]
  · intro _ _ _ n _ m _ equal
    exact equal

/-- Blocks with common samples can be joined when they are consistent and their labels valid. -/
theorem widenable_common {properties : Labels} {sources : List Source}
    (consistent : ∀ block ∈ blocks, block.Consistent)
    (valid : ∀ block ∈ blocks, block.Labelled Labels.Valid) (validSamples : first.samples.Valid)
    (validProperties : properties.Valid)
    (inRange : ∀ source ∈ sources, ∃ block, blocks[source.block]? = some block ∧
      source.index < block.properties.count) :
    Block.Widenable blocks (fun _ n => n) first.samples properties sources :=
  ⟨consistent, valid, validSamples, validProperties, placing_common common,
    fun _ _ _ _ _ small => small, inRange⟩

end Common

section Group

variable {dimensions names : List String} {sorted : Bool} {group : List Member} {merged : Block}

/-- How the block of a group is joined: the others have the samples and the property names of the
first one, and their properties with the values of the keys behind them are taken in some order. -/
structure GroupJoined (dimensions names : List String) (sorted : Bool) (first : Member)
    (others : List Member) (merged : Block) (properties : Labels)
    (arranged : List (Row × Source)) : Prop where
  same : ∀ member ∈ first :: others, member.block.samples = first.block.samples ∧
    member.block.properties.names = first.block.properties.names
  order : Block.Arranged sorted (continuedRows (fun block => block.properties.rows)
    (Labels.valuesOf dimensions names) ((first :: others).map Member.entry)) arranged
  names : properties.names = first.block.properties.names ++ names
  rows : properties.rows = arranged.map (·.1)
  start : Block.Widenable (first.block :: others.map Member.block) (fun _ n => n)
    first.block.samples properties (arranged.map (·.2))
  made : Block.joinProperties first.block (others.map Member.block) first.block.samples
    (Block.placeTables 0 (fun _ n => n) (first.block :: others.map Member.block)) properties
    (arranged.map (·.2)) = .ok merged

variable (known : ∀ name ∈ names, name ∈ dimensions)

include known

/-- What a group is merged to is joined of its blocks. -/
theorem groupJoined_of_merged {first : Member} {others : List Member}
    (width : ∀ member ∈ first :: others, member.key.length = dimensions.length)
    (consistent : ∀ member ∈ first :: others, member.block.Consistent)
    (valid : ∀ member ∈ first :: others, member.block.Labelled Labels.Valid)
    (h : mergePropertyGroup (names.map dimensions.idxOf) names sorted (first :: others) =
      .ok merged) :
    ∃ properties arranged,
      GroupJoined dimensions names sorted first others merged properties arranged := by
  rw [mergePropertyGroup, check_bind_eq_ok, check_bind_eq_ok, bind_eq_ok] at h
  obtain ⟨_, checked, extended, put, h⟩ := h
  obtain ⟨properties, built, made⟩ := bind_eq_ok.mp h
  obtain ⟨parts, taken, flat⟩ := mapM_extendRows (fun block => block.properties.rows) known width
  rw [groupProperties, taken] at put
  obtain rfl := Except.ok.inj put
  rw [flat] at built made
  obtain ⟨⟨names', rows⟩, valid'⟩ := Labels.ofRows_eq_ok_iff.mp built
  have order := Block.arranged_sortRows (rows ▸ valid'.nodup)
  have every {P : Block → Prop} (each : ∀ member ∈ first :: others, P member.block) :
      ∀ block ∈ first.block :: others.map Member.block, P block :=
    List.forall_mem_map.mpr each
  have blocks : ((first :: others).map Member.entry).map (·.2) =
      first.block :: others.map Member.block := map_snd_entry _
  have regular : ∀ member ∈ first :: others, member.block.AxesLabelled Labels.Regular :=
    fun member isMember => (valid member isMember).own.regular
  rw [checkPropertyMembers_eq_ok_iff (regular first List.mem_cons_self)
    (List.forall_mem_cons.mp regular).2] at checked
  have same : ∀ member ∈ first :: others, member.block.samples = first.block.samples ∧
      member.block.properties.names = first.block.properties.names :=
    List.forall_mem_cons.mpr ⟨⟨rfl, rfl⟩, checked⟩
  have common : ∀ block ∈ first.block :: others.map Member.block,
      block.samples = first.block.samples :=
    every fun member isMember => (same member isMember).1
  have tables : ((first :: others).map fun _ => Array.range first.block.samples.count) =
      Block.placeTables 0 (fun _ n => n) (first.block :: others.map Member.block) := by
    rw [placeTables_common common, ← List.map_cons, List.map_map]
    rfl
  have inRange := inRange_continuedRows order.perm
  rw [tables] at made
  rw [blocks] at inRange
  exact ⟨properties, _, same, order, names', rows, widenable_common common (every consistent)
    (every valid) (valid first List.mem_cons_self).own.samples valid' inRange, made⟩

/-- The block that is made of a group. -/
theorem mergePropertyGroup_eq_ok
    (width : ∀ member ∈ group, member.key.length = dimensions.length)
    (consistent : ∀ member ∈ group, member.block.Consistent)
    (valid : ∀ member ∈ group, member.block.Labelled Labels.Valid)
    (h : mergePropertyGroup (names.map dimensions.idxOf) names sorted group = .ok merged)
    (numbered : ∀ parameter gradient, (parameter, gradient) ∈ merged.gradients →
      gradient.Numbered) :
    PropertiesMerged dimensions names sorted (group.map Member.entry) merged := by
  cases group with
  | nil => cases h
  | cons first others =>
    obtain ⟨properties, arranged, joined⟩ := groupJoined_of_merged known width consistent valid h
    obtain ⟨widens, consistent', valid'⟩ :=
      Block.widens_joinProperties joined.start joined.made numbered
    have axes := Block.joinProperties_axes joined.made
    refine ⟨?_, ?_, consistent', valid', arranged, joined.order, ?_, ?_⟩
    · intro entry isEntry
      obtain ⟨member, isMember, rfl⟩ := List.mem_map.mp isEntry
      rw [axes.1]
      exact (joined.same member isMember).1.symm
    · intro entry isEntry
      obtain ⟨member, isMember, rfl⟩ := List.mem_map.mp isEntry
      rw [axes.2.2, joined.names, ← (joined.same member isMember).2]
      rfl
    · rw [axes.2.2, joined.rows]
    · rw [map_snd_entry]
      exact widens

end Group

/-! ### The whole map -/

/-- The keys of a map are what is left of the keys of another one, and for each of them there is a
block that has exactly the properties of its group. -/
structure PropertiesMoved (map : BlockMap) (names : List String) (sorted : Bool)
    (merged : BlockMap) : Prop where
  mixedProperties : merged.mixedProperties = map.mixedProperties
  keys : merged.keys = map.keysWithout names
  single : (∀ name ∈ map.keys.names, name ∈ names) → map.blocks ≠ [] → merged.keys = Labels.single
  blocks : List.Forall₂
    (fun rest block => PropertiesMerged map.keys.names names sorted (map.groupOf names rest) block)
    merged.keys.rows merged.blocks

variable {map merged : BlockMap} {names : List String} {sorted : Bool}

/-- A move makes one block for every key that is left. -/
theorem mergeProperties_eq_ok (consistent : map.Consistent) (valid : map.Labelled Labels.Valid)
    (h : map.mergeProperties names sorted = .ok merged)
    (numbered : ∀ block ∈ merged.blocks, ∀ parameter gradient,
      (parameter, gradient) ∈ block.gradients → gradient.Numbered) :
    (names ≠ [] ∧ names.Nodup ∧ ∀ name ∈ names, name ∈ map.keys.names) ∧ merged.Consistent ∧
      merged.mixedProperties = map.mixedProperties ∧ merged.keys = map.keysWithout names ∧
      List.Forall₂
        (fun rest block =>
          PropertiesMerged map.keys.names names sorted (map.groupOf names rest) block)
        merged.keys.rows merged.blocks := by
  obtain ⟨named, mixed, keys, all, whole⟩ :=
    move_eq_ok (fun moved => mergePropertyGroup moved names sorted) valid.keys consistent.count h
  have each : List.Forall₂
      (fun rest block =>
        PropertiesMerged map.keys.names names sorted (map.groupOf names rest) block)
      merged.keys.rows merged.blocks := by
    refine forall₂_imp_of_mem all fun rest _ block isBlock made => ?_
    have isMember : ∀ member ∈ map.membersOf names rest, member ∈ map.members :=
      fun member inGroup => List.mem_of_mem_filter inGroup
    rw [← map_entry_membersOf]
    apply mergePropertyGroup_eq_ok named.2.2 _ _ _ made (numbered block isBlock)
    · intro member inGroup
      exact valid.keys.width _ (mem_members (isMember member inGroup)).1
    · intro member inGroup
      exact consistent.blocks _ (mem_members (isMember member inGroup)).2
    · intro member inGroup
      exact valid.blocks _ (mem_members (isMember member inGroup)).2
  have consistent' : ∀ block ∈ merged.blocks, block.Consistent := by
    intro block member
    obtain ⟨_, _, made⟩ := exists_of_mem_right each member
    exact made.consistent
  exact ⟨named, whole consistent', mixed, keys, each⟩

/-- Every value is moved into its column, and only what a block has no value for is zero, as long as
the samples of the gradients can be numbered. -/
theorem mergeProperties_moves (consistent : map.Consistent) (valid : map.Labelled Labels.Valid)
    (h : map.mergeProperties names sorted = .ok merged)
    (numbered : ∀ block ∈ merged.blocks, ∀ parameter gradient,
      (parameter, gradient) ∈ block.gradients → gradient.Numbered) :
    PropertiesMoved map names sorted merged := by
  obtain ⟨_, _, mixed, keys, all⟩ := mergeProperties_eq_ok consistent valid h numbered
  refine ⟨mixed, keys, ?_, all⟩
  intro allMove some
  rw [keys]
  exact keysWithout_eq_single_of_blocks consistent.count allMove some

/-- A block with two samples and with a gradient that has a gradient itself. -/
def columnsBlock (properties : List Row) (data : Array FloatBits) (first : List Row)
    (dataFirst : Array FloatBits) (second : List Row) (dataSecond : Array FloatBits) : Block :=
  let columns : Labels := .of ["p"] properties
  let inner : Block := ⟨⟨[second.length, properties.length], dataSecond⟩,
    .of ["sample", "t"] second, [], columns, []⟩
  let outer : Block := ⟨⟨[first.length, properties.length], dataFirst⟩,
    .of ["sample"] first, [], columns, [("cell", inner)]⟩
  ⟨⟨[2, properties.length], data⟩, .of ["s"] [[7], [-5]], [], columns,
    [("positions", outer)]⟩

/-- Two blocks with the same samples whose keys agree in the first dimension, with a block between
them. The gradients of the two have rows for different samples. -/
def columnsMap : BlockMap :=
  ⟨.of ["a", "b"] [[1, 2], [4, 2], [1, -3]],
    [columnsBlock [[0]] #[0x3FF0000000000000, 0x8000000000000000] [[1]] #[1] [[0, 3]] #[2],
      columnsBlock [] #[] [] #[] [] #[],
      columnsBlock [[0], [3]] #[5, 6, 7, 8] [[0], [1]] #[1, 2, 3, 4] [[1, 0], [0, 3]]
        #[9, 8, 7, 6]],
    false⟩

theorem columnsMap_moves : ∃ merged, columnsMap.mergeProperties ["b"] false = .ok merged ∧
    PropertiesMoved columnsMap ["b"] false merged := by
  obtain ⟨merged, h, numbered⟩ : ∃ merged, columnsMap.mergeProperties ["b"] false = .ok merged ∧
      ∀ block ∈ merged.blocks, ∀ entry ∈ block.gradients, entry.2.Numbered :=
    exists_eq_ok_and (by decide +kernel)
  exact ⟨merged, h, mergeProperties_moves (by decide) (by decide) h
    fun block isBlock parameter gradient member =>
      numbered block isBlock (parameter, gradient) member⟩

end LabeledBlocks.BlockMap
