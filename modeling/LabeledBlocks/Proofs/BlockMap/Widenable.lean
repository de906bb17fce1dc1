import LabeledBlocks.Proofs.Block.JoinFits
import LabeledBlocks.Proofs.BlockMap.Mergeable
import LabeledBlocks.Proofs.BlockMap.Moves
import LabeledBlocks.Proofs.BlockMap.TwoMoves

/-!
# When key dimensions can move into the properties

The checks of a move compare with the first block of a group, and how many rows the gradients will
have is only known when they are collected. A move is possible if the blocks of every group have the
same samples and fit into one block, whose gradients have samples that can be numbered: there is
room for everything that is collected in it. What the move makes of a group is such a block.

* `BlockMap.Widenable` — what it takes to move some dimensions.
* `BlockMap.exists_mergePropertyGroup` — a group whose blocks fit into one is merged.
* `BlockMap.Widenable.exists_widened` — a map that can be widened is.
* `BlockMap.labelled_mergeProperties` — the new map has valid labels.
-/

namespace LabeledBlocks.BlockMap

/-! ### One group -/

/-- All blocks of a group fit into this block, which has their samples, the names of the properties
that they are to get, and as many properties as all of them. The samples of its gradients can be
numbered. -/
structure Hosts (names : List String) (group : List (Row × Block)) (host : Block) : Prop where
  fits : ∀ entry ∈ group, Block.Fits (fun n => n) entry.2 host
  consistent : host.Consistent
  numbered : ∀ parameter gradient, (parameter, gradient) ∈ host.gradients → gradient.Numbered
  sampleNames : ∀ entry ∈ group, entry.2.samples.names = host.samples.names
  propertyNames : ∀ entry ∈ group, ∀ name ∈ entry.2.properties.names ++ names,
    name ∈ host.properties.names
  wide : (group.map fun entry => entry.2.properties.count).sum ≤ host.properties.count

/-- The gradients of a block of a group can be numbered if those of the host can. -/
theorem Hosts.numbered_gradients {names : List String} {group : List (Row × Block)} {host : Block}
    (hosts : Hosts names group host) {entry : Row × Block} (isEntry : entry ∈ group)
    (consistent : entry.2.Consistent) : ∀ parameter gradient,
      (parameter, gradient) ∈ entry.2.gradients → gradient.Numbered := by
  intro parameter gradient member
  have fits := hosts.fits entry isEntry
  have isHost := fits.mem_host hosts.consistent member
  have same := Block.eq_gradientAt consistent.own member
  apply (same ▸ fits.inner isHost).numbered (consistent.inner member)
  · exact hosts.consistent.inner isHost
  · exact hosts.numbered _ _ isHost

/-- The blocks of a group have the same samples and the same names of properties, none of which
moves, and fit into one block. -/
structure GroupWidenable (names : List String) (group : List (Row × Block)) : Prop where
  samples : ∀ a ∈ group, ∀ b ∈ group, a.2.samples = b.2.samples
  propertyNames : ∀ a ∈ group, ∀ b ∈ group, a.2.properties.names = b.2.properties.names
  unused : ∀ entry ∈ group, ∀ name ∈ names, name ∉ entry.2.properties.names
  hosted : ∃ host, Hosts names group host

section Group

variable {dimensions names : List String} {sorted : Bool} {group : List (Row × Block)}

/-- The blocks of a group can be joined along their properties, in whichever order these are. -/
theorem GroupWidenable.exists_joined (can : GroupWidenable names group) {first : Row × Block}
    {others : List (Row × Block)} (whole : group = first :: others)
    (consistent : ∀ entry ∈ group, entry.2.Consistent)
    (valid : ∀ entry ∈ group, entry.2.Labelled Labels.Valid) {arranged : List (Row × Source)}
    (order : Block.Arranged sorted
      (continuedRows (fun block => block.properties.rows) (Labels.valuesOf dimensions names) group)
      arranged) {properties : Labels} (validProperties : properties.Valid)
    (propertyNames : properties.names = first.2.properties.names ++ names)
    (rows : properties.rows = arranged.map (·.1)) :
    ∃ merged, Block.joinProperties first.2 (others.map (·.2)) first.2.samples
        (Block.placeTables 0 (fun _ n => n) (group.map (·.2))) properties (arranged.map (·.2)) =
      .ok merged ∧ ∀ entry ∈ merged.gradients, entry.2.Numbered := by
  obtain ⟨host, hosts⟩ := can.hosted
  have isFirst : first ∈ group := whole ▸ List.mem_cons_self
  have blocks : group.map (·.2) = first.2 :: others.map (·.2) := by rw [whole]; rfl
  have common : ∀ block ∈ group.map (·.2), block.samples = first.2.samples :=
    List.forall_mem_map.mpr fun entry member => can.samples entry member first isFirst
  have start := widenable_common common (List.forall_mem_map.mpr consistent)
    (List.forall_mem_map.mpr valid) (valid first isFirst).own.samples validProperties
    (inRange_continuedRows order.perm)
  have fitting : ∀ (b : Nat) block, (group.map (·.2))[b]? = some block →
      Block.Fits (fun n => n) block host := by
    intro b block found
    obtain ⟨entry, isEntry, rfl⟩ := List.mem_map.mp (List.mem_of_getElem? found)
    exact hosts.fits entry isEntry
  have count : properties.count = (arranged.map (·.2)).length := by
    rw [Labels.count_eq, rows, List.length_map, List.length_map]
  have total : properties.count = (group.map fun entry => entry.2.properties.count).sum := by
    rw [count, List.length_map, order.perm.length_eq, length_continuedRows Block.properties]
  rw [blocks] at start fitting ⊢
  have hosted : Block.Hosted (first.2 :: others.map (·.2)) (fun _ n => n) (fun _ n => n)
      (fun n => n) first.2.samples properties (arranged.map (·.2)) host :=
    { start with
      fitting := fitting
      follows := fun _ _ _ _ _ => rfl
      hostConsistent := hosts.consistent
      numbered := hosts.numbered
      sampleNames := hosts.sampleNames first isFirst
      propertyNames := propertyNames ▸ hosts.propertyNames first isFirst
      count := count
      few := (fitting 0 first.2 rfl).level.count_le
      wide := total ▸ hosts.wide }
  exact Block.exists_joinProperties hosted

/-- A group whose blocks fit into one is merged, and the gradients can be numbered. -/
theorem exists_mergePropertyGroup {members : List Member} (some : members ≠ [])
    (can : GroupWidenable names (members.map Member.entry)) (new : NewNames names)
    (distinct : GroupDistinct dimensions names (members.map Member.entry))
    (known : ∀ name ∈ names, name ∈ dimensions)
    (width : ∀ member ∈ members, member.key.length = dimensions.length)
    (consistent : ∀ member ∈ members, member.block.Consistent)
    (valid : ∀ member ∈ members, member.block.Labelled Labels.Valid) :
    ∃ merged, mergePropertyGroup (names.map dimensions.idxOf) names sorted members = .ok merged ∧
      ∀ entry ∈ merged.gradients, entry.2.Numbered := by
  cases members with
  | nil => exact absurd rfl some
  | cons first others =>
    have isEntry : ∀ member ∈ first :: others, member.entry ∈ (first :: others).map Member.entry :=
      fun member isMember => List.mem_map_of_mem isMember
    have isFirst := isEntry first List.mem_cons_self
    have checked := checkNewPropertyNames_eq_ok_iff.mpr (can.unused _ isFirst)
    have regular : ∀ member ∈ first :: others, member.block.AxesLabelled Labels.Regular :=
      fun member isMember => (valid member isMember).own.regular
    rw [List.forall_mem_cons] at regular
    have checked' := (checkPropertyMembers_eq_ok_iff regular.1 regular.2).mpr <| by
      intro member isMember
      have isOne := isEntry member (List.mem_cons_of_mem first isMember)
      exact ⟨can.samples _ isOne _ isFirst, can.propertyNames _ isOne _ isFirst⟩
    have entryConsistent : ∀ entry ∈ (first :: others).map Member.entry, entry.2.Consistent :=
      List.forall_mem_map.mpr consistent
    have entryValid : ∀ entry ∈ (first :: others).map Member.entry,
        entry.2.Labelled Labels.Valid := List.forall_mem_map.mpr valid
    have regularProperties : ∀ entry ∈ (first :: others).map Member.entry,
        entry.2.properties.Regular :=
      fun entry member => (entryValid entry member).own.properties.toRegular
    obtain ⟨parts, taken, flat⟩ := mapM_extendRows (fun block => block.properties.rows) known width
    have order : Block.Arranged sorted (continuedRows (fun block => block.properties.rows)
        (Labels.valuesOf dimensions names) ((first :: others).map Member.entry))
        (if sorted then Block.sortRows parts.flatten else parts.flatten) := by
      rw [← flat]
      apply Block.arranged_sortRows
      have nodup := nodup_continuedRows distinct regularProperties can.propertyNames
      rw [← flat] at nodup
      exact ((Block.ite_sortRows_perm _ sorted).map _).nodup_iff.mpr nodup
    have validProperties := valid_continuedRows distinct regularProperties can.propertyNames new
      isFirst (valid first List.mem_cons_self).own.properties (can.unused _ isFirst) order.perm
    have built := Labels.ofRows_of_valid validProperties
    obtain ⟨merged, made, numbered⟩ := can.exists_joined rfl entryConsistent entryValid order
      validProperties rfl rfl
    have common : ∀ block ∈ (first :: others).map Member.block,
        block.samples = first.block.samples :=
      List.forall_mem_map.mpr fun member isMember =>
        can.samples _ (isEntry member isMember) _ isFirst
    rw [map_snd_entry, map_snd_entry, placeTables_common common, List.map_map] at made
    refine ⟨merged, ?_, numbered⟩
    rw [mergePropertyGroup, check_bind_eq_ok, check_bind_eq_ok, bind_eq_ok]
    refine ⟨checked, checked', parts.flatten, by rw [groupProperties, taken]; rfl, ?_⟩
    exact bind_eq_ok.mpr ⟨_, built, made⟩

end Group

/-! ### The whole map -/

/-- Dimensions can be moved from the keys into the properties: the names are key dimensions, none
twice, and the blocks of every group fit into one. -/
structure Widenable (map : BlockMap) (names : List String) : Prop where
  some : names ≠ []
  nodup : names.Nodup
  known : ∀ name ∈ names, name ∈ map.keys.names
  groups : ∀ rest ∈ (map.keysWithout names).rows, GroupWidenable names (map.groupOf names rest)

section Map

variable {map merged : BlockMap} {names : List String} {sorted : Bool}
  (consistent : map.Consistent) (valid : map.Labelled Labels.Valid)

include consistent valid

/-- Merged blocks go together, as the blocks do that they were merged of. -/
theorem PropertiesMerged.agree {rest rest' : Row} {merged merged' : Block}
    (isRest : rest ∈ (map.keysWithout names).rows) (isRest' : rest' ∈ (map.keysWithout names).rows)
    (h : PropertiesMerged map.keys.names names sorted (map.groupOf names rest) merged)
    (h' : PropertiesMerged map.keys.names names sorted (map.groupOf names rest') merged') :
    Agree map.mixedProperties merged merged' := by
  obtain ⟨entry, member⟩ := exists_mem_groupOf consistent.count isRest
  obtain ⟨entry', member'⟩ := exists_mem_groupOf consistent.count isRest'
  have agree := consistent.agree _ (mem_of_mem_groupOf member).2 _ (mem_of_mem_groupOf member').2
  have regular := valid.keys.toRegular
  have level := (h.assembled regular consistent (List.ne_nil_of_mem member)).level
  have level' := (h'.assembled regular consistent (List.ne_nil_of_mem member')).level
  refine ⟨?_, ?_, fun same => ?_, ?_⟩
  · rw [h.samples entry member, h'.samples entry' member', agree.sampleNames]
  · rw [← level.components entry member, ← level'.components entry' member', agree.componentNames]
  · rw [h.propertyNames entry member, h'.propertyNames entry' member', agree.propertyNames same]
  · rw [← level.parameters entry member, ← level'.parameters entry' member', agree.parameters]

omit valid in
/-- The gradients of a block that can be merged with others can be numbered. -/
theorem Widenable.numbered (can : map.Widenable names) : ∀ block ∈ map.blocks,
    ∀ parameter gradient, (parameter, gradient) ∈ block.gradients → gradient.Numbered := by
  intro block isBlock
  have own := consistent.blocks block isBlock
  rw [← map_snd_entries consistent.count] at isBlock
  obtain ⟨entry, isEntry, rfl⟩ := List.mem_map.mp isBlock
  obtain ⟨host, hosts⟩ := (can.groups _ (restOf_mem_keysWithout names isEntry)).hosted
  exact hosts.numbered_gradients (mem_groupOf.mpr ⟨isEntry, rfl⟩) own

/-- A map that can be widened is, and the gradients of the blocks can be numbered. -/
theorem Widenable.exists_widened (can : map.Widenable names) (sorted : Bool) :
    ∃ merged, map.mergeProperties names sorted = .ok merged ∧ ∀ block ∈ merged.blocks,
      ∀ parameter gradient, (parameter, gradient) ∈ block.gradients → gradient.Numbered := by
  have new : NewNames names :=
    ⟨can.some, fun name moved => valid.keys.identifiers name (can.known name moved), can.nodup⟩
  have inMap : ∀ {rest : Row}, ∀ member ∈ map.membersOf names rest,
      member.key ∈ map.keys.rows ∧ member.block ∈ map.blocks := fun member inGroup =>
    mem_members (List.mem_of_mem_filter inGroup)
  have each : ∀ rest ∈ (map.keysWithout names).rows, ∃ block,
      mergePropertyGroup (names.map map.keys.names.idxOf) names sorted (map.membersOf names rest) =
        .ok block ∧ (∀ entry ∈ block.gradients, entry.2.Numbered) ∧
      PropertiesMerged map.keys.names names sorted (map.groupOf names rest) block := by
    intro rest isRest
    have width : ∀ member ∈ map.membersOf names rest, member.key.length = map.keys.names.length :=
      fun member inGroup => valid.keys.width _ (inMap member inGroup).1
    have consistent' : ∀ member ∈ map.membersOf names rest, member.block.Consistent :=
      fun member inGroup => consistent.blocks _ (inMap member inGroup).2
    have valid' : ∀ member ∈ map.membersOf names rest, member.block.Labelled Labels.Valid :=
      fun member inGroup => valid.blocks _ (inMap member inGroup).2
    have group := can.groups rest isRest
    have distinct := groupDistinct consistent valid can.known rest
    obtain ⟨entry, member⟩ := exists_mem_groupOf consistent.count isRest
    rw [← map_entry_membersOf] at group distinct member ⊢
    have nonempty : map.membersOf names rest ≠ [] := by
      intro none
      rw [none] at member
      cases member
    obtain ⟨block, made, numbered⟩ := exists_mergePropertyGroup nonempty group new distinct
      can.known width consistent' valid'
    exact ⟨block, made, numbered, mergePropertyGroup_eq_ok can.known width consistent' valid' made
      fun _ _ isGradient => numbered _ isGradient⟩
  obtain ⟨blocks, all⟩ := exists_forall₂ each
  have agree : ∀ a ∈ blocks, ∀ b ∈ blocks, Agree map.mixedProperties a b := by
    intro a ha b hb
    obtain ⟨rest, isRest, _, _, made⟩ := exists_of_mem_right all ha
    obtain ⟨rest', isRest', _, _, made'⟩ := exists_of_mem_right all hb
    exact made.agree consistent valid isRest isRest' made'
  refine ⟨_, move_of_groups (fun moved => mergePropertyGroup moved names sorted) valid.keys
    consistent.count can.some can.nodup can.known (all.imp fun _ _ made => made.1) agree, ?_⟩
  intro block isBlock parameter gradient isGradient
  obtain ⟨rest, isRest, _, numbered, _⟩ := exists_of_mem_right all isBlock
  exact numbered _ isGradient

/-- The new map has valid labels, whether or not its samples can be numbered. -/
theorem labelled_mergeProperties (h : map.mergeProperties names sorted = .ok merged) :
    merged.Labelled Labels.Valid := by
  obtain ⟨_, _, keys, all, _⟩ := move_eq_ok (fun moved => mergePropertyGroup moved names sorted)
    valid.keys consistent.count h
  refine ⟨keys ▸ valid_keysWithout valid.keys, fun block isBlock => ?_⟩
  obtain ⟨rest, _, made⟩ := exists_of_mem_right all isBlock
  cases whole : map.membersOf names rest with
  | nil =>
    rw [whole] at made
    cases made
  | cons first others =>
    have inGroup : first ∈ map.membersOf names rest := whole ▸ List.mem_cons_self
    have isBlock := (mem_members (List.mem_of_mem_filter inGroup)).2
    have firstValid := valid.blocks _ isBlock
    simp only [whole, mergePropertyGroup, bind_eq_ok] at made
    obtain ⟨_, _, _, _, _, _, properties, built, made⟩ := made
    have validProperties := (Labels.ofRows_eq_ok_iff.mp built).2
    exact Block.labelled_joinProperties firstValid firstValid.own.samples validProperties made

theorem consistent_mergeProperties (h : map.mergeProperties names sorted = .ok merged) :
    merged.Consistent := by
  have sound : map.Sound := ⟨consistent, valid.keys.toRegular, fun block isBlock =>
    .of_consistent (consistent.blocks block isBlock) (valid.blocks block isBlock).regular⟩
  exact (sound_mergeProperties sound h).consistent

end Map

end LabeledBlocks.BlockMap
