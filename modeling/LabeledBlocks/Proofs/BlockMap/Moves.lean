import LabeledBlocks.BlockMap.Moves
import LabeledBlocks.Proofs.Block.Flattened
import LabeledBlocks.Proofs.BlockMap.Grouping

/-!
# Moves keep maps sound

A map is sound when it is consistent, its keys are regular and its blocks are sound. The four moves
make the blocks of the new map out of those of the old one, and the new map is checked once more, so
that every sequence of moves leads from sound maps to sound maps.

* `BlockMap.Sound`, `BlockMap.sound_ofBlocks` — sound maps are made of sound blocks.
* `BlockMap.sound_apply` — one move keeps a map sound.
* `BlockMap.sound_afterMoves` — every sequence of moves does.
-/

namespace LabeledBlocks.BlockMap

/-- A consistent map of sound blocks under regular keys. -/
structure Sound (map : BlockMap) : Prop where
  consistent : map.Consistent
  keys : map.keys.Regular
  blocks : ∀ block ∈ map.blocks, block.Sound

theorem sound_ofBlocks {keys : Labels} {blocks : List Block} {mixedProperties : Bool}
    {map : BlockMap} (regular : keys.Regular) (sound : ∀ block ∈ blocks, block.Sound)
    (h : ofBlocks keys blocks mixedProperties = .ok map) : map.Sound := by
  have consistent := consistent_ofBlocks (fun block member => (sound block member).consistent) h
  obtain ⟨_, _, rfl⟩ := ofBlocks_eq_ok_iff.mp h
  exact ⟨consistent, regular, sound⟩

variable {map after : BlockMap} {names : List String} {sorted : Bool}

/-! ### Moves of key dimensions -/

section Grouped

variable {moved : List Nat} {keys : Labels} {groups : List (List Member)}
  (grouped : map.groupsWithout moved = .ok (keys, groups))

include grouped

/-- Whatever is taken away, regular keys stay. -/
theorem regular_groupsWithout (regular : map.keys.Regular) : keys.Regular := by
  unfold groupsWithout at grouped
  dsimp only at grouped
  split at grouped
  · split at grouped
    · obtain ⟨_, built, done⟩ := bind_eq_ok.mp grouped
      cases done
      exact Labels.regular_ofRows built
    · cases grouped
      exact Labels.regular_single
  · obtain ⟨_, cut, done⟩ := bind_eq_ok.mp grouped
    cases done
    exact Labels.regular_project regular cut

/-- The blocks of a group stand in the order of the map. -/
theorem sublist_of_groupsWithout : ∀ group ∈ groups, group.Sublist map.members := by
  unfold groupsWithout at grouped
  dsimp only at grouped
  split at grouped
  · split at grouped
    · obtain ⟨_, _, done⟩ := bind_eq_ok.mp grouped
      cases done
      exact fun _ isGroup => absurd isGroup List.not_mem_nil
    · cases grouped
      exact fun group isGroup => List.mem_singleton.mp isGroup ▸ List.Sublist.refl _
  · obtain ⟨_, _, done⟩ := bind_eq_ok.mp grouped
    cases done
    exact fun group isGroup => sublist_of_mem_group isGroup

end Grouped

/-- Where sound members are merged into a sound block, a map of the merged blocks is sound. -/
theorem sound_mergeGroups {mergeGroup : List Nat → List Member → Except Error Block}
    (one : ∀ moved group block, (∀ member ∈ group, member.block.Sound) →
      mergeGroup moved group = .ok block → block.Sound)
    (sound : map.Sound)
    (h : (do
      let moved ← map.movedDimensions names
      let (keys, groups) ← map.groupsWithout moved
      let blocks ← groups.mapM (mergeGroup moved)
      ofBlocks keys blocks map.mixedProperties) = .ok after) : after.Sound := by
  obtain ⟨moved, _, h⟩ := bind_eq_ok.mp h
  obtain ⟨⟨keys, groups⟩, grouped, h⟩ := bind_eq_ok.mp h
  obtain ⟨blocks, merged, built⟩ := bind_eq_ok.mp h
  refine sound_ofBlocks (regular_groupsWithout grouped sound.keys) (fun block member => ?_) built
  obtain ⟨group, isGroup, made⟩ := exists_of_mem_right (mapM_eq_ok.mp merged) member
  apply one moved group block _ made
  intro member inside
  have isMember := (sublist_of_groupsWithout grouped group isGroup).subset inside
  exact sound.blocks member.block (mem_members isMember).2

/-- Moving key dimensions to the samples keeps a map sound. -/
theorem sound_mergeSamples (sound : map.Sound) (h : map.mergeSamples names sorted = .ok after) :
    after.Sound := by
  refine sound_mergeGroups ?_ sound h
  intro moved group block members made
  cases group with
  | nil => cases made
  | cons first others =>
    rw [List.forall_mem_cons] at members
    simp only [mergeSampleGroup, bind_eq_ok, mapError_eq_ok] at made
    obtain ⟨_, _, _, _, rows, _, samples, built, joined⟩ := made
    have regular := Labels.regular_ofRows built
    exact Block.sound_joinSamples members.1 regular joined

/-- Moving key dimensions to the properties keeps a map sound. -/
theorem sound_mergeProperties (sound : map.Sound)
    (h : map.mergeProperties names sorted = .ok after) : after.Sound := by
  refine sound_mergeGroups ?_ sound h
  intro moved group block members made
  cases group with
  | nil => cases made
  | cons first others =>
    rw [List.forall_mem_cons] at members
    simp only [mergePropertyGroup, bind_eq_ok] at made
    obtain ⟨_, _, _, _, rows, _, properties, built, joined⟩ := made
    have regular := Labels.regular_ofRows built
    exact Block.sound_joinProperties members.1 members.1.own.regular.samples regular joined

/-! ### The other moves -/

/-- The parts of a sound block are sound. -/
theorem sound_splitBlock {block : Block} (sound : block.Sound) {parts : List (Row × Block)}
    (h : splitBlock names block = .ok parts) : ∀ part ∈ parts, part.2.Sound := by
  simp only [splitBlock, throw_bind_eq, bind_eq_ok, refused_eq_ok] at h
  obtain ⟨moved, _, _, ⟨values, positions⟩, _, made⟩ := h
  intro part member
  obtain ⟨entry, _, made⟩ := exists_of_mem_right (mapM_eq_ok.mp made) member
  obtain ⟨rows, _, made⟩ := bind_eq_ok.mp made
  obtain ⟨samples, built, made⟩ := bind_eq_ok.mp made
  obtain ⟨joined, taken, made⟩ := bind_eq_ok.mp made
  obtain rfl := pure_eq_ok.mp made
  exact Block.sound_joinSamples sound (Labels.regular_ofRows built) taken

/-- Moving sample dimensions to the keys keeps a map sound. -/
theorem sound_splitSamples (sound : map.Sound) (h : map.splitSamples names = .ok after) :
    after.Sound := by
  simp only [splitSamples, throw_bind_eq, refused_eq_ok, bind_eq_ok] at h
  obtain ⟨_, _, _, parts, split, keys, keyed, built⟩ := h
  refine sound_ofBlocks (Labels.regular_ofRows keyed) (fun block member => ?_) built
  obtain ⟨part, isPart, rfl⟩ := List.mem_map.mp member
  obtain ⟨ofBlock, isOne, inside⟩ := List.mem_flatten.mp isPart
  obtain ⟨entry, isEntry, made⟩ := exists_of_mem_right (mapM_eq_ok.mp split) isOne
  obtain ⟨own, taken, made⟩ := bind_eq_ok.mp made
  obtain rfl := pure_eq_ok.mp made
  obtain ⟨unkeyed, isOwn, rfl⟩ := List.mem_map.mp inside
  have isBlock := (List.of_mem_zip isEntry).2
  exact sound_splitBlock (sound.blocks entry.2 isBlock) taken unkeyed isOwn

/-- Moving component axes to the properties keeps a map sound. -/
theorem sound_flattenComponents (sound : map.Sound)
    (h : map.flattenComponents names = .ok after) : after.Sound := by
  simp only [flattenComponents, throw_bind_eq, refused_eq_ok, bind_eq_ok] at h
  obtain ⟨_, blocks, flattened, built⟩ := h
  refine sound_ofBlocks sound.keys (fun block member => ?_) built
  obtain ⟨old, isBlock, made⟩ := exists_of_mem_right (mapM_eq_ok.mp flattened) member
  obtain ⟨axes, found, made⟩ := bind_eq_ok.mp made
  obtain ⟨_, nodup, _⟩ := Block.componentAxes_eq_ok found
  obtain ⟨properties, combined, made⟩ := bind_eq_ok.mp made
  have flattens := Block.flattensTo_of_flattenedProperties combined
  obtain ⟨_, _, combined⟩ := bind_eq_ok.mp combined
  have regular := Labels.regular_ofRows combined
  exact Block.sound_flattenAxes (sound.blocks old isBlock) regular nodup flattens made

/-! ### Sequences of moves -/

/-- One move keeps a map sound. -/
theorem sound_apply (move : Move) (sound : map.Sound) (h : move.apply map = .ok after) :
    after.Sound := by
  cases move with
  | mergeSamples names sorted => exact sound_mergeSamples sound h
  | mergeProperties names sorted => exact sound_mergeProperties sound h
  | splitSamples names => exact sound_splitSamples sound h
  | flattenComponents names => exact sound_flattenComponents sound h

/-- Every sequence of moves keeps a map sound. -/
theorem sound_afterMoves (moves : List Move) (sound : map.Sound)
    (h : map.afterMoves moves = .ok after) : after.Sound := by
  induction moves generalizing map with
  | nil =>
    rw [afterMoves, Except.ok.injEq] at h
    exact h ▸ sound
  | cons move moves ih =>
    obtain ⟨next, moved, rest⟩ := bind_eq_ok.mp h
    exact ih (sound_apply move sound moved) rest

end LabeledBlocks.BlockMap
