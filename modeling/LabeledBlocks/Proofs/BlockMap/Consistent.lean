import LabeledBlocks.BlockMap.Basic
import LabeledBlocks.Proofs.Block.Consistent

/-!
# Consistent block maps

The check of a map compares every block with the first one only. What it establishes is the
symmetric condition that any two blocks go together.

* `BlockMap.Consistent` — as many keys as blocks, consistent blocks, and any two of them agree.
* `BlockMap.ofBlocks_eq_ok_iff` — exactly such keys and blocks become a map.
-/

namespace LabeledBlocks.BlockMap

/-- What two blocks of a map have in common. -/
structure Agree (mixedProperties : Bool) (a b : Block) : Prop where
  sampleNames : a.samples.names = b.samples.names
  componentNames : a.components.map Labels.names = b.components.map Labels.names
  propertyNames : mixedProperties = false → a.properties.names = b.properties.names
  parameters : a.parameters = b.parameters

namespace Agree

variable {mixedProperties : Bool} {a b c : Block}

theorem refl (a : Block) : Agree mixedProperties a a :=
  ⟨rfl, rfl, fun _ => rfl, rfl⟩

theorem symm (h : Agree mixedProperties a b) : Agree mixedProperties b a :=
  ⟨h.sampleNames.symm, h.componentNames.symm, fun same => (h.propertyNames same).symm,
    h.parameters.symm⟩

theorem trans (h : Agree mixedProperties a b) (h' : Agree mixedProperties b c) :
    Agree mixedProperties a c :=
  ⟨h.sampleNames.trans h'.sampleNames, h.componentNames.trans h'.componentNames,
    fun same => (h.propertyNames same).trans (h'.propertyNames same),
    h.parameters.trans h'.parameters⟩

end Agree

instance (mixedProperties : Bool) (a b : Block) : Decidable (Agree mixedProperties a b) :=
  decidable_of_iff
    (a.samples.names = b.samples.names ∧
      a.components.map Labels.names = b.components.map Labels.names ∧
      (mixedProperties = false → a.properties.names = b.properties.names) ∧
      a.parameters = b.parameters)
    ⟨fun ⟨samples, components, properties, parameters⟩ =>
        ⟨samples, components, properties, parameters⟩,
      fun ⟨samples, components, properties, parameters⟩ =>
        ⟨samples, components, properties, parameters⟩⟩

/-- As many keys as blocks, and consistent blocks any two of which go together. -/
structure Consistent (map : BlockMap) : Prop where
  count : map.keys.count = map.blocks.length
  blocks : ∀ block ∈ map.blocks, block.Consistent
  agree : ∀ a ∈ map.blocks, ∀ b ∈ map.blocks, Agree map.mixedProperties a b

instance : DecidablePred Consistent := fun map =>
  decidable_of_iff
    (map.keys.count = map.blocks.length ∧ (∀ block ∈ map.blocks, block.Consistent) ∧
      ∀ a ∈ map.blocks, ∀ b ∈ map.blocks, Agree map.mixedProperties a b)
    ⟨fun ⟨count, blocks, agree⟩ => ⟨count, blocks, agree⟩,
      fun ⟨count, blocks, agree⟩ => ⟨count, blocks, agree⟩⟩

/-- The keys and all labels in the blocks have the property. -/
structure Labelled (P : Labels → Prop) (map : BlockMap) : Prop where
  keys : P map.keys
  blocks : ∀ block ∈ map.blocks, block.Labelled P

instance {P : Labels → Prop} [DecidablePred P] : DecidablePred (Labelled P) := fun map =>
  decidable_of_iff (P map.keys ∧ ∀ block ∈ map.blocks, block.Labelled P)
    ⟨fun ⟨keys, blocks⟩ => ⟨keys, blocks⟩, fun ⟨keys, blocks⟩ => ⟨keys, blocks⟩⟩

/-- Names of component axes are accepted when they are those of the first block. -/
theorem checkComponentNames_eq_ok_iff {block axis : Nat} {got expected : List Labels}
    (length : got.length = expected.length) :
    checkComponentNames block axis got expected = .ok () ↔
      got.map Labels.names = expected.map Labels.names := by
  induction got generalizing axis expected with
  | nil =>
    have : expected = [] := List.eq_nil_of_length_eq_zero length.symm
    simp [checkComponentNames, this]
  | cons found got ih =>
    cases expected with
    | nil => cases length
    | cons wanted expected =>
      rw [checkComponentNames, refused_eq_ok, ih (Nat.succ.inj length), Decidable.not_not,
        List.map_cons, List.map_cons, List.cons.injEq]

/-- A block is accepted for a map exactly if it agrees with the first one. -/
theorem checkBlock_eq_ok_iff {mixedProperties : Bool} {first block : Block} {position : Nat} :
    checkBlock mixedProperties first position block = .ok () ↔
      Agree mixedProperties block first := by
  simp only [checkBlock, throw_bind_eq, refused_eq_ok, check_bind_eq_ok, Decidable.not_not,
    Bool.and_eq_true, Bool.not_eq_true', bne_iff_ne, not_and]
  constructor
  · rintro ⟨samples, length, components, properties, parameters⟩
    refine ⟨samples, (checkComponentNames_eq_ok_iff length).mp components, properties, ?_⟩
    exact (refused_eq_ok.mp parameters).1 |> Decidable.not_not.mp
  · intro agree
    have length : block.components.length = first.components.length := by
      have := congrArg List.length agree.componentNames
      rwa [List.length_map, List.length_map] at this
    exact ⟨agree.sampleNames, length,
      (checkComponentNames_eq_ok_iff length).mpr agree.componentNames, agree.propertyNames,
      refused_eq_ok.mpr ⟨fun differs => differs agree.parameters, rfl⟩⟩

/-- Blocks are accepted for a map exactly if all of them agree with the first one. -/
theorem checkBlocks_eq_ok_iff {mixedProperties : Bool} {first : Block} {position : Nat}
    {blocks : List Block} :
    checkBlocks mixedProperties first position blocks = .ok () ↔
      ∀ block ∈ blocks, Agree mixedProperties block first := by
  induction blocks generalizing position with
  | nil => simp [checkBlocks]
  | cons block blocks ih =>
    rw [checkBlocks, check_bind_eq_ok, checkBlock_eq_ok_iff, ih, List.forall_mem_cons]

/-- Blocks go together when all of them go with the first. -/
theorem agree_iff_agree_first {mixedProperties : Bool} {first : Block} {others : List Block} :
    (∀ a ∈ first :: others, ∀ b ∈ first :: others, Agree mixedProperties a b) ↔
      ∀ block ∈ others, Agree mixedProperties block first := by
  constructor
  · intro agree block member
    exact agree block (List.mem_cons_of_mem _ member) first List.mem_cons_self
  · intro agree a ha b hb
    have toFirst : ∀ block ∈ first :: others, Agree mixedProperties block first := by
      rw [List.forall_mem_cons]
      exact ⟨Agree.refl first, agree⟩
    exact (toFirst a ha).trans (toFirst b hb).symm

/-- A map is made of as many keys as blocks, any two of which go together. -/
theorem ofBlocks_eq_ok_iff {keys : Labels} {blocks : List Block} {mixedProperties : Bool}
    {map : BlockMap} :
    ofBlocks keys blocks mixedProperties = .ok map ↔
      keys.count = blocks.length ∧
      (∀ a ∈ blocks, ∀ b ∈ blocks, Agree mixedProperties a b) ∧
      map = ⟨keys, blocks, mixedProperties⟩ := by
  simp only [ofBlocks, throw_bind_eq, refused_eq_ok, Decidable.not_not]
  cases blocks with
  | nil =>
    rw [pure_eq_ok]
    exact and_congr_right fun _ =>
      ⟨fun same => ⟨fun _ member => absurd member List.not_mem_nil, same.symm⟩, fun h => h.2.symm⟩
  | cons first others =>
    simp only [check_bind_eq_ok, checkBlocks_eq_ok_iff, agree_iff_agree_first, pure_eq_ok]
    exact and_congr_right fun _ => and_congr_right fun _ => eq_comm

/-- Every map that is built of consistent blocks is consistent. -/
theorem consistent_ofBlocks {keys : Labels} {blocks : List Block} {mixedProperties : Bool}
    {map : BlockMap} (consistent : ∀ block ∈ blocks, block.Consistent)
    (h : ofBlocks keys blocks mixedProperties = .ok map) : map.Consistent := by
  obtain ⟨count, agree, rfl⟩ := ofBlocks_eq_ok_iff.mp h
  exact ⟨count, consistent, agree⟩

/-- A block is found under its key. -/
theorem blockFor?_of_mem {map : BlockMap} (regular : map.keys.Regular) {key : Row} {block : Block}
    (member : (key, block) ∈ map.entries) : map.blockFor? key = some block := by
  obtain ⟨i, found⟩ := List.mem_iff_getElem?.mp member
  obtain ⟨isKey, isBlock⟩ := List.getElem?_zip_eq_some.mp found
  rw [blockFor?, (Labels.position_eq_some_iff regular).mpr isKey]
  exact isBlock

end LabeledBlocks.BlockMap
