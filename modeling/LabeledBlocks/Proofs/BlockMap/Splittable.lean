import LabeledBlocks.Proofs.BlockMap.FlattenTwice
import LabeledBlocks.Proofs.BlockMap.SplitSamples

/-!
# When maps can be split and flattened

A map is split by dimensions of its samples, and flattened by axes of its components. Both depend on
the names alone: whatever the keys, the labels, the values and the gradients are, the parts that a
block falls apart into and the blocks that are rearranged pass all checks that they are made under.

* `BlockMap.Splittable`, `BlockMap.Flattenable` — what it takes of the names.
* `BlockMap.exists_split_iff`, `BlockMap.exists_flat_iff` — the moves succeed exactly then.
* `BlockMap.succeed_iff_names` — both of them.
-/

namespace LabeledBlocks.BlockMap

/-- Some names, none of them twice, which are dimensions of the samples, but not all of them, and
no dimensions of the keys. -/
structure Splittable (map : BlockMap) (names : List String) : Prop where
  some : names ≠ []
  nodup : names.Nodup
  new : ∀ name ∈ names, name ∉ map.keys.names
  known : ∀ block ∈ map.blocks, ∀ name ∈ names, name ∈ block.samples.names
  left : ∀ block ∈ map.blocks, ∃ name ∈ block.samples.names, name ∉ names

/-- Some names, none of them twice, each of which is the only dimension of a component axis. -/
structure Flattenable (map : BlockMap) (names : List String) : Prop where
  some : names ≠ []
  nodup : names.Nodup
  axes : ∀ block ∈ map.blocks, block.HasAxes names

instance (map : BlockMap) : DecidablePred (Splittable map) := fun names =>
  decidable_of_iff
    (names ≠ [] ∧ names.Nodup ∧ (∀ name ∈ names, name ∉ map.keys.names) ∧
      (∀ block ∈ map.blocks, ∀ name ∈ names, name ∈ block.samples.names) ∧
      ∀ block ∈ map.blocks, ∃ name ∈ block.samples.names, name ∉ names)
    ⟨fun ⟨nonempty, nodup, new, known, left⟩ => ⟨nonempty, nodup, new, known, left⟩,
      fun ⟨nonempty, nodup, new, known, left⟩ => ⟨nonempty, nodup, new, known, left⟩⟩

instance (map : BlockMap) : DecidablePred (Flattenable map) := fun names =>
  decidable_of_iff
    (names ≠ [] ∧ names.Nodup ∧ ∀ block ∈ map.blocks, block.HasAxes names)
    ⟨fun ⟨nonempty, nodup, axes⟩ => ⟨nonempty, nodup, axes⟩,
      fun ⟨nonempty, nodup, axes⟩ => ⟨nonempty, nodup, axes⟩⟩

theorem staying_ne_nil_iff {dimensions names : List String} :
    staying dimensions names ≠ [] ↔ ∃ name ∈ dimensions, name ∉ names := by
  rw [ne_eq, List.eq_nil_iff_forall_not_mem, not_forall_not]
  exact exists_congr fun name => mem_staying

section Map

variable {map : BlockMap} {names : List String} (consistent : map.Consistent)
  (valid : map.Labelled Labels.Valid) (nonempty : map.blocks ≠ [])

include consistent valid nonempty

/-- A map whose samples can be numbered is split exactly if the names allow it. -/
theorem exists_split_iff (numbered : ∀ block ∈ map.blocks, block.Numbered) :
    (∃ split, map.splitSamples names = .ok split) ↔ map.Splittable names := by
  constructor
  · rintro ⟨split, h⟩
    obtain ⟨some, nodup, _, new, known, left⟩ := splitSamples_known consistent valid h
    exact ⟨some, nodup, new, known, fun block member => staying_ne_nil_iff.mp (left block member)⟩
  · intro can
    obtain ⟨block, isBlock⟩ := List.exists_mem_of_ne_nil _ nonempty
    have own := (valid.blocks block isBlock).own.samples
    have identifiers : ∀ name ∈ names, Labels.IsIdentifier name := fun name member =>
      own.identifiers name (can.known block isBlock name member)
    obtain ⟨split, h, _⟩ := exists_splitSamples consistent valid numbered identifiers can.nodup
      can.new can.some can.known fun block member => staying_ne_nil_iff.mpr (can.left block member)
    exact ⟨split, h⟩

/-- A map is flattened exactly if the names allow it. -/
theorem exists_flat_iff :
    (∃ flat, map.flattenComponents names = .ok flat) ↔ map.Flattenable names := by
  have each := fun block (member : block ∈ map.blocks) =>
    @Block.exists_flatten_iff block names (consistent.blocks block member)
      (valid.blocks block member)
  simp only [flattenComponents_eq_ok_iff consistent]
  constructor
  · rintro ⟨flat, some, blocks, all, rfl⟩
    have flattened : ∀ block ∈ map.blocks, ∃ result, block.flatten names = .ok result := by
      intro block member
      obtain ⟨result, _, made⟩ := exists_mem_zip_of_mem_left all member
      exact ⟨result, made⟩
    obtain ⟨block, isBlock⟩ := List.exists_mem_of_ne_nil _ nonempty
    obtain ⟨_, made⟩ := flattened block isBlock
    have nodup := Block.nodup_of_flatten (consistent.blocks block isBlock) made
    exact ⟨some, nodup, fun block member =>
      (each block member some nodup).mp (flattened block member)⟩
  · intro can
    obtain ⟨blocks, all⟩ := exists_forall₂ fun block member =>
      (each block member can.some can.nodup).mpr (can.axes block member)
    exact ⟨_, can.some, blocks, all, rfl⟩

/-- Whether a map with blocks can be split or flattened depends on nothing but the names, as long as
the samples can be numbered. -/
theorem succeed_iff_names (numbered : ∀ block ∈ map.blocks, block.Numbered) :
    (∀ names, (∃ split, map.splitSamples names = .ok split) ↔ map.Splittable names) ∧
      ∀ names, (∃ flat, map.flattenComponents names = .ok flat) ↔ map.Flattenable names :=
  ⟨fun _ => exists_split_iff consistent valid nonempty numbered,
    fun _ => exists_flat_iff consistent valid nonempty⟩

end Map

/-- A block with two sample dimensions and a component, and with a gradient that has one more. -/
def bandBlock (samples : List Row) (data : Array FloatBits) (rows : List Row)
    (gradientData : Array FloatBits) : Block :=
  let component : Labels := .of ["x"] [[0], [1]]
  let properties : Labels := .of ["p"] [[3]]
  let gradient : Block := ⟨⟨[rows.length, 2, 2, 1], gradientData⟩,
    .of ["sample", "t"] rows, [component, .of ["y"] [[4], [6]]], properties, []⟩
  ⟨⟨[samples.length, 2, 1], data⟩, .of ["s", "b"] samples, [component], properties,
    [("cell", gradient)]⟩

/-- Two blocks that can be split by either of their dimensions and flattened by their axis, but not
by the axis that only their gradients have. -/
def bandMap : BlockMap :=
  ⟨.of ["a"] [[1], [2]],
    [bandBlock [[0, 7], [0, 5]] #[1, 2, 3, 4] [[1, 0]] #[5, 6, 7, 8],
      bandBlock [[3, 5]] #[9, 10] [] #[]], false⟩

theorem bandMap_succeeds :
    (∃ split, bandMap.splitSamples ["b"] = .ok split) ∧
      (¬∃ split, bandMap.splitSamples ["s", "b"] = .ok split) ∧
      (∃ flat, bandMap.flattenComponents ["x"] = .ok flat) ∧
      ¬∃ flat, bandMap.flattenComponents ["y"] = .ok flat := by
  obtain ⟨split, flat⟩ := @succeed_iff_names bandMap (by decide) (by decide) (by decide) (by decide)
  exact ⟨(split _).mpr (by decide), mt (split _).mp (by decide), (flat _).mpr (by decide),
    mt (flat _).mp (by decide)⟩

end LabeledBlocks.BlockMap
