import LabeledBlocks.Proofs.Block.Divided
import LabeledBlocks.Proofs.BlockMap.SplitSamples

/-!
# Moving sample dimensions into the keys divides the blocks

Every sample of a block has one value in the dimensions that move, and goes to the part of the block
that has this value at the end of its key. With the samples the rows of the gradients are divided,
at every depth: none is lost, and none is there twice.

* `BlockMap.SamplesSplit` — a map whose entries are the parts of the blocks of another one.
* `BlockMap.partition_positionsWith` — every sample has exactly one value.
* `BlockMap.splitSamples_divides` — sample dimensions are moved like this.
-/

namespace LabeledBlocks.BlockMap

/-- The parts of the block of an entry: for each value that the samples have, in the order of its
first appearance, the samples with this value, cut down to the other dimensions. -/
structure EntryDivided (names : List String) (entry : Row × Block) (parts : List (Row × Block)) :
    Prop where
  samples : List.Forall₂
    (fun value part => part.1 = entry.1 ++ value ∧
      part.2.samples.names = staying entry.2.samples.names names ∧
      part.2.samples.rows = rowsWith entry.2.samples.names names value entry.2.samples.rows)
    (entry.2.samples.projected names).rows parts
  divided : Block.Divided entry.2
    ((entry.2.samples.projected names).rows.map fun value =>
      positionsWith entry.2.samples.names names value entry.2.samples.rows)
    (parts.map (·.2))

/-- The entries of a map are the parts of the blocks of another one, one block after the other. -/
structure SamplesSplit (map : BlockMap) (names : List String) (split : BlockMap) : Prop where
  consistent : split.Consistent
  mixedProperties : split.mixedProperties = map.mixedProperties
  keys : split.keys = map.splitKeys names
  entries : ∃ lists, split.entries = lists.flatten ∧
    List.Forall₂ (EntryDivided names) map.entries lists

/-! ### Every sample has one value -/

/-- Every sample has exactly one of the values. -/
theorem partition_positionsWith (samples : Labels) (names : List String) :
    Block.Partition
      ((samples.projected names).rows.map fun value =>
        positionsWith samples.names names value samples.rows)
      samples.count := by
  have parted : Block.Partition
      (((samples.projected names).rows.map fun value row =>
        Labels.valuesOf samples.names names row == value).map (Block.positionsWhere · samples.rows))
      samples.rows.length := by
    apply Block.partition_positionsWhere
    · apply List.pairwise_map.mpr
      apply (nodup_eraseDups _).imp
      intro value value' different row holds holds'
      exact different ((beq_iff_eq.mp holds).symm.trans (beq_iff_eq.mp holds'))
    · intro row isRow
      have isValue := List.mem_map_of_mem (f := Labels.valuesOf samples.names names) isRow
      exact ⟨_, List.mem_map_of_mem (List.mem_eraseDups.mpr isValue), beq_iff_eq.mpr rfl⟩
  rwa [List.map_map, ← samples.count_eq] at parted

/-! ### The parts divide the block -/

/-- The parts that a block falls apart into divide it. -/
theorem FallsApart.divided {names : List String} {entry : Row × Block}
    {parts : List (Row × Block)} (apart : FallsApart names entry parts)
    (consistent : entry.2.Consistent) (numbered : entry.2.Numbered) :
    EntryDivided names entry parts := by
  constructor
  · exact apart.imp fun value part h => ⟨h.1, h.2.sampleNames, h.2.rows⟩
  · apply Block.divided_of_gathered consistent numbered (partition_positionsWith _ names)
    rw [List.forall₂_map_left_iff, List.forall₂_map_right_iff]
    exact apart.imp fun value part h => ⟨h.2.gathered, h.2.consistent⟩

/-- Every sample and every gradient row goes to exactly one part, as long as the samples can be
numbered. -/
theorem splitSamples_divides {map split : BlockMap} {names : List String}
    (consistent : map.Consistent) (valid : map.Labelled Labels.Valid)
    (numbered : ∀ block ∈ map.blocks, block.Numbered) (h : map.splitSamples names = .ok split) :
    SamplesSplit map names split := by
  obtain ⟨lists, into⟩ := splitInto_of_split consistent valid numbered h
  refine ⟨into.consistent, into.mixedProperties, into.keys, lists, into.entries, ?_⟩
  apply forall₂_imp_of_mem into.parts
  intro entry isEntry parts _ apart
  have isBlock := (List.of_mem_zip isEntry).2
  exact apart.divided (consistent.blocks _ isBlock) (numbered _ isBlock)

/-- A block with two sample dimensions, and with a gradient that has a gradient itself. -/
def pairedBlock (samples : List Row) (data : Array FloatBits) (first : List Row)
    (dataFirst : Array FloatBits) (second : List Row) (dataSecond : Array FloatBits) : Block :=
  let properties : Labels := .of ["p"] [[0]]
  let inner : Block := ⟨⟨[second.length, 1], dataSecond⟩,
    .of ["sample", "t"] second, [], properties, []⟩
  let outer : Block := ⟨⟨[first.length, 1], dataFirst⟩,
    .of ["sample", "i"] first, [], properties, [("cell", inner)]⟩
  ⟨⟨[samples.length, 1], data⟩, .of ["s", "b"] samples, [], properties, [("positions", outer)]⟩

/-- Two blocks whose samples have values in any order, with a block without samples between
them. -/
def pairedMap : BlockMap :=
  ⟨.of ["a"] [[1], [4], [2]],
    [pairedBlock [[0, 7], [0, 5], [1, 7]] #[1, 2, 3] [[2, 0], [1, 0], [0, 0]] #[4, 5, 6]
        [[1, 0], [2, 0], [0, 0]] #[7, 8, 9],
      pairedBlock [] #[] [] #[] [] #[],
      pairedBlock [[3, 5]] #[0x8000000000000000] [[0, 1], [0, 0]] #[1, 2] [[1, 0]] #[3]], false⟩

theorem exists_split_pairedMap : ∃ split, pairedMap.splitSamples ["b"] = .ok split :=
  exists_eq_ok (by decide +kernel)

theorem pairedMap_divided : ∃ split, pairedMap.splitSamples ["b"] = .ok split ∧
    SamplesSplit pairedMap ["b"] split := by
  obtain ⟨split, h⟩ := exists_split_pairedMap
  exact ⟨split, h, splitSamples_divides (by decide) (by decide) (by decide) h⟩

end LabeledBlocks.BlockMap
