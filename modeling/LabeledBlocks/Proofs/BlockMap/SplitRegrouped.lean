import LabeledBlocks.Proofs.Block.DividedParts
import LabeledBlocks.Proofs.Block.Relabelled
import LabeledBlocks.Proofs.Block.Reordered
import LabeledBlocks.Proofs.BlockMap.Mergeable
import LabeledBlocks.Proofs.BlockMap.SplitDivides
import LabeledBlocks.Proofs.BlockMap.TwoMoves

/-!
# Moving sample dimensions into the keys and back

When the dimensions that were moved from the samples into the keys are moved back, which is always
possible, every block that has samples is found again under its key. The columns that moved are the
last ones now, and the samples stand together by their values in these columns; what belongs to the
samples has followed.

* `BlockMap.Regrouped` — the same block with its samples grouped.
* `BlockMap.EntryDivided.regrouped` — what is gathered from the parts of a block.
* `BlockMap.SplitInto.mergeable` — the parts can be merged.
* `BlockMap.mergeSamples_splitSamples` — moving back undoes the move up to the grouping.
-/

namespace LabeledBlocks.BlockMap

/-! ### Grouped samples -/

/-- A row with the values in some dimensions behind those in the others. -/
def lastColumns (dimensions names : List String) (row : Row) : Row :=
  Labels.valuesOf dimensions (staying dimensions names) row ++
    Labels.valuesOf dimensions names row

/-- The samples with the columns of some names behind the others. -/
def columnsLast (names : List String) (samples : Labels) : Labels where
  names := staying samples.names names ++ names
  rows := samples.rows.map (lastColumns samples.names names)

/-- The positions of the samples, grouped by their values in some dimensions: the values are in the
order in which they appear, and so are the samples with the same values. -/
def groupedPositions (names : List String) (samples : Labels) : List Nat :=
  (samples.projected names).rows.flatMap fun value =>
    positionsWith samples.names names value samples.rows

/-- The samples in this order, with the columns that they are grouped by behind the others. -/
def groupedSamples (names : List String) (samples : Labels) : Labels where
  names := staying samples.names names ++ names
  rows := (samples.projected names).rows.flatMap fun value =>
    (samples.rows.filter fun row => Labels.valuesOf samples.names names row == value).map
      (lastColumns samples.names names)

/-- A block with its samples grouped by their values in some dimensions, in which everything that
belongs to a sample has followed it. -/
structure Regrouped (names : List String) (block found : Block) : Prop where
  samples : found.samples = groupedSamples names block.samples
  rows : ∀ n < block.samples.count,
    found.samples.rows[(groupedPositions names block.samples).idxOf n]? =
      (columnsLast names block.samples).rows[n]?
  reordered : Block.Reordered (groupedPositions names block.samples).idxOf
    (block.relabelled (columnsLast names block.samples)) found

section Samples

variable {samples : Labels} {names : List String}

theorem count_columnsLast : (columnsLast names samples).count = samples.count := by
  rw [Labels.count_eq, Labels.count_eq, columnsLast, List.length_map]

/-- There are values exactly if there are samples. -/
theorem rows_projected_eq_nil_iff (names : List String) :
    (samples.projected names).rows = [] ↔ samples.rows = [] := by
  have values : (samples.projected names).rows =
      (samples.rows.map (Labels.valuesOf samples.names names)).eraseDups := rfl
  rw [values]
  cases samples.rows with
  | nil => simp
  | cons row rows => simp [List.eraseDups_cons]

/-- Every sample has one place among the grouped positions. -/
theorem groupedPositions_perm (names : List String) (samples : Labels) :
    (groupedPositions names samples).Perm (List.range samples.count) := by
  rw [groupedPositions, List.flatMap_def]
  exact (partition_positionsWith samples names).once

theorem mem_groupedPositions (names : List String) {n : Nat} :
    n ∈ groupedPositions names samples ↔ n < samples.count := by
  rw [(groupedPositions_perm names samples).mem_iff, List.mem_range]

/-- Different samples stand at different places. -/
theorem idxOf_groupedPositions_inj : ∀ n < (columnsLast names samples).count,
    ∀ m < (columnsLast names samples).count,
      (groupedPositions names samples).idxOf n = (groupedPositions names samples).idxOf m →
        n = m := by
  intro n inside m _ same
  rw [count_columnsLast] at inside
  exact (List.idxOf_inj ((mem_groupedPositions names).mpr inside)).mp same

/-- The grouped samples stand at the grouped positions. -/
theorem rows_groupedSamples : (groupedSamples names samples).rows =
    (groupedPositions names samples).filterMap ((columnsLast names samples).rows[·]?) := by
  rw [groupedPositions, List.filterMap_flatMap]
  refine List.flatMap_congr fun value _ => ?_
  have kept := filterMap_positions (Labels.valuesOf samples.names names · == value)
    (samples.rows.map fun row => (row, lastColumns samples.names names row))
  simp only [List.map_map, List.filter_map, Function.comp_def, List.map_id'] at kept
  exact kept.symm

theorem getElem?_groupedSamples {n : Nat} (inside : n < samples.count) :
    (groupedSamples names samples).rows[(groupedPositions names samples).idxOf n]? =
      (columnsLast names samples).rows[n]? := by
  have total : ∀ n ∈ groupedPositions names samples,
      ((columnsLast names samples).rows[n]?).isSome := by
    intro n member
    rw [isSome_getElem?, ← Labels.count_eq, count_columnsLast]
    exact (mem_groupedPositions names).mp member
  have member := (mem_groupedPositions names).mpr inside
  rw [rows_groupedSamples, getElem?_filterMap total,
    List.getElem?_eq_getElem (List.idxOf_lt_length_of_mem member), List.getElem_idxOf]
  rfl

theorem mem_names_columnsLast (known : ∀ name ∈ names, name ∈ samples.names) :
    ∀ name ∈ (columnsLast names samples).names, name ∈ samples.names := by
  intro name member
  rcases List.mem_append.mp member with stays | moved
  · exact (mem_staying.mp stays).1
  · exact known name moved

/-- Samples with the columns in another order are still regular. -/
theorem regular_columnsLast (valid : samples.Valid) (known : ∀ name ∈ names, name ∈ samples.names) :
    (columnsLast names samples).Regular := by
  have stays : ∀ name ∈ staying samples.names names, name ∈ samples.names :=
    fun name member => (mem_staying.mp member).1
  have width : ∀ row ∈ samples.rows, (Labels.valuesOf samples.names (staying samples.names names)
      row).length = (staying samples.names names).length := fun row isRow =>
    Labels.length_valuesOf stays (valid.width row isRow)
  constructor
  · intro _ member
    obtain ⟨row, isRow, rfl⟩ := List.mem_map.mp member
    rw [lastColumns, List.length_append, width row isRow,
      Labels.length_valuesOf known (valid.width row isRow)]
    exact (List.length_append ..).symm
  · apply List.Nodup.map_on _ valid.nodup
    intro row isRow row' isRow' same
    obtain ⟨rest, moved⟩ := List.append_inj same ((width row isRow).trans (width row' isRow').symm)
    exact eq_of_valuesOf valid.distinct known (valid.width row isRow) (valid.width row' isRow') rest
      moved

/-- A row of a part is one of the samples with the value of the part. -/
theorem exists_row_of_positionsWith {value : Row} {n p : Nat}
    (standing : (positionsWith samples.names names value samples.rows)[n]? = some p) :
    ∃ row, samples.rows[p]? = some row ∧ Labels.valuesOf samples.names names row = value ∧
      (rowsWith samples.names names value samples.rows)[n]? =
        some (Labels.valuesOf samples.names (staying samples.names names) row) := by
  rw [positionsWith, List.getElem?_map, Option.map_eq_some_iff] at standing
  obtain ⟨⟨row, _⟩, standing, rfl⟩ := standing
  obtain ⟨isRow, holds⟩ := List.mem_filter.mp (List.mem_of_getElem? standing)
  refine ⟨row, List.mem_zipIdx_iff_getElem?.mp isRow, beq_iff_eq.mp holds, ?_⟩
  rw [rowsWith, List.getElem?_map, standing, Option.map_some]

end Samples

/-! ### The parts of one block -/

/-- Where the samples of a part stand in the block. -/
def ownPositions (dimensions names : List String) (samples : Labels) (part : Row × Block) :
    List Nat :=
  positionsWith samples.names names (Labels.valuesOf dimensions names part.1) samples.rows

def ownPosition (dimensions names : List String) (samples : Labels) (part : Row × Block) (n : Nat) :
    Nat :=
  (ownPositions dimensions names samples part)[n]?.getD 0

section Entry

variable {dimensions names : List String} {entry : Row × Block} {parts : List (Row × Block)}
  {arranged : List (Row × Source)} {found : Block} (divided : EntryDivided names entry parts)
  (values : ∀ value ∈ (entry.2.samples.projected names).rows,
    Labels.valuesOf dimensions names (entry.1 ++ value) = value)

include divided values

/-- The samples of the parts, with their values behind them, are the grouped samples. -/
theorem EntryDivided.rows_continued :
    (continuedRows (fun block => block.samples.rows) (Labels.valuesOf dimensions names) parts).map
      (·.1) = (groupedSamples names entry.2.samples).rows := by
  have each : (entry.2.samples.projected names).rows.map (fun value =>
        (entry.2.samples.rows.filter fun row =>
          Labels.valuesOf entry.2.samples.names names row == value).map
            (lastColumns entry.2.samples.names names)) =
      parts.map fun part =>
        part.2.samples.rows.map (· ++ Labels.valuesOf dimensions names part.1) := by
    apply map_eq_map_of_forall₂ (forall₂_imp_of_mem divided.samples ?_) fun _ _ same => same
    rintro value isValue part _ ⟨key, _, rows⟩
    rw [rows, rowsWith_eq, key, values value isValue, List.map_map]
    refine List.map_congr_left fun row member => ?_
    rw [← beq_iff_eq.mp (List.mem_filter.mp member).2]
    rfl
  rw [map_fst_continuedRows, List.flatMap_def, ← each, ← List.flatMap_def]
  rfl

theorem EntryDivided.standing (nodup : (parts.map (·.1)).Nodup) {part : Row × Block}
    (isPart : part ∈ parts) :
    ((entry.2.samples.projected names).rows.map fun value =>
        positionsWith entry.2.samples.names names value
          entry.2.samples.rows)[(parts.map (·.1)).idxOf part.1]? =
      some (ownPositions dimensions names entry.2.samples part) := by
  obtain ⟨value, isValue, key, _⟩ :=
    exists_getElem?_right divided.samples.flip (getElem?_idxOf_key nodup isPart)
  rw [List.getElem?_map, isValue, Option.map_some, ownPositions, key,
    values value (List.mem_of_getElem? isValue)]

/-- A sample of a part has what is left of its row, and its value is that of the part. -/
theorem EntryDivided.exists_row {part : Row × Block} (isPart : part ∈ parts) {n : Nat}
    (inside : n < part.2.samples.count) :
    ∃ p row, (ownPositions dimensions names entry.2.samples part)[n]? = some p ∧
      entry.2.samples.rows[p]? = some row ∧
      part.2.samples.rows[n]?.getD [] ++ Labels.valuesOf dimensions names part.1 =
        lastColumns entry.2.samples.names names row := by
  obtain ⟨value, isValue, key, _, rows⟩ := exists_of_mem_right divided.samples isPart
  have values := values value isValue
  rw [← key] at values
  have small : n < (positionsWith entry.2.samples.names names value
      entry.2.samples.rows).length := by
    rw [Labels.count_eq, rows, rowsWith, List.length_map] at inside
    rwa [positionsWith, List.length_map]
  obtain ⟨row, isRow, holds, rest⟩ :=
    exists_row_of_positionsWith (List.getElem?_eq_getElem small)
  refine ⟨_, row, ?_, isRow, ?_⟩
  · rw [ownPositions, values]
    exact List.getElem?_eq_getElem small
  · rw [rows, rest, Option.getD_some, values, lastColumns, holds]

theorem EntryDivided.placed {part : Row × Block} (isPart : part ∈ parts) {n : Nat}
    (inside : n < part.2.samples.count) :
    (ownPositions dimensions names entry.2.samples part)[n]? =
      some (ownPosition dimensions names entry.2.samples part n) := by
  obtain ⟨p, _, standing, _⟩ := divided.exists_row values isPart inside
  rw [ownPosition, standing, Option.getD_some]

/-- A sample of a part goes where the sample of the block goes that it was. -/
theorem EntryDivided.sampleRow_eq (rows : found.samples.rows =
      (groupedSamples names entry.2.samples).rows) (distinct : found.samples.rows.Nodup)
    {part : Row × Block} (isPart : part ∈ parts) {n : Nat} (inside : n < part.2.samples.count) :
    sampleRow dimensions names found part n =
      (groupedPositions names entry.2.samples).idxOf
        (ownPosition dimensions names entry.2.samples part n) := by
  obtain ⟨p, row, standing, isRow, whole⟩ := divided.exists_row values isPart inside
  have place : found.samples.rows[(groupedPositions names entry.2.samples).idxOf p]? =
      some (lastColumns entry.2.samples.names names row) := by
    have small := (List.getElem?_eq_some_iff.mp isRow).1
    rw [← Labels.count_eq] at small
    rw [rows, getElem?_groupedSamples small, columnsLast, List.getElem?_map, isRow, Option.map_some]
  have first := (idxOf?_eq_some_iff_getElem? distinct).mpr place
  rw [idxOf?_of_mem (List.mem_of_getElem? place)] at first
  rw [sampleRow, continuedRow, whole, Option.some.inj first, ownPosition, standing,
    Option.getD_some]

/-- The block is assembled of its parts, also with the columns in another order. -/
theorem EntryDivided.assembled (nodup : (parts.map (·.1)).Nodup) (nonempty : parts ≠ [])
    (inner : ∀ part ∈ parts, part.2.Consistent) (consistent : entry.2.Consistent)
    (regular : entry.2.Labelled Labels.Regular) :
    Block.Assembled (· ∈ parts) (fun _ p => p) Prod.snd
      (ownPosition dimensions names entry.2.samples)
      (entry.2.relabelled (columnsLast names entry.2.samples)) := by
  apply Block.Assembled.relabelled _ count_columnsLast
  exact divided.divided.assembled (listed_group nodup) (mt List.map_eq_nil_iff.mp nonempty)
    (fun part isPart => divided.standing values nodup isPart)
    (fun part isPart n inside => divided.placed values isPart inside)
    (List.forall_mem_map.mpr inner) consistent regular

/-- What is gathered from the parts of a block is the block with its samples grouped. -/
theorem EntryDivided.regrouped (nodup : (parts.map (·.1)).Nodup) (nonempty : parts ≠ [])
    (inner : ∀ part ∈ parts, part.2.Consistent) (consistent : entry.2.Consistent)
    (valid : entry.2.Labelled Labels.Valid)
    (known : ∀ name ∈ names, name ∈ entry.2.samples.names)
    (made : GroupGathered dimensions names false parts arranged found)
    (assembled : Block.Assembled (· ∈ parts) (fun _ p => p) Prod.snd
      (sampleRow dimensions names found) found) : Regrouped names entry.2 found := by
  -- without sorting, the samples stay in the order of the parts
  have order : arranged = continuedRows (fun block => block.samples.rows)
      (Labels.valuesOf dimensions names) parts := made.order
  have rows : found.samples.rows = (groupedSamples names entry.2.samples).rows := by
    rw [made.rows, order, divided.rows_continued values]
  obtain ⟨part, isPart⟩ := List.exists_mem_of_ne_nil _ nonempty
  have sampleNames : found.samples.names = staying entry.2.samples.names names ++ names := by
    obtain ⟨_, _, _, names, _⟩ := exists_of_mem_right divided.samples isPart
    rw [made.sampleNames part isPart, names]
  have samples : found.samples = groupedSamples names entry.2.samples :=
    Labels.ext_iff.mpr ⟨sampleNames, rows⟩
  have properties : entry.2.properties = found.properties := by
    have isBlock := List.mem_map_of_mem (f := Prod.snd) isPart
    obtain ⟨_, _, takes⟩ := exists_of_mem_right divided.divided.taken isBlock
    exact takes.properties.symm.trans (made.gathered.level.properties _ isBlock)
  have regular := regular_columnsLast valid.own.samples known
  have whole := divided.assembled values nodup nonempty inner consistent valid.regular
  refine ⟨samples, fun n inside => ?_, ?_⟩
  · rw [rows]
    exact getElem?_groupedSamples inside
  · apply whole.reordered assembled ⟨part, isPart⟩ _ sampleNames.symm properties
      idxOf_groupedPositions_inj inner
      (consistent.relabelled count_columnsLast (mem_names_columnsLast known)) made.consistent
      (valid.regular.relabelled regular)
    exact fun part isPart n inside =>
      divided.sampleRow_eq values rows made.valid.own.samples.nodup isPart inside

end Entry

/-! ### The whole map -/

section Map

variable {map split : BlockMap} {names : List String} {lists : List (List (Row × Block))}
  (consistent : map.Consistent) (valid : map.Labelled Labels.Valid)
  (into : SplitInto map names lists split) (h : map.splitSamples names = .ok split)

/-- The blocks of a map that was split are parts of blocks. -/
theorem SplitInto.exists_partOf (into : SplitInto map names lists split) {block : Block}
    (isBlock : block ∈ split.blocks) :
    ∃ entry ∈ map.entries, ∃ value, PartOf names entry.2 value block := by
  rw [← map_snd_entries into.consistent.count, into.entries] at isBlock
  obtain ⟨part, isPart, rfl⟩ := List.mem_map.mp isBlock
  obtain ⟨entry, isEntry, value, _, _, related⟩ := FallsApart.isPart into.parts part isPart
  exact ⟨entry, isEntry, value, related⟩

include consistent valid into h

theorem SplitInto.labelled : split.Labelled Labels.Valid := by
  obtain ⟨some, nodup, identifiers, new, known, _⟩ := splitSamples_known consistent valid h
  refine ⟨into.keys ▸ valid_splitKeys consistent valid identifiers nodup new some known, ?_⟩
  intro block isBlock
  obtain ⟨_, _, _, related⟩ := into.exists_partOf isBlock
  exact related.valid

theorem SplitInto.staying_names : staying split.keys.names names = map.keys.names := by
  obtain ⟨_, _, _, new, _⟩ := splitSamples_known consistent valid h
  rw [into.keys]
  exact staying_append fun name isKey moved => new name moved isKey

/-- The key of a part tells which block it is a part of. -/
theorem SplitInto.restOf_append (named : map.keys.names ≠ []) {key value : Row}
    (isKey : key ∈ map.keys.rows) : restOf split.keys.names names (key ++ value) = key := by
  have stays := into.staying_names consistent valid h
  rw [restOf, if_neg (stays ▸ named), stays, into.keys]
  exact Labels.valuesOf_append_left (valid.keys.width key isKey) valid.keys.distinct

/-- There are parts exactly of the blocks that have samples. -/
theorem SplitInto.keyed (named : map.keys.names ≠ []) : List.Forall₂
    (fun entry parts => (∀ part ∈ parts, restOf split.keys.names names part.1 = entry.1) ∧
      ((entry.2.samples.count != 0) = true ↔ parts ≠ [])) map.entries lists := by
  apply forall₂_imp_of_mem into.parts
  intro entry isEntry parts _ apart
  constructor
  · intro part isPart
    obtain ⟨value, _, key, _⟩ := exists_of_mem_right apart isPart
    rw [key]
    exact into.restOf_append consistent valid h named (List.of_mem_zip isEntry).1
  · have none : (entry.2.samples.projected names).rows = [] ↔ parts = [] := by
      rw [← List.length_eq_zero_iff, ← List.length_eq_zero_iff, apart.length_eq]
    rw [bne_iff_ne, ne_eq, Labels.count_eq_zero_iff, ← rows_projected_eq_nil_iff names, none]

/-- The key of a part tells which value its samples had. -/
theorem SplitInto.valuesOf_append {entry : Row × Block} (isEntry : entry ∈ map.entries) :
    ∀ value ∈ (entry.2.samples.projected names).rows,
      Labels.valuesOf split.keys.names names (entry.1 ++ value) = value := by
  intro value isValue
  obtain ⟨_, _, _, _, known, _⟩ := splitSamples_known consistent valid h
  have inMap := List.of_mem_zip isEntry
  obtain ⟨row, isRow, rfl⟩ := List.mem_map.mp (List.mem_eraseDups.mp isValue)
  have width := (valid.blocks _ inMap.2).own.samples.width row isRow
  have distinct := (into.labelled consistent valid h).keys.distinct
  rw [into.keys] at distinct ⊢
  exact Labels.valuesOf_append_right (valid.keys.width _ inMap.1) distinct
    (Labels.length_valuesOf (known _ inMap.2) width)

/-- The group of a key is made of the parts of its block. -/
theorem SplitInto.groupOf_eq (named : map.keys.names ≠ []) {entry : Row × Block}
    {parts : List (Row × Block)} (paired : (entry, parts) ∈ map.entries.zip lists) :
    split.groupOf names entry.1 = parts := by
  rw [groupOf, into.entries]
  exact filter_flatten_eq (nodup_keys_entries valid.keys.nodup consistent.count)
    ((into.keyed consistent valid h named).imp fun _ _ keyed => keyed.1) paired

/-- What is left of the keys are the keys of the blocks that have samples. -/
theorem SplitInto.keysWithout_eq (named : map.keys.names ≠ []) :
    split.keysWithout names = .of map.keys.names
      ((map.entries.filter fun entry => entry.2.samples.count != 0).map (·.1)) := by
  apply Labels.ext_iff.mpr
  constructor
  · rw [names_keysWithout, namesLeft, into.staying_names consistent valid h, if_neg named]
    rfl
  · rw [rows_keysWithout, ← map_fst_entries into.consistent.count, into.entries, List.map_map]
    exact eraseDups_map_flatten (nodup_keys_entries valid.keys.nodup consistent.count)
      (into.keyed consistent valid h named)

/-- The dimensions can be moved back. -/
theorem SplitInto.mergeable (numbered : ∀ block ∈ map.blocks, block.Numbered)
    (named : map.keys.names ≠ []) : split.Mergeable names := by
  obtain ⟨some, nodup, _, _, known, _⟩ := splitSamples_known consistent valid h
  refine ⟨some, nodup, ?_, ?_, ?_⟩
  · intro name moved
    rw [into.keys]
    exact List.mem_append_right _ moved
  · intro block isBlock name moved
    obtain ⟨entry, isEntry, _, related⟩ := into.exists_partOf isBlock
    have inMap := (List.of_mem_zip isEntry).2
    rw [related.sampleNames, ← related.gathered.level.components _ (List.mem_singleton_self _)]
    exact ⟨fun stays => (mem_staying.mp stays).2 moved, fun isAxis =>
      ((consistent.blocks _ inMap).own.newNames name isAxis).1 (known _ inMap name moved)⟩
  · intro rest isRest
    rw [into.keysWithout_eq consistent valid h named] at isRest
    obtain ⟨entry, kept, rfl⟩ := List.mem_map.mp isRest
    have isEntry := List.mem_of_mem_filter kept
    have inMap := (List.of_mem_zip isEntry).2
    obtain ⟨parts, paired, apart⟩ := exists_mem_zip_of_mem_left into.parts isEntry
    rw [into.groupOf_eq consistent valid h named paired]
    have own := consistent.blocks _ inMap
    exact (apart.divided own (numbered _ inMap)).divided.compatible own (numbered _ inMap)

/-- What is gathered from the group of a key is the block of this key with its samples grouped. -/
theorem SplitInto.regrouped (numbered : ∀ block ∈ map.blocks, block.Numbered)
    (named : map.keys.names ≠ []) {entry : Row × Block} (isEntry : entry ∈ map.entries)
    {arranged : List (Row × Source)} {found : Block}
    (gathered : GroupGathered split.keys.names names false (split.groupOf names entry.1) arranged
      found)
    (numbered' : found.Numbered) (nonempty : split.groupOf names entry.1 ≠ []) :
    Regrouped names entry.2 found := by
  have valid' := into.labelled consistent valid h
  have inMap := (List.of_mem_zip isEntry).2
  obtain ⟨_, _, _, _, known, _⟩ := splitSamples_known consistent valid h
  obtain ⟨parts, paired, apart⟩ := exists_mem_zip_of_mem_left into.parts isEntry
  -- the found block and the old one are assembled of the same parts
  have assembled := gathered.assembled valid'.keys.toRegular into.consistent nonempty numbered'
  have nodup := nodup_keys_groupOf valid'.keys.nodup into.consistent.count names entry.1
  have inner := consistent_groupOf into.consistent names entry.1
  rw [into.groupOf_eq consistent valid h named paired] at gathered assembled nonempty nodup inner
  have divided := apart.divided (consistent.blocks _ inMap) (numbered _ inMap)
  exact divided.regrouped (into.valuesOf_append consistent valid h isEntry) nodup nonempty inner
    (consistent.blocks _ inMap) (valid.blocks _ inMap) (known _ inMap) gathered assembled

end Map

/-- A map with the blocks of another one that have samples, under their keys, with the samples
grouped. -/
structure SplitUndone (map : BlockMap) (names : List String) (back : BlockMap) : Prop where
  mixedProperties : back.mixedProperties = map.mixedProperties
  keyNames : back.keys.names = map.keys.names
  keyRows : back.keys.rows =
    (map.entries.filter fun entry => entry.2.samples.count != 0).map (·.1)
  blocks : List.Forall₂ (fun entry found => Regrouped names entry.2 found)
    (map.entries.filter fun entry => entry.2.samples.count != 0) back.blocks

/-- Moving sample dimensions into the keys and back gives the same map, up to the grouping of the
samples and without the blocks that have none. -/
theorem mergeSamples_splitSamples {map split : BlockMap} {names : List String}
    (consistent : map.Consistent) (valid : map.Labelled Labels.Valid)
    (numbered : ∀ block ∈ map.blocks, block.Numbered) (named : map.keys.names ≠ [])
    (h : map.splitSamples names = .ok split) :
    ∃ back, split.mergeSamples names false = .ok back ∧ SplitUndone map names back := by
  obtain ⟨lists, into⟩ := splitInto_of_split consistent valid numbered h
  have valid' := into.labelled consistent valid h
  have can := into.mergeable consistent valid h numbered named
  obtain ⟨back, made, numbered'⟩ := can.exists_merged into.consistent valid' false
  obtain ⟨_, _, mixed, keys, all⟩ := mergeSamples_eq_ok into.consistent valid' made
  have left := keys.trans (into.keysWithout_eq consistent valid h named)
  refine ⟨back, made, mixed.trans into.mixedProperties, by rw [left]; rfl, by rw [left]; rfl, ?_⟩
  rw [left, Labels.of, List.forall₂_map_left_iff] at all
  apply forall₂_imp_of_mem all
  rintro entry kept found isFound ⟨arranged, gathered⟩
  have isRest : entry.1 ∈ (split.keysWithout names).rows := by
    rw [into.keysWithout_eq consistent valid h named]
    exact List.mem_map_of_mem kept
  obtain ⟨part, inGroup⟩ := exists_mem_groupOf into.consistent.count isRest
  exact into.regrouped consistent valid h numbered named (List.mem_of_mem_filter kept) gathered
    (numbered' found isFound) (List.ne_nil_of_mem inGroup)

theorem pairedMap_undone : ∃ split, pairedMap.splitSamples ["b"] = .ok split ∧
    ∃ back, split.mergeSamples ["b"] false = .ok back ∧ SplitUndone pairedMap ["b"] back := by
  obtain ⟨split, h⟩ := exists_split_pairedMap
  exact ⟨split, h, mergeSamples_splitSamples (by decide) (by decide) (by decide) (by decide) h⟩

end LabeledBlocks.BlockMap
