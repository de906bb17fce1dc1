import LabeledBlocks.BlockMap.SplitSamples
import LabeledBlocks.Proofs.Block.Compatible
import LabeledBlocks.Proofs.BlockMap.Grouping

/-!
# Moving sample dimensions into the keys

Every block falls apart into one part for each value that its samples have in the dimensions that
move. A part has the samples with this value, in their order, and what belongs to them.

* `BlockMap.PartOf` — what a part of a block is.
* `BlockMap.FallsApart`, `BlockMap.SplitInto` — what the parts of one block and of a map are.
* `BlockMap.exists_splitBlock`, `BlockMap.exists_splitSamples` — blocks and maps can be split.
* `BlockMap.splitSamples_known`, `BlockMap.splitInto_of_split` — when a map was split.
-/

namespace LabeledBlocks.BlockMap

/-- The rows that have a value in the dimensions of some names, and where they stand. -/
def entriesWith (dimensions names : List String) (value : Row) (rows : List Row) :
    List (Row × Nat) :=
  rows.zipIdx.filter fun entry => Labels.valuesOf dimensions names entry.1 == value

def rowsWith (dimensions names : List String) (value : Row) (rows : List Row) : List Row :=
  (entriesWith dimensions names value rows).map fun entry =>
    Labels.valuesOf dimensions (staying dimensions names) entry.1

def positionsWith (dimensions names : List String) (value : Row) (rows : List Row) : List Nat :=
  (entriesWith dimensions names value rows).map (·.2)

/-- The part of a block that belongs to a value. -/
structure PartOf (names : List String) (block : Block) (value : Row) (part : Block) : Prop where
  sampleNames : part.samples.names = staying block.samples.names names
  rows : part.samples.rows = rowsWith block.samples.names names value block.samples.rows
  gathered : Block.Gathered [block]
    (Block.samplesAt 0 (positionsWith block.samples.names names value block.samples.rows)) part
  consistent : part.Consistent
  valid : part.Labelled Labels.Valid

/-! ### One block -/

section Rows

variable {dimensions names : List String} {value : Row} {rows : List Row}

theorem rowsWith_eq (dimensions names : List String) (value : Row) (rows : List Row) :
    rowsWith dimensions names value rows =
      (rows.filter fun row => Labels.valuesOf dimensions names row == value).map
        (Labels.valuesOf dimensions (staying dimensions names)) := by
  conv => rhs; rw [← List.zipIdx_map_fst 0 rows, List.filter_map, List.map_map]
  rfl

theorem lt_of_mem_positionsWith {p : Nat}
    (member : p ∈ positionsWith dimensions names value rows) : p < rows.length := by
  obtain ⟨entry, kept, rfl⟩ := List.mem_map.mp member
  have := List.snd_lt_of_mem_zipIdx (List.mem_of_mem_filter kept)
  omega

theorem nodup_positionsWith : (positionsWith dimensions names value rows).Nodup := by
  have positions : (rows.zipIdx.map (·.2)).Nodup := by
    rw [List.zipIdx_map_snd]
    exact List.nodup_range'
  exact positions.sublist (List.filter_sublist.map _)

/-- Different rows with the same value are different in the other dimensions. -/
theorem nodup_rowsWith (nodup : dimensions.Nodup) (known : ∀ name ∈ names, name ∈ dimensions)
    (width : ∀ row ∈ rows, row.length = dimensions.length) (distinct : rows.Nodup) :
    (rowsWith dimensions names value rows).Nodup := by
  have kept : ((entriesWith dimensions names value rows).map (·.1)).Nodup := by
    refine List.Nodup.sublist (List.filter_sublist.map _) ?_
    rwa [List.zipIdx_map_fst]
  refine List.pairwise_map.mpr ((List.pairwise_map.mp kept).imp_of_mem ?_)
  intro a b ha hb different rest
  rw [entriesWith, List.mem_filter, beq_iff_eq] at ha hb
  exact different (eq_of_valuesOf nodup known (width _ (List.fst_mem_of_mem_zipIdx ha.1))
    (width _ (List.fst_mem_of_mem_zipIdx hb.1)) rest (ha.2.trans hb.2.symm))

end Rows

def partSamples (names : List String) (samples : Labels) (value : Row) : Labels where
  names := staying samples.names names
  rows := rowsWith samples.names names value samples.rows

/-- The samples of a part are valid labels. -/
theorem valid_partSamples {names : List String} {samples : Labels} (valid : samples.Valid)
    (known : ∀ name ∈ names, name ∈ samples.names)
    (some : staying samples.names names ≠ []) (value : Row) :
    (partSamples names samples value).Valid := by
  have stays : ∀ name ∈ staying samples.names names, name ∈ samples.names :=
    fun name member => (mem_staying.mp member).1
  refine ⟨⟨?_, ?_⟩, ?_, ?_, fun none => absurd none some⟩
  · intro row member
    obtain ⟨entry, kept, rfl⟩ := List.mem_map.mp member
    exact Labels.length_valuesOf stays
      (valid.width entry.1 (List.fst_mem_of_mem_zipIdx (List.mem_of_mem_filter kept)))
  · exact nodup_rowsWith valid.distinct known valid.width valid.nodup
  · exact fun name member => valid.identifiers name (stays name member)
  · exact valid.distinct.sublist List.filter_sublist

/-- The rows of a part are cut down to the dimensions that stay. -/
theorem partRows_eq {dimensions names : List String} {entries : List (Row × Nat)}
    (width : ∀ entry ∈ entries, entry.1.length = dimensions.length) :
    partRows ((staying dimensions names).map dimensions.idxOf) entries =
      .ok (entries.map fun entry =>
        (Labels.valuesOf dimensions (staying dimensions names) entry.1, ⟨0, entry.2⟩)) := by
  have stays : ∀ name ∈ staying dimensions names, name ∈ dimensions :=
    fun name member => (mem_staying.mp member).1
  refine mapM_eq_map fun entry member => ?_
  rw [movedValues_eq stays (width entry member)]
  rfl

section Block

variable {names : List String} {block : Block} (consistent : block.Consistent)
  (valid : block.Labelled Labels.Valid) (numbered : block.Numbered)
  (known : ∀ name ∈ names, name ∈ block.samples.names)
  (some : staying block.samples.names names ≠ [])

include consistent valid numbered known some

/-- The samples with a value can be taken out of the block. -/
theorem exists_part (value : Row) : ∃ part,
    Block.joinSamples block [] (partSamples names block.samples value)
      (Block.samplesAt 0 (positionsWith block.samples.names names value block.samples.rows)) =
        .ok part ∧
    PartOf names block value part := by
  have valid' := valid_partSamples valid.own.samples known some value
  have nodup : (positionsWith block.samples.names names value block.samples.rows).Nodup :=
    nodup_positionsWith
  have count : (partSamples names block.samples value).count =
      (positionsWith block.samples.names names value block.samples.rows).length := by
    rw [Labels.count_eq, positionsWith, List.length_map]
    exact List.length_map _
  obtain ⟨part, made⟩ := Block.exists_joinSamples consistent valid numbered valid'.toRegular nodup
    (fun p member => block.samples.count_eq ▸ lt_of_mem_positionsWith member) count
    fun name named isSample => (consistent.own.newNames name named).1 (mem_staying.mp isSample).1
  have one : ∀ other ∈ [block], other = block := fun other => List.mem_singleton.mp
  obtain ⟨gathered, consistent', valid''⟩ := Block.gathered_joinSamples
    (fun other member => one other member ▸ consistent)
    (fun other member => one other member ▸ valid) valid' (Block.nodup_samplesAt.mpr nodup) made
  have axes := Block.joinSamples_axes made
  exact ⟨part, made, by rw [axes.1, partSamples], by rw [axes.1, partSamples], gathered,
    consistent', valid''⟩

/-- What is done for one value. -/
theorem part_eq_ok (value : Row) : ∃ part,
    (do
      let rows ← partRows ((staying block.samples.names names).map block.samples.names.idxOf)
        (entriesWith block.samples.names names value block.samples.rows)
      let part ← Labels.ofRows (staying block.samples.names names) (rows.map (·.1))
      pure (value, ← Block.joinSamples block [] part (rows.map (·.2)))) =
        Except.ok (value, part) ∧
    PartOf names block value part := by
  obtain ⟨part, joined, isPart⟩ := exists_part consistent valid numbered known some value
  have width : ∀ entry ∈ entriesWith block.samples.names names value block.samples.rows,
      entry.1.length = block.samples.names.length := fun entry member =>
    valid.own.samples.width entry.1 (List.fst_mem_of_mem_zipIdx (List.mem_of_mem_filter member))
  refine ⟨part, ?_, isPart⟩
  rw [partRows_eq width]
  refine bind_eq_ok.mpr ⟨_, rfl, bind_eq_ok.mpr ⟨partSamples names block.samples value, ?_,
    bind_eq_ok.mpr ⟨part, ?_, rfl⟩⟩⟩
  · rw [List.map_map]
    exact Labels.ofRows_of_valid (valid_partSamples valid.own.samples known some value)
  · rw [List.map_map]
    rw [Block.samplesAt, positionsWith, List.map_map] at joined
    exact joined

/-- A block falls apart into one part for every value that its samples have. -/
theorem exists_splitBlock : ∃ parts, splitBlock names block = .ok parts ∧
    List.Forall₂ (fun value part => part.1 = value ∧ PartOf names block value part.2)
      (block.samples.projected names).rows parts := by
  have stays := map_idxOf_staying valid.own.samples.distinct names
  have remaining : ((List.range block.samples.size).filter
      (· ∉ names.map block.samples.names.idxOf)).isEmpty = false := by
    rw [Labels.size, ← stays, List.isEmpty_eq_false_iff, ne_eq, List.map_eq_nil_iff]
    exact some
  have grouped : groupsByNumber (block.samples.projected names).count
      (block.samples.rows.zipIdx.zip (block.samples.rows.map fun row =>
        (block.samples.projected names).rows.idxOf
          (Labels.valuesOf block.samples.names names row))) =
      (block.samples.projected names).rows.map fun value =>
        entriesWith block.samples.names names value block.samples.rows := by
    rw [Labels.count_eq]
    refine groupsByNumber_idxOf (nodup_eraseDups _) ?_
    conv => lhs; rw [← List.zipIdx_map_fst 0 block.samples.rows, List.map_map]
    rfl
  have found := Labels.dimensions_eq_ok_iff.mpr ⟨known, rfl⟩
  simp only [splitBlock, found, ok_bind_eq, remaining, Bool.false_eq_true, if_false,
    Labels.project_eq known, grouped, mapM_eq_ok, zip_map_self, List.forall₂_map_left_iff]
  rw [Labels.size, ← stays, namesWithout_idxOf valid.own.samples.distinct]
  refine exists_forall₂_and fun value _ => ?_
  obtain ⟨part, made, isPart⟩ := part_eq_ok consistent valid numbered known some value
  exact ⟨(value, part), made, rfl, isPart⟩

end Block

/-! ### The whole map -/

/-- Names are accepted for a split when they are distinct and new to the keys. -/
theorem checkSplitNames_eq_ok_iff {keys : Labels} {earlier names : List String} :
    checkSplitNames keys earlier names = .ok () ↔
      names.Nodup ∧ (∀ name ∈ names, name ∉ earlier) ∧ ∀ name ∈ names, name ∉ keys.names := by
  induction names generalizing earlier with
  | nil => simp [checkSplitNames]
  | cons name names ih =>
    rw [checkSplitNames, refused_eq_ok, refused_eq_ok, ih, List.nodup_cons, List.forall_mem_cons,
      List.forall_mem_cons]
    simp only [List.mem_cons, not_or]
    constructor
    · rintro ⟨unseen, new, nodup, apart, others⟩
      exact ⟨⟨fun h => (apart name h).1 rfl, nodup⟩, ⟨unseen, fun other h => (apart other h).2⟩,
        new, others⟩
    · rintro ⟨⟨once, nodup⟩, ⟨unseen, apart⟩, new, others⟩
      exact ⟨unseen, new, nodup, fun other h => ⟨fun same => once (same ▸ h), apart other h⟩,
        others⟩

/-- Parts of blocks that go together go together. -/
theorem PartOf.agree {names : List String} {block block' part part' : Block} {value value' : Row}
    {mixedProperties : Bool} (h : PartOf names block value part)
    (h' : PartOf names block' value' part') (agree : Agree mixedProperties block block') :
    Agree mixedProperties part part' := by
  have one := List.mem_singleton_self block
  have one' := List.mem_singleton_self block'
  have level := h.gathered.level
  have level' := h'.gathered.level
  refine ⟨?_, ?_, ?_, ?_⟩
  · rw [h.sampleNames, h'.sampleNames, agree.sampleNames]
  · rw [← level.components block one, ← level'.components block' one', agree.componentNames]
  · intro same
    rw [← level.properties block one, ← level'.properties block' one', agree.propertyNames same]
  · rw [← level.parameters block one, ← level'.parameters block' one', agree.parameters]

def splitKeys (map : BlockMap) (names : List String) : Labels where
  names := map.keys.names ++ names
  rows := map.entries.flatMap fun entry =>
    (entry.2.samples.projected names).rows.map (entry.1 ++ ·)

/-- A part of one of the blocks of a map, under the key of this block followed by its value. -/
def IsPart (map : BlockMap) (names : List String) (part : Row × Block) : Prop :=
  ∃ entry ∈ map.entries, ∃ value ∈ (entry.2.samples.projected names).rows,
    part.1 = entry.1 ++ value ∧ PartOf names entry.2 value part.2

/-- The parts of the block of an entry, one for every value, each under the key of the block followed
by its value. -/
def FallsApart (names : List String) (entry : Row × Block) (parts : List (Row × Block)) : Prop :=
  List.Forall₂ (fun value part => part.1 = entry.1 ++ value ∧ PartOf names entry.2 value part.2)
    (entry.2.samples.projected names).rows parts

theorem FallsApart.keys {names : List String} {entry : Row × Block} {parts : List (Row × Block)}
    (h : FallsApart names entry parts) :
    parts.map (·.1) = (entry.2.samples.projected names).rows.map (entry.1 ++ ·) :=
  (map_eq_map_of_forall₂ h fun _ _ related => related.1.symm).symm

theorem FallsApart.isPart {map : BlockMap} {names : List String} {lists : List (List (Row × Block))}
    (all : List.Forall₂ (FallsApart names) map.entries lists) :
    ∀ part ∈ lists.flatten, IsPart map names part := by
  intro part member
  obtain ⟨parts, isList, inside⟩ := List.mem_flatten.mp member
  obtain ⟨entry, isEntry, apart⟩ := exists_of_mem_right all isList
  obtain ⟨value, isValue, isKey, related⟩ := exists_of_mem_right apart inside
  exact ⟨entry, isEntry, value, isValue, isKey, related⟩

/-- A map that was split: the parts of its blocks, one block after the other. -/
structure SplitInto (map : BlockMap) (names : List String) (lists : List (List (Row × Block)))
    (split : BlockMap) : Prop where
  consistent : split.Consistent
  mixedProperties : split.mixedProperties = map.mixedProperties
  keys : split.keys = map.splitKeys names
  entries : split.entries = lists.flatten
  parts : List.Forall₂ (FallsApart names) map.entries lists

/-- Parts of the blocks of a map go together, as the blocks do. -/
theorem IsPart.agree {map : BlockMap} {names : List String} {part part' : Row × Block}
    (h : IsPart map names part) (h' : IsPart map names part') (consistent : map.Consistent) :
    Agree map.mixedProperties part.2 part'.2 := by
  obtain ⟨entry, isEntry, value, _, _, isPart⟩ := h
  obtain ⟨entry', isEntry', value', _, _, isPart'⟩ := h'
  exact isPart.agree isPart' (consistent.agree _ (List.of_mem_zip isEntry).2 _
    (List.of_mem_zip isEntry').2)

section Map

variable {map : BlockMap} {names : List String} (consistent : map.Consistent)
  (valid : map.Labelled Labels.Valid)

include consistent valid

/-- Different values lead to different keys. -/
theorem nodup_splitKeys : (map.splitKeys names).rows.Nodup := by
  refine List.nodup_flatMap.mpr ⟨?_, ?_⟩
  · intro entry _
    exact (nodup_eraseDups _).map (List.append_right_injective entry.1)
  · have keys := nodup_keys_entries valid.keys.nodup consistent.count
    refine (List.pairwise_map.mp keys).imp_of_mem ?_
    intro a b ha hb different key isA isB
    obtain ⟨value, _, rfl⟩ := List.mem_map.mp isA
    obtain ⟨value', _, same⟩ := List.mem_map.mp isB
    have width := valid.keys.width _ (List.of_mem_zip ha).1
    have width' := valid.keys.width _ (List.of_mem_zip hb).1
    exact different (List.append_inj_left same (width'.trans width.symm)).symm

/-- The keys of the parts are valid labels. -/
theorem valid_splitKeys (identifiers : ∀ name ∈ names, Labels.IsIdentifier name)
    (nodup : names.Nodup) (new : ∀ name ∈ names, name ∉ map.keys.names) (some : names ≠ [])
    (known : ∀ block ∈ map.blocks, ∀ name ∈ names, name ∈ block.samples.names) :
    (map.splitKeys names).Valid := by
  refine ⟨⟨?_, nodup_splitKeys consistent valid⟩, ?_, ?_, ?_⟩
  · intro key member
    obtain ⟨entry, isEntry, inside⟩ := List.mem_flatMap.mp member
    obtain ⟨value, isValue, rfl⟩ := List.mem_map.mp inside
    have isBlock := (List.of_mem_zip isEntry).2
    obtain ⟨row, isRow, rfl⟩ := List.mem_map.mp (List.mem_eraseDups.mp isValue)
    have width := (valid.blocks _ isBlock).own.samples.width row isRow
    rw [List.length_append, valid.keys.width _ (List.of_mem_zip isEntry).1,
      Labels.length_valuesOf (known _ isBlock) width]
    exact (List.length_append ..).symm
  · intro name member
    rcases List.mem_append.mp member with isKey | isNew
    · exact valid.keys.identifiers name isKey
    · exact identifiers name isNew
  · refine List.nodup_append.mpr ⟨valid.keys.distinct, nodup, ?_⟩
    rintro name isKey other isNew rfl
    exact new name isNew isKey
  · exact fun none => absurd (List.append_eq_nil_iff.mp none).2 some

/-- The parts of one block come under the keys they get in the map. -/
theorem exists_splitEntry {entry : Row × Block} (isEntry : entry ∈ map.entries)
    (numbered : entry.2.Numbered) (known : ∀ name ∈ names, name ∈ entry.2.samples.names)
    (left : staying entry.2.samples.names names ≠ []) : ∃ parts,
    (do pure ((← splitBlock names entry.2).map fun part => (entry.1 ++ part.1, part.2))) =
      Except.ok (ε := Error) parts ∧ FallsApart names entry parts := by
  have isBlock := (List.of_mem_zip isEntry).2
  obtain ⟨parts, made, all⟩ := exists_splitBlock (consistent.blocks _ isBlock)
    (valid.blocks _ isBlock) numbered known left
  refine ⟨parts.map fun part => (entry.1 ++ part.1, part.2), bind_eq_ok.mpr ⟨parts, made, rfl⟩, ?_⟩
  rw [FallsApart, List.forall₂_map_right_iff]
  exact all.imp fun value part related => ⟨by rw [related.1], related.2⟩

/-- A map falls apart into the parts of its blocks, one block after the other. -/
theorem exists_splitLists (numbered : ∀ block ∈ map.blocks, block.Numbered)
    (identifiers : ∀ name ∈ names, Labels.IsIdentifier name) (nodup : names.Nodup)
    (new : ∀ name ∈ names, name ∉ map.keys.names) (some : names ≠ [])
    (known : ∀ block ∈ map.blocks, ∀ name ∈ names, name ∈ block.samples.names)
    (left : ∀ block ∈ map.blocks, staying block.samples.names names ≠ []) :
    ∃ split lists, map.splitSamples names = .ok split ∧ SplitInto map names lists split := by
  have each := fun entry (isEntry : entry ∈ map.entries) =>
    have isBlock := (List.of_mem_zip isEntry).2
    exists_splitEntry consistent valid isEntry (numbered _ isBlock) (known _ isBlock)
      (left _ isBlock)
  obtain ⟨lists, made, all⟩ := exists_forall₂_and each
  have keys : lists.flatten.map (·.1) = (map.splitKeys names).rows := by
    have each : lists.map (·.map (·.1)) = map.entries.map fun entry =>
        (entry.2.samples.projected names).rows.map (entry.1 ++ ·) :=
      map_eq_map_of_forall₂ all.flip fun _ _ h => FallsApart.keys h
    rw [List.map_flatten, each, ← List.flatMap_def]
    rfl
  have areParts := FallsApart.isPart all
  have count : (map.splitKeys names).count = (lists.flatten.map (·.2)).length := by
    rw [Labels.count_eq, ← keys, List.length_map, List.length_map]
  have agree : ∀ a ∈ lists.flatten.map (·.2), ∀ b ∈ lists.flatten.map (·.2),
      Agree map.mixedProperties a b := by
    intro a ha b hb
    obtain ⟨part, member, rfl⟩ := List.mem_map.mp ha
    obtain ⟨part', member', rfl⟩ := List.mem_map.mp hb
    exact (areParts part member).agree (areParts part' member') consistent
  refine ⟨⟨map.splitKeys names, lists.flatten.map (·.2), map.mixedProperties⟩, lists, ?_,
    ⟨count, ?_, agree⟩, rfl, rfl, ?_, all⟩
  · have someNames : names.isEmpty = false := List.isEmpty_eq_false_iff.mpr some
    have check := checkSplitNames_eq_ok_iff.mpr
      ⟨nodup, fun name (_ : name ∈ names) => List.not_mem_nil, new⟩
    have built := Labels.ofRows_of_valid
      (valid_splitKeys consistent valid identifiers nodup new some known)
    simp only [splitSamples, someNames, Bool.false_eq_true, if_false, check, ok_bind_eq,
      mapM_eq_ok.mpr made, keys]
    exact bind_eq_ok.mpr ⟨_, built, ofBlocks_eq_ok_iff.mpr ⟨count, agree, rfl⟩⟩
  · intro block member
    obtain ⟨part, isPart, rfl⟩ := List.mem_map.mp member
    obtain ⟨_, _, _, _, _, related⟩ := areParts part isPart
    exact related.consistent
  · rw [entries, ← keys, List.zip_map']
    exact List.map_id _

/-- A map falls apart into the parts of its blocks. -/
theorem exists_splitSamples (numbered : ∀ block ∈ map.blocks, block.Numbered)
    (identifiers : ∀ name ∈ names, Labels.IsIdentifier name) (nodup : names.Nodup)
    (new : ∀ name ∈ names, name ∉ map.keys.names) (some : names ≠ [])
    (known : ∀ block ∈ map.blocks, ∀ name ∈ names, name ∈ block.samples.names)
    (left : ∀ block ∈ map.blocks, staying block.samples.names names ≠ []) :
    ∃ split, map.splitSamples names = .ok split ∧ split.Consistent ∧
      split.mixedProperties = map.mixedProperties ∧ split.keys = map.splitKeys names ∧
      ∀ part ∈ split.entries, IsPart map names part := by
  obtain ⟨split, lists, made, into⟩ :=
    exists_splitLists consistent valid numbered identifiers nodup new some known left
  exact ⟨split, made, into.consistent, into.mixedProperties, into.keys,
    into.entries ▸ FallsApart.isPart into.parts⟩

/-! ### What the checks let through -/

omit consistent valid in
/-- A block is only split by names that it has, and one of its dimensions stays. -/
theorem splitBlock_known {block : Block} (distinct : block.samples.names.Nodup)
    {parts : List (Row × Block)} (h : splitBlock names block = .ok parts) :
    (∀ name ∈ names, name ∈ block.samples.names) ∧ staying block.samples.names names ≠ [] := by
  simp only [splitBlock, throw_bind_eq, bind_eq_ok, refused_eq_ok] at h
  obtain ⟨moved, found, some, _⟩ := h
  obtain ⟨known, rfl⟩ := Labels.dimensions_eq_ok_iff.mp found
  refine ⟨known, fun none => some ?_⟩
  rw [Labels.size, ← map_idxOf_staying distinct, none]
  rfl

/-- The names that move are sample dimensions of every block, and not all of them. -/
theorem splitSamples_known {split : BlockMap} (h : map.splitSamples names = .ok split) :
    names ≠ [] ∧ names.Nodup ∧ (∀ name ∈ names, Labels.IsIdentifier name) ∧
      (∀ name ∈ names, name ∉ map.keys.names) ∧
      (∀ block ∈ map.blocks, ∀ name ∈ names, name ∈ block.samples.names) ∧
      ∀ block ∈ map.blocks, staying block.samples.names names ≠ [] := by
  simp only [splitSamples, throw_bind_eq, refused_eq_ok, bind_eq_ok] at h
  obtain ⟨some, _, checked, parts, made, keys, built, _⟩ := h
  obtain ⟨nodup, _, new⟩ := checkSplitNames_eq_ok_iff.mp checked
  obtain ⟨⟨same, _⟩, validKeys⟩ := Labels.ofRows_eq_ok_iff.mp built
  have known : ∀ block ∈ map.blocks, (∀ name ∈ names, name ∈ block.samples.names) ∧
      staying block.samples.names names ≠ [] := by
    intro block member
    rw [← map_snd_entries consistent.count] at member
    obtain ⟨entry, isEntry, rfl⟩ := List.mem_map.mp member
    obtain ⟨_, _, split⟩ := exists_mem_zip_of_mem_left (mapM_eq_ok.mp made) isEntry
    obtain ⟨parts, split, _⟩ := bind_eq_ok.mp split
    exact splitBlock_known (valid.blocks _ (List.of_mem_zip isEntry).2).own.samples.distinct split
  refine ⟨fun none => some (by rw [none]; rfl), nodup, ?_, new, fun block member =>
    (known block member).1, fun block member => (known block member).2⟩
  intro name member
  exact validKeys.identifiers name (same ▸ List.mem_append_right _ member)

/-- What was split has fallen apart, as long as the samples can be numbered. -/
theorem splitInto_of_split {split : BlockMap} (numbered : ∀ block ∈ map.blocks, block.Numbered)
    (h : map.splitSamples names = .ok split) : ∃ lists, SplitInto map names lists split := by
  obtain ⟨some, nodup, identifiers, new, known, left⟩ := splitSamples_known consistent valid h
  obtain ⟨_, lists, made, into⟩ :=
    exists_splitLists consistent valid numbered identifiers nodup new some known left
  obtain rfl := Except.ok.inj (h.symm.trans made)
  exact ⟨lists, into⟩

end Map

end LabeledBlocks.BlockMap
