import LabeledBlocks.Proofs.BlockMap.MergeSamples
import LabeledBlocks.Proofs.BlockMap.SplitSamples

/-!
# Moving dimensions into the samples and back

When the dimensions that were moved from the keys into the samples are moved back, every block that
has samples is found again, behind what was left of its key followed by the values that moved. If
the samples were not sorted it is the same block; if they were, its samples are sorted, and what
belongs to them has followed.

* `BlockMap.exists_arranged_part` — the part of a merged block that belongs to a key.
* `BlockMap.splitSamples_mergeSamples` — moving back undoes the move.
-/

namespace LabeledBlocks.BlockMap

/-! ### One part of a merged block -/

/-- The rows that go on with the values of one key are those of its block. -/
theorem filter_continuedRows (rowsOf : Block → List Row) (continuation : Row → Row)
    {group : List (Row × Block)} {i : Nat} {key : Row} {block : Block}
    (found : group[i]? = some (key, block)) (p : Row → Bool)
    (holds : ∀ b key' block' row, group[b]? = some (key', block') → row ∈ rowsOf block' →
      (p (row ++ continuation key') = true ↔ b = i)) :
    (continuedRows rowsOf continuation group).filter (fun entry => p entry.1) =
      Block.extendRows (continuation key) i (rowsOf block) := by
  rw [continuedRows, List.filter_flatMap, flatMap_zipIdx_eq found]
  · rw [Nat.zero_add, List.filter_eq_self]
    intro entry member
    obtain ⟨⟨row, r⟩, inside, rfl⟩ := List.mem_map.mp member
    exact (holds i key block row found (List.fst_mem_of_mem_zipIdx inside)).mpr rfl
  · rintro ⟨⟨key', block'⟩, b⟩ isMember different
    rw [Nat.zero_add] at different
    rw [List.filter_eq_nil_iff]
    intro entry member
    obtain ⟨⟨row, r⟩, inside, rfl⟩ := List.mem_map.mp member
    have standing := List.mem_zipIdx_iff_getElem?.mp isMember
    exact mt (holds b key' block' row standing (List.fst_mem_of_mem_zipIdx inside)).mp different

/-- Rows that go on in the same way are in the order of what stands before. -/
theorem lt_of_append_lt_append {a b rest : Row} (length : a.length = b.length)
    (h : a ++ rest < b ++ rest) : a < b := by
  induction a generalizing b with
  | nil =>
    rw [List.eq_nil_of_length_eq_zero length.symm] at h
    exact absurd h (List.lt_irrefl rest)
  | cons x a ih =>
    cases b with
    | nil => cases length
    | cons y b =>
      rw [List.cons_append, List.cons_append, List.cons_lt_cons_iff] at h
      rw [List.cons_lt_cons_iff]
      exact h.imp_right fun same => ⟨same.1, ih (Nat.succ.inj length) same.2⟩

/-- The blocks of a group have samples of their own, and the keys of two of them never go on in the
same way. -/
structure GroupDistinct (dimensions names : List String) (group : List (Row × Block)) : Prop where
  regular : ∀ entry ∈ group, entry.2.samples.Regular
  width : ∀ entry ∈ group, (Labels.valuesOf dimensions names entry.1).length = names.length
  distinct : ∀ i j : Nat, ∀ entry entry' : Row × Block, group[i]? = some entry →
    group[j]? = some entry' →
    Labels.valuesOf dimensions names entry.1 = Labels.valuesOf dimensions names entry'.1 → i = j

section Part

variable {dimensions names : List String} {sorted : Bool} {group : List (Row × Block)}
  {arranged : List (Row × Source)} {merged part block : Block} {i : Nat} {key : Row}
  (made : GroupGathered dimensions names sorted group arranged merged)
  (distinct : GroupDistinct dimensions names group)

include made distinct

/-- A sample of the merged block has the values of one block and of its key. -/
theorem valuesOf_merged {entry : Row × Block} (isEntry : entry ∈ group) {row : Row}
    (isRow : row ∈ entry.2.samples.rows) :
    Labels.valuesOf merged.samples.names names (row ++ Labels.valuesOf dimensions names entry.1) =
        Labels.valuesOf dimensions names entry.1 ∧
      Labels.valuesOf merged.samples.names (staying merged.samples.names names)
          (row ++ Labels.valuesOf dimensions names entry.1) = row := by
  have width := (distinct.regular entry isEntry).width row isRow
  have nodup := made.valid.own.samples.distinct
  rw [made.sampleNames entry isEntry] at nodup ⊢
  obtain ⟨nodup', _, apart⟩ := List.nodup_append.mp nodup
  rw [staying_append fun name isName moved => apart name isName name moved rfl]
  exact ⟨Labels.valuesOf_append_right width nodup (distinct.width entry isEntry),
    Labels.valuesOf_append_left width nodup'⟩

/-- The values that the samples of the merged block have are those that moved, of the keys of the
blocks that have samples. -/
theorem mem_projected_merged {value : Row} :
    value ∈ (merged.samples.projected names).rows ↔ ∃ entry ∈ group,
      entry.2.samples.rows ≠ [] ∧ value = Labels.valuesOf dimensions names entry.1 := by
  have projected : value ∈ (merged.samples.projected names).rows ↔ ∃ row ∈ merged.samples.rows,
      Labels.valuesOf merged.samples.names names row = value :=
    List.mem_eraseDups.trans List.mem_map
  rw [projected, made.rows]
  constructor
  · rintro ⟨row, isRow, rfl⟩
    obtain ⟨⟨row, source⟩, inside, rfl⟩ := List.mem_map.mp isRow
    obtain ⟨key, block, own, found, standing, rfl⟩ :=
      mem_continuedRows.mp (made.order.perm.mem_iff.mp inside)
    have isEntry := List.mem_of_getElem? found
    have isOwn := List.mem_of_getElem? standing
    exact ⟨_, isEntry, List.ne_nil_of_mem isOwn, (valuesOf_merged made distinct isEntry isOwn).1⟩
  · rintro ⟨⟨key, block⟩, isEntry, some, rfl⟩
    obtain ⟨own, isOwn⟩ := List.exists_mem_of_ne_nil _ some
    obtain ⟨b, found⟩ := List.mem_iff_getElem?.mp isEntry
    obtain ⟨r, standing⟩ := List.mem_iff_getElem?.mp isOwn
    refine ⟨own ++ Labels.valuesOf dimensions names key, ?_,
      (valuesOf_merged made distinct isEntry isOwn).1⟩
    have inside := made.order.perm.mem_iff.mpr
      (mem_continuedRows.mpr ⟨key, block, own, found, standing, rfl⟩ :
        (_, (⟨b, r⟩ : Source)) ∈ continuedRows (fun block => block.samples.rows)
          (Labels.valuesOf dimensions names) group)
    exact List.mem_map_of_mem inside

/-- A row of the block at this position as it was before the move. -/
def takenBack (merged : Block) (names : List String) (entry : Row × Source) : Row × Source :=
  (Labels.valuesOf merged.samples.names (staying merged.samples.names names) entry.1,
    ⟨0, entry.2.index⟩)

/-- The rows of the merged block that go on with the values of one key. -/
def keptRows (merged : Block) (names : List String) (value : Row)
    (arranged : List (Row × Source)) : List (Row × Source) :=
  arranged.filter fun entry => Labels.valuesOf merged.samples.names names entry.1 == value

variable (found : group[i]? = some (key, block))

include found

/-- The rows with the values of one key are those of its block. -/
theorem keptRows_continuedRows :
    keptRows merged names (Labels.valuesOf dimensions names key)
        (continuedRows (fun block => block.samples.rows) (Labels.valuesOf dimensions names) group) =
      Block.extendRows (Labels.valuesOf dimensions names key) i block.samples.rows := by
  refine filter_continuedRows (fun block => block.samples.rows) (Labels.valuesOf dimensions names)
    found (Labels.valuesOf merged.samples.names names · == Labels.valuesOf dimensions names key) ?_
  intro b key' block' row standing isRow
  rw [(valuesOf_merged made distinct (List.mem_of_getElem? standing) isRow).1, beq_iff_eq]
  constructor
  · exact fun same => distinct.distinct b i _ _ standing found same
  · rintro rfl
    cases standing.symm.trans found
    rfl

theorem keptRows_perm :
    (keptRows merged names (Labels.valuesOf dimensions names key) arranged).Perm
      (Block.extendRows (Labels.valuesOf dimensions names key) i block.samples.rows) := by
  rw [← keptRows_continuedRows made distinct found]
  exact made.order.perm.filter _

theorem map_takenBack_extendRows :
    (Block.extendRows (Labels.valuesOf dimensions names key) i block.samples.rows).map
        (takenBack merged names) = Block.sourcedRows [block] := by
  have alone : Block.sourcedRows [block] =
      block.samples.rows.zipIdx.map fun row => (row.1, ⟨0, row.2⟩) := List.flatMap_singleton ..
  rw [alone, Block.extendRows, List.map_map]
  refine List.map_congr_left fun entry member => ?_
  have isRow := List.fst_mem_of_mem_zipIdx member
  have isEntry := List.mem_of_getElem? found
  rw [Function.comp_apply, takenBack, (valuesOf_merged made distinct isEntry isRow).2]

/-- The rows that are taken back are arranged as the merged rows are. -/
theorem arranged_takenBack :
    Block.Arranged sorted (Block.sourcedRows [block])
      ((keptRows merged names (Labels.valuesOf dimensions names key) arranged).map
        (takenBack merged names)) := by
  have perm := keptRows_perm made distinct found
  have back := map_takenBack_extendRows made distinct found
  have order := made.order
  cases sorted with
  | false =>
    have same : arranged = continuedRows (fun block => block.samples.rows)
        (Labels.valuesOf dimensions names) group := order
    rw [same, keptRows_continuedRows made distinct found]
    exact back
  | true =>
    refine ⟨back ▸ perm.map _, ?_⟩
    have ofBlock : ∀ entry ∈ keptRows merged names (Labels.valuesOf dimensions names key) arranged,
        ∃ row ∈ block.samples.rows, entry.1 = row ++ Labels.valuesOf dimensions names key ∧
          (takenBack merged names entry).1 = row := by
      intro entry member
      obtain ⟨⟨row, r⟩, inside, rfl⟩ := List.mem_map.mp (perm.mem_iff.mp member)
      have isRow := List.fst_mem_of_mem_zipIdx inside
      exact ⟨row, isRow, rfl, (valuesOf_merged made distinct (List.mem_of_getElem? found) isRow).2⟩
    refine List.pairwise_map.mpr ((order.2.filter _).imp_of_mem ?_)
    intro a b ha hb less
    obtain ⟨row, isRow, whole, cut⟩ := ofBlock a ha
    obtain ⟨row', isRow', whole', cut'⟩ := ofBlock b hb
    have width := (distinct.regular _ (List.mem_of_getElem? found)).width
    rw [cut, cut']
    rw [whole, whole'] at less
    exact lt_of_append_lt_append ((width row isRow).trans (width row' isRow').symm) less

/-- The part of the merged block that belongs to a key has the samples of the block of this key. -/
theorem exists_arranged_part (numbered : merged.Numbered)
    (isPart : PartOf names merged (Labels.valuesOf dimensions names key) part) :
    part.samples.names = block.samples.names ∧ ∃ own,
      Block.Arranged sorted (Block.sourcedRows [block]) own ∧ part.samples.rows = own.map (·.1) ∧
      Block.Gathered [block] (own.map (·.2)) part := by
  have isEntry := List.mem_of_getElem? found
  refine ⟨?_, _, arranged_takenBack made distinct found, ?_, ?_⟩
  · have nodup := made.valid.own.samples.distinct
    rw [isPart.sampleNames]
    rw [made.sampleNames _ isEntry] at nodup ⊢
    exact staying_append fun name isName moved =>
      (List.nodup_append.mp nodup).2.2 name isName name moved rfl
  · rw [isPart.rows, rowsWith_eq, made.rows, List.filter_map, List.map_map, List.map_map]
    rfl
  · have both := made.gathered.trans isPart.gathered made.nodup_sources nodup_positionsWith numbered
      made.consistent
    have kept : Block.sourcesAt (arranged.map (·.2)) (positionsWith merged.samples.names names
        (Labels.valuesOf dimensions names key) merged.samples.rows) =
        Block.samplesAt i ((keptRows merged names (Labels.valuesOf dimensions names key)
          arranged).map fun entry => entry.2.index) := by
      rw [Block.sourcesAt, positionsWith, entriesWith, made.rows]
      refine (filterMap_positions (Labels.valuesOf merged.samples.names names · ==
        Labels.valuesOf dimensions names key) arranged).trans ?_
      rw [Block.samplesAt, List.map_map]
      refine List.map_congr_left fun entry member => ?_
      have inBlock := (keptRows_perm made distinct found).mem_iff.mp member
      obtain ⟨_, _, rfl⟩ := List.mem_map.mp inBlock
      rfl
    rw [kept] at both
    have standing : (group.map (·.2))[i]? = some block := by rw [List.getElem?_map, found]; rfl
    have single := both.single standing
    rw [List.map_map]
    rw [Block.samplesAt, List.map_map] at single
    exact single

end Part

/-! ### The blocks that come back -/

/-- A block whose samples were moved away and back: the block itself, or, if its samples were sorted
on the way, one with the same samples in increasing order and with what belongs to them. -/
structure RestoredAs (sorted : Bool) (block found : Block) : Prop where
  sampleNames : found.samples.names = block.samples.names
  components : found.components = block.components
  properties : found.properties = block.properties
  same : sorted = false → found = block
  arranged : ∃ rows, Block.Arranged sorted (Block.sourcedRows [block]) rows ∧
    found.samples.rows = rows.map (·.1) ∧ Block.Merges [block] (rows.map (·.2)) found

theorem map_snd_sourcedRows_singleton (block : Block) :
    (Block.sourcedRows [block]).map (·.2) =
      Block.samplesAt 0 (List.range block.samples.count) := by
  have alone : Block.sourcedRows [block] =
      block.samples.rows.zipIdx.map fun row => (row.1, ⟨0, row.2⟩) := List.flatMap_singleton ..
  have positions : block.samples.rows.zipIdx.map (·.2) = List.range block.samples.count := by
    rw [List.zipIdx_map_snd, ← List.range_eq_range', block.samples.count_eq]
  rw [alone, Block.samplesAt, ← positions, List.map_map, List.map_map]
  rfl

theorem map_fst_sourcedRows_singleton (block : Block) :
    (Block.sourcedRows [block]).map (·.1) = block.samples.rows := by
  have alone : Block.sourcedRows [block] =
      block.samples.rows.zipIdx.map fun row => (row.1, ⟨0, row.2⟩) := List.flatMap_singleton ..
  rw [alone, List.map_map]
  exact List.zipIdx_map_fst 0 _

/-- What is gathered from all samples of a block is this block, or this block with its samples
sorted. -/
theorem restoredAs_of_gathered {sorted : Bool} {block found : Block} {rows : List (Row × Source)}
    (consistent : block.Consistent) (consistent' : found.Consistent) (numbered : found.Numbered)
    (names : found.samples.names = block.samples.names)
    (arranged : Block.Arranged sorted (Block.sourcedRows [block]) rows)
    (isRows : found.samples.rows = rows.map (·.1))
    (gathered : Block.Gathered [block] (rows.map (·.2)) found) :
    RestoredAs sorted block found := by
  have one := List.mem_singleton_self block
  refine ⟨names, (gathered.level.components block one).symm,
    (gathered.level.properties block one).symm, ?_, rows, arranged, isRows, ?_⟩
  · rintro rfl
    have same : rows = Block.sourcedRows [block] := arranged
    subst same
    rw [map_snd_sourcedRows_singleton] at gathered
    rw [map_fst_sourcedRows_singleton] at isRows
    exact gathered.unique (Block.Gathered.all consistent) consistent' consistent
      (List.cons_ne_nil _ _) (Labels.ext_iff.mpr ⟨names, isRows⟩)
  · refine gathered.merges (arranged.perm.map _) ?_ numbered
    exact fun other member => List.mem_singleton.mp member ▸ consistent

/-! ### The whole map -/

section Map

variable {map merged : BlockMap} {names : List String} {sorted : Bool}

theorem valuesOf_eq_of_restOf_eq {dimensions names : List String} {key key' : Row}
    (same : restOf dimensions names key = restOf dimensions names key') :
    Labels.valuesOf dimensions (staying dimensions names) key =
      Labels.valuesOf dimensions (staying dimensions names) key' := by
  unfold restOf at same
  by_cases none : staying dimensions names = []
  · rw [none]
    rfl
  · rwa [if_neg none, if_neg none] at same

/-- The key of a block is determined by its group and by the values that moved. -/
theorem groupDistinct (consistent : map.Consistent) (valid : map.Labelled Labels.Valid)
    (known : ∀ name ∈ names, name ∈ map.keys.names) (rest : Row) :
    GroupDistinct map.keys.names names (map.groupOf names rest) := by
  have inMap : ∀ entry ∈ map.groupOf names rest, entry.1 ∈ map.keys.rows ∧ entry.2 ∈ map.blocks :=
    fun entry member => List.of_mem_zip (List.mem_of_mem_filter member)
  refine ⟨?_, ?_, ?_⟩
  · exact fun entry member => (valid.blocks _ (inMap entry member).2).own.samples.toRegular
  · exact fun entry member =>
      Labels.length_valuesOf known (valid.keys.width _ (inMap entry member).1)
  · intro i j entry entry' found found' moved
    have nodup := nodup_keys_groupOf valid.keys.nodup consistent.count names rest
    have member := List.mem_of_getElem? found
    have member' := List.mem_of_getElem? found'
    have sameRest := valuesOf_eq_of_restOf_eq
      ((beq_iff_eq.mp (List.mem_filter.mp member).2).trans
        (beq_iff_eq.mp (List.mem_filter.mp member').2).symm)
    have keys : entry.1 = entry'.1 := eq_of_valuesOf valid.keys.distinct known
      (valid.keys.width _ (inMap entry member).1) (valid.keys.width _ (inMap entry' member').1)
      sameRest moved
    have inside : i < ((map.groupOf names rest).map (·.1)).length := by
      rw [List.length_map]
      exact (List.getElem?_eq_some_iff.mp found).1
    refine (List.getElem?_inj inside nodup).mp ?_
    rw [List.getElem?_map, List.getElem?_map, found, found', Option.map_some, Option.map_some, keys]

/-- The key under which a block comes back. -/
def keyBack (dimensions names : List String) (key : Row) : Row :=
  restOf dimensions names key ++ Labels.valuesOf dimensions names key

/-- Every block that has samples has come back, and no other block is there. -/
structure SamplesRestored (map : BlockMap) (names : List String) (sorted : Bool)
    (split : BlockMap) : Prop where
  consistent : split.Consistent
  mixedProperties : split.mixedProperties = map.mixedProperties
  keyNames : split.keys.names = namesLeft map.keys.names names ++ names
  keys : split.keys.rows.Perm ((map.entries.filter fun entry => entry.2.samples.count != 0).map
    fun entry => keyBack map.keys.names names entry.1)
  blocks : ∀ key block, (key, block) ∈ map.entries → block.samples.count ≠ 0 →
    ∃ found, split.blockFor? (keyBack map.keys.names names key) = some found ∧
      RestoredAs sorted block found

/-- A key that comes back tells where it came from. -/
theorem keyBack_inj (valid : map.keys.Valid) (known : ∀ name ∈ names, name ∈ map.keys.names)
    {key key' : Row} (isKey : key ∈ map.keys.rows) (isKey' : key' ∈ map.keys.rows)
    (same : keyBack map.keys.names names key = keyBack map.keys.names names key') : key = key' := by
  have width : (restOf map.keys.names names key).length =
      (restOf map.keys.names names key').length :=
    (length_restOf valid isKey).trans (length_restOf valid isKey').symm
  obtain ⟨rest, moved⟩ := List.append_inj same width
  exact eq_of_valuesOf valid.distinct known (valid.width key isKey) (valid.width key' isKey')
    (valuesOf_eq_of_restOf_eq rest) moved

section Merged

variable (consistent : map.Consistent) (valid : map.Labelled Labels.Valid)
  (known : ∀ name ∈ names, name ∈ map.keys.names) (keys : merged.keys = map.keysWithout names)
  (all : List.Forall₂
    (fun rest block => ∃ arranged,
      GroupGathered map.keys.names names sorted (map.groupOf names rest) arranged block)
    merged.keys.rows merged.blocks)

include consistent keys all

/-- The samples of a merged block are named after those of some block, with the names that moved
behind them. -/
theorem exists_sampleNames {block : Block} (isBlock : block ∈ merged.blocks) :
    ∃ other ∈ map.blocks, block.samples.names = other.samples.names ++ names := by
  obtain ⟨rest, isRest, arranged, made⟩ := exists_of_mem_right all isBlock
  rw [keys] at isRest
  obtain ⟨entry, inGroup⟩ := exists_mem_groupOf consistent.count isRest
  exact ⟨entry.2, (List.of_mem_zip (List.mem_of_mem_filter inGroup)).2,
    made.sampleNames entry inGroup⟩

/-- A merged block has all the names that moved. -/
theorem mem_sampleNames {block : Block} (isBlock : block ∈ merged.blocks) {name : String}
    (moved : name ∈ names) : name ∈ block.samples.names := by
  obtain ⟨other, _, sampleNames⟩ := exists_sampleNames consistent keys all isBlock
  rw [sampleNames]
  exact List.mem_append_right _ moved

/-- A merged block keeps a dimension when the names that moved are taken away again. -/
theorem staying_sampleNames (valid' : merged.Labelled Labels.Valid)
    (dimension : ∀ block ∈ map.blocks, block.samples.names ≠ []) {block : Block}
    (isBlock : block ∈ merged.blocks) : staying block.samples.names names ≠ [] := by
  obtain ⟨other, isOther, sampleNames⟩ := exists_sampleNames consistent keys all isBlock
  have distinct := (valid'.blocks block isBlock).own.samples.distinct
  rw [sampleNames] at distinct ⊢
  have apart : ∀ name ∈ other.samples.names, name ∉ names := fun name isName moved =>
    (List.nodup_append.mp distinct).2.2 name isName name moved rfl
  rw [staying_append apart]
  exact dimension other isOther

include valid known

/-- The keys that come back are those of the blocks that have samples. -/
theorem mem_splitKeys_merged {key : Row} :
    key ∈ (merged.splitKeys names).rows ↔ ∃ entry ∈ map.entries,
      entry.2.samples.rows ≠ [] ∧ key = keyBack map.keys.names names entry.1 := by
  constructor
  · intro member
    obtain ⟨⟨rest, block⟩, isEntry, inside⟩ := List.mem_flatMap.mp member
    obtain ⟨value, isValue, rfl⟩ := List.mem_map.mp inside
    obtain ⟨arranged, made⟩ := List.forall₂_zip all isEntry
    obtain ⟨entry, inGroup, some, rfl⟩ :=
      (mem_projected_merged made (groupDistinct consistent valid known rest)).mp isValue
    obtain ⟨isEntry', rest_eq⟩ := List.mem_filter.mp inGroup
    rw [beq_iff_eq] at rest_eq
    refine ⟨entry, isEntry', some, ?_⟩
    rw [keyBack, rest_eq]
  · rintro ⟨entry, isEntry, some, rfl⟩
    have isKey := (List.of_mem_zip isEntry).1
    have isRest : restOf map.keys.names names entry.1 ∈ merged.keys.rows := by
      rw [keys]
      exact List.mem_eraseDups.mpr (List.mem_map_of_mem isKey)
    obtain ⟨block, isMerged, arranged, made⟩ := exists_mem_zip_of_mem_left all isRest
    have inGroup : entry ∈ map.groupOf names (restOf map.keys.names names entry.1) :=
      List.mem_filter.mpr ⟨isEntry, beq_self_eq_true _⟩
    have isValue := (mem_projected_merged made
      (groupDistinct consistent valid known _)).mpr ⟨entry, inGroup, some, rfl⟩
    exact List.mem_flatMap.mpr ⟨_, isMerged, List.mem_map_of_mem isValue⟩

/-- Every block that has samples comes back under one key, and no other key comes back. -/
theorem splitKeys_merged_perm (nodup : (merged.splitKeys names).rows.Nodup) :
    (merged.splitKeys names).rows.Perm
      ((map.entries.filter fun entry => entry.2.samples.count != 0).map fun entry =>
        keyBack map.keys.names names entry.1) := by
  have entryKeys := nodup_keys_entries valid.keys.nodup consistent.count
  have nodup' : ((map.entries.filter fun entry => entry.2.samples.count != 0).map fun entry =>
      keyBack map.keys.names names entry.1).Nodup := by
    refine List.Nodup.map_on ?_ (entryKeys.of_map.filter _)
    intro a ha b hb same
    have inMap := List.of_mem_zip (List.mem_of_mem_filter ha)
    have inMap' := List.of_mem_zip (List.mem_of_mem_filter hb)
    exact List.inj_on_of_nodup_map entryKeys (List.mem_of_mem_filter ha) (List.mem_of_mem_filter hb)
      (keyBack_inj valid.keys known inMap.1 inMap'.1 same)
  refine (List.perm_ext_iff_of_nodup nodup nodup').mpr fun key => ?_
  rw [mem_splitKeys_merged consistent valid known keys all, List.mem_map]
  refine exists_congr fun entry => ?_
  rw [List.mem_filter, bne_iff_ne, ne_eq, ne_eq, Labels.count_eq_zero_iff, and_assoc,
    @eq_comm _ key]

/-- What comes back under the key of a block is this block. -/
theorem restoredAs_part (numbered : ∀ block ∈ merged.blocks, block.Numbered) {key : Row}
    {block found : Block} (isEntry : (key, block) ∈ map.entries)
    (isPart : IsPart merged names (keyBack map.keys.names names key, found)) :
    RestoredAs sorted block found := by
  obtain ⟨⟨rest, whole⟩, isMerged, value, _, same, part⟩ := isPart
  have isKey := (List.of_mem_zip isEntry).1
  have isRest := (List.of_mem_zip isMerged).1
  rw [keys] at isRest
  have width : (restOf map.keys.names names key).length = rest.length :=
    (length_restOf valid.keys isKey).trans ((valid_keysWithout valid.keys).width rest isRest).symm
  obtain ⟨rfl, rfl⟩ := List.append_inj same width
  obtain ⟨arranged, made⟩ := List.forall₂_zip all isMerged
  have inGroup : (key, block) ∈ map.groupOf names (restOf map.keys.names names key) :=
    List.mem_filter.mpr ⟨isEntry, beq_self_eq_true _⟩
  obtain ⟨i, standing⟩ := List.mem_iff_getElem?.mp inGroup
  have wholeNumbered := numbered whole (List.of_mem_zip isMerged).2
  obtain ⟨sameNames, rows, arranged', isRows, gathered⟩ := exists_arranged_part made
    (groupDistinct consistent valid known _) standing wholeNumbered part
  exact restoredAs_of_gathered (consistent.blocks _ (List.of_mem_zip isEntry).2) part.consistent
    (part.gathered.numbered nodup_positionsWith wholeNumbered made.consistent) sameNames arranged'
    isRows gathered

end Merged

/-- Moving dimensions into the samples and back restores every block that has samples. -/
theorem splitSamples_mergeSamples (consistent : map.Consistent) (valid : map.Labelled Labels.Valid)
    (h : map.mergeSamples names sorted = .ok merged)
    (numbered : ∀ block ∈ merged.blocks, block.Numbered)
    (dimension : ∀ block ∈ map.blocks, block.samples.names ≠ [])
    (nameless : (∀ name ∈ map.keys.names, name ∈ names) → "_" ∉ names) :
    ∃ split, merged.splitSamples names = .ok split ∧ SamplesRestored map names sorted split := by
  obtain ⟨⟨some, nodup, known⟩, consistent', mixed, keys, all⟩ :=
    mergeSamples_eq_ok consistent valid h
  have valid' : merged.Labelled Labels.Valid := by
    refine ⟨keys ▸ valid_keysWithout valid.keys, fun block isBlock => ?_⟩
    obtain ⟨_, _, _, made⟩ := exists_of_mem_right all isBlock
    exact made.valid
  have new : ∀ name ∈ names, name ∉ merged.keys.names := by
    intro name moved
    rw [keys]
    exact not_mem_namesLeft nameless moved
  have known' : ∀ block ∈ merged.blocks, ∀ name ∈ names, name ∈ block.samples.names :=
    fun _ isBlock _ moved => mem_sampleNames consistent keys all isBlock moved
  have left : ∀ block ∈ merged.blocks, staying block.samples.names names ≠ [] :=
    fun _ isBlock => staying_sampleNames consistent keys all valid' dimension isBlock
  have identifiers : ∀ name ∈ names, Labels.IsIdentifier name :=
    fun name moved => valid.keys.identifiers name (known name moved)
  obtain ⟨split, made, splitConsistent, splitMixed, splitKeys, parts⟩ :=
    exists_splitSamples consistent' valid' numbered identifiers nodup new some known' left
  refine ⟨split, made, splitConsistent, splitMixed.trans mixed, ?_, ?_, ?_⟩
  · rw [splitKeys]
    change merged.keys.names ++ names = _
    rw [keys]
    rfl
  · rw [splitKeys]
    exact splitKeys_merged_perm consistent valid known keys all
      (nodup_splitKeys consistent' valid')
  · intro key block isEntry samples
    have isKey : keyBack map.keys.names names key ∈ split.keys.rows := by
      rw [splitKeys]
      refine (mem_splitKeys_merged consistent valid known keys all).mpr ⟨_, isEntry, ?_, rfl⟩
      rwa [ne_eq, Labels.count_eq_zero_iff] at samples
    rw [← map_fst_entries splitConsistent.count] at isKey
    obtain ⟨⟨_, found⟩, isPart, rfl⟩ := List.mem_map.mp isKey
    have regular : split.keys.Regular := by
      rw [splitKeys]
      exact (valid_splitKeys consistent' valid' identifiers nodup new some known').toRegular
    exact ⟨found, blockFor?_of_mem regular isPart,
      restoredAs_part consistent valid known keys all numbered isEntry (parts _ isPart)⟩

theorem nestedMap_restored : ∃ merged, nestedMap.mergeSamples ["b"] false = .ok merged ∧
    ∃ split, merged.splitSamples ["b"] = .ok split ∧
      SamplesRestored nestedMap ["b"] false split := by
  obtain ⟨merged, h, numbered⟩ := exists_merged_nestedMap
  exact ⟨merged, h, splitSamples_mergeSamples (by decide) (by decide) h numbered (by decide)
    (by decide)⟩

end Map

end LabeledBlocks.BlockMap
