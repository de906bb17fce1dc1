import LabeledBlocks.Proofs.BlockMap.Commute
import LabeledBlocks.Proofs.BlockMap.Mergeable

/-!
# Moving key dimensions into the samples in two steps

Dimensions can be moved from the keys into the samples in two steps exactly if they can be moved in
one, and both ways lead to the same map, whether or not the first step sorts the samples. The rows
of the gradients may stand in another order, since they are collected in another order.

* `BlockMap.Moved.flatMap_groupOf_perm` — the groups of the second step are made of those of the
  first.
* `BlockMap.Moved.mergeable_iff` — the second step is possible exactly if both together are.
* `BlockMap.mergeSamples_append` — two steps do the same as one.
-/

namespace LabeledBlocks.BlockMap

section Twice

variable {map mid after : BlockMap} {first second : List String} {sorted : Bool} {rest : Row}

/-! ### The groups of both steps -/

/-- The groups of the first step, put together for a group of the second, are the group of both. -/
theorem Moved.flatMap_groupOf_perm (moved : map.Moved first mid) :
    ((mid.groupOf second rest).flatMap fun middle => map.groupOf first middle.1).Perm
      (map.groupOf (first ++ second) rest) := by
  have nodup := fun names rest =>
    (nodup_keys_groupOf moved.valid.nodup moved.consistent.count names rest).of_map
  apply (List.perm_ext_iff_of_nodup _ (nodup _ _)).mpr
  · intro entry
    rw [List.mem_flatMap]
    constructor
    · rintro ⟨middle, isMid, member⟩
      exact ((moved.midEntry_eq_iff_mem isMid).mpr member).1
    · exact fun member => ⟨_, moved.midEntry_mem member⟩
  · apply List.nodup_flatMap.mpr
    refine ⟨fun middle _ => nodup _ _, ?_⟩
    have different := nodup_keys_groupOf moved.valid'.nodup moved.consistent'.count second rest
    apply (List.pairwise_map.mp different).imp
    intro middle middle' different entry member member'
    exact different ((mem_groupOf.mp member).2.symm.trans (mem_groupOf.mp member').2)

/-- The blocks of a group can be joined exactly if those can that the first step makes of them. -/
theorem Moved.compatible_iff (moved : map.Moved first mid)
    (gathered : ∀ middle ∈ mid.groupOf second rest, ∃ arranged, GroupGathered map.keys.names first
      sorted (map.groupOf first middle.1) arranged middle.2)
    (numbered : ∀ block ∈ mid.blocks, block.Numbered) :
    Block.Compatible ((map.groupOf (first ++ second) rest).map (·.2)) ↔
      Block.Compatible ((mid.groupOf second rest).map (·.2)) := by
  have merged : List.Forall₂ Block.MergedOf
      ((mid.groupOf second rest).map fun middle => (map.groupOf first middle.1).map (·.2))
      ((mid.groupOf second rest).map (·.2)) := by
    rw [List.forall₂_map_left_iff, List.forall₂_map_right_iff, List.forall₂_same]
    intro middle isMid
    obtain ⟨arranged, made⟩ := gathered middle isMid
    have nonempty := moved.groupOf_ne_nil (mem_groupOf.mp isMid).1
    exact ⟨mt List.map_eq_nil_iff.mp nonempty, made.consistent, _,
      made.merges (consistent_groupOf moved.consistent first middle.1)
        (numbered _ (mem_of_mem_groupOf isMid).2)⟩
  have perm := (@flatMap_groupOf_perm _ _ _ second rest moved).map Prod.snd
  rw [List.map_flatMap] at perm
  rw [← Block.compatible_flatten_iff merged, ← Block.Compatible.perm_iff perm, List.flatMap_def]

/-! ### What both steps make of a group -/

/-- A block has the samples of the blocks of a group with the values of some dimensions of their
keys behind them, in increasing order, and is assembled of these blocks. -/
structure SortedInto (dimensions names : List String) (group : List (Row × Block))
    (merged : Block) : Prop where
  sampleNames : ∀ entry ∈ group, merged.samples.names = entry.2.samples.names ++ names
  order : merged.samples.rows.Pairwise (· < ·)
  properties : ∀ entry ∈ group, merged.properties = entry.2.properties
  assembled : Block.Assembled (· ∈ group) (fun _ p => p) Prod.snd
    (sampleRow dimensions names merged) merged
  consistent : merged.Consistent
  regular : merged.Labelled Labels.Regular

/-- There is only one such block, up to the order of the rows of the gradients. -/
theorem SortedInto.alike {dimensions names : List String} {group : List (Row × Block)} {a b : Block}
    (h : SortedInto dimensions names group a) (h' : SortedInto dimensions names group b)
    (nonempty : group ≠ []) (consistent : ∀ entry ∈ group, entry.2.Consistent) : a.Alike b := by
  obtain ⟨entry, member⟩ := List.exists_mem_of_ne_nil _ nonempty
  have samples : a.samples = b.samples := by
    have rows := h.assembled.level.rows
    have rows' := h'.assembled.level.rows
    rw [Labels.count_eq] at rows rows'
    have names := (h.sampleNames entry member).trans (h'.sampleNames entry member).symm
    exact Labels.ext_iff.mpr ⟨names, rows_eq_of_covers rows rows' h.order h'.order⟩
  have assembled' := h'.assembled
  have rows : sampleRow dimensions names b = sampleRow dimensions names a := by
    funext entry n
    rw [sampleRow, sampleRow, samples]
  rw [rows] at assembled'
  exact h.assembled.alike assembled' ⟨entry, member⟩ samples
    ((h.properties entry member).trans (h'.properties entry member).symm) consistent h.consistent
    h'.consistent h.regular

/-- What one step makes of a group, with the samples sorted. -/
theorem GroupGathered.sortedInto {names : List String} {arranged : List (Row × Source)}
    {merged : Block}
    (made : GroupGathered map.keys.names names true (map.groupOf names rest) arranged merged)
    (valid : map.keys.Valid) (consistent : map.Consistent) (numbered : merged.Numbered)
    (nonempty : map.groupOf names rest ≠ []) :
    SortedInto map.keys.names names (map.groupOf names rest) merged := by
  refine ⟨made.sampleNames, ?_, ?_, ?_, made.consistent, made.valid.regular⟩
  · rw [made.rows]
    exact List.pairwise_map.mpr made.order.2
  · intro entry member
    exact (made.gathered.level.properties _ (List.mem_map_of_mem member)).symm
  · exact made.assembled valid.toRegular consistent nonempty numbered

/-- Two steps put the values behind a row that both put there together. -/
theorem Moved.continuedRow_append (moved : map.Moved first mid)
    (stays : ∀ name ∈ second, name ∈ staying map.keys.names first) {middle entry : Row × Block}
    (member : entry ∈ map.groupOf first middle.1) {rowsOf : Block → List Row} {n m : Nat}
    (stands : (rowsOf middle.2)[m]? =
      .some (continuedRow rowsOf (Labels.valuesOf map.keys.names first) entry n)) :
    continuedRow rowsOf (Labels.valuesOf map.keys.names (first ++ second)) entry n =
      continuedRow rowsOf (Labels.valuesOf mid.keys.names second) middle m := by
  have width := moved.valid.width _ (mem_of_mem_groupOf member).1
  have values : Labels.valuesOf mid.keys.names second middle.1 =
      Labels.valuesOf map.keys.names second entry.1 := by
    rw [← (mem_groupOf.mp member).2, moved.names, valuesOf_restOf moved.some width stays]
  rw [continuedRow, continuedRow, stands, Option.getD_some, continuedRow, values,
    List.append_assoc]
  exact congrArg _ List.filterMap_append

/-- A sample goes to the same row in two steps as in one. -/
theorem Moved.sampleRow_sampleRow (moved : map.Moved first mid)
    (stays : ∀ name ∈ second, name ∈ staying map.keys.names first) {middle entry : Row × Block}
    (member : entry ∈ map.groupOf first middle.1) {n : Nat}
    (inside : sampleRow map.keys.names first middle.2 entry n < middle.2.samples.count)
    (merged : Block) :
    sampleRow map.keys.names (first ++ second) merged entry n =
      sampleRow mid.keys.names second merged middle
        (sampleRow map.keys.names first middle.2 entry n) := by
  have stands : middle.2.samples.rows[sampleRow map.keys.names first middle.2 entry n]? =
      .some (continuedRow (·.samples.rows) (Labels.valuesOf map.keys.names first) entry n) := by
    rw [Labels.count_eq] at inside
    rw [List.getElem?_eq_getElem inside]
    exact congrArg Option.some (List.getElem_idxOf inside)
  rw [sampleRow, sampleRow, moved.continuedRow_append stays member stands]

/-- What both steps make of a group, the second of which sorts the samples. -/
theorem Moved.sortedInto (moved : map.Moved first mid)
    (stays : ∀ name ∈ second, name ∈ staying map.keys.names first)
    (gathered : ∀ middle ∈ mid.groupOf second rest, ∃ arranged, GroupGathered map.keys.names first
      sorted (map.groupOf first middle.1) arranged middle.2)
    (numbered : ∀ block ∈ mid.blocks, block.Numbered) {arranged : List (Row × Source)}
    {merged : Block}
    (made : GroupGathered mid.keys.names second true (mid.groupOf second rest) arranged merged)
    (numbered' : merged.Numbered) (nonempty : mid.groupOf second rest ≠ []) :
    SortedInto map.keys.names (first ++ second) (map.groupOf (first ++ second) rest) merged := by
  have outer := made.sortedInto moved.valid' moved.consistent' numbered' nonempty
  refine ⟨?_, outer.order, ?_, ?_, outer.consistent, outer.regular⟩
  · intro entry member
    obtain ⟨isMid, isOwn⟩ := moved.midEntry_mem member
    obtain ⟨_, made'⟩ := gathered _ isMid
    rw [outer.sampleNames _ isMid, made'.sampleNames entry isOwn, List.append_assoc]
  · intro entry member
    obtain ⟨isMid, isOwn⟩ := moved.midEntry_mem member
    obtain ⟨_, made'⟩ := gathered _ isMid
    rw [outer.properties _ isMid, made'.gathered.level.properties _ (List.mem_map_of_mem isOwn)]
  · -- what is assembled of assembled blocks is assembled of their parts
    have inner : ∀ middle ∈ mid.groupOf second rest,
        Block.Assembled (· ∈ map.groupOf first middle.1) (fun _ p => p) Prod.snd
          (sampleRow map.keys.names first middle.2) middle.2 := by
      intro middle isMid
      obtain ⟨_, made'⟩ := gathered middle isMid
      exact made'.assembled moved.valid.toRegular moved.consistent
        (moved.groupOf_ne_nil (mem_groupOf.mp isMid).1) (numbered _ (mem_of_mem_groupOf isMid).2)
    apply moved.assembled outer.assembled inner
    · intro middle isMid entry member n inside
      have place := (inner middle isMid).level.rows.inside entry member n inside
      exact moved.sampleRow_sampleRow stays member place merged
    · exact fun _ _ _ _ _ _ => rfl

/-! ### The whole map -/

/-- The group of a key in the first step is a part of its group in both. -/
theorem groupOf_subperm_append {entry : Row × Block} (consistent : map.Consistent)
    (valid : map.keys.Valid) (left : staying map.keys.names first ≠ [])
    (isEntry : entry ∈ map.entries) :
    (map.groupOf first (restOf map.keys.names first entry.1)).Subperm
      (map.groupOf (first ++ second) (restOf map.keys.names (first ++ second) entry.1)) := by
  have nodup := nodup_keys_groupOf valid.nodup consistent.count first
    (restOf map.keys.names first entry.1)
  refine List.subperm_of_subset nodup.of_map fun other isOther => ?_
  obtain ⟨isOther, same⟩ := mem_groupOf.mp isOther
  refine mem_groupOf.mpr ⟨isOther, ?_⟩
  rw [← restOf_restOf left (valid.width _ (List.of_mem_zip isOther).1), same,
    restOf_restOf left (valid.width _ (List.of_mem_zip isEntry).1)]

/-- If dimensions can be moved together, some of them can be moved alone. -/
theorem Mergeable.of_append (can : map.Mergeable (first ++ second)) (consistent : map.Consistent)
    (valid : map.keys.Valid) (some : first ≠ []) (left : staying map.keys.names first ≠ []) :
    map.Mergeable first := by
  have isFirst {name : String} (member : name ∈ first) : name ∈ first ++ second :=
    List.mem_append_left second member
  refine ⟨some, (List.nodup_append.mp can.nodup).1,
    fun name member => can.known name (isFirst member),
    fun block isBlock name member => can.unused block isBlock name (isFirst member), ?_⟩
  intro rest isRest
  obtain ⟨entry, member⟩ := exists_mem_groupOf consistent.count isRest
  obtain ⟨isEntry, rfl⟩ := mem_groupOf.mp member
  apply (can.compatible _ (restOf_mem_keysWithout (first ++ second) isEntry)).subperm
  obtain ⟨order, perm, sublist⟩ :=
    @groupOf_subperm_append map first second entry consistent valid left isEntry
  exact ⟨_, perm.map _, sublist.map _⟩

/-- A merged block uses the names that its blocks use, and those that moved. -/
theorem GroupGathered.unused_iff {dimensions names : List String} {group : List (Row × Block)}
    {arranged : List (Row × Source)} {merged : Block}
    (made : GroupGathered dimensions names sorted group arranged merged) {entry : Row × Block}
    (member : entry ∈ group) {name : String} :
    (name ∉ merged.samples.names ∧ name ∉ Block.componentNames merged.components) ↔
      name ∉ names ∧ name ∉ entry.2.samples.names ∧
        name ∉ Block.componentNames entry.2.components := by
  rw [made.sampleNames entry member,
    made.gathered.level.components _ (List.mem_map_of_mem (f := Prod.snd) member), List.mem_append]
  tauto

/-- The second step is possible exactly if both steps are together. -/
theorem Moved.mergeable_iff (moved : map.Moved first mid) (valid : map.Labelled Labels.Valid)
    (h : map.mergeSamples first sorted = .ok mid) (numbered : ∀ block ∈ mid.blocks, block.Numbered)
    (some : second ≠ []) (nodup : (first ++ second).Nodup)
    (known : ∀ name ∈ first ++ second, name ∈ map.keys.names) :
    map.Mergeable (first ++ second) ↔ mid.Mergeable second := by
  have can := mergeable_of_merged moved.consistent valid h numbered
  obtain ⟨_, _, _, keys, all⟩ := mergeSamples_eq_ok moved.consistent valid h
  obtain ⟨_, nodup', apart⟩ := List.nodup_append.mp nodup
  have new : ∀ name ∈ second, name ∉ first :=
    fun name member both => apart name both name member rfl
  have gathered := fun middle (isMid : middle ∈ mid.entries) => List.forall₂_zip all isMid
  have compatible (rest : Row) : Block.Compatible ((map.groupOf (first ++ second) rest).map (·.2)) ↔
      Block.Compatible ((mid.groupOf second rest).map (·.2)) :=
    moved.compatible_iff (fun middle isMid => gathered middle (mem_groupOf.mp isMid).1) numbered
  constructor
  · intro both
    refine ⟨some, nodup', ?_, ?_, ?_⟩
    · intro name member
      rw [moved.names, mem_staying]
      exact ⟨known name (List.mem_append_right _ member), new name member⟩
    · intro block isBlock name member
      rw [← map_snd_entries moved.consistent'.count] at isBlock
      obtain ⟨middle, isMid, rfl⟩ := List.mem_map.mp isBlock
      obtain ⟨arranged, made⟩ := gathered middle isMid
      obtain ⟨entry, inGroup⟩ := List.exists_mem_of_ne_nil _ (moved.groupOf_ne_nil isMid)
      have unused := both.unused _ (mem_of_mem_groupOf inGroup).2 name
        (List.mem_append_right _ member)
      exact (made.unused_iff inGroup).mpr ⟨new name member, unused⟩
    · intro rest isRest
      rw [moved.keysWithout_keysWithout] at isRest
      exact (compatible rest).mp (both.compatible rest isRest)
  · intro alone
    refine ⟨fun none => can.some (List.append_eq_nil_iff.mp none).1, nodup, known, ?_, ?_⟩
    · intro block isBlock name member
      rcases List.mem_append.mp member with isFirst | isSecond
      · exact can.unused block isBlock name isFirst
      rw [← map_snd_entries moved.consistent.count] at isBlock
      obtain ⟨entry, isEntry, rfl⟩ := List.mem_map.mp isBlock
      have isRest : restOf map.keys.names first entry.1 ∈ mid.keys.rows :=
        keys ▸ restOf_mem_keysWithout first isEntry
      obtain ⟨whole, paired, arranged, made⟩ := exists_mem_zip_of_mem_left all isRest
      have unused := alone.unused _ (List.of_mem_zip paired).2 name isSecond
      exact ((made.unused_iff (mem_groupOf.mpr ⟨isEntry, rfl⟩)).mp unused).2
    · intro rest isRest
      rw [← moved.keysWithout_keysWithout] at isRest
      exact (compatible rest).mpr (alone.compatible rest isRest)

/-- The keys of a map are what is left of the keys of another one, and for each of them there is the
block that its group is sorted into. -/
structure SortedMove (map : BlockMap) (names : List String) (moved : BlockMap) : Prop where
  mixedProperties : moved.mixedProperties = map.mixedProperties
  keys : moved.keys = map.keysWithout names
  blocks : List.Forall₂
    (fun rest block => SortedInto map.keys.names names (map.groupOf names rest) block)
    moved.keys.rows moved.blocks

/-- There is only one such map, up to the order of the rows of the gradients. -/
theorem SortedMove.alike {names : List String} {a b : BlockMap} (consistent : map.Consistent)
    (h : SortedMove map names a) (h' : SortedMove map names b) : a.Alike b := by
  have keys := h.keys.trans h'.keys.symm
  refine ⟨keys, h.mixedProperties.trans h'.mixedProperties.symm, ?_⟩
  apply forall₂_of_common h.blocks (keys ▸ h'.blocks)
  intro rest isRest a b made made'
  rw [h.keys] at isRest
  obtain ⟨entry, member⟩ := exists_mem_groupOf consistent.count isRest
  exact made.alike made' (List.ne_nil_of_mem member) (consistent_groupOf consistent names rest)

/-- What one step makes of a map. -/
theorem sortedMove_mergeSamples {names : List String} (consistent : map.Consistent)
    (valid : map.Labelled Labels.Valid) (h : map.mergeSamples names true = .ok after)
    (numbered : ∀ block ∈ after.blocks, block.Numbered) : SortedMove map names after := by
  obtain ⟨_, _, mixed, keys, all⟩ := mergeSamples_eq_ok consistent valid h
  refine ⟨mixed, keys, ?_⟩
  apply forall₂_imp_of_mem all
  rintro rest isRest block isBlock ⟨arranged, made⟩
  rw [keys] at isRest
  obtain ⟨entry, member⟩ := exists_mem_groupOf consistent.count isRest
  exact made.sortedInto valid.keys consistent (numbered block isBlock) (List.ne_nil_of_mem member)

/-- Dimensions moved in two steps, the second of which sorts the samples. -/
def mergeSamplesTwice (map : BlockMap) (first second : List String) (sorted : Bool) :
    Except Error BlockMap := do
  let mid ← map.mergeSamples first sorted
  mid.mergeSamples second true

theorem mergeSamplesTwice_eq_ok_iff : map.mergeSamplesTwice first second sorted = .ok after ↔
    ∃ mid, map.mergeSamples first sorted = .ok mid ∧ mid.mergeSamples second true = .ok after :=
  bind_eq_ok

section Steps

variable (consistent : map.Consistent) (valid : map.Labelled Labels.Valid)
  (some : first ≠ []) (some' : second ≠ []) (nodup : (first ++ second).Nodup)
  (known : ∀ name ∈ first ++ second, name ∈ map.keys.names)

include nodup known

/-- The dimensions of the second step stay in the first. -/
theorem mem_staying_of_nodup_append : ∀ name ∈ second, name ∈ staying map.keys.names first := by
  intro name member
  have apart := (List.nodup_append.mp nodup).2.2
  exact mem_staying.mpr ⟨known name (List.mem_append_right _ member),
    fun both => apart name both name member rfl⟩

include consistent valid some'

theorem moved_of_merged (h : map.mergeSamples first sorted = .ok mid) : map.Moved first mid := by
  obtain ⟨_, consistent', _, keys, _⟩ := mergeSamples_eq_ok consistent valid h
  obtain ⟨name, member⟩ := List.exists_mem_of_ne_nil _ some'
  exact ⟨valid.keys, List.ne_nil_of_mem (mem_staying_of_nodup_append nodup known name member), keys,
    consistent, consistent'⟩

/-- The samples of what the first step makes can be numbered if those can of what the second step
makes. -/
theorem numbered_mid (h : map.mergeSamples first sorted = .ok mid)
    (h' : mid.mergeSamples second true = .ok after)
    (numbered : ∀ block ∈ after.blocks, block.Numbered) : ∀ block ∈ mid.blocks, block.Numbered := by
  have moved := moved_of_merged consistent valid some' nodup known h
  have can := mergeable_of_merged moved.consistent' (labelled_mergeSamples consistent valid h) h'
    numbered
  exact can.numbered moved.consistent'

/-- A move in two steps succeeds, with samples that can be numbered, exactly if the dimensions can
be moved together. -/
theorem exists_mergeSamplesTwice_iff (some : first ≠ []) :
    (∃ after, map.mergeSamplesTwice first second sorted = .ok after ∧
      ∀ block ∈ after.blocks, block.Numbered) ↔ map.Mergeable (first ++ second) := by
  constructor
  · rintro ⟨after, twice, numbered⟩
    obtain ⟨mid, h, h'⟩ := mergeSamplesTwice_eq_ok_iff.mp twice
    have moved := moved_of_merged consistent valid some' nodup known h
    have numberedMid := numbered_mid consistent valid some' nodup known h h' numbered
    apply (moved.mergeable_iff valid h numberedMid some' nodup known).mpr
    have valid' := labelled_mergeSamples consistent valid h
    exact mergeable_of_merged moved.consistent' valid' h' numbered
  · intro both
    obtain ⟨name, member⟩ := List.exists_mem_of_ne_nil _ some'
    have left := List.ne_nil_of_mem (mem_staying_of_nodup_append nodup known name member)
    have can := both.of_append consistent valid.keys some left
    obtain ⟨mid, h, numberedMid⟩ := can.exists_merged consistent valid sorted
    have moved := moved_of_merged consistent valid some' nodup known h
    have can' := (moved.mergeable_iff valid h numberedMid some' nodup known).mp both
    obtain ⟨after, h', numbered⟩ := can'.exists_merged moved.consistent'
      (labelled_mergeSamples consistent valid h) true
    exact ⟨after, mergeSamplesTwice_eq_ok_iff.mpr ⟨mid, h, h'⟩, numbered⟩

/-- What two steps make of a map. -/
theorem sortedMove_mergeSamplesTwice (twice : map.mergeSamplesTwice first second sorted = .ok after)
    (numbered : ∀ block ∈ after.blocks, block.Numbered) :
    SortedMove map (first ++ second) after := by
  obtain ⟨mid, h, h'⟩ := mergeSamplesTwice_eq_ok_iff.mp twice
  have moved := moved_of_merged consistent valid some' nodup known h
  have numberedMid := numbered_mid consistent valid some' nodup known h h' numbered
  have stays := mem_staying_of_nodup_append nodup known
  obtain ⟨_, _, mixed, _, all⟩ := mergeSamples_eq_ok consistent valid h
  obtain ⟨_, _, mixed', keys', all'⟩ :=
    mergeSamples_eq_ok moved.consistent' (labelled_mergeSamples consistent valid h) h'
  refine ⟨mixed'.trans mixed, keys'.trans moved.keysWithout_keysWithout, ?_⟩
  apply forall₂_imp_of_mem all'
  rintro rest isRest block isBlock ⟨arranged, made⟩
  rw [keys'] at isRest
  obtain ⟨middle, isMid⟩ := exists_mem_groupOf moved.consistent'.count isRest
  have gathered := fun middle (isMid : middle ∈ mid.groupOf second rest) =>
    List.forall₂_zip all (mem_groupOf.mp isMid).1
  exact moved.sortedInto stays gathered numberedMid made (numbered block isBlock)
    (List.ne_nil_of_mem isMid)

end Steps

/-- Two computations of maps succeed together, and then with maps that are alike. -/
structure SameOutcome (a b : Except Error BlockMap) : Prop where
  succeeds : (∃ merged, a = .ok merged) ↔ ∃ merged, b = .ok merged
  alike : ∀ merged merged', a = .ok merged → b = .ok merged' → merged.Alike merged'

/-- Where both computations succeed, with maps that have a property which makes their outcomes the
same, these maps are alike. -/
theorem SameOutcome.exists_alike {a b : Except Error BlockMap} (P : BlockMap → Prop)
    [DecidablePred P] (passes : ((a.toOption.any fun after => decide (P after)) &&
      b.toOption.any fun after => decide (P after)) = true)
    (same : (∀ after, a = .ok after ∨ b = .ok after → P after) → SameOutcome a b) :
    ∃ merged merged', a = .ok merged ∧ b = .ok merged' ∧ merged.Alike merged' := by
  rw [Bool.and_eq_true] at passes
  obtain ⟨merged, h, holds⟩ := exists_eq_ok_and passes.1
  obtain ⟨merged', h', holds'⟩ := exists_eq_ok_and passes.2
  have outcome := same fun after isOne => by
    rcases isOne with isFirst | isSecond
    · exact Except.ok.inj (h.symm.trans isFirst) ▸ holds
    · exact Except.ok.inj (h'.symm.trans isSecond) ▸ holds'
  exact ⟨merged, merged', h, h', outcome.alike merged merged' h h'⟩

/-- Moving key dimensions into the samples in two steps does the same as moving all of them at once,
as long as the samples of what they lead to can be numbered. -/
theorem mergeSamples_append (consistent : map.Consistent) (valid : map.Labelled Labels.Valid)
    (some : first ≠ []) (some' : second ≠ []) (nodup : (first ++ second).Nodup)
    (known : ∀ name ∈ first ++ second, name ∈ map.keys.names) (sorted : Bool)
    (numbered : ∀ after, map.mergeSamplesTwice first second sorted = .ok after ∨
      map.mergeSamples (first ++ second) true = .ok after →
        ∀ block ∈ after.blocks, block.Numbered) :
    SameOutcome (map.mergeSamplesTwice first second sorted)
      (map.mergeSamples (first ++ second) true) := by
  have twice := @exists_mergeSamplesTwice_iff map first second sorted consistent valid some' nodup
    known some
  have once := @exists_mergeSamples_iff map (first ++ second) true consistent valid
  constructor
  · constructor
    · rintro ⟨after, h⟩
      obtain ⟨after', h', _⟩ := once.mpr (twice.mp ⟨after, h, numbered after (.inl h)⟩)
      exact ⟨after', h'⟩
    · rintro ⟨after, h⟩
      obtain ⟨after', h', _⟩ := twice.mpr (once.mp ⟨after, h, numbered after (.inr h)⟩)
      exact ⟨after', h'⟩
  · intro after after' h h'
    have sortedTwice := sortedMove_mergeSamplesTwice consistent valid some' nodup known h
      (numbered after (.inl h))
    have sortedOnce := sortedMove_mergeSamples consistent valid h' (numbered after' (.inr h'))
    exact sortedTwice.alike consistent sortedOnce

end Twice

/-- Blocks with the same properties, one of them without samples. Their gradients have different
rows. -/
def stackedMap : BlockMap :=
  ⟨.of ["a", "b", "c"] [[2, 1, 0], [1, 1, 0], [1, 4, 7], [2, 3, 0], [1, 3, 0]],
    [gridBlock [[7], [-5]] [[0]] [[1]] [[0, 3]] 10,
      gridBlock [[6]] [[0]] [[0]] [[0, 1], [0, 2]] 20,
      gridBlock [] [[0]] [] [] 30,
      gridBlock [[7], [-5]] [[0]] [[1], [0]] [[1, 3], [0, 3]] 40,
      gridBlock [[6]] [[0]] [[0]] [[0, 2], [0, 0]] 50],
    false⟩

theorem stackedMap_twice : ∃ twice once,
    stackedMap.mergeSamplesTwice ["b"] ["a"] false = .ok twice ∧
      stackedMap.mergeSamples ["b", "a"] true = .ok once ∧ twice.Alike once := by
  apply SameOutcome.exists_alike fun after => ∀ block ∈ after.blocks, block.Numbered
  · -- merge sort does not reduce in the kernel, so the rows are sorted by insertion
    delta mergeSamplesTwice mergeSamples mergeSampleGroup
    rw [funext Block.sortRows_eq_insertionSort]
    decide +kernel
  · exact mergeSamples_append (by decide) (by decide) (by decide) (by decide) (by decide)
      (by decide) false

end LabeledBlocks.BlockMap
