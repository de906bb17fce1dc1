import LabeledBlocks.Proofs.BlockMap.MergeTwice

/-!
# Moving key dimensions into the properties in two steps

Dimensions can be moved from the keys into the properties in two steps exactly if they can be moved
in one, and both ways lead to the same map, whether or not the first step sorts the properties. What
a block has no value for is zero, whichever of the steps puts the zero there. The rows of the
gradients may stand in another order, since they are collected in another order.

* `BlockMap.WidenedInto` — what is made of a group, in one step or in two.
* `BlockMap.WidenedInto.groupWidenable` — what is made of a group has room for its blocks.
* `BlockMap.Moved.widenable` — what can be moved together can still be moved after the first step.
* `BlockMap.mergeProperties_append` — two steps do the same as one.
-/

namespace LabeledBlocks.BlockMap

section Twice

variable {map mid after : BlockMap} {first second names : List String} {sorted : Bool} {rest : Row}

/-! ### What is made of a group -/

/-- A block has the samples of the blocks of a group, and their properties with the values of some
dimensions of their keys behind them, in increasing order. It is assembled of these blocks. -/
structure WidenedInto (dimensions names : List String) (group : List (Row × Block))
    (merged : Block) : Prop where
  samples : ∀ entry ∈ group, merged.samples = entry.2.samples
  propertyNames : ∀ entry ∈ group, merged.properties.names = entry.2.properties.names ++ names
  count : merged.properties.count = (group.map fun entry => entry.2.properties.count).sum
  order : merged.properties.rows.Pairwise (· < ·)
  assembled : Block.Assembled (· ∈ group) (propertyColumn dimensions names merged) Prod.snd
    (fun _ n => n) merged
  consistent : merged.Consistent
  valid : merged.Labelled Labels.Valid

/-- There is only one such block, up to the order of the rows of the gradients. -/
theorem WidenedInto.alike {dimensions : List String} {group : List (Row × Block)} {a b : Block}
    (h : WidenedInto dimensions names group a) (h' : WidenedInto dimensions names group b)
    (nonempty : group ≠ []) (consistent : ∀ entry ∈ group, entry.2.Consistent) : a.Alike b := by
  obtain ⟨entry, member⟩ := List.exists_mem_of_ne_nil _ nonempty
  have samples := (h.samples entry member).trans (h'.samples entry member).symm
  have properties : a.properties = b.properties := by
    have columns := h.assembled.level.columns
    have columns' := h'.assembled.level.columns
    rw [Labels.count_eq] at columns columns'
    have names := (h.propertyNames entry member).trans (h'.propertyNames entry member).symm
    exact Labels.ext_iff.mpr ⟨names, rows_eq_of_covers columns columns' h.order h'.order⟩
  have assembled' := h'.assembled
  have columns : propertyColumn dimensions names b = propertyColumn dimensions names a := by
    funext entry p
    rw [propertyColumn, propertyColumn, properties]
  rw [columns] at assembled'
  exact h.assembled.alike assembled' ⟨entry, member⟩ samples properties consistent h.consistent
    h'.consistent h.valid.regular

/-- What is made of a group has room for its blocks, so that the group can be merged. -/
theorem WidenedInto.groupWidenable {dimensions : List String} {group : List (Row × Block)}
    {merged : Block} (h : WidenedInto dimensions names group merged)
    (consistent : ∀ entry ∈ group, entry.2.Consistent)
    (regular : ∀ entry ∈ group, entry.2.Labelled Labels.Regular)
    (numbered : ∀ parameter gradient, (parameter, gradient) ∈ merged.gradients →
      gradient.Numbered) : GroupWidenable names group := by
  refine ⟨?_, ?_, ?_, merged, ?_, h.consistent, numbered, ?_, ?_, Nat.le_of_eq h.count.symm⟩
  · exact fun a ha b hb => (h.samples a ha).symm.trans (h.samples b hb)
  · intro a ha b hb
    exact List.append_cancel_right ((h.propertyNames a ha).symm.trans (h.propertyNames b hb))
  · intro entry member name moved isOld
    have distinct := h.valid.own.properties.distinct
    rw [h.propertyNames entry member] at distinct
    exact (List.nodup_append.mp distinct).2.2 name isOld name moved rfl
  · intro entry member
    exact h.assembled.fits (fun _ _ _ _ _ _ same => same) consistent regular member
  · exact fun entry member => congrArg Labels.names (h.samples entry member).symm
  · intro entry member name isName
    rwa [h.propertyNames entry member]

/-- What one step makes of a group, with the properties sorted. -/
theorem PropertiesMerged.widenedInto {merged : Block}
    (made : PropertiesMerged map.keys.names names true (map.groupOf names rest) merged)
    (regular : map.keys.Regular) (consistent : map.Consistent)
    (nonempty : map.groupOf names rest ≠ []) :
    WidenedInto map.keys.names names (map.groupOf names rest) merged := by
  have assembled := made.assembled regular consistent nonempty
  refine ⟨made.samples, made.propertyNames, made.count, ?_, assembled, made.consistent, made.valid⟩
  obtain ⟨arranged, order, rows, _⟩ := made.moved
  rw [rows]
  exact List.pairwise_map.mpr order.2

/-! ### What both steps make of a group -/

/-- A property goes to the same column in two steps as in one. -/
theorem Moved.propertyColumn_propertyColumn (moved : map.Moved first mid)
    (stays : ∀ name ∈ second, name ∈ staying map.keys.names first) {middle entry : Row × Block}
    (member : entry ∈ map.groupOf first middle.1) {p : Nat}
    (inside : propertyColumn map.keys.names first middle.2 entry p < middle.2.properties.count)
    (merged : Block) :
    propertyColumn map.keys.names (first ++ second) merged entry p =
      propertyColumn mid.keys.names second merged middle
        (propertyColumn map.keys.names first middle.2 entry p) := by
  have stands : middle.2.properties.rows[propertyColumn map.keys.names first middle.2 entry p]? =
      .some (continuedRow (·.properties.rows) (Labels.valuesOf map.keys.names first) entry p) := by
    rw [Labels.count_eq] at inside
    rw [List.getElem?_eq_getElem inside]
    exact congrArg Option.some (List.getElem_idxOf inside)
  rw [propertyColumn, propertyColumn, moved.continuedRow_append stays member stands]

section Step

variable (moved : map.Moved first mid) (widened : ∀ middle ∈ mid.groupOf second rest,
  PropertiesMerged map.keys.names first sorted (map.groupOf first middle.1) middle.2)

include moved widened

theorem Moved.assembled_middle : ∀ middle ∈ mid.groupOf second rest,
    Block.Assembled (· ∈ map.groupOf first middle.1)
      (propertyColumn map.keys.names first middle.2) Prod.snd (fun _ n => n) middle.2 :=
  fun middle isMid => (widened middle isMid).assembled moved.valid.toRegular moved.consistent
    (moved.groupOf_ne_nil (mem_groupOf.mp isMid).1)

/-- The blocks that the first step makes have as many properties as those that they are made of. -/
theorem Moved.sum_counts : ((mid.groupOf second rest).map fun middle => middle.2.properties.count).sum
    = ((map.groupOf (first ++ second) rest).map fun entry => entry.2.properties.count).sum := by
  have each : (mid.groupOf second rest).map (fun middle => middle.2.properties.count) =
      (mid.groupOf second rest).map fun middle =>
        ((map.groupOf first middle.1).map fun entry => entry.2.properties.count).sum :=
    List.map_congr_left fun middle isMid => (widened middle isMid).count
  rw [each, ← (moved.flatMap_groupOf_perm.map _).sum_nat, List.map_flatMap, List.flatMap_def,
    List.sum_flatten, List.map_map]
  rfl

/-- What both steps make of a group, the second of which sorts the properties. -/
theorem Moved.widenedInto (stays : ∀ name ∈ second, name ∈ staying map.keys.names first)
    {merged : Block}
    (made : PropertiesMerged mid.keys.names second true (mid.groupOf second rest) merged)
    (nonempty : mid.groupOf second rest ≠ []) :
    WidenedInto map.keys.names (first ++ second) (map.groupOf (first ++ second) rest) merged := by
  have outer := made.widenedInto moved.valid'.toRegular moved.consistent' nonempty
  have inner := moved.assembled_middle widened
  refine ⟨?_, ?_, outer.count.trans (moved.sum_counts widened), outer.order, ?_, outer.consistent,
    outer.valid⟩
  · intro entry member
    obtain ⟨isMid, isOwn⟩ := moved.midEntry_mem member
    rw [outer.samples _ isMid, (widened _ isMid).samples entry isOwn]
  · intro entry member
    obtain ⟨isMid, isOwn⟩ := moved.midEntry_mem member
    rw [outer.propertyNames _ isMid, (widened _ isMid).propertyNames entry isOwn,
      List.append_assoc]
  · apply moved.assembled outer.assembled inner
    · exact fun _ _ _ _ _ _ => rfl
    · intro middle isMid entry member p inside
      have place := (inner middle isMid).level.columns.inside entry member p inside
      exact moved.propertyColumn_propertyColumn stays member place merged

/-- What the first step has made of the blocks of a group can be merged if all of these can. -/
theorem Moved.groupWidenable (nodup : (first ++ second).Nodup)
    (can : GroupWidenable (first ++ second) (map.groupOf (first ++ second) rest)) :
    GroupWidenable second (mid.groupOf second rest) := by
  have exists_part : ∀ middle ∈ mid.groupOf second rest, ∃ entry,
      entry ∈ map.groupOf first middle.1 ∧ entry ∈ map.groupOf (first ++ second) rest := by
    intro middle isMid
    obtain ⟨entry, member⟩ :=
      List.exists_mem_of_ne_nil _ (moved.groupOf_ne_nil (mem_groupOf.mp isMid).1)
    exact ⟨entry, member, ((moved.midEntry_eq_iff_mem isMid).mpr member).1⟩
  obtain ⟨host, hosts⟩ := can.hosted
  refine ⟨?_, ?_, ?_, host, ?_, hosts.consistent, hosts.numbered, ?_, ?_,
    moved.sum_counts widened ▸ hosts.wide⟩
  · intro a ha b hb
    obtain ⟨entry, isOwn, member⟩ := exists_part a ha
    obtain ⟨entry', isOwn', member'⟩ := exists_part b hb
    rw [(widened a ha).samples entry isOwn, (widened b hb).samples entry' isOwn',
      can.samples entry member entry' member']
  · intro a ha b hb
    obtain ⟨entry, isOwn, member⟩ := exists_part a ha
    obtain ⟨entry', isOwn', member'⟩ := exists_part b hb
    rw [(widened a ha).propertyNames entry isOwn, (widened b hb).propertyNames entry' isOwn',
      can.propertyNames entry member entry' member']
  · intro middle isMid name isName
    obtain ⟨entry, isOwn, member⟩ := exists_part middle isMid
    rw [(widened middle isMid).propertyNames entry isOwn, List.mem_append, not_or]
    exact ⟨can.unused entry member name (List.mem_append_right _ isName),
      fun both => (List.nodup_append.mp nodup).2.2 name both name isName rfl⟩
  · intro middle isMid
    obtain ⟨entry, isOwn, _⟩ := exists_part middle isMid
    refine (moved.assembled_middle widened middle isMid).fits_of_parts ?_ ⟨entry, isOwn⟩
      (fun _ _ _ _ => rfl) (fun _ _ _ _ same => same) ?_ (widened middle isMid).consistent
      (widened middle isMid).valid.regular
    · exact fun entry isOwn =>
        hosts.fits entry ((moved.midEntry_eq_iff_mem isMid).mpr isOwn).1
    · exact consistent_groupOf moved.consistent first middle.1
  · intro middle isMid
    obtain ⟨entry, isOwn, member⟩ := exists_part middle isMid
    rw [(widened middle isMid).samples entry isOwn, hosts.sampleNames entry member]
  · intro middle isMid
    obtain ⟨entry, isOwn, member⟩ := exists_part middle isMid
    rw [(widened middle isMid).propertyNames entry isOwn, List.append_assoc]
    exact hosts.propertyNames entry member

end Step

/-! ### The whole map -/

/-- The keys of a map are what is left of the keys of another one, and for each of them there is the
block that its group is widened into. -/
structure WidenedMove (map : BlockMap) (names : List String) (moved : BlockMap) : Prop where
  mixedProperties : moved.mixedProperties = map.mixedProperties
  keys : moved.keys = map.keysWithout names
  blocks : List.Forall₂
    (fun rest block => WidenedInto map.keys.names names (map.groupOf names rest) block)
    moved.keys.rows moved.blocks

/-- There is only one such map, up to the order of the rows of the gradients. -/
theorem WidenedMove.alike {a b : BlockMap} (consistent : map.Consistent)
    (h : WidenedMove map names a) (h' : WidenedMove map names b) : a.Alike b := by
  have keys := h.keys.trans h'.keys.symm
  refine ⟨keys, h.mixedProperties.trans h'.mixedProperties.symm, ?_⟩
  apply forall₂_of_common h.blocks (keys ▸ h'.blocks)
  intro rest isRest a b made made'
  rw [h.keys] at isRest
  obtain ⟨entry, member⟩ := exists_mem_groupOf consistent.count isRest
  exact made.alike made' (List.ne_nil_of_mem member) (consistent_groupOf consistent names rest)

/-- A map that dimensions were moved in, in whatever steps, lets them be moved in one. -/
theorem WidenedMove.widenable (h : WidenedMove map names after) (consistent : map.Consistent)
    (valid : map.Labelled Labels.Valid) (some : names ≠ []) (nodup : names.Nodup)
    (known : ∀ name ∈ names, name ∈ map.keys.names)
    (numbered : ∀ block ∈ after.blocks, ∀ parameter gradient,
      (parameter, gradient) ∈ block.gradients → gradient.Numbered) : map.Widenable names := by
  refine ⟨some, nodup, known, fun rest isRest => ?_⟩
  rw [← h.keys] at isRest
  obtain ⟨block, paired, made⟩ := exists_mem_zip_of_mem_left h.blocks isRest
  apply made.groupWidenable (consistent_groupOf consistent names rest)
  · exact fun entry member => (valid.blocks _ (mem_of_mem_groupOf member).2).regular
  · exact numbered block (List.of_mem_zip paired).2

/-- What one step makes of a map. -/
theorem widenedMove_mergeProperties (consistent : map.Consistent)
    (valid : map.Labelled Labels.Valid) (h : map.mergeProperties names true = .ok after)
    (numbered : ∀ block ∈ after.blocks, ∀ parameter gradient,
      (parameter, gradient) ∈ block.gradients → gradient.Numbered) :
    WidenedMove map names after := by
  obtain ⟨_, _, mixed, keys, all⟩ := mergeProperties_eq_ok consistent valid h numbered
  refine ⟨mixed, keys, ?_⟩
  apply forall₂_imp_of_mem all
  intro rest isRest block _ made
  rw [keys] at isRest
  obtain ⟨entry, member⟩ := exists_mem_groupOf consistent.count isRest
  exact made.widenedInto valid.keys.toRegular consistent (List.ne_nil_of_mem member)

/-- A map that was widened can be, as long as the gradients can be numbered. -/
theorem widenable_of_widened (consistent : map.Consistent) (valid : map.Labelled Labels.Valid)
    (h : map.mergeProperties names true = .ok after)
    (numbered : ∀ block ∈ after.blocks, ∀ parameter gradient,
      (parameter, gradient) ∈ block.gradients → gradient.Numbered) : map.Widenable names := by
  obtain ⟨⟨some, nodup, known⟩, _⟩ := mergeProperties_eq_ok consistent valid h numbered
  exact (widenedMove_mergeProperties consistent valid h numbered).widenable consistent valid some
    nodup known numbered

/-- If dimensions can be moved together, some of them can be moved alone. -/
theorem Widenable.of_append (can : map.Widenable (first ++ second)) (consistent : map.Consistent)
    (valid : map.keys.Valid) (some : first ≠ []) (left : staying map.keys.names first ≠ []) :
    map.Widenable first := by
  have isFirst {name : String} (member : name ∈ first) : name ∈ first ++ second :=
    List.mem_append_left second member
  refine ⟨some, (List.nodup_append.mp can.nodup).1,
    fun name member => can.known name (isFirst member), fun rest isRest => ?_⟩
  obtain ⟨entry, member⟩ := exists_mem_groupOf consistent.count isRest
  obtain ⟨isEntry, rfl⟩ := mem_groupOf.mp member
  have whole := can.groups _ (restOf_mem_keysWithout (first ++ second) isEntry)
  obtain ⟨host, hosts⟩ := whole.hosted
  have among := @groupOf_subperm_append map first second entry consistent valid left isEntry
  have inside := among.subset
  exact ⟨fun a ha b hb => whole.samples a (inside ha) b (inside hb),
    fun a ha b hb => whole.propertyNames a (inside ha) b (inside hb),
    fun entry member name moved => whole.unused entry (inside member) name (isFirst moved),
    host, fun entry member => hosts.fits entry (inside member), hosts.consistent, hosts.numbered,
    fun entry member => hosts.sampleNames entry (inside member),
    fun entry member name moved => hosts.propertyNames entry (inside member) name <| by
      rw [← List.append_assoc]
      exact List.mem_append_left second moved,
    Nat.le_trans (sum_map_le_of_subperm _ among) hosts.wide⟩

/-- Dimensions moved in two steps, the second of which sorts the properties. -/
def mergePropertiesTwice (map : BlockMap) (first second : List String) (sorted : Bool) :
    Except Error BlockMap := do
  let mid ← map.mergeProperties first sorted
  mid.mergeProperties second true

theorem mergePropertiesTwice_eq_ok_iff :
    map.mergePropertiesTwice first second sorted = .ok after ↔ ∃ mid,
      map.mergeProperties first sorted = .ok mid ∧ mid.mergeProperties second true = .ok after :=
  bind_eq_ok

section Steps

variable (consistent : map.Consistent) (valid : map.Labelled Labels.Valid)
  (some : first ≠ []) (some' : second ≠ []) (nodup : (first ++ second).Nodup)
  (known : ∀ name ∈ first ++ second, name ∈ map.keys.names)

include consistent valid some' nodup known

theorem moved_of_widened (h : map.mergeProperties first sorted = .ok mid) :
    map.Moved first mid := by
  obtain ⟨_, _, keys, _⟩ := move_eq_ok (fun moved => mergePropertyGroup moved first sorted)
    valid.keys consistent.count h
  obtain ⟨name, member⟩ := List.exists_mem_of_ne_nil _ some'
  exact ⟨valid.keys, List.ne_nil_of_mem (mem_staying_of_nodup_append nodup known name member), keys,
    consistent, consistent_mergeProperties consistent valid h⟩

/-- The gradients of what the first step makes can be numbered if those can of what the second step
makes. -/
theorem numbered_gradients_mid (h : map.mergeProperties first sorted = .ok mid)
    (h' : mid.mergeProperties second true = .ok after)
    (numbered : ∀ block ∈ after.blocks, ∀ parameter gradient,
      (parameter, gradient) ∈ block.gradients → gradient.Numbered) :
    ∀ block ∈ mid.blocks, ∀ parameter gradient, (parameter, gradient) ∈ block.gradients →
      gradient.Numbered := by
  have moved := moved_of_widened consistent valid some' nodup known h
  have valid' := labelled_mergeProperties consistent valid h
  have can := widenable_of_widened moved.consistent' valid' h' numbered
  exact can.numbered moved.consistent'

/-- What two steps make of a map. -/
theorem widenedMove_mergePropertiesTwice
    (twice : map.mergePropertiesTwice first second sorted = .ok after)
    (numbered : ∀ block ∈ after.blocks, ∀ parameter gradient,
      (parameter, gradient) ∈ block.gradients → gradient.Numbered) :
    WidenedMove map (first ++ second) after := by
  obtain ⟨mid, h, h'⟩ := mergePropertiesTwice_eq_ok_iff.mp twice
  have moved := moved_of_widened consistent valid some' nodup known h
  have numberedMid := numbered_gradients_mid consistent valid some' nodup known h h' numbered
  have stays := mem_staying_of_nodup_append nodup known
  obtain ⟨_, _, mixed, _, all⟩ := mergeProperties_eq_ok consistent valid h numberedMid
  obtain ⟨_, _, mixed', keys', all'⟩ := mergeProperties_eq_ok moved.consistent'
    (labelled_mergeProperties consistent valid h) h' numbered
  refine ⟨mixed'.trans mixed, keys'.trans moved.keysWithout_keysWithout, ?_⟩
  apply forall₂_imp_of_mem all'
  intro rest isRest block _ made
  rw [keys'] at isRest
  obtain ⟨middle, isMid⟩ := exists_mem_groupOf moved.consistent'.count isRest
  have widened := fun middle (isMid : middle ∈ mid.groupOf second rest) =>
    List.forall₂_zip all (mem_groupOf.mp isMid).1
  exact moved.widenedInto widened stays made (List.ne_nil_of_mem isMid)

/-- A move in two steps succeeds, with gradients that can be numbered, exactly if the dimensions can
be moved together. -/
theorem exists_mergePropertiesTwice_iff (some : first ≠ []) :
    (∃ after, map.mergePropertiesTwice first second sorted = .ok after ∧
      ∀ block ∈ after.blocks, ∀ parameter gradient, (parameter, gradient) ∈ block.gradients →
        gradient.Numbered) ↔ map.Widenable (first ++ second) := by
  constructor
  · rintro ⟨after, twice, numbered⟩
    have made := widenedMove_mergePropertiesTwice consistent valid some' nodup known twice numbered
    exact made.widenable consistent valid (fun none => some (List.append_eq_nil_iff.mp none).1)
      nodup known numbered
  · intro both
    have stays := mem_staying_of_nodup_append nodup known
    obtain ⟨name, member⟩ := List.exists_mem_of_ne_nil _ some'
    have can := both.of_append consistent valid.keys some (List.ne_nil_of_mem (stays name member))
    obtain ⟨mid, h, numberedMid⟩ := can.exists_widened consistent valid sorted
    have moved := moved_of_widened consistent valid some' nodup known h
    obtain ⟨_, _, _, _, all⟩ := mergeProperties_eq_ok consistent valid h numberedMid
    have can' : mid.Widenable second := by
      refine ⟨some', (List.nodup_append.mp nodup).2.1, ?_, fun rest isRest => ?_⟩
      · exact fun name member => moved.names ▸ stays name member
      · rw [moved.keysWithout_keysWithout] at isRest
        exact moved.groupWidenable
          (fun middle isMid => List.forall₂_zip all (mem_groupOf.mp isMid).1) nodup
          (both.groups rest isRest)
    obtain ⟨after, h', numbered⟩ := can'.exists_widened moved.consistent'
      (labelled_mergeProperties consistent valid h) true
    exact ⟨after, mergePropertiesTwice_eq_ok_iff.mpr ⟨mid, h, h'⟩, numbered⟩

end Steps

/-- Moving key dimensions into the properties in two steps does the same as moving all of them at
once, as long as the samples of the gradients of what they lead to can be numbered. -/
theorem mergeProperties_append (consistent : map.Consistent) (valid : map.Labelled Labels.Valid)
    (some : first ≠ []) (some' : second ≠ []) (nodup : (first ++ second).Nodup)
    (known : ∀ name ∈ first ++ second, name ∈ map.keys.names) (sorted : Bool)
    (numbered : ∀ after, map.mergePropertiesTwice first second sorted = .ok after ∨
      map.mergeProperties (first ++ second) true = .ok after →
        ∀ block ∈ after.blocks, ∀ parameter gradient,
          (parameter, gradient) ∈ block.gradients → gradient.Numbered) :
    SameOutcome (map.mergePropertiesTwice first second sorted)
      (map.mergeProperties (first ++ second) true) := by
  have twice := @exists_mergePropertiesTwice_iff map first second sorted consistent valid some'
    nodup known some
  constructor
  · constructor
    · rintro ⟨after, h⟩
      have can := twice.mp ⟨after, h, numbered after (.inl h)⟩
      obtain ⟨after', h', _⟩ := can.exists_widened consistent valid true
      exact ⟨after', h'⟩
    · rintro ⟨after, h⟩
      have can := widenable_of_widened consistent valid h (numbered after (.inr h))
      obtain ⟨after', h', _⟩ := twice.mpr can
      exact ⟨after', h'⟩
  · intro after after' h h'
    have inTwo := widenedMove_mergePropertiesTwice consistent valid some' nodup known h
      (numbered after (.inl h))
    have inOne := widenedMove_mergeProperties consistent valid h' (numbered after' (.inr h'))
    exact inTwo.alike consistent inOne

end Twice

/-- Blocks whose samples go with the last dimension of the keys, one of them without properties.
Their gradients have different rows, and one of them none. -/
def rowsMap : BlockMap :=
  ⟨.of ["a", "b", "c"] [[2, 1, 0], [1, 1, 0], [1, 4, 7], [2, 3, 0], [1, 3, 0]],
    [gridBlock [[7], [-5]] [[0]] [[1]] [[0, 3]] 10,
      gridBlock [[7], [-5]] [[0], [3]] [[0], [1]] [[1, 0], [0, 3]] 20,
      gridBlock [[6]] [[0]] [[0]] [[0, 1]] 30,
      gridBlock [[7], [-5]] [] [[0]] [[0, 2]] 40,
      gridBlock [[7], [-5]] [[5]] [] [] 50],
    false⟩

theorem rowsMap_twice : ∃ twice once,
    rowsMap.mergePropertiesTwice ["b"] ["a"] false = .ok twice ∧
      rowsMap.mergeProperties ["b", "a"] true = .ok once ∧ twice.Alike once := by
  apply SameOutcome.exists_alike fun after =>
    ∀ block ∈ after.blocks, ∀ entry ∈ block.gradients, entry.2.Numbered
  · -- merge sort does not reduce in the kernel, so the rows are sorted by insertion
    delta mergePropertiesTwice mergeProperties mergePropertyGroup
    rw [funext Block.sortRows_eq_insertionSort]
    decide +kernel
  · exact fun numbered => mergeProperties_append (by decide) (by decide) (by decide) (by decide)
      (by decide) (by decide) false fun after isOne block isBlock _ _ isGradient =>
        numbered after isOne block isBlock _ isGradient

end LabeledBlocks.BlockMap
