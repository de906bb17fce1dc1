import LabeledBlocks.Proofs.Block.Reordered
import LabeledBlocks.Proofs.BlockMap.Widenable

/-!
# Moves to the samples and to the properties commute

Whether the key dimensions of some names move to the samples first and those of others to the
properties then, or the other way round, the same is left of the keys, and the block of a group has
the same samples, components and properties and the same values. The rows of its gradients may stand
in another order, since they are collected in another order.

* `BlockMap.GroupMerged` — what both moves together make of a group, whichever comes first.
* `BlockMap.bothMoved_samples_properties`, `BlockMap.bothMoved_properties_samples` — what they make
  of a map.
* `BlockMap.mergeSamples_mergeProperties_comm` — the two maps agree.
-/

namespace LabeledBlocks

/-- Two blocks with the same labels and the same values, whose gradients are the same up to the
order of their rows. -/
structure Block.Alike (a b : Block) : Prop where
  samples : a.samples = b.samples
  components : a.components = b.components
  properties : a.properties = b.properties
  values : a.values = b.values
  reordered : Block.Reordered id a b

/-- Blocks that are assembled of the same parts in the same way have the same values. -/
theorem Block.Assembled.alike {ι : Type} {isPart : ι → Prop} {column row : ι → Nat → Nat}
    {part : ι → Block} {a b : Block} (h : Block.Assembled isPart column part row a)
    (h' : Block.Assembled isPart column part row b) (some : ∃ i, isPart i)
    (samples : a.samples = b.samples) (properties : a.properties = b.properties)
    (parts : ∀ i, isPart i → (part i).Consistent) (consistent : a.Consistent)
    (consistent' : b.Consistent) (regular : a.Labelled Labels.Regular) : a.Alike b := by
  have reordered : Block.Reordered id a b :=
    h.reordered h' some (fun _ _ _ _ => rfl) (congrArg Labels.names samples) properties
      (fun _ _ _ _ same => same) parts consistent consistent' regular
  exact ⟨samples, reordered.level.components, properties,
    reordered.values_eq consistent.own consistent'.own samples, reordered⟩

namespace BlockMap

/-! ### What both moves make of a group -/

/-- A block has the samples of the blocks of a group with the values of some dimensions of their
keys behind them, and their properties with the values of others, both in increasing order, and is
assembled of these blocks. -/
structure GroupMerged (dimensions toSamples toProperties : List String)
    (group : List (Row × Block)) (merged : Block) : Prop where
  sampleNames : ∀ entry ∈ group, merged.samples.names = entry.2.samples.names ++ toSamples
  propertyNames : ∀ entry ∈ group,
    merged.properties.names = entry.2.properties.names ++ toProperties
  sampleOrder : merged.samples.rows.Pairwise (· < ·)
  propertyOrder : merged.properties.rows.Pairwise (· < ·)
  assembled : Block.Assembled (· ∈ group) (propertyColumn dimensions toProperties merged) Prod.snd
    (sampleRow dimensions toSamples merged) merged
  consistent : merged.Consistent
  regular : merged.Labelled Labels.Regular

/-- Rows in increasing order are determined by what has a place among them. -/
theorem rows_eq_of_covers {ι : Type} {isPart : ι → Prop} {size : ι → Nat} {rowOf : ι → Nat → Row}
    {rows rows' : List Row}
    (covers : Block.Covers isPart size (fun i n => rows.idxOf (rowOf i n)) rows.length)
    (covers' : Block.Covers isPart size (fun i n => rows'.idxOf (rowOf i n)) rows'.length)
    (order : rows.Pairwise (· < ·)) (order' : rows'.Pairwise (· < ·)) : rows = rows' := by
  have same : ∀ row, row ∈ rows ↔ row ∈ rows' := fun _ => covers.mem_iff.trans covers'.mem_iff.symm
  apply List.Subset.antisymm_of_pairwise order order'
  · exact fun row => (same row).mp
  · exact fun row => (same row).mpr

/-- There is only one such block, up to the order of the rows of the gradients. -/
theorem GroupMerged.alike {dimensions toSamples toProperties : List String}
    {group : List (Row × Block)} {a b : Block}
    (h : GroupMerged dimensions toSamples toProperties group a)
    (h' : GroupMerged dimensions toSamples toProperties group b) (nonempty : group ≠ [])
    (consistent : ∀ entry ∈ group, entry.2.Consistent) : a.Alike b := by
  obtain ⟨entry, member⟩ := List.exists_mem_of_ne_nil _ nonempty
  have samples : a.samples = b.samples := by
    have rows := h.assembled.level.rows
    have rows' := h'.assembled.level.rows
    rw [Labels.count_eq] at rows rows'
    have names := (h.sampleNames entry member).trans (h'.sampleNames entry member).symm
    exact Labels.ext_iff.mpr ⟨names, rows_eq_of_covers rows rows' h.sampleOrder h'.sampleOrder⟩
  have properties : a.properties = b.properties := by
    have columns := h.assembled.level.columns
    have columns' := h'.assembled.level.columns
    rw [Labels.count_eq] at columns columns'
    have names := (h.propertyNames entry member).trans (h'.propertyNames entry member).symm
    exact Labels.ext_iff.mpr
      ⟨names, rows_eq_of_covers columns columns' h.propertyOrder h'.propertyOrder⟩
  have assembled' := h'.assembled
  have rows : sampleRow dimensions toSamples b = sampleRow dimensions toSamples a := by
    funext entry n
    rw [sampleRow, sampleRow, samples]
  have columns : propertyColumn dimensions toProperties b =
      propertyColumn dimensions toProperties a := by
    funext entry p
    rw [propertyColumn, propertyColumn, properties]
  rw [rows, columns] at assembled'
  exact h.assembled.alike assembled' ⟨entry, member⟩ samples properties consistent h.consistent
    h'.consistent h.regular

/-! ### One group -/

section Group

variable {map mid : BlockMap} {toSamples toProperties : List String} {rest : Row} {merged : Block}

/-- A group whose samples were merged before its properties. -/
theorem Moved.groupMerged_properties (moved : map.Moved toSamples mid)
    (stays : ∀ name ∈ toProperties, name ∈ staying map.keys.names toSamples)
    (gathered : ∀ middle ∈ mid.groupOf toProperties rest, ∃ arranged,
      GroupGathered map.keys.names toSamples true (map.groupOf toSamples middle.1) arranged middle.2)
    (numbered : ∀ block ∈ mid.blocks, block.Numbered)
    (made : PropertiesMerged mid.keys.names toProperties true (mid.groupOf toProperties rest) merged)
    (nonempty : mid.groupOf toProperties rest ≠ []) :
    GroupMerged map.keys.names toSamples toProperties
      (map.groupOf (toSamples ++ toProperties) rest) merged := by
  have propertiesOf : ∀ middle ∈ mid.groupOf toProperties rest,
      ∀ entry ∈ map.groupOf toSamples middle.1, middle.2.properties = entry.2.properties := by
    intro middle isMid entry member
    obtain ⟨_, made⟩ := gathered middle isMid
    exact (made.gathered.level.properties _ (List.mem_map_of_mem member)).symm
  constructor
  · intro entry member
    obtain ⟨isMid, isOwn⟩ := moved.midEntry_mem member
    obtain ⟨_, made'⟩ := gathered _ isMid
    rw [made.samples _ isMid, made'.sampleNames entry isOwn]
  · intro entry member
    obtain ⟨isMid, isOwn⟩ := moved.midEntry_mem member
    rw [made.propertyNames _ isMid, propertiesOf _ isMid entry isOwn]
  · obtain ⟨middle, isMid⟩ := List.exists_mem_of_ne_nil _ nonempty
    obtain ⟨_, made'⟩ := gathered middle isMid
    rw [made.samples middle isMid, made'.rows]
    exact List.pairwise_map.mpr made'.order.2
  · obtain ⟨_, order, rows, _⟩ := made.moved
    rw [rows]
    exact List.pairwise_map.mpr order.2
  · have outer := made.assembled moved.valid'.toRegular moved.consistent' nonempty
    have inner : ∀ middle ∈ mid.groupOf toProperties rest,
        Block.Assembled (· ∈ map.groupOf toSamples middle.1) (fun _ p => p) Prod.snd
          (sampleRow map.keys.names toSamples middle.2) middle.2 := by
      intro middle isMid
      obtain ⟨_, made'⟩ := gathered middle isMid
      exact made'.assembled moved.valid.toRegular moved.consistent
        (moved.groupOf_ne_nil (mem_groupOf.mp isMid).1) (numbered _ (mem_of_mem_groupOf isMid).2)
    refine moved.assembled outer inner ?_ ?_
    · intro middle isMid entry member n inside
      rw [sampleRow, made.samples middle isMid, sampleRow]
    · intro middle isMid entry member p inside
      rw [propertyColumn, propertyColumn, moved.continuedRow_mid stays member
        (congrArg Labels.rows (propertiesOf middle isMid entry member))]
  · exact made.consistent
  · exact made.valid.regular

/-- A group whose properties were merged before its samples. -/
theorem Moved.groupMerged_samples (moved : map.Moved toProperties mid)
    (stays : ∀ name ∈ toSamples, name ∈ staying map.keys.names toProperties)
    (widened : ∀ middle ∈ mid.groupOf toSamples rest,
      PropertiesMerged map.keys.names toProperties true (map.groupOf toProperties middle.1) middle.2)
    {arranged : List (Row × Source)}
    (made : GroupGathered mid.keys.names toSamples true (mid.groupOf toSamples rest) arranged merged)
    (numbered : merged.Numbered) (nonempty : mid.groupOf toSamples rest ≠ []) :
    GroupMerged map.keys.names toSamples toProperties
      (map.groupOf (toProperties ++ toSamples) rest) merged := by
  have propertiesOf : ∀ middle ∈ mid.groupOf toSamples rest,
      middle.2.properties = merged.properties := fun middle isMid =>
    made.gathered.level.properties _ (List.mem_map_of_mem isMid)
  constructor
  · intro entry member
    obtain ⟨isMid, isOwn⟩ := moved.midEntry_mem member
    rw [made.sampleNames _ isMid, (widened _ isMid).samples entry isOwn]
  · intro entry member
    obtain ⟨isMid, isOwn⟩ := moved.midEntry_mem member
    rw [← propertiesOf _ isMid, (widened _ isMid).propertyNames entry isOwn]
  · rw [made.rows]
    exact List.pairwise_map.mpr made.order.2
  · obtain ⟨middle, isMid⟩ := List.exists_mem_of_ne_nil _ nonempty
    obtain ⟨_, order, rows, _⟩ := (widened middle isMid).moved
    rw [← propertiesOf middle isMid, rows]
    exact List.pairwise_map.mpr order.2
  · have outer := made.assembled moved.valid'.toRegular moved.consistent' nonempty numbered
    have inner : ∀ middle ∈ mid.groupOf toSamples rest,
        Block.Assembled (· ∈ map.groupOf toProperties middle.1)
          (propertyColumn map.keys.names toProperties middle.2) Prod.snd (fun _ n => n)
          middle.2 := fun middle isMid =>
      (widened middle isMid).assembled moved.valid.toRegular moved.consistent
        (moved.groupOf_ne_nil (mem_groupOf.mp isMid).1)
    refine moved.assembled outer inner ?_ ?_
    · intro middle isMid entry member n inside
      rw [sampleRow, sampleRow, moved.continuedRow_mid stays member
        (congrArg Labels.rows ((widened middle isMid).samples entry member))]
    · intro middle isMid entry member p inside
      rw [propertyColumn, propertyColumn, propertiesOf middle isMid]
  · exact made.consistent
  · exact made.valid.regular

end Group

/-! ### The whole map -/

/-- The keys of a map are what two moves leave of the keys of another one, and for each of them there
is the block that both moves make of its group. -/
structure BothMoved (map : BlockMap) (toSamples toProperties : List String) (moved : BlockMap) :
    Prop where
  mixedProperties : moved.mixedProperties = map.mixedProperties
  keys : moved.keys = map.keysWithout (toSamples ++ toProperties)
  blocks : List.Forall₂
    (fun rest block => GroupMerged map.keys.names toSamples toProperties
      (map.groupOf (toSamples ++ toProperties) rest) block)
    moved.keys.rows moved.blocks

section Map

variable {map mid after : BlockMap} {toSamples toProperties : List String} {sorted : Bool}

theorem labelled_mergeSamples (consistent : map.Consistent) (valid : map.Labelled Labels.Valid)
    (h : map.mergeSamples toSamples sorted = .ok mid) : mid.Labelled Labels.Valid := by
  obtain ⟨_, _, _, keys, all⟩ := mergeSamples_eq_ok consistent valid h
  refine ⟨keys ▸ valid_keysWithout valid.keys, fun block member => ?_⟩
  obtain ⟨_, _, _, made⟩ := exists_of_mem_right all member
  exact made.valid

theorem numbered_gradients (numbered : ∀ block ∈ mid.blocks, block.Numbered) :
    ∀ block ∈ mid.blocks, ∀ parameter gradient, (parameter, gradient) ∈ block.gradients →
      gradient.Numbered :=
  fun block member _ _ isGradient => (numbered block member).inner isGradient

/-- The samples are merged first. -/
theorem bothMoved_samples_properties (consistent : map.Consistent)
    (valid : map.Labelled Labels.Valid)
    (stays : ∀ name ∈ toProperties, name ∈ staying map.keys.names toSamples)
    (h : map.mergeSamples toSamples true = .ok mid)
    (h' : mid.mergeProperties toProperties true = .ok after)
    (numbered : ∀ block ∈ mid.blocks, block.Numbered)
    (numbered' : ∀ block ∈ after.blocks, block.Numbered) :
    BothMoved map toSamples toProperties after := by
  obtain ⟨_, consistent', mixed, keys, all⟩ := mergeSamples_eq_ok consistent valid h
  obtain ⟨⟨named, _⟩, _, mixed', keys', all'⟩ := mergeProperties_eq_ok consistent'
    (labelled_mergeSamples consistent valid h) h' (numbered_gradients numbered')
  obtain ⟨name, isNamed⟩ := List.exists_mem_of_ne_nil _ named
  have some : staying map.keys.names toSamples ≠ [] := List.ne_nil_of_mem (stays name isNamed)
  have moved : map.Moved toSamples mid := ⟨valid.keys, some, keys, consistent, consistent'⟩
  refine ⟨mixed'.trans mixed, keys'.trans moved.keysWithout_keysWithout, ?_⟩
  refine forall₂_imp_of_mem all' fun rest isRest block _ made => ?_
  rw [keys'] at isRest
  obtain ⟨middle, isMid⟩ := exists_mem_groupOf consistent'.count isRest
  apply moved.groupMerged_properties stays _ numbered made (List.ne_nil_of_mem isMid)
  exact fun middle isMid => List.forall₂_zip all (mem_groupOf.mp isMid).1

/-- The properties are merged first. -/
theorem bothMoved_properties_samples (consistent : map.Consistent)
    (valid : map.Labelled Labels.Valid)
    (stays : ∀ name ∈ toSamples, name ∈ staying map.keys.names toProperties)
    (h : map.mergeProperties toProperties true = .ok mid)
    (h' : mid.mergeSamples toSamples true = .ok after)
    (numbered : ∀ block ∈ mid.blocks, block.Numbered)
    (numbered' : ∀ block ∈ after.blocks, block.Numbered) :
    BothMoved map toSamples toProperties after := by
  obtain ⟨_, consistent', mixed, keys, all⟩ :=
    mergeProperties_eq_ok consistent valid h (numbered_gradients numbered)
  obtain ⟨⟨named, _⟩, _, mixed', keys', all'⟩ := mergeSamples_eq_ok consistent'
    (labelled_mergeProperties consistent valid h) h'
  obtain ⟨name, isNamed⟩ := List.exists_mem_of_ne_nil _ named
  have some : staying map.keys.names toProperties ≠ [] := List.ne_nil_of_mem (stays name isNamed)
  have moved : map.Moved toProperties mid := ⟨valid.keys, some, keys, consistent, consistent'⟩
  have left : after.keys = map.keysWithout (toSamples ++ toProperties) := by
    rw [keys', moved.keysWithout_keysWithout, keysWithout_append_comm]
  refine ⟨mixed'.trans mixed, left, ?_⟩
  rw [groupOf_append_comm]
  refine forall₂_imp_of_mem all' fun rest isRest block isBlock made => ?_
  obtain ⟨arranged, made⟩ := made
  rw [keys'] at isRest
  obtain ⟨middle, isMid⟩ := exists_mem_groupOf consistent'.count isRest
  apply moved.groupMerged_samples stays _ made (numbered' block isBlock) (List.ne_nil_of_mem isMid)
  exact fun middle isMid => List.forall₂_zip all (mem_groupOf.mp isMid).1

/-- Two maps with the same keys and the same configuration, whose blocks have the same labels and
values and the same gradients up to the order of their rows. -/
structure Alike (a b : BlockMap) : Prop where
  keys : a.keys = b.keys
  mixedProperties : a.mixedProperties = b.mixedProperties
  blocks : List.Forall₂ Block.Alike a.blocks b.blocks

/-- There is only one such map, up to the order of the rows of the gradients. -/
theorem BothMoved.alike {after' : BlockMap} (consistent : map.Consistent)
    (h : BothMoved map toSamples toProperties after)
    (h' : BothMoved map toSamples toProperties after') : after.Alike after' := by
  have keys := h.keys.trans h'.keys.symm
  refine ⟨keys, h.mixedProperties.trans h'.mixedProperties.symm, ?_⟩
  refine forall₂_of_common h.blocks (keys ▸ h'.blocks) fun rest isRest a b made made' => ?_
  rw [h.keys] at isRest
  obtain ⟨entry, member⟩ := exists_mem_groupOf consistent.count isRest
  apply made.alike made' (List.ne_nil_of_mem member)
  exact fun entry member => consistent.blocks _ (mem_of_mem_groupOf member).2

/-- Moves to the samples and to the properties commute, as long as the samples can be numbered. -/
theorem mergeSamples_mergeProperties_comm {s sp p ps : BlockMap} (consistent : map.Consistent)
    (valid : map.Labelled Labels.Valid) (disjoint : ∀ name ∈ toSamples, name ∉ toProperties)
    (samples : map.mergeSamples toSamples true = .ok s)
    (thenProperties : s.mergeProperties toProperties true = .ok sp)
    (properties : map.mergeProperties toProperties true = .ok p)
    (thenSamples : p.mergeSamples toSamples true = .ok ps)
    (numbered : ∀ moved ∈ [s, sp, p, ps], ∀ block ∈ moved.blocks, block.Numbered) :
    sp.Alike ps := by
  simp only [List.forall_mem_cons] at numbered
  obtain ⟨numberedS, numberedSp, numberedP, numberedPs, -⟩ := numbered
  obtain ⟨⟨_, _, known⟩, _⟩ := mergeSamples_eq_ok consistent valid samples
  obtain ⟨⟨_, _, known'⟩, _⟩ :=
    mergeProperties_eq_ok consistent valid properties (numbered_gradients numberedP)
  have staysSample : ∀ name ∈ toSamples, name ∈ staying map.keys.names toProperties :=
    fun name member => mem_staying.mpr ⟨known name member, disjoint name member⟩
  have staysProperty : ∀ name ∈ toProperties, name ∈ staying map.keys.names toSamples :=
    fun name member => mem_staying.mpr
      ⟨known' name member, fun both => disjoint name both member⟩
  have first := bothMoved_samples_properties consistent valid staysProperty samples thenProperties
    numberedS numberedSp
  have second := bothMoved_properties_samples consistent valid staysSample properties thenSamples
    numberedP numberedPs
  exact first.alike consistent second

end Map

/-- A block with a gradient that has a gradient itself. Its values are counted from `start`. -/
def gridBlock (samples properties first second : List Row) (start : Nat) : Block :=
  let columns : Labels := .of ["p"] properties
  let values (rows : List Row) : Dense :=
    ⟨[rows.length, properties.length],
      ((List.range (rows.length * properties.length)).map fun k => .ofNat (start + k)).toArray⟩
  let inner : Block := ⟨values second, .of ["sample", "t"] second, [], columns, []⟩
  let outer : Block := ⟨values first, .of ["sample"] first, [], columns, [("cell", inner)]⟩
  ⟨values samples, .of ["s"] samples, [], columns, [("positions", outer)]⟩

/-- Blocks whose samples go with the first dimension of the keys and whose properties go with the
second. Their gradients have different rows. -/
def gridMap : BlockMap :=
  ⟨.of ["a", "b", "c"] [[2, 1, 0], [1, 1, 0], [1, 4, 7], [2, 3, 0], [1, 3, 0]],
    [gridBlock [[7], [-5]] [[0]] [[1]] [[0, 3]] 10,
      gridBlock [[6]] [[0]] [[0]] [[0, 1], [0, 2]] 20,
      gridBlock [] [[0]] [] [] 30,
      gridBlock [[7], [-5]] [[0], [3]] [[1], [0]] [[1, 3], [0, 3]] 40,
      gridBlock [[6]] [[0], [3]] [[0]] [[0, 2], [0, 0]] 50],
    false⟩

/-- The maps that the moves of a grid lead to, in both orders. -/
def gridMoves : Except Error (List BlockMap) := do
  let s ← gridMap.mergeSamples ["a"] true
  let sp ← s.mergeProperties ["b"] true
  let p ← gridMap.mergeProperties ["b"] true
  let ps ← p.mergeSamples ["a"] true
  pure [s, sp, p, ps]

theorem gridMap_comm : ∃ s sp p ps, gridMap.mergeSamples ["a"] true = .ok s ∧
    s.mergeProperties ["b"] true = .ok sp ∧ gridMap.mergeProperties ["b"] true = .ok p ∧
    p.mergeSamples ["a"] true = .ok ps ∧ sp.Alike ps := by
  obtain ⟨maps, h, numbered⟩ : ∃ maps, gridMoves = .ok maps ∧
      ∀ moved ∈ maps, ∀ block ∈ moved.blocks, block.Numbered := by
    apply exists_eq_ok_and
    -- a merge sort can not be evaluated by the kernel, the insertion of one row after the other can
    delta gridMoves mergeSamples mergeSampleGroup mergeProperties mergePropertyGroup
    rw [funext Block.sortRows_eq_insertionSort]
    decide +kernel
  simp only [gridMoves, bind_eq_ok] at h
  obtain ⟨s, samples, sp, thenProperties, p, properties, ps, thenSamples, made⟩ := h
  cases made
  exact ⟨s, sp, p, ps, samples, thenProperties, properties, thenSamples,
    mergeSamples_mergeProperties_comm (by decide) (by decide) (by decide) samples thenProperties
      properties thenSamples numbered⟩

end BlockMap

end LabeledBlocks
