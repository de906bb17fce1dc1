import LabeledBlocks.Proofs.Block.JoinAssembled
import LabeledBlocks.Proofs.BlockMap.MergeProperties
import LabeledBlocks.Proofs.BlockMap.MergeSamples

/-!
# Two moves, one after the other

When dimensions are taken away from the keys in two steps, the same is left as when all of them are
taken away at once, and the groups of the second step are made of the blocks that the groups of the
first step were made of. What the two steps make of a group is then assembled of the blocks in the
group of both.

* `BlockMap.GroupGathered.assembled`, `BlockMap.PropertiesMerged.assembled` — what one step makes of
  a group is assembled of its blocks.
* `BlockMap.Moved.keysWithout_keysWithout` — what is left of the keys after two steps.
* `BlockMap.Moved.assembled` — what two steps make of a group is assembled of its blocks.
-/

namespace LabeledBlocks

/-! ### Dimensions that are taken away in two steps -/

theorem staying_staying (dimensions first second : List String) :
    staying (staying dimensions first) second = staying dimensions (first ++ second) := by
  rw [staying, staying, staying, List.filter_filter]
  refine List.filter_congr fun name _ => ?_
  rw [← Bool.decide_and, decide_eq_decide, List.mem_append, not_or, and_comm]

theorem staying_append_comm (dimensions first second : List String) :
    staying dimensions (first ++ second) = staying dimensions (second ++ first) := by
  refine List.filter_congr fun name _ => ?_
  rw [decide_eq_decide, List.mem_append, List.mem_append, or_comm]

namespace BlockMap

theorem restOf_append_comm (dimensions first second : List String) :
    restOf dimensions (first ++ second) = restOf dimensions (second ++ first) := by
  funext key
  rw [restOf, restOf, staying_append_comm]

/-- The values of other dimensions than those that were taken away are still in what is left. -/
theorem valuesOf_restOf {dimensions first wanted : List String} {key : Row}
    (some : staying dimensions first ≠ []) (width : key.length = dimensions.length)
    (stays : ∀ name ∈ wanted, name ∈ staying dimensions first) :
    Labels.valuesOf (staying dimensions first) wanted (restOf dimensions first key) =
      Labels.valuesOf dimensions wanted key := by
  rw [restOf, if_neg some]
  exact Labels.valuesOf_valuesOf (fun name member => (mem_staying.mp member).1) width stays

/-- To take dimensions away in two steps is to take them away at once. -/
theorem restOf_restOf {dimensions first second : List String} {key : Row}
    (some : staying dimensions first ≠ []) (width : key.length = dimensions.length) :
    restOf (staying dimensions first) second (restOf dimensions first key) =
      restOf dimensions (first ++ second) key := by
  by_cases none : staying dimensions (first ++ second) = []
  · rw [restOf, staying_staying, if_pos none, restOf, if_pos none]
  · have stays : ∀ name ∈ staying dimensions (first ++ second), name ∈ staying dimensions first := by
      rw [← staying_staying]
      exact fun name member => (mem_staying.mp member).1
    rw [restOf, staying_staying, if_neg none, valuesOf_restOf some width stays, restOf, if_neg none]

theorem groupOf_append_comm (map : BlockMap) (first second : List String) :
    map.groupOf (first ++ second) = map.groupOf (second ++ first) := by
  funext rest
  rw [groupOf, groupOf, restOf_append_comm]

theorem keysWithout_append_comm (map : BlockMap) (first second : List String) :
    map.keysWithout (first ++ second) = map.keysWithout (second ++ first) := by
  refine Labels.ext_iff.mpr ⟨?_, ?_⟩
  · rw [names_keysWithout, names_keysWithout, namesLeft, namesLeft, staying_append_comm]
  · rw [rows_keysWithout, rows_keysWithout, restOf_append_comm]

/-! ### What one step makes of a group -/

/-- A row of a block with what its key goes on with. -/
def continuedRow (rowsOf : Block → List Row) (continuation : Row → Row) (entry : Row × Block)
    (n : Nat) : Row :=
  (rowsOf entry.2)[n]?.getD [] ++ continuation entry.1

/-- Where a sample of a block goes when dimensions of the keys move to the samples. -/
def sampleRow (dimensions names : List String) (merged : Block) (entry : Row × Block) (n : Nat) :
    Nat :=
  merged.samples.rows.idxOf
    (continuedRow (·.samples.rows) (Labels.valuesOf dimensions names) entry n)

/-- Where a property of a block goes when dimensions of the keys move to the properties. -/
def propertyColumn (dimensions names : List String) (merged : Block) (entry : Row × Block)
    (p : Nat) : Nat :=
  merged.properties.rows.idxOf
    (continuedRow (·.properties.rows) (Labels.valuesOf dimensions names) entry p)

section Group

variable {group : List (Row × Block)} (nodup : (group.map (·.1)).Nodup)

include nodup

theorem idxOf_key {b : Nat} (inside : b < group.length) :
    (group.map (·.1)).idxOf group[b].1 = b := by
  have place := nodup.idxOf_getElem b (by rwa [List.length_map])
  rwa [List.getElem_map] at place

/-- The members of a group stand where their keys stand. -/
theorem getElem?_idxOf_key {entry : Row × Block} (member : entry ∈ group) :
    group[(group.map (·.1)).idxOf entry.1]? = some entry := by
  obtain ⟨b, inside, rfl⟩ := List.mem_iff_getElem.mp member
  rw [idxOf_key nodup inside, List.getElem?_eq_getElem inside]

theorem listed_group : Block.Listed (· ∈ group) (fun entry => (group.map (·.1)).idxOf entry.1)
    Prod.snd (group.map (·.2)) := by
  constructor
  · intro entry member
    rw [List.getElem?_map, getElem?_idxOf_key nodup member, Option.map_some]
  · intro b inside
    rw [List.length_map] at inside
    exact ⟨group[b], List.getElem_mem inside, idxOf_key nodup inside⟩

variable {rowsOf : Block → List Row} {continuation : Row → Row} {sorted : Bool}
  {arranged : List (Row × Source)}
  (order : Block.Arranged sorted (continuedRows rowsOf continuation group) arranged)
  (distinct : (arranged.map (·.1)).Nodup)

include order distinct

/-- The row of a block stands where its source is. -/
theorem source_continuedRow {entry : Row × Block} (member : entry ∈ group) {n : Nat}
    (inside : n < (rowsOf entry.2).length) :
    (arranged.map (·.2))[(arranged.map (·.1)).idxOf (continuedRow rowsOf continuation entry n)]? =
      some ⟨(group.map (·.1)).idxOf entry.1, n⟩ := by
  have own := List.getElem?_eq_getElem inside
  have isRow : (continuedRow rowsOf continuation entry n,
      Source.mk ((group.map (·.1)).idxOf entry.1) n) ∈ arranged := by
    rw [order.perm.mem_iff, mem_continuedRows]
    refine ⟨entry.1, entry.2, _, getElem?_idxOf_key nodup member, own, ?_⟩
    rw [continuedRow, own, Option.getD_some]
  obtain ⟨j, standing⟩ := List.mem_iff_getElem?.mp isRow
  have here : (arranged.map (·.1))[j]? = some (continuedRow rowsOf continuation entry n) := by
    rw [List.getElem?_map, standing, Option.map_some]
  have place := (idxOf?_eq_some_iff_getElem? distinct).mpr here
  rw [idxOf?_of_mem (List.mem_of_getElem? here)] at place
  rw [Option.some.inj place, List.getElem?_map, standing, Option.map_some]

omit nodup in
/-- Different rows have different sources. -/
theorem nodup_sources : (arranged.map (·.2)).Nodup := by
  refine List.Nodup.map_on ?_ (List.Nodup.of_map _ distinct)
  rintro ⟨row, source⟩ member ⟨row', source'⟩ member' rfl
  obtain ⟨key, block, own, found, standing, rfl⟩ :=
    mem_continuedRows.mp (order.perm.mem_iff.mp member)
  obtain ⟨key', block', own', found', standing', rfl⟩ :=
    mem_continuedRows.mp (order.perm.mem_iff.mp member')
  cases found.symm.trans found'
  cases standing.symm.trans standing'
  rfl

end Group

section Step

variable {map : BlockMap} {names : List String} {sorted : Bool} {rest : Row} {block : Block}
  (regular : map.keys.Regular) (consistent : map.Consistent)
  (nonempty : map.groupOf names rest ≠ [])

include regular consistent nonempty

/-- What a move to the samples makes of a group is assembled of its blocks. -/
theorem GroupGathered.assembled {arranged : List (Row × Source)}
    (made : GroupGathered map.keys.names names sorted (map.groupOf names rest) arranged block)
    (numbered : block.Numbered) :
    Block.Assembled (· ∈ map.groupOf names rest) (fun _ p => p) Prod.snd
      (sampleRow map.keys.names names block) block := by
  have nodup := nodup_keys_groupOf regular.nodup consistent.count names rest
  have blocks := consistent_groupOf consistent names rest
  have merges := made.merges blocks numbered
  rw [← List.forall_mem_map] at blocks
  refine merges.assembled (listed_group nodup) (mt List.map_eq_nil_iff.mp nonempty) ?_ blocks
    made.consistent made.valid.regular
  intro entry member n inside
  rw [Labels.count_eq] at inside
  have distinct : (arranged.map (·.1)).Nodup := made.rows ▸ made.valid.own.samples.nodup
  rw [sampleRow, made.rows]
  exact source_continuedRow nodup made.order distinct member inside

/-- What a move to the properties makes of a group is assembled of its blocks. -/
theorem PropertiesMerged.assembled
    (made : PropertiesMerged map.keys.names names sorted (map.groupOf names rest) block) :
    Block.Assembled (· ∈ map.groupOf names rest) (propertyColumn map.keys.names names block)
      Prod.snd (fun _ n => n) block := by
  have nodup := nodup_keys_groupOf regular.nodup consistent.count names rest
  have blocks : ∀ block ∈ (map.groupOf names rest).map (·.2), block.Consistent :=
    List.forall_mem_map.mpr fun entry member =>
      consistent.blocks _ (mem_of_mem_groupOf member).2
  obtain ⟨arranged, order, rows, widens⟩ := made.moved
  have distinct : (arranged.map (·.1)).Nodup := rows ▸ made.valid.own.properties.nodup
  refine widens.assembled (listed_group nodup) (nodup_sources order distinct) ?_ ⟨?_, ?_⟩
    (fun _ _ _ _ => rfl) blocks
  · intro entry member p inside
    rw [Labels.count_eq] at inside
    rw [propertyColumn, rows]
    exact source_continuedRow nodup order distinct member inside
  · intro entry member n inside
    rwa [made.samples entry member]
  · intro m inside
    obtain ⟨entry, member⟩ := List.exists_mem_of_ne_nil _ nonempty
    rw [made.samples entry member] at inside
    exact ⟨entry, m, member, inside, rfl⟩

end Step

/-! ### What two steps make of a group -/

/-- What a move of some, but not of all, dimensions of the keys has made of a map. -/
structure Moved (map : BlockMap) (names : List String) (moved : BlockMap) : Prop where
  valid : map.keys.Valid
  some : staying map.keys.names names ≠ []
  keys : moved.keys = map.keysWithout names
  consistent : map.Consistent
  consistent' : moved.Consistent

/-- The member of the map after the first step that a block goes into. -/
def midEntry (map mid : BlockMap) (first : List String) (entry : Row × Block) : Row × Block :=
  (restOf map.keys.names first entry.1,
    (mid.blockFor? (restOf map.keys.names first entry.1)).getD entry.2)

namespace Moved

variable {map mid : BlockMap} {first second : List String} (moved : map.Moved first mid)

include moved

theorem valid' : mid.keys.Valid :=
  moved.keys ▸ valid_keysWithout moved.valid

theorem names : mid.keys.names = staying map.keys.names first := by
  rw [moved.keys, names_keysWithout]
  exact if_neg moved.some

theorem restOf_restOf {key : Row} (isKey : key ∈ map.keys.rows) :
    restOf mid.keys.names second (restOf map.keys.names first key) =
      restOf map.keys.names (first ++ second) key := by
  rw [moved.names]
  exact BlockMap.restOf_restOf moved.some (moved.valid.width key isKey)

/-- In two steps the same is left as when all dimensions are taken away at once. -/
theorem keysWithout_keysWithout : mid.keysWithout second = map.keysWithout (first ++ second) := by
  refine Labels.ext_iff.mpr ⟨?_, ?_⟩
  · rw [names_keysWithout, names_keysWithout, moved.names, namesLeft, namesLeft, staying_staying]
  · rw [rows_keysWithout, rows_keysWithout, moved.keys, rows_keysWithout, eraseDups_map_eraseDups,
      List.map_map, ← moved.keys]
    refine congrArg List.eraseDups (List.map_congr_left fun key isKey => ?_)
    exact moved.restOf_restOf isKey

/-- Every member of the map between the steps is made of some blocks. -/
theorem groupOf_ne_nil {middle : Row × Block} (isMid : middle ∈ mid.entries) :
    map.groupOf first middle.1 ≠ [] := by
  have isKey := (List.of_mem_zip isMid).1
  rw [moved.keys] at isKey
  obtain ⟨entry, member⟩ := exists_mem_groupOf moved.consistent.count isKey
  exact List.ne_nil_of_mem member

/-- The rows of a member of the map between the steps go on as those of its blocks, where it has the
same rows. -/
theorem continuedRow_mid {wanted : List String} {rowsOf : Block → List Row}
    {middle entry : Row × Block} (stays : ∀ name ∈ wanted, name ∈ staying map.keys.names first)
    (member : entry ∈ map.groupOf first middle.1) (same : rowsOf middle.2 = rowsOf entry.2)
    (n : Nat) :
    continuedRow rowsOf (Labels.valuesOf mid.keys.names wanted) middle n =
      continuedRow rowsOf (Labels.valuesOf map.keys.names wanted) entry n := by
  have width := moved.valid.width _ (mem_of_mem_groupOf member).1
  rw [continuedRow, continuedRow, same, ← (mem_groupOf.mp member).2, moved.names,
    valuesOf_restOf moved.some width stays]

theorem midEntry_eq_iff {entry middle : Row × Block} (isMid : middle ∈ mid.entries) :
    midEntry map mid first entry = middle ↔ restOf map.keys.names first entry.1 = middle.1 := by
  constructor
  · rintro rfl
    rfl
  · intro same
    rw [midEntry, same, blockFor?_of_mem moved.valid'.toRegular isMid, Option.getD_some]

/-- Every block of a group goes into a member of the group of the second step. -/
theorem midEntry_mem {rest : Row} {entry : Row × Block}
    (member : entry ∈ map.groupOf (first ++ second) rest) :
    midEntry map mid first entry ∈ mid.groupOf second rest ∧
      entry ∈ map.groupOf first (midEntry map mid first entry).1 := by
  obtain ⟨isEntry, left⟩ := mem_groupOf.mp member
  have isKey : entry.1 ∈ map.keys.rows := (List.of_mem_zip isEntry).1
  have isRest : restOf map.keys.names first entry.1 ∈ mid.entries.map (·.1) := by
    rw [map_fst_entries moved.consistent'.count, moved.keys, rows_keysWithout, List.mem_eraseDups]
    exact List.mem_map_of_mem isKey
  obtain ⟨middle, isMid, same⟩ := List.mem_map.mp isRest
  rw [(moved.midEntry_eq_iff isMid).mpr same.symm]
  refine ⟨mem_groupOf.mpr ⟨isMid, ?_⟩, mem_groupOf.mpr ⟨isEntry, same.symm⟩⟩
  rw [same, moved.restOf_restOf isKey, left]

/-- The groups of the second step are made of the groups of the first. -/
theorem midEntry_eq_iff_mem {rest : Row} {middle : Row × Block}
    (isMid : middle ∈ mid.groupOf second rest) {entry : Row × Block} :
    (entry ∈ map.groupOf (first ++ second) rest ∧ midEntry map mid first entry = middle) ↔
      entry ∈ map.groupOf first middle.1 := by
  obtain ⟨isEntry', left⟩ := mem_groupOf.mp isMid
  rw [moved.midEntry_eq_iff isEntry', mem_groupOf, mem_groupOf]
  constructor
  · rintro ⟨⟨isEntry, _⟩, same⟩
    exact ⟨isEntry, same⟩
  · rintro ⟨isEntry, same⟩
    rw [← same, moved.restOf_restOf (List.of_mem_zip isEntry).1] at left
    exact ⟨⟨isEntry, left⟩, same⟩

/-- What the second step makes of blocks that the first step has made of others is assembled of
these. -/
theorem assembled {rest : Row} {whole : Block}
    {row column outerRow outerColumn : Row × Block → Nat → Nat}
    {innerRow innerColumn : Row × Block → Row × Block → Nat → Nat}
    (outer : Block.Assembled (· ∈ mid.groupOf second rest) outerColumn Prod.snd outerRow whole)
    (inner : ∀ middle ∈ mid.groupOf second rest, Block.Assembled (· ∈ map.groupOf first middle.1)
      (innerColumn middle) Prod.snd (innerRow middle) middle.2)
    (sameRow : ∀ middle ∈ mid.groupOf second rest, ∀ entry ∈ map.groupOf first middle.1,
      ∀ n < entry.2.samples.count, row entry n = outerRow middle (innerRow middle entry n))
    (sameColumn : ∀ middle ∈ mid.groupOf second rest, ∀ entry ∈ map.groupOf first middle.1,
      ∀ p < entry.2.properties.count,
        column entry p = outerColumn middle (innerColumn middle entry p)) :
    Block.Assembled (· ∈ map.groupOf (first ++ second) rest) column Prod.snd row whole := by
  have goes {entry : Row × Block} (member : entry ∈ map.groupOf (first ++ second) rest) :=
    moved.midEntry_mem member
  have within : ∀ middle ∈ mid.groupOf second rest, Block.Assembled
      (fun entry => entry ∈ map.groupOf (first ++ second) rest ∧
        midEntry map mid first entry = middle)
      (innerColumn middle) Prod.snd (innerRow middle) middle.2 := by
    intro middle isMid
    simp only [moved.midEntry_eq_iff_mem isMid]
    exact inner middle isMid
  refine outer.trans within (fun entry member => (goes member).1) ?_ ?_ ?_ ?_
  · exact fun entry member => sameRow _ (goes member).1 entry (goes member).2
  · exact fun entry member => sameColumn _ (goes member).1 entry (goes member).2
  · intro entry member
    exact moved.consistent.blocks _ (mem_of_mem_groupOf member).2
  · intro middle member
    exact moved.consistent'.blocks _ (mem_of_mem_groupOf member).2

end Moved

end BlockMap

end LabeledBlocks
