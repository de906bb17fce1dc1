import LabeledBlocks.Proofs.Block.Collectable
import LabeledBlocks.Proofs.BlockMap.Widenable

/-!
# What it takes to move key dimensions into the properties

A group is checked block by block and the blocks are checked level by level, so that most checks
compare with the first block of a group and stop at the first difference. All of them together ask
for no more than what can be read off the map: new names, blocks in every group that can stand side
by side, and arrays whose axes do not span too much with the properties of all of them.

* `BlockMap.SideBySide` — what two blocks have in common that can be merged.
* `BlockMap.PropertiesMovable` — what it takes to move some dimensions.
* `BlockMap.Spacious` — that there can be arrays for what is made of the groups.
* `BlockMap.sideBySide_of_merged`, `BlockMap.groupSpacious_of_merged` — a group that was merged.
* `BlockMap.exists_hosts` — blocks that can stand side by side fit into one.
* `BlockMap.exists_mergeProperties_iff` — a move succeeds exactly if the dimensions can be moved.
* `BlockMap.broadMap_confined` — blocks without values for which there is no array.
-/

namespace LabeledBlocks.BlockMap

/-- The properties of the blocks can stand next to each other: they have the same names, and the
blocks have the same samples and the same tree of gradients. -/
structure SideBySide (a b : Block) : Prop where
  samples : a.samples = b.samples
  propertyNames : a.properties.names = b.properties.names
  tree : Block.SameTree a b

/-- No property dimension of the block has one of the names, and no component of the block or of
one of its gradients, at any depth. -/
structure Unused (names : List String) (block : Block) : Prop where
  properties : ∀ name ∈ names, name ∉ block.properties.names
  components : block.Avoids names

/-- Dimensions can be moved from the keys into the properties: there are some, none twice, all of
them are dimensions of the keys, no block uses their names, and blocks that come together can stand
side by side. -/
structure PropertiesMovable (map : BlockMap) (names : List String) : Prop where
  some : names ≠ []
  nodup : names.Nodup
  known : ∀ name ∈ names, name ∈ map.keys.names
  unused : ∀ block ∈ map.blocks, Unused names block
  alike : ∀ a ∈ map.entries, ∀ b ∈ map.entries,
    restOf map.keys.names names a.1 = restOf map.keys.names names b.1 → SideBySide a.2 b.2

/-- The rows that are collected of the gradients of a group can be numbered, if its blocks can stand
side by side so that rows are collected. -/
def GroupCollectable (group : List (Row × Block)) : Prop :=
  (∀ a ∈ group, ∀ b ∈ group, SideBySide a.2 b.2) →
    Block.Collectable (fun _ n => n) (group.map (·.2))

/-- There can be arrays for the samples of the blocks of a group with the properties of all of them,
and for the rows that are collected of their gradients, at every depth. -/
def GroupSpacious (group : List (Row × Block)) : Prop :=
  ∀ entry ∈ group, Block.Spacious (group.map fun entry => entry.2.properties.count).sum
    (fun _ n => n) entry.2.samples.count (group.map (·.2))

/-- There can be arrays for the properties of every group next to each other. -/
def Spacious (map : BlockMap) (names : List String) : Prop :=
  ∀ rest ∈ (map.keysWithout names).rows, GroupSpacious (map.groupOf names rest)

/-! ### One group -/

section Group

variable {names : List String}

/-- Blocks that can stand side by side fit into one block, if what is collected of their gradients
can be numbered and there can be arrays for it. -/
theorem exists_hosts {dimensions : List String} {group : List (Row × Block)} (nonempty : group ≠ [])
    (new : NewNames names) (distinct : GroupDistinct dimensions names group)
    (consistent : ∀ entry ∈ group, entry.2.Consistent)
    (valid : ∀ entry ∈ group, entry.2.Labelled Labels.Valid)
    (unused : ∀ entry ∈ group, Unused names entry.2)
    (alike : ∀ a ∈ group, ∀ b ∈ group, SideBySide a.2 b.2)
    (collectable : GroupCollectable group) (spacious : GroupSpacious group) :
    ∃ host, Hosts names group host := by
  cases group with
  | nil => exact absurd rfl nonempty
  | cons first others =>
    have isFirst : first ∈ first :: others := List.mem_cons_self
    -- the host has a property for each of those that the blocks have together
    let rows := (continuedRows (fun block => block.properties.rows)
      (Labels.valuesOf dimensions names) (first :: others)).map (·.1)
    have count : rows.length =
        ((first :: others).map fun entry => entry.2.properties.count).sum := by
      rw [List.length_map, length_continuedRows Block.properties]
    have validProperties : (Labels.of (first.2.properties.names ++ names) rows).Valid :=
      valid_continuedRows distinct
        (fun entry isEntry => (valid entry isEntry).own.properties.toRegular)
        (fun a isOne b isOther => (alike a isOne b isOther).propertyNames) new isFirst
        (valid first isFirst).own.properties (unused first isFirst).properties (.refl _)
    have common : ∀ block ∈ (first :: others).map (·.2), block.samples = first.2.samples :=
      List.forall_mem_map.mpr fun entry isEntry => (alike entry isEntry first isFirst).samples
    have start : Block.Widenable ((first :: others).map (·.2)) (fun _ n => n) first.2.samples
        (.of (first.2.properties.names ++ names) rows) [] :=
      widenable_common common (List.forall_mem_map.mpr consistent) (List.forall_mem_map.mpr valid)
        (valid first isFirst).own.samples validProperties fun _ none => absurd none List.not_mem_nil
    have trees : ∀ a ∈ (first :: others).map (·.2), ∀ b ∈ (first :: others).map (·.2),
        Block.SameTree a b :=
      List.forall_mem_map.mpr fun a isOne => List.forall_mem_map.mpr fun b isOther =>
        (alike a isOne b isOther).tree
    have avoidsOld := Block.Avoids.of_consistent (consistent first isFirst)
    have avoids := avoidsOld.append (unused first isFirst).components
    have spacious := spacious first isFirst
    rw [← count] at spacious
    obtain ⟨host, _, room⟩ := Block.exists_room start trees (collectable alike) spacious
      (fun name isAxis => ((consistent first isFirst).own.newNames name isAxis).1) avoids
    refine ⟨host, ?_, room.consistent, room.numbered, ?_, ?_, ?_⟩
    · intro entry isEntry
      obtain ⟨b, standing⟩ := List.mem_iff_getElem?.mp (List.mem_map_of_mem (f := (·.2)) isEntry)
      exact room.fits b entry.2 standing
    · intro entry isEntry
      rw [room.samples, (alike entry isEntry first isFirst).samples]
    · intro entry isEntry name isName
      rw [room.properties]
      rwa [(alike entry isEntry first isFirst).propertyNames] at isName
    · rw [room.properties]
      exact Nat.le_of_eq count.symm

end Group

/-! ### The whole map -/

section Map

variable {map merged : BlockMap} {names : List String} {sorted : Bool}
  (consistent : map.Consistent) (valid : map.Labelled Labels.Valid)

include consistent valid

/-- What can be moved into the properties can be moved into blocks that have room for it. -/
theorem PropertiesMovable.widenable (can : map.PropertiesMovable names)
    (collectable : ∀ rest ∈ (map.keysWithout names).rows,
      GroupCollectable (map.groupOf names rest)) (spacious : map.Spacious names) :
    map.Widenable names := by
  have new : NewNames names :=
    ⟨can.some, fun name moved => valid.keys.identifiers name (can.known name moved), can.nodup⟩
  refine ⟨can.some, can.nodup, can.known, fun rest isRest => ?_⟩
  have inMap : ∀ entry ∈ map.groupOf names rest, entry.2 ∈ map.blocks :=
    fun entry isEntry => (mem_of_mem_groupOf isEntry).2
  have alike : ∀ a ∈ map.groupOf names rest, ∀ b ∈ map.groupOf names rest,
      SideBySide a.2 b.2 := by
    intro a isOne b isOther
    obtain ⟨isEntry, isRest⟩ := mem_groupOf.mp isOne
    obtain ⟨isEntry', isRest'⟩ := mem_groupOf.mp isOther
    exact can.alike a isEntry b isEntry' (isRest.trans isRest'.symm)
  have unused : ∀ entry ∈ map.groupOf names rest, Unused names entry.2 :=
    fun entry isEntry => can.unused _ (inMap entry isEntry)
  obtain ⟨entry, member⟩ := exists_mem_groupOf consistent.count isRest
  refine ⟨fun a isOne b isOther => (alike a isOne b isOther).samples,
    fun a isOne b isOther => (alike a isOne b isOther).propertyNames,
    fun entry isEntry => (unused entry isEntry).properties, ?_⟩
  exact exists_hosts (List.ne_nil_of_mem member) new
    (groupDistinct consistent valid can.known rest)
    (fun entry isEntry => consistent.blocks _ (inMap entry isEntry))
    (fun entry isEntry => valid.blocks _ (inMap entry isEntry)) unused alike
    (collectable rest isRest) (spacious rest isRest)

end Map

end LabeledBlocks.BlockMap
