import LabeledBlocks.BlockMap.Grouping
import LabeledBlocks.Block.JoinProperties

/-!
# Moving key dimensions into the properties

Blocks whose keys agree in the dimensions that stay are joined along their properties. The
values of the dimensions that move become new property dimensions, after the old ones.

* `BlockMap.mergeProperties` is the move. The properties of a group stand in the order of its
  blocks, or sorted.
-/

namespace LabeledBlocks.BlockMap

def checkNewPropertyNames (properties : Labels) : List String → Except Error Unit
  | [] => .ok ()
  | name :: names =>
    if name ∈ properties.names then .error (.invalidArgument (.alreadyProperty name))
    else checkNewPropertyNames properties names

/-- Refuses a block that can not be joined with the first of its group along the properties. -/
def checkPropertyMembers (first : Block) : List Member → Except Error Unit
  | [] => .ok ()
  | member :: members => do
    if !member.block.samples.identical first.samples then
      throw (.sampleMismatch member.position)
    if member.block.properties.names ≠ first.properties.names then
      throw (.inconsistentProperties member.position first.properties.names
        member.block.properties.names)
    checkPropertyMembers first members

/-- The properties of a group with the moved key values behind them, and their sources. -/
def groupProperties (moved : List Nat) (group : List Member) :
    Except Error (List (Row × Source)) := do
  let rows ← group.zipIdx.mapM fun entry => do
    let continuation ← movedValues moved entry.1.key
    pure (Block.extendRows continuation entry.2 entry.1.block.properties.rows)
  pure rows.flatten

/-- The blocks of a group as one block. -/
def mergePropertyGroup (moved : List Nat) (names : List String) (sorted : Bool) :
    List Member → Except Error Block
  | [] => .error (.outOfRange .block)
  | first :: others => do
    let block := first.block
    checkNewPropertyNames block.properties names
    checkPropertyMembers block others
    let rows ← groupProperties moved (first :: others)
    let rows := if sorted then Block.sortRows rows else rows
    let properties ← Labels.ofRows (block.properties.names ++ names) (rows.map (·.1))
    let positions := (first :: others).map fun _ => Array.range block.samples.count
    Block.joinProperties block (others.map Member.block) block.samples positions properties
      (rows.map (·.2))

/-- Moves the key dimensions of these names into the properties. -/
def mergeProperties (map : BlockMap) (names : List String) (sorted : Bool) :
    Except Error BlockMap := do
  let moved ← map.movedDimensions names
  let (keys, groups) ← map.groupsWithout moved
  let blocks ← groups.mapM (mergePropertyGroup moved names sorted)
  ofBlocks keys blocks map.mixedProperties

end LabeledBlocks.BlockMap
