import LabeledBlocks.BlockMap.Grouping
import LabeledBlocks.Block.JoinSamples

/-!
# Moving key dimensions into the samples

Blocks whose keys agree in the dimensions that stay are joined along their samples. The values
of the dimensions that move become new sample dimensions, after the old ones.

* `BlockMap.mergeSamples` is the move. The samples of a group stand in the order of its blocks,
  or sorted.
-/

namespace LabeledBlocks.BlockMap

def checkNewSampleNames (samples : Labels) : List String → Except Error Unit
  | [] => .ok ()
  | name :: names =>
    if name ∈ samples.names then .error (.ambiguousSamples (.dimension name))
    else checkNewSampleNames samples names

/-- Refuses a block that can not be joined with the first of its group along the samples. -/
def checkSampleMembers (first : Member) : List Member → Except Error Unit
  | [] => .ok ()
  | member :: members => do
    if !member.block.properties.identical first.block.properties then
      throw (.propertyMismatch (.keys member.key first.key))
    if !Block.sameAxes member.block.components first.block.components then
      throw (.inconsistentComponents member.position .joining)
    checkSampleMembers first members

/-- The samples of a group with the moved key values behind them, and their sources. -/
def groupSamples (moved : List Nat) (group : List Member) :
    Except Error (List (Row × Source)) := do
  let rows ← group.zipIdx.mapM fun entry => do
    let continuation ← movedValues moved entry.1.key
    pure (Block.extendRows continuation entry.2 entry.1.block.samples.rows)
  pure rows.flatten

def asAmbiguous : Error → Error
  | .duplicateRow _ row => .ambiguousSamples (.row row)
  | error => error

/-- The blocks of a group as one block. -/
def mergeSampleGroup (moved : List Nat) (names : List String) (sorted : Bool) :
    List Member → Except Error Block
  | [] => .error (.outOfRange .block)
  | first :: others => do
    checkNewSampleNames first.block.samples names
    checkSampleMembers first others
    let rows ← groupSamples moved (first :: others)
    let rows := if sorted then Block.sortRows rows else rows
    let samples ←
      (Labels.ofRows (first.block.samples.names ++ names) (rows.map (·.1))).mapError asAmbiguous
    Block.joinSamples first.block (others.map Member.block) samples (rows.map (·.2))

/-- Moves the key dimensions of these names into the samples. -/
def mergeSamples (map : BlockMap) (names : List String) (sorted : Bool) :
    Except Error BlockMap := do
  let moved ← map.movedDimensions names
  let (keys, groups) ← map.groupsWithout moved
  let blocks ← groups.mapM (mergeSampleGroup moved names sorted)
  ofBlocks keys blocks map.mixedProperties

end LabeledBlocks.BlockMap
