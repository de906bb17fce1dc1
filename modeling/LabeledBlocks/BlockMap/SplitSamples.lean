import LabeledBlocks.BlockMap.Grouping
import LabeledBlocks.Block.JoinSamples

/-!
# Moving sample dimensions into the keys

Every block is split into one block for each distinct value of its samples in the dimensions
that move, in order of first appearance. A block without samples leaves nothing behind.

* `BlockMap.splitSamples` is the move. The new key is the old one followed by the value.
-/

namespace LabeledBlocks.BlockMap

/-- Refuses a name that stands twice or is a key dimension already. -/
def checkSplitNames (keys : Labels) (earlier : List String) : List String → Except Error Unit
  | [] => .ok ()
  | name :: names =>
    if name ∈ earlier then .error (.invalidArgument (.movedTwice .samples name))
    else if name ∈ keys.names then .error (.invalidArgument (.alreadyKey name))
    else checkSplitNames keys (name :: earlier) names

/-- The rows of one part of a split, with their positions in the block, cut down to the remaining
dimensions, and their sources. -/
def partRows (remaining : List Nat) (rows : List (Row × Nat)) :
    Except Error (List (Row × Source)) :=
  rows.mapM fun entry => do
    pure (← movedValues remaining entry.1, ⟨0, entry.2⟩)

/-- The parts of one block, each with its value in the dimensions that move. -/
def splitBlock (names : List String) (block : Block) : Except Error (List (Row × Block)) := do
  let samples := block.samples
  let moved ← samples.dimensions names
  let remaining := (List.range samples.size).filter (· ∉ moved)
  if remaining.isEmpty then
    throw (.invalidArgument .noSampleDimensionLeft)
  let (values, positions) ← samples.project names
  let parts := groupsByNumber values.count (samples.rows.zipIdx.zip positions)
  (values.rows.zip parts).mapM fun entry => do
    let rows ← partRows remaining entry.2
    let part ← Labels.ofRows (namesWithout moved samples.names) (rows.map (·.1))
    pure (entry.1, ← Block.joinSamples block [] part (rows.map (·.2)))

/-- Moves the sample dimensions of these names into the keys. -/
def splitSamples (map : BlockMap) (names : List String) : Except Error BlockMap := do
  if names.isEmpty then
    throw (.invalidArgument (.nothingToMove .samples))
  checkSplitNames map.keys [] names
  let parts ← map.entries.mapM fun entry => do
    pure ((← splitBlock names entry.2).map fun part => (entry.1 ++ part.1, part.2))
  let parts := parts.flatten
  let keys ← Labels.ofRows (map.keys.names ++ names) (parts.map (·.1))
  ofBlocks keys (parts.map (·.2)) map.mixedProperties

end LabeledBlocks.BlockMap
