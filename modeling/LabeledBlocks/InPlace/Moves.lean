import LabeledBlocks.BlockMap.Moves
import LabeledBlocks.InPlace.FlattenAxes
import LabeledBlocks.InPlace.JoinProperties
import LabeledBlocks.InPlace.JoinSamples

/-!
# Moves in place

A move of key dimensions groups the positions of the blocks: each position is put into the group of
what is left of its key, one after the other. The blocks of a group are looked up by their
positions, the first of them says what the others are compared with, and their rows are put together
one by one with the values of the keys. A block is split by going through all its samples for every
value in the dimensions that move.

* `BlockMap.Move.applyInPlace` is the map after a move.
-/

namespace LabeledBlocks

namespace InPlace

open BlockMap

/-! ### Groups of positions -/

/-- The labels cut down to the dimensions of these names, value by value. -/
def project (labels : Labels) (names : List String) : Except Error (Labels × List Nat) := do
  let dimensions ← labels.dimensions names
  let whole ← rows labels
  let cut ← whole.mapM (movedValues dimensions)
  let (distinct, positions) := Labels.distinct ∅ cut
  pure (.of names distinct, positions)

/-- The groups with a position put behind the others of group `n`. -/
def pushTo (groups : Array (List Nat)) (n position : Nat) : Except Error (Array (List Nat)) := do
  let own ← fetch .block groups n
  put .block groups n (own ++ [position])

/-- The groups of so many positions, each of which comes with the number of its group. -/
def collect (count : Nat) (numbers : List Nat) : Except Error (Array (List Nat)) :=
  numbers.zipIdx.foldlM (fun groups entry => pushTo groups entry.1 entry.2)
    (Array.replicate count [])

/-- The keys cut down to the dimensions that do not move, and the positions of the blocks of
each. -/
def groupPositions (keys : Labels) (moved : List Nat) :
    Except Error (Labels × List (List Nat)) := do
  let remaining := namesWithout moved keys.names
  if remaining.isEmpty then
    if keys.rows.isEmpty then
      pure (← Labels.empty Labels.single.names, [])
    else
      pure (Labels.single, [List.range keys.count])
  else
    let (left, numbers) ← project keys remaining
    let groups ← collect left.count numbers
    pure (left, groups.toList)

def memberAt (map : BlockMap) (position : Nat) : Except Error Member := do
  let block ← fetch .block map.blocks.toArray position
  let key ← row map.keys position
  pure ⟨position, key, block⟩

/-! ### Merging -/

/-- The rows of a group with the moved key values behind them, and their sources. -/
def continued (moved : List Nat) (labelsOf : Block → Labels) (group : List Member) :
    Except Error (List (Row × Source)) := do
  let parts ← group.zipIdx.mapM fun entry => do
    let continuation ← movedValues moved entry.1.key
    let own ← rows (labelsOf entry.1.block)
    pure (Block.extendRows continuation entry.2 own)
  pure parts.flatten

def mergeSampleGroup (map : BlockMap) (moved : List Nat) (names : List String) (sorted : Bool)
    (group : List Nat) : Except Error Block := do
  let members ← group.mapM (memberAt map)
  let first ← fetch .block members.toArray 0
  checkNewSampleNames first.block.samples names
  checkSampleMembers first members.tail
  let found ← continued moved Block.samples members
  let found := if sorted then Block.sortRows found else found
  let samples ←
    (Labels.ofRows (first.block.samples.names ++ names) (found.map (·.1))).mapError asAmbiguous
  joinSamples first.block (members.tail.map Member.block) samples (found.map (·.2))

def mergePropertyGroup (map : BlockMap) (moved : List Nat) (names : List String) (sorted : Bool)
    (group : List Nat) : Except Error Block := do
  let members ← group.mapM (memberAt map)
  let first ← fetch .block members.toArray 0
  checkNewPropertyNames first.block.properties names
  checkPropertyMembers first.block members.tail
  let found ← continued moved Block.properties members
  let found := if sorted then Block.sortRows found else found
  let properties ← Labels.ofRows (first.block.properties.names ++ names) (found.map (·.1))
  let positions := members.map fun _ => Array.range first.block.samples.count
  joinProperties first.block (members.tail.map Member.block) first.block.samples positions
    properties (found.map (·.2))

def mergeSamples (map : BlockMap) (names : List String) (sorted : Bool) :
    Except Error BlockMap := do
  let moved ← map.movedDimensions names
  let (keys, groups) ← groupPositions map.keys moved
  let blocks ← groups.mapM (mergeSampleGroup map moved names sorted)
  ofBlocks keys blocks map.mixedProperties

def mergeProperties (map : BlockMap) (names : List String) (sorted : Bool) :
    Except Error BlockMap := do
  let moved ← map.movedDimensions names
  let (keys, groups) ← groupPositions map.keys moved
  let blocks ← groups.mapM (mergePropertyGroup map moved names sorted)
  ofBlocks keys blocks map.mixedProperties

/-! ### Splitting -/

/-- The rows of a part among these, from position `start` on, cut down to the remaining dimensions,
and their sources. `numbers` holds the number of the part of every sample. -/
def partRows (remaining : List Nat) (numbers : Array Nat) (part start : Nat) :
    List Row → Except Error (List (Row × Source))
  | [] => .ok []
  | row :: rows => do
    let number ← fetch .sample numbers start
    if number == part then
      let kept ← movedValues remaining row
      let rest ← partRows remaining numbers part (start + 1) rows
      pure ((kept, ⟨0, start⟩) :: rest)
    else partRows remaining numbers part (start + 1) rows

def splitBlock (names : List String) (block : Block) : Except Error (List (Row × Block)) := do
  let samples := block.samples
  let moved ← samples.dimensions names
  let remaining := (List.range samples.size).filter (· ∉ moved)
  if remaining.isEmpty then
    throw (.invalidArgument .noSampleDimensionLeft)
  let left ← remaining.mapM (fetch .dimension samples.names.toArray)
  let (values, numbers) ← project samples names
  let parts ← rows values
  parts.zipIdx.mapM fun entry => do
    let all ← rows samples
    let own ← partRows remaining numbers.toArray entry.2 0 all
    let part ← Labels.ofRows left (own.map (·.1))
    let joined ← joinSamples block [] part (own.map (·.2))
    pure (entry.1, joined)

def splitSamples (map : BlockMap) (names : List String) : Except Error BlockMap := do
  if names.isEmpty then
    throw (.invalidArgument (.nothingToMove .samples))
  checkSplitNames map.keys [] names
  let keys ← rows map.keys
  let parts ← (keys.zip map.blocks).mapM fun entry => do
    let parts ← splitBlock names entry.2
    pure (parts.map fun part => (entry.1 ++ part.1, part.2))
  let parts := parts.flatten
  let keys ← Labels.ofRows (map.keys.names ++ names) (parts.map (·.1))
  ofBlocks keys (parts.map (·.2)) map.mixedProperties

/-! ### Flattening -/

def flattenComponents (map : BlockMap) (names : List String) : Except Error BlockMap := do
  if names.isEmpty then
    throw (.invalidArgument (.nothingToMove .components))
  let blocks ← map.blocks.mapM fun block => do
    let axes ← block.componentAxes [] names
    let properties ← flattenedProperties block axes
    flattenAxes axes properties block
  ofBlocks map.keys blocks map.mixedProperties

end InPlace

end LabeledBlocks
