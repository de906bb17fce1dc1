import LabeledBlocks.BlockMap.FlattenComponents
import LabeledBlocks.BlockMap.MergeProperties
import LabeledBlocks.BlockMap.MergeSamples
import LabeledBlocks.BlockMap.SplitSamples

/-!
# Sequences of moves

* `BlockMap.Move` is one of the four moves, with its names.
* `BlockMap.afterMoves` makes some of them, one after the other.
-/

namespace LabeledBlocks.BlockMap

/-- A move of a map: of key dimensions into the samples or the properties, of sample dimensions into
the keys, or of components into the properties. -/
inductive Move where
  | mergeSamples (names : List String) (sorted : Bool)
  | mergeProperties (names : List String) (sorted : Bool)
  | splitSamples (names : List String)
  | flattenComponents (names : List String)
  deriving DecidableEq, Repr

def Move.apply (map : BlockMap) : Move → Except Error BlockMap
  | .mergeSamples names sorted => map.mergeSamples names sorted
  | .mergeProperties names sorted => map.mergeProperties names sorted
  | .splitSamples names => map.splitSamples names
  | .flattenComponents names => map.flattenComponents names

def afterMoves (map : BlockMap) : List Move → Except Error BlockMap
  | [] => .ok map
  | move :: moves => do
    let next ← move.apply map
    afterMoves next moves

end LabeledBlocks.BlockMap
