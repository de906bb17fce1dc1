import LabeledBlocks.BlockMap.Basic
import LabeledBlocks.Groups

/-!
# Grouping blocks by the keys that stay

A move takes some key dimensions away. The blocks that agree in the other dimensions form a
group, and each group is to become one block.

* `BlockMap.movedDimensions` checks the names of the dimensions to take away.
* `BlockMap.groupsWithout` gives the keys that stay and the blocks of each of their groups.
-/

namespace LabeledBlocks

/-- Refuses a name that stands twice in a list of dimensions to move. -/
def checkMovedOnce (source : MoveSource) (earlier : List String) :
    List String → Except Error Unit
  | [] => .ok ()
  | name :: names =>
    if name ∈ earlier then .error (.invalidArgument (.movedTwice source name))
    else checkMovedOnce source (name :: earlier) names

namespace BlockMap

/-- A block of a map with its key and its position. -/
structure Member where
  position : Nat
  key : Row
  block : Block

/-- The blocks of a map with their keys and positions. -/
def members (map : BlockMap) : List Member :=
  map.entries.zipIdx.map fun entry => ⟨entry.2, entry.1.1, entry.1.2⟩

/-- The key dimensions of these names: at least one, and none twice. -/
def movedDimensions (map : BlockMap) (names : List String) : Except Error (List Nat) := do
  if names.isEmpty then
    throw (.invalidArgument (.nothingToMove .keys))
  checkMovedOnce .keys [] names
  map.keys.dimensions names

def namesWithout (moved : List Nat) (names : List String) : List String :=
  (names.zipIdx.filter fun entry => entry.2 ∉ moved).map (·.1)

/-- The keys cut down to the dimensions that do not move, in order of first appearance, and the
blocks of each. When every dimension moves, all blocks form one group. -/
def groupsWithout (map : BlockMap) (moved : List Nat) :
    Except Error (Labels × List (List Member)) := do
  let remaining := namesWithout moved map.keys.names
  if remaining.isEmpty then
    if map.keys.rows.isEmpty then
      pure (← Labels.empty Labels.single.names, [])
    else
      pure (Labels.single, [map.members])
  else
    let (keys, positions) ← map.keys.project remaining
    pure (keys, groupsByNumber keys.count (map.members.zip positions))

/-- The values that a key has in the dimensions that move. -/
def movedValues (moved : List Nat) (key : Row) : Except Error Row :=
  moved.mapM fun d =>
    match key[d]? with
    | some value => .ok value
    | none => .error (.outOfRange .dimension)

end BlockMap

end LabeledBlocks
