import LabeledBlocks.Block.Basic
import LabeledBlocks.Labels.Builder
import LabeledBlocks.Labels.Selection

/-!
# Block maps

A block map gives one block to every row of its keys. All blocks have the same sample names, the
same component names axis by axis, gradients for the same parameters and, unless the map is said
to mix them, the same property names.

* `BlockMap.ofBlocks` checks blocks against the first of them.
* `BlockMap.blockFor?` finds a block by its key, `BlockMap.positionsMatching` by a part of it.
-/

namespace LabeledBlocks

/-- Blocks with a key each. -/
structure BlockMap where
  keys : Labels
  blocks : List Block
  /-- May the blocks have different property names? -/
  mixedProperties : Bool

namespace BlockMap

/-- Compares the names of the component axes from position `axis` on. -/
def checkComponentNames (block axis : Nat) : (got expected : List Labels) → Except Error Unit
  | found :: got, wanted :: expected =>
    if found.names ≠ wanted.names then
      .error (.inconsistentComponents block (.names axis found.names wanted.names))
    else checkComponentNames block (axis + 1) got expected
  | _, _ => .ok ()

/-- Refuses a block, at this position, that does not go with the first one. -/
def checkBlock (mixedProperties : Bool) (first : Block) (position : Nat) (block : Block) :
    Except Error Unit := do
  if block.samples.names ≠ first.samples.names then
    throw (.inconsistentSamples position first.samples.names block.samples.names)
  if block.components.length ≠ first.components.length then
    throw (.inconsistentComponents position
      (.axisCount first.components.length block.components.length))
  checkComponentNames position 0 block.components first.components
  if !mixedProperties && block.properties.names != first.properties.names then
    throw (.inconsistentProperties position first.properties.names block.properties.names)
  if block.parameters ≠ first.parameters then
    throw (.inconsistentGradients position first.parameters block.parameters)

/-- Refuses the first of some blocks, counted from `position`, that does not go with `first`. -/
def checkBlocks (mixedProperties : Bool) (first : Block) (position : Nat) :
    List Block → Except Error Unit
  | [] => .ok ()
  | block :: blocks => do
    checkBlock mixedProperties first position block
    checkBlocks mixedProperties first (position + 1) blocks

def ofBlocks (keys : Labels) (blocks : List Block) (mixedProperties : Bool) :
    Except Error BlockMap := do
  if keys.count ≠ blocks.length then
    throw (.keyCountMismatch keys.count blocks.length)
  match blocks with
  | [] => pure ()
  | first :: others => checkBlocks mixedProperties first 1 others
  pure { keys, blocks, mixedProperties }

def empty (names : List String) : Except Error BlockMap := do
  ofBlocks (← Labels.empty names) [] false

def size (map : BlockMap) : Nat :=
  map.blocks.length

def block? (map : BlockMap) (i : Nat) : Option Block :=
  map.blocks[i]?

/-- The block at a position that is promised to exist. -/
def blockAt (map : BlockMap) (i : Nat) : Except MissingEntry Block :=
  match map.block? i with
  | some block => .ok block
  | none => .error (.block i map.size)

def blockFor? (map : BlockMap) (key : Row) : Option Block :=
  map.keys.position key >>= map.block?

/-- The keys and the blocks, in storage order. -/
def entries (map : BlockMap) : List (Row × Block) :=
  map.keys.rows.zip map.blocks

/-- The positions of the blocks whose key agrees with a row of the selection. -/
def positionsMatching (map : BlockMap) (selection : Labels) : Except Error (List Nat) :=
  map.keys.select selection

def blocksMatching (map : BlockMap) (selection : Labels) : Except Error (List Block) := do
  let positions ← map.positionsMatching selection
  pure (positions.filterMap map.block?)

/-- The same keys in the same order, with identical blocks. -/
def identical (a b : BlockMap) : Bool :=
  a.mixedProperties == b.mixedProperties && a.keys.identical b.keys
    && a.blocks.length == b.blocks.length
    && (a.blocks.zip b.blocks).all fun (x, y) => x.identical y

end BlockMap

end LabeledBlocks
