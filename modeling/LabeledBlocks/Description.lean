import LabeledBlocks.BlockMap.Basic

/-!
# Descriptions

Labels, blocks and maps as texts for a reader: a table of the rows of labels, and descriptions
in one line that name every part.
-/

namespace LabeledBlocks

open Text

/-- A record of named parts, `Kind \x7b part: value, part: value \x7d`. -/
def describeRecord (kind : String) (parts : List (String × String)) : String :=
  kind ++ " \x7b " ++ ", ".intercalate (parts.map fun part => part.1 ++ ": " ++ part.2) ++ " \x7d"

/-- The names on the first line, and a line for every row. -/
def Labels.table (labels : Labels) : String :=
  "Labels(" ++ ", ".intercalate labels.names ++ ")\n" ++
    String.join (labels.rows.map fun row =>
      "  (" ++ ", ".intercalate (row.map fun v => toString v.toInt) ++ ")\n")

def Labels.describe (labels : Labels) : String :=
  describeRecord "Labels" [
    ("names", quotes labels.names),
    ("count", toString labels.count),
    ("rows", listing integers labels.rows)]

def Block.describe (block : Block) : String :=
  describeRecord "TensorBlock" [
    ("shape", counts block.shape),
    ("samples", quotes block.samples.names),
    ("components", listing (fun labels => quotes labels.names) block.components),
    ("properties", quotes block.properties.names),
    ("gradients", quotes block.parameters)]

def BlockMap.describe (map : BlockMap) : String :=
  describeRecord "TensorMap" [
    ("keys", map.keys.describe),
    ("blocks", listing Block.describe map.blocks),
    ("config", describeRecord "MapConfig"
      [("heterogeneous_properties", toString map.mixedProperties)])]

end LabeledBlocks
