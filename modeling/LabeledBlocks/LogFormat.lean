/-!
# Log formats

The three ways in which log events are written, and the setting that chooses between them.
-/

namespace LabeledBlocks

/-- How log events are written. -/
inductive LogFormat where
  /-- Several lines for a person to read. -/
  | pretty
  /-- One object per event. -/
  | json
  /-- One line per event. -/
  | compact
  deriving DecidableEq, Repr

/-- The format of this name, in capital or small letters. Every other text stands for the
default, the pretty format. -/
def LogFormat.ofText (text : String) : LogFormat :=
  match text.toLower with
  | "json" => .json
  | "compact" => .compact
  | _ => .pretty

def LogFormat.text : LogFormat → String
  | .pretty => "Pretty"
  | .json => "Json"
  | .compact => "Compact"

end LabeledBlocks
