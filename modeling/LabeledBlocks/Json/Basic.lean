import LabeledBlocks.FloatBits.Basic

/-!
# Structured text

The values that a structured text stands for. A number is an integer or a floating-point number
by the way it is written, so `1` and `1.0` are different values.
-/

namespace LabeledBlocks

/-- A value of a structured text. -/
inductive Json where
  | null
  | bool (value : Bool)
  /-- An integer of 64 bits, with a sign or without one. -/
  | integer (value : Int)
  /-- Any other number, which is finite. -/
  | float (value : FloatBits)
  | text (value : String)
  | list (members : List Json)
  /-- The members of an object in the order of their keys. -/
  | object (members : List (String × Json))

end LabeledBlocks
