import LabeledBlocks.Json.Number
import LabeledBlocks.Labels.Builder

/-!
# Labels as structured text

Labels as an object with a list of names and the flat list of their values. Reading them back
goes through the checks that every labels go through.

* `Labels.toJson` gives the object, `Labels.ofJson` reads one.
-/

namespace LabeledBlocks

/-- What was expected in place of another value. -/
inductive JsonShape where
  /-- An object with the names and the values, or a list of both. -/
  | labels
  | list
  | text
  /-- An integer of 32 bits. -/
  | integer
  deriving DecidableEq, Repr

def JsonShape.message : JsonShape → String
  | .labels => "struct RawLabels"
  | .list => "a sequence"
  | .text => "a string"
  | .integer => "i32"

/-- Why a value does not describe labels. -/
inductive JsonFault where
  | invalidType (got : Json) (expected : JsonShape)
  | invalidInteger (got : Int)
  | missingField (name : String)
  | tooShort (length : Nat)
  | tooLong (length : Nat)
  | invalid (error : Error)

/-- How a value is named where another one was expected. -/
def Json.kind : Json → String
  | .null => "null"
  | .bool value => s!"boolean `{value}`"
  | .integer value => s!"integer `{value}`"
  | .float value => s!"floating point `{value.text}`"
  | .text value => s!"string {Text.quote value}"
  | .list _ => "sequence"
  | .object _ => "map"

def JsonFault.message : JsonFault → String
  | .invalidType got expected => s!"invalid type: {got.kind}, expected {expected.message}"
  | .invalidInteger got =>
    s!"invalid value: integer `{got}`, expected {JsonShape.integer.message}"
  | .missingField name => s!"missing field `{name}`"
  | .tooShort length => s!"invalid length {length}, expected struct RawLabels with 2 elements"
  | .tooLong length => s!"invalid length {length}, expected fewer elements in array"
  | .invalid error => error.message

namespace Json

def asText : Json → Except JsonFault String
  | .text value => .ok value
  | other => .error (.invalidType other .text)

def asInteger : Json → Except JsonFault Int32
  | .integer value =>
    if -2 ^ 31 ≤ value ∧ value < 2 ^ 31 then .ok (.ofInt value)
    else .error (.invalidInteger value)
  | other => .error (.invalidType other .integer)

def asList {α : Type} (member : Json → Except JsonFault α) :
    Json → Except JsonFault (List α)
  | .list members => members.mapM member
  | other => .error (.invalidType other .list)

/-- The names and the values found in the members of an object, after those found before. Other
members are passed over. -/
def fields (names : Option (List String)) (values : Option (List Int32)) :
    List (String × Json) → Except JsonFault (Option (List String) × Option (List Int32))
  | [] => .ok (names, values)
  | (key, value) :: members =>
    if key = "names" then do
      fields (some (← value.asList asText)) values members
    else if key = "values" then do
      fields names (some (← value.asList asInteger)) members
    else fields names values members

/-- The names and the values that describe labels. -/
def namesAndValues : Json → Except JsonFault (List String × List Int32)
  | .object members => do
    match ← fields none none members with
    | (none, _) => .error (.missingField "names")
    | (some _, none) => .error (.missingField "values")
    | (some names, some values) => .ok (names, values)
  | .list [] => .error (.tooShort 0)
  | .list (names :: rest) => do
    let names ← names.asList asText
    match rest with
    | [] => .error (.tooShort 1)
    | [values] => .ok (names, ← values.asList asInteger)
    | values :: _ => do
      let _ ← values.asList asInteger
      .error (.tooLong (rest.length + 1))
  | other => .error (.invalidType other .labels)

end Json

namespace Labels

def toJson (labels : Labels) : Json :=
  .object [
    ("names", .list (labels.names.map .text)),
    ("values", .list (labels.values.map fun v => .integer v.toInt))]

def ofJson (value : Json) : Except JsonFault Labels := do
  let (names, values) ← value.namesAndValues
  (Labels.ofValues names values).mapError .invalid

end Labels

end LabeledBlocks
