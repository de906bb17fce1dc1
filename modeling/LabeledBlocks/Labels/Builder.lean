import LabeledBlocks.Groups
import LabeledBlocks.Labels.Basic

/-!
# Building labels

Labels are built from names and rows that are checked: the names are distinct identifiers, every
row has one value per name, and no row stands twice. The first offence is reported, names before
rows.

* `Labels.ofRows` checks rows, `Labels.ofValues` cuts a flat list into rows first.
* `Labels.single` are the labels of an axis with nothing to tell apart.
-/

namespace LabeledBlocks

/-- Why a name is no identifier: not empty, ASCII letters, digits and underscores only, and no
digit in front. -/
def NameFault.ofName (name : String) : Option NameFault :=
  match name.toList with
  | [] => some .empty
  | c :: rest =>
    if c.isDigit then some .leadingDigit
    else if (c :: rest).all fun c => c.isAlphanum || c == '_' then none
    else some .foreignCharacter

namespace Labels

def checkNames (earlier : List String) : List String → Except Error Unit
  | [] => .ok ()
  | name :: names =>
    match NameFault.ofName name with
    | some fault => .error (.invalidName name fault)
    | none =>
      if name ∈ earlier then .error (.duplicateName name .withinLabels)
      else checkNames (name :: earlier) names

/-- Checks rows that follow the `seen` ones, the first of them at position `start`. -/
def checkRows (names : List String) (seen : RowIndex) (start : Nat) :
    List Row → Except Error Unit
  | [] => .ok ()
  | row :: rows =>
    if row.length ≠ names.length then
      .error (.widthMismatch start names.length row.length)
    else if seen.contains row then .error (.duplicateRow names row)
    else checkRows names (seen.insert row start) (start + 1) rows

def ofRows (names : List String) (rows : List Row) : Except Error Labels := do
  checkNames [] names
  if names.isEmpty && !rows.isEmpty then
    throw (.invalidArgument .rowsWithoutNames)
  checkRows names ∅ 0 rows
  pure (of names rows)

/-- Labels whose rows stand one after the other in a flat list. Without names there is no row to
cut off, and all values are left over. -/
def ofValues (names : List String) (values : List Int32) : Except Error Labels :=
  let width := names.length
  if values.length % width ≠ 0 then
    .error (.widthMismatch (values.length / width) width (values.length % width))
  else ofRows names (groups width (values.length / width) values)

def empty (names : List String) : Except Error Labels :=
  ofRows names []

/-- One row `[0]` in a dimension called `_`: the labels of an axis without anything to tell
apart. -/
def single : Labels where
  names := ["_"]
  rows := [[0]]

end Labels

end LabeledBlocks
