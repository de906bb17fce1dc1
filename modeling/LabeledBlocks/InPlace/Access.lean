import LabeledBlocks.Dense
import LabeledBlocks.Labels.Basic

/-!
# Accesses by position

Blocks, rows, samples and values that are looked up by their positions need not be there. Here each
access is one that may go astray: it reads or writes at a position of a buffer only if the buffer
has it, and divides by a number only if that is not zero. Labels are cut out of the values that they
are stored as, a row at a time.

* `InPlace.fetch`, `InPlace.put`, `InPlace.quotient`, `InPlace.remainder` are the accesses.
* `InPlace.rows` cuts all rows out of the values of labels.
* `InPlace.lookUp` finds the sample that a gradient row refers to.
-/

namespace LabeledBlocks.InPlace

variable {α : Type}

def fetch (stray : Stray) (members : Array α) (position : Nat) : Except Error α :=
  match members[position]? with
  | some member => .ok member
  | none => .error (.outOfRange stray)

/-- The members with another one at a position. -/
def put (stray : Stray) (members : Array α) (position : Nat) (member : α) :
    Except Error (Array α) :=
  if position < members.size then .ok (members.setIfInBounds position member)
  else .error (.outOfRange stray)

/-- How often a number goes into another one. -/
def quotient (number divisor : Nat) : Except Error Nat :=
  if divisor = 0 then .error (.outOfRange .axis) else .ok (number / divisor)

/-- What is left of a number after division. -/
def remainder (number divisor : Nat) : Except Error Nat :=
  if divisor = 0 then .error (.outOfRange .axis) else .ok (number % divisor)

/-- The row at a position, a slice of the values. -/
def row (labels : Labels) (position : Nat) : Except Error Row :=
  if position < labels.count ∧ (position + 1) * labels.size ≤ labels.values.length then
    .ok ((labels.values.drop (position * labels.size)).take labels.size)
  else .error (.outOfRange .values)

def rows (labels : Labels) : Except Error (List Row) :=
  (List.range labels.count).mapM (row labels)

/-- A number as the index that it is taken for, of 64 bits. A negative number is a large index. -/
def asIndex (number : Int32) : Nat :=
  (number.toInt % 2 ^ 64).toNat

/-- The sample number that a gradient row starts with, looked up in the table of the block `b`, and
the rest of the row. -/
def lookUp (tables : Array (Array α)) (b : Nat) (row : Row) : Except Error (α × Row) := do
  let number ← fetch .dimension row.toArray 0
  let entries ← fetch .block tables b
  let found ← fetch .sample entries (asIndex number)
  pure (found, row.tail)

end LabeledBlocks.InPlace
