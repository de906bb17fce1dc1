import LabeledBlocks.Arithmetic
import LabeledBlocks.Error
import Std.Data.TreeMap

/-!
# Labels

Labels name the positions along one axis: a list of dimension names and a list of rows with one
integer per dimension. The order of the rows is the order of storage. Next to the rows stand their
number and an index that finds the position of a row; both are fixed by the rows, so labels are
equal when their names and their rows are.

* `Labels.position` finds a row, `Labels.rowAt` gives the row at a position.
* `Labels.sameRows` compares as sets of rows, `Labels.identical` as lists.
-/

namespace LabeledBlocks

/-- Finds the position of a row. -/
abbrev RowIndex := Std.TreeMap Row Nat

namespace RowIndex

/-- Adds rows that stand from position `start` on. A row that is there already keeps its
position. -/
def extend (index : RowIndex) (start : Nat) (rows : List Row) : RowIndex :=
  (rows.zipIdx start).foldl (fun index entry => index.insertIfNew entry.1 entry.2) index

/-- Every row at the position where it first stands. -/
def ofRows (rows : List Row) : RowIndex :=
  extend ∅ 0 rows

theorem ofRows_append (rows more : List Row) :
    ofRows (rows ++ more) = extend (ofRows rows) rows.length more := by
  simp [ofRows, extend, List.zipIdx_append]

end RowIndex

/-- Named rows of integers, in storage order. -/
structure Labels where
  names : List String
  rows : List Row
  /-- How many rows there are. -/
  count : Nat := rows.length
  count_eq : count = rows.length := by rfl
  index : RowIndex := RowIndex.ofRows rows
  index_eq : index = RowIndex.ofRows rows := by rfl

namespace Labels

/-- Labels are determined by their names and rows. -/
theorem ext_iff {a b : Labels} : a = b ↔ a.names = b.names ∧ a.rows = b.rows := by
  obtain ⟨names, rows, count, hcount, index, hindex⟩ := a
  obtain ⟨names', rows', count', hcount', index', hindex'⟩ := b
  subst hcount hindex hcount' hindex'
  constructor
  · rintro ⟨⟩
    exact ⟨rfl, rfl⟩
  · rintro ⟨rfl, rfl⟩
    rfl

instance : DecidableEq Labels := fun _ _ => decidable_of_iff _ ext_iff.symm

def of (names : List String) (rows : List Row) : Labels :=
  { names, rows }

/-- How many dimensions there are, which is the width of every row. -/
def size (labels : Labels) : Nat :=
  labels.names.length

def values (labels : Labels) : List Int32 :=
  labels.rows.flatten

def append (labels : Labels) (rows : List Row) : Labels where
  names := labels.names
  rows := labels.rows ++ rows
  index := labels.index.extend labels.count rows
  index_eq := by rw [RowIndex.ofRows_append, labels.index_eq, labels.count_eq]

def row? (labels : Labels) (i : Nat) : Option Row :=
  labels.rows[i]?

/-- The row at a position that is promised to exist. -/
def rowAt (labels : Labels) (i : Nat) : Except MissingEntry Row :=
  match labels.row? i with
  | some row => .ok row
  | none => .error (.row i labels.count)

def position (labels : Labels) (row : Row) : Option Nat :=
  if row.length = labels.size then labels.index[row]? else none

def contains (labels : Labels) (row : Row) : Bool :=
  (labels.position row).isSome

/-! ### Dimensions -/

/-- The first dimension of this name. -/
def dimension? (labels : Labels) (name : String) : Option Nat :=
  labels.names.idxOf? name

/-- The dimensions of these names; every name must be one. -/
def dimensions (labels : Labels) (names : List String) : Except Error (List Nat) :=
  names.mapM fun name =>
    match labels.dimension? name with
    | some d => .ok d
    | none => .error (.invalidArgument (.unknownDimension name labels.names))

/-- The values of a row in these dimensions, in their order. A row has a value in every
dimension of its labels, so none is passed over. -/
def pick (dimensions : List Nat) (row : Row) : Row :=
  dimensions.filterMap fun d => row[d]?

def column (labels : Labels) (name : String) : Option (List Int32) :=
  (labels.dimension? name).map fun d => labels.rows.filterMap fun row => row[d]?

/-! ### Comparison -/

def sameNames (a b : Labels) : Bool :=
  a.names == b.names

/-- The same names, and the same rows in the same order. -/
def identical (a b : Labels) : Bool :=
  a.names == b.names && a.values == b.values && a.count == b.count

/-- The same names, and the same rows in any order. -/
def sameRows (a b : Labels) : Bool :=
  a.names == b.names && a.count == b.count && a.rows.all b.contains

/-- What a hash of the labels may depend on: the names, the number of rows, and the sum of the
row hashes, which does not change with the order of the rows. -/
def digest (rowHash : Row → UInt64) (labels : Labels) : List String × Nat × UInt64 :=
  (labels.names, labels.count, (labels.rows.map rowHash).sum)

end Labels

end LabeledBlocks
