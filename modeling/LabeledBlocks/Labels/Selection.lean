import LabeledBlocks.Labels.Basic

/-!
# Selecting rows and dropping dimensions

* `Labels.select` gives the positions of the rows that agree with some row of a selection in all
  the dimensions that the selection names.
* `Labels.project` keeps some dimensions and collapses the rows that become equal.
-/

namespace LabeledBlocks.Labels

/-- A row of a selection that names all of `size` dimensions, put into their order: `dimensions`
tells which dimension each of its values belongs to. -/
def reorder (size : Nat) (dimensions : List Nat) (row : Row) : Row :=
  pick ((List.range size).map fun d => (dimensions.idxOf? d).getD d) row

/-- Sorts positions and drops repetitions. -/
def ascending (positions : List Nat) : List Nat :=
  (Std.TreeMap.ofList (positions.map fun p => (p, ()))).keys

/-- The positions, in increasing order, of the rows that agree with a row of `selection` in its
dimensions. A selection of all dimensions looks its rows up, a smaller one goes through the
rows. -/
def select (labels selection : Labels) : Except Error (List Nat) := do
  let dimensions ← labels.dimensions selection.names
  if dimensions.length = labels.size then
    pure (ascending (selection.rows.filterMap fun row =>
      labels.position (reorder labels.size dimensions row)))
  else
    pure ((labels.rows.zipIdx.filter fun entry =>
      selection.contains (pick dimensions entry.1)).map (·.2))

/-- The distinct rows in order of first appearance, when `seen` came before, and the position of
every row among `seen` and them. -/
def distinct (seen : RowIndex) : List Row → List Row × List Nat
  | [] => ([], [])
  | row :: rows =>
    match seen[row]? with
    | some i =>
      let (fresh, positions) := distinct seen rows
      (fresh, i :: positions)
    | none =>
      let (fresh, positions) := distinct (seen.insert row seen.size) rows
      (row :: fresh, seen.size :: positions)

/-- The rows cut down to the dimensions of these names, each once, in order of first appearance;
then the position of the cut-down form of every row. -/
def project (labels : Labels) (names : List String) : Except Error (Labels × List Nat) := do
  let dimensions ← labels.dimensions names
  let (rows, positions) := distinct ∅ (labels.rows.map (pick dimensions))
  pure (of names rows, positions)

end LabeledBlocks.Labels
