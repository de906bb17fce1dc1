import LabeledBlocks.Labels.Basic

/-!
# Unions and intersections of labels

Labels as ordered sets of rows. Both operations want the same names on both sides, and both tell
where every row of either side went.

* `Labels.union` keeps the rows of the first labels and appends the new rows of the second.
* `Labels.intersection` keeps the rows of the first labels that the second have as well.
-/

namespace LabeledBlocks.Labels

def checkSameNames (a b : Labels) : Except Error Unit :=
  if a.names = b.names then .ok () else .error (.incompatibleNames a.names b.names)

/-- The rows that are not in `labels`, and for every row its position when those are appended
to `next` rows. -/
def newRows (labels : Labels) (next : Nat) : List Row → List Row × List Nat
  | [] => ([], [])
  | row :: rows =>
    match labels.position row with
    | some i =>
      let (fresh, positions) := newRows labels next rows
      (fresh, i :: positions)
    | none =>
      let (fresh, positions) := newRows labels (next + 1) rows
      (row :: fresh, next :: positions)

/-- The rows of `a` followed by the rows that only `b` has; then the position in it of every row
of `a` and of every row of `b`. -/
def unionWithPositions (a b : Labels) : Except Error (Labels × List Nat × List Nat) := do
  checkSameNames a b
  let (fresh, positions) := newRows a a.count b.rows
  pure (a.append fresh, List.range a.count, positions)

/-- The rows of `a` followed by the rows that only `b` has. -/
def union (a b : Labels) : Except Error Labels :=
  (unionWithPositions a b).map (·.1)

/-- The rows that are in `labels`, and for every row its position among those, counted from
`next`. -/
def commonRows (labels : Labels) (next : Nat) : List Row → List Row × List (Option Nat)
  | [] => ([], [])
  | row :: rows =>
    if labels.contains row then
      let (common, positions) := commonRows labels (next + 1) rows
      (row :: common, some next :: positions)
    else
      let (common, positions) := commonRows labels next rows
      (common, none :: positions)

/-- The rows of `a` that `b` has too; then the position in it of every row of `a` and of every
row of `b`, if it is there. -/
def intersectionWithPositions (a b : Labels) :
    Except Error (Labels × List (Option Nat) × List (Option Nat)) := do
  checkSameNames a b
  let (common, positions) := commonRows b 0 a.rows
  let result := of a.names common
  pure (result, positions, b.rows.map result.position)

/-- The rows of `a` that `b` has too. -/
def intersection (a b : Labels) : Except Error Labels :=
  (intersectionWithPositions a b).map (·.1)

end LabeledBlocks.Labels
