import LabeledBlocks.Proofs.Labels.Selection

/-!
# Labels that are cut down

Labels that are cut down to some dimensions have what is left of every row once, in the order of
first appearance, and tell of every row where that stands. Rows that became equal stay equal when
they are cut down further, and the first of them is in front already. So it makes no difference
whether labels are cut down at once or in two steps.

* `Labels.FirstAppearances` — the rows of a list, each once, where they first appear.
* `Labels.IsProjection` — what cutting down gives.
* `Labels.projected_projected`, `Labels.places_projected` — two steps are one.
* `Labels.project_iff` — when cutting down is refused, what it gives, and that it composes.
-/

namespace LabeledBlocks.Labels

/-- The rows are those of the whole list in the order in which they first appear in it, so that none
of them stands twice. -/
structure FirstAppearances (whole rows : List Row) : Prop where
  mem : ∀ row, row ∈ rows ↔ row ∈ whole
  order : rows.Pairwise fun row later => whole.idxOf row < whole.idxOf later

theorem firstAppearances_eraseDups (whole : List Row) : FirstAppearances whole whole.eraseDups :=
  ⟨fun _ => List.mem_eraseDups, pairwise_idxOf_eraseDups whole⟩

def places (labels : Labels) (wanted : List String) : List Nat :=
  labels.rows.map fun row => (labels.projected wanted).rows.idxOf (valuesOf labels.names wanted row)

/-- What is left of the rows in the dimensions of some names, and where what is left of every row
stands. -/
structure IsProjection (labels : Labels) (wanted : List String) (cut : Labels)
    (places : List Nat) : Prop where
  names : cut.names = wanted
  rows : FirstAppearances (labels.rows.map (valuesOf labels.names wanted)) cut.rows
  standing : List.Forall₂ (fun row i => cut.row? i = some (valuesOf labels.names wanted row))
    labels.rows places
  complete : ∀ i < cut.count, i ∈ places

section Projection

variable {labels : Labels}

/-- Labels can only not be cut down when a name is unknown, and the first one is reported. -/
theorem project_eq_error_iff {wanted : List String} {e : Error} :
    labels.project wanted = .error e ↔
      ∃ name, wanted.find? (· ∉ labels.names) = some name ∧
        e = .invalidArgument (.unknownDimension name labels.names) := by
  rw [← dimensions_eq_error_iff, project]
  cases labels.dimensions wanted with
  | error unknown => simp [bind, Except.bind]
  | ok dimensions => simp [ok_bind_eq, pure, Except.pure]

theorem project_eq_projected {wanted : List String}
    (known : ∀ name ∈ wanted, name ∈ labels.names) :
    labels.project wanted = .ok (labels.projected wanted, labels.places wanted) :=
  project_eq known

/-- Labels are cut down to names that they have, each row once. -/
theorem exists_project {wanted : List String} (known : ∀ name ∈ wanted, name ∈ labels.names) :
    ∃ cut places, labels.project wanted = .ok (cut, places) ∧
      IsProjection labels wanted cut places := by
  refine ⟨_, _, project_eq_projected known, ?_⟩
  constructor
  case names => rfl
  case rows => exact firstAppearances_eraseDups _
  case standing =>
    rw [places, List.forall₂_map_right_iff, List.forall₂_same]
    intro row member
    exact List.getElem?_idxOf (List.mem_eraseDups.mpr (List.mem_map_of_mem member))
  case complete =>
    intro i inside
    rw [count_eq] at inside
    -- What stands at `i` is left of some row, and stands nowhere else.
    obtain ⟨row, member, left⟩ :=
      List.mem_map.mp (List.mem_eraseDups.mp (List.getElem_mem inside))
    refine List.mem_map.mpr ⟨row, member, ?_⟩
    rw [left]
    exact (nodup_eraseDups _).idxOf_getElem i inside

variable {kept wanted : List String} (regular : labels.Regular)
  (known : ∀ name ∈ kept, name ∈ labels.names) (stays : ∀ name ∈ wanted, name ∈ kept)

include regular known stays

/-- What is left of a row does not depend on what was dropped first. -/
theorem valuesOf_left {row : Row} (member : row ∈ labels.rows) :
    valuesOf kept wanted (valuesOf labels.names kept row) = valuesOf labels.names wanted row :=
  valuesOf_valuesOf known (regular.width row member) stays

/-- To cut down what was cut down is to do so at once. -/
theorem projected_projected :
    (labels.projected kept).projected wanted = labels.projected wanted := by
  have left : (labels.rows.map (valuesOf labels.names kept)).map (valuesOf kept wanted) =
      labels.rows.map (valuesOf labels.names wanted) := by
    rw [List.map_map]
    exact List.map_congr_left fun row => valuesOf_left regular known stays
  have rows := eraseDups_map_eraseDups (valuesOf kept wanted)
    (labels.rows.map (valuesOf labels.names kept))
  rw [left] at rows
  exact ext_iff.mpr ⟨rfl, rows⟩

/-- A row goes in two steps where it goes at once. -/
theorem places_projected (i : Nat) :
    ((labels.places kept)[i]?.bind (((labels.projected kept).places wanted)[·]?)) =
      (labels.places wanted)[i]? := by
  rw [places, places, places, projected_projected regular known stays, List.getElem?_map,
    List.getElem?_map]
  cases standing : labels.rows[i]? with
  | none => rfl
  | some row =>
    have member := List.mem_of_getElem? standing
    have inMiddle : valuesOf labels.names kept row ∈ (labels.projected kept).rows :=
      List.mem_eraseDups.mpr (List.mem_map_of_mem member)
    have left : valuesOf (labels.projected kept).names wanted (valuesOf labels.names kept row) =
        valuesOf labels.names wanted row := valuesOf_left regular known stays member
    rw [Option.map_some, Option.bind_some, List.getElem?_map, List.getElem?_idxOf inMiddle,
      Option.map_some, Option.map_some, left]

end Projection

/-- **Labels are cut down to what first appears, and cutting down composes.** It is refused for the
first name that is no dimension, and for nothing else. Otherwise the rows are what is left of the
rows, each once, in the order of first appearance; every row is told where what is left of it stands,
and there is nothing else. Cut down to some dimensions, whether one of them comes twice or not, and
then to some of these, labels are identical to what they are when they are cut down at once, and the
places compose to those that are told at once. All labels that are reached are regular
(`sound_of_reachable`). -/
theorem project_iff {labels : Labels} (regular : labels.Regular) (wanted : List String) :
    (∀ e, labels.project wanted = .error e ↔
      ∃ name, wanted.find? (· ∉ labels.names) = some name ∧
        e = .invalidArgument (.unknownDimension name labels.names)) ∧
    ((∀ name ∈ wanted, name ∈ labels.names) →
      ∃ cut places, labels.project wanted = .ok (cut, places) ∧
        IsProjection labels wanted cut places) ∧
    ∀ kept : List String, (∀ name ∈ kept, name ∈ labels.names) → (∀ name ∈ wanted, name ∈ kept) →
      ∃ middle first cut second cut' direct, labels.project kept = .ok (middle, first) ∧
        middle.project wanted = .ok (cut, second) ∧ labels.project wanted = .ok (cut', direct) ∧
        cut.identical cut' = true ∧ ∀ i : Nat, (first[i]?.bind (second[·]?)) = direct[i]? := by
  refine ⟨fun e => project_eq_error_iff, exists_project, fun kept known stays => ?_⟩
  have inWhole : ∀ name ∈ wanted, name ∈ labels.names := fun name member =>
    known name (stays name member)
  refine ⟨_, _, _, _, _, _, project_eq_projected known, project_eq_projected stays,
    project_eq_projected inWhole, ?_, places_projected regular known stays⟩
  rw [projected_projected regular known stays]
  exact identical_self _

/-- Rows of three dimensions, of which two agree in the first and the last one. -/
def readings : Labels :=
  .of ["site", "hour", "unit"] [[3, 0, 1], [3, 1, 1], [2, 0, 1], [3, 0, 5]]

theorem readings_cut :
    readings.project ["unit", "site"] =
        .ok (.of ["unit", "site"] [[1, 3], [1, 2], [5, 3]], [0, 0, 1, 2]) ∧
      (of ["unit", "site"] [[1, 3], [1, 2], [5, 3]]).project ["unit"] =
        .ok (.of ["unit"] [[1], [5]], [0, 0, 1]) ∧
      readings.project ["unit"] = .ok (.of ["unit"] [[1], [5]], [0, 0, 0, 1]) ∧
      ∀ i : Nat, ([0, 0, 1, 2][i]?.bind ([0, 0, 1][·]?)) = [0, 0, 0, 1][i]? := by
  have valid : readings.Valid := by decide
  have first : readings.project ["unit", "site"] =
      .ok (.of ["unit", "site"] [[1, 3], [1, 2], [5, 3]], [0, 0, 1, 2]) := by decide +kernel
  have second : (of ["unit", "site"] [[1, 3], [1, 2], [5, 3]]).project ["unit"] =
      .ok (.of ["unit"] [[1], [5]], [0, 0, 1]) := by decide +kernel
  have direct : readings.project ["unit"] = .ok (.of ["unit"] [[1], [5]], [0, 0, 0, 1]) := by
    decide +kernel
  obtain ⟨_, _, _, _, _, _, first', second', direct', _, composed⟩ :=
    (project_iff valid.toRegular ["unit"]).2.2 ["unit", "site"] (by decide) (by decide)
  cases first.symm.trans first'
  cases second.symm.trans second'
  cases direct.symm.trans direct'
  exact ⟨first, second, direct, composed⟩

end LabeledBlocks.Labels
