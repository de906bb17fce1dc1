import LabeledBlocks.Proofs.Container.Machine
import LabeledBlocks.Proofs.Labels.Stored

/-!
# However labels are made

Labels are made by operations that follow one upon the other: they are built of rows or values,
described by a text, decoded, united, intersected and cut down to some dimensions, under whatever
names. A making is a tree of such operations. It is followed twice, with the labels and with the
values and the index that they are stored as, and whatever it makes, rows are found exactly.

* `Making` — a tree of operations.
* `Making.labels`, `Making.stored` — what it makes.
* `Labels.Exact`, `Stored.Exact` — a row is found where it stands and nowhere else.
* `Making.found_exactly` — whatever is made is exact.
-/

namespace LabeledBlocks

/-! ### Labels in a container -/

namespace Decoder

variable {α β γ δ : Type}

/-- What a run gave, if it did not fail. -/
def given : EStateM.Result ContainerError Feed α → Option α
  | .ok value _ => some value
  | .error _ _ => none

/-- Two runs fail alike or give values that are related, and leave the same feed. -/
inductive Beside (R : α → β → Prop) :
    EStateM.Result ContainerError Feed α → EStateM.Result ContainerError Feed β → Prop where
  | failed (error : ContainerError) (after : Feed) : Beside R (.error error after) (.error error after)
  | given {a : α} {b : β} (related : R a b) (after : Feed) : Beside R (.ok a after) (.ok b after)

section Beside

variable {R : α → β → Prop} {S : γ → δ → Prop} {feed : Feed}

theorem Beside.bind {first : Decoder α} {second : Decoder β} {next : α → Decoder γ}
    {next' : β → Decoder δ} (h : Beside R (first feed) (second feed))
    (h' : ∀ a b after, R a b → Beside S (next a after) (next' b after)) :
    Beside S ((first >>= next) feed) ((second >>= next') feed) := by
  generalize done : first feed = outcome at h
  generalize done' : second feed = outcome' at h
  cases h with
  | failed error after =>
    rw [run_bind_of_error done, run_bind_of_error done']
    exact .failed error after
  | given related after =>
    rw [run_bind_of_ok done, run_bind_of_ok done']
    exact h' _ _ after related

/-- What both decode stands in front. -/
theorem Beside.behind (decoder : Decoder α) {next : α → Decoder γ} {next' : α → Decoder δ}
    (h : ∀ value after, Beside S (next value after) (next' value after)) (feed : Feed) :
    Beside S ((decoder >>= next) feed) ((decoder >>= next') feed) := by
  cases done : decoder feed with
  | error error after =>
    rw [run_bind_of_error done, run_bind_of_error done]
    exact .failed error after
  | ok value after =>
    rw [run_bind_of_ok done, run_bind_of_ok done]
    exact h value after

/-- Both may be refused for the same reason. -/
theorem Beside.unless {refused : Prop} [Decidable refused] {fault : ContentFault}
    {next : Unit → Decoder α} {next' : Unit → Decoder β}
    (h : ¬refused → Beside R (next () feed) (next' () feed)) :
    Beside R ((if refused then refuse fault >>= next else next ()) feed)
      ((if refused then refuse fault >>= next' else next' ()) feed) := by
  by_cases holds : refused
  · rw [if_pos holds, if_pos holds]
    exact .failed _ feed
  · rw [if_neg holds, if_neg holds]
    exact h holds

theorem beside_accept {x : Except Error α} {y : Except Error β} (h : Alike R x y) (feed : Feed) :
    Beside R (accept x feed) (accept y feed) := by
  cases h with
  | refused error => exact .failed _ feed
  | given related => exact .given related feed

/-- Labels are decoded in the same way, whatever is built of them. -/
theorem beside_labelsBy {bytesOf : (rows width : Nat) → Decoder Nat}
    {build : List String → List Int32 → Except Error α}
    {build' : List String → List Int32 → Except Error β}
    (h : ∀ names values, Alike R (build names values) (build' names values)) (order : ByteOrder)
    (feed : Feed) :
    Beside R (labelsBy bytesOf build order feed) (labelsBy bytesOf build' order feed) := by
  refine .behind _ (fun nameCount feed => .behind _ (fun names feed => ?_) feed) feed
  refine .behind _ (fun rows feed => .behind _ (fun width feed => ?_) feed) feed
  refine .unless fun _ => .unless fun _ => ?_
  refine .behind _ (fun size feed => .behind _ (fun data feed => ?_) feed) feed
  exact beside_accept (h _ _) feed

theorem Beside.toOption {outcome : EStateM.Result ContainerError Feed α}
    {outcome' : EStateM.Result ContainerError Feed β} (h : Beside R outcome outcome') :
    Option.Rel R (Decoder.given outcome) (Decoder.given outcome') := by
  cases h with
  | failed error after => exact .none
  | given related after => exact .some related

end Beside

end Decoder

namespace Stored

def decoder (order : ByteOrder) : Decoder Stored :=
  Decoder.labelsBy Decoder.labelBytes ofValues order

def read (verify : Bool) : Decoder Stored :=
  Decoder.container .labels decoder (fun _ => .ok) verify

theorem beside_decoder (order : ByteOrder) (feed : Feed) :
    Decoder.Beside Shows (decoder order feed) (Decoder.labels order feed) :=
  Decoder.beside_labelsBy alike_ofValues order feed

theorem beside_read (verify : Bool) (feed : Feed) :
    Decoder.Beside Shows (read verify feed) (Labels.read verify feed) := by
  rw [read, Labels.read_eq]
  refine .behind _ (fun header middle => ?_) feed
  refine (beside_decoder header.order middle).bind fun stored labels after shows => ?_
  exact .behind _ (fun _ => Decoder.beside_accept (.given shows)) after

end Stored

/-! ### Trees of operations -/

/-- How labels are made, each operation of what others made before. -/
inductive Making where
  | ofRows (names : List String) (rows : List Row)
  | ofValues (names : List String) (values : List Int32)
  | empty (names : List String)
  | single
  | union (first second : Making)
  | intersection (first second : Making)
  | project (whole : Making) (names : List String)
  | ofJson (value : Json)
  /-- Labels wherever they stand in a container. -/
  | decoded (order : ByteOrder) (feed : Feed)
  /-- Labels that are a container. -/
  | read (verify : Bool) (feed : Feed)

namespace Making

/-- The labels that are made, if no operation is refused. -/
def labels : Making → Option Labels
  | ofRows names rows => (Labels.ofRows names rows).toOption
  | ofValues names values => (Labels.ofValues names values).toOption
  | empty names => (Labels.empty names).toOption
  | single => some .single
  | union first second => do
    let a ← first.labels
    let b ← second.labels
    (a.union b).toOption
  | intersection first second => do
    let a ← first.labels
    let b ← second.labels
    (a.intersection b).toOption
  | project whole names => do
    let labels ← whole.labels
    ((labels.project names).map (·.1)).toOption
  | ofJson value => (Labels.ofJson value).toOption
  | decoded order feed => Decoder.given (Decoder.labels order feed)
  | read verify feed => Decoder.given (Labels.read verify feed)

/-- The values and the index that are made, if no operation is refused. -/
def stored : Making → Option Stored
  | ofRows names rows => (Stored.ofRows names rows).toOption
  | ofValues names values => (Stored.ofValues names values).toOption
  | empty names => (Stored.ofRows names []).toOption
  | single => some .single
  | union first second => do
    let a ← first.stored
    let b ← second.stored
    (a.union b).toOption
  | intersection first second => do
    let a ← first.stored
    let b ← second.stored
    (a.intersection b).toOption
  | project whole names => do
    let stored ← whole.stored
    (stored.project names).toOption
  | ofJson value => (Stored.ofJson value).toOption
  | decoded order feed => Decoder.given (Stored.decoder order feed)
  | read verify feed => Decoder.given (Stored.read verify feed)

theorem rel_bind {α β γ δ : Type} {R : α → β → Prop} {S : γ → δ → Prop} {x : Option α}
    {y : Option β} {f : α → Option γ} {g : β → Option δ} (h : Option.Rel R x y)
    (h' : ∀ a b, R a b → Option.Rel S (f a) (g b)) : Option.Rel S (x >>= f) (y >>= g) := by
  cases h with
  | none => exact .none
  | some related => exact h' _ _ related

/-- Values and index are made whenever the labels are, and show them. -/
theorem shows (making : Making) : Option.Rel Stored.Shows making.stored making.labels := by
  induction making with
  | ofRows names rows => exact (Stored.alike_ofRows names rows).toOption
  | ofValues names values => exact (Stored.alike_ofValues names values).toOption
  | empty names => exact (Stored.alike_ofRows names []).toOption
  | single => exact .some Stored.shows_single
  | union first second ih ih' =>
    refine rel_bind ih fun a first shows => rel_bind ih' fun b second shows' => ?_
    exact (Stored.alike_union shows shows').toOption
  | intersection first second ih ih' =>
    refine rel_bind ih fun a first shows => rel_bind ih' fun b second shows' => ?_
    exact (Stored.alike_intersection shows shows').toOption
  | project whole names ih =>
    exact rel_bind ih fun stored labels shows => (Stored.alike_project shows names).toOption
  | ofJson value => exact (Stored.alike_ofJson value).toOption
  | decoded order feed => exact (Stored.beside_decoder order feed).toOption
  | read verify feed => exact (Stored.beside_read verify feed).toOption

end Making

/-! ### Rows are found exactly -/

/-- All rows are as wide as there are names and no two are equal, and a row is found where it stands
and nowhere else. -/
structure Labels.Exact (labels : Labels) : Prop where
  width : ∀ row ∈ labels.rows, row.length = labels.size
  distinct : labels.rows.Nodup
  count : labels.rows.length = labels.count
  position : ∀ i < labels.count, ∀ row, labels.position row = some i ↔ labels.row? i = some row
  within : ∀ row i, labels.position row = some i → i < labels.count
  absent : ∀ row, labels.position row = none ↔ row ∉ labels.rows

/-- The slices up to the number of rows make up the values and are the rows in order; no two are
equal; and a row is found where its slice stands and nowhere else. -/
structure Stored.Exact (stored : Stored) : Prop where
  enough : stored.values.length = stored.count * stored.size
  width : ∀ i < stored.count, (stored.slice i).length = stored.size
  values : stored.rows.flatten = stored.values
  rows : stored.rows = (List.range stored.count).map stored.slice
  distinct : stored.rows.Nodup
  position : ∀ i < stored.count, ∀ row, stored.position row = some i ↔ row = stored.slice i
  within : ∀ row i, stored.position row = some i → i < stored.count
  absent : ∀ row, stored.position row = none ↔ ∀ i < stored.count, row ≠ stored.slice i

/-- Every row of regular labels is found just where it stands. -/
theorem Labels.Regular.found {labels : Labels} (regular : labels.Regular) : labels.Exact where
  width := regular.width
  distinct := regular.nodup
  count := labels.count_eq.symm
  position _ _ _ := position_eq_some_iff regular
  within row i found := by
    rw [labels.count_eq]
    exact (List.getElem?_eq_some_iff.mp ((position_eq_some_iff regular).mp found)).1
  absent row := by
    rw [← contains_iff regular, contains, Bool.not_eq_true, Option.isSome_eq_false_iff,
      Option.isNone_iff_eq_none]

/-- Every row of stored labels is found just where it stands, as far as they show labels. -/
theorem Stored.Shows.found {stored : Stored} {labels : Labels} (shows : stored.Shows labels) :
    stored.Exact := by
  have standing : ∀ i < stored.count, labels.row? i = some (stored.slice i) := by
    intro i inside
    rw [Labels.row?, ← shows.rows, rows_eq, List.getElem?_map, List.getElem?_range inside]
    rfl
  have members (row : Row) : row ∈ labels.rows ↔ ∃ i < stored.count, row = stored.slice i := by
    rw [← shows.rows, rows_eq, List.mem_map]
    exact exists_congr fun i => and_congr List.mem_range eq_comm
  have found := shows.regular.found
  constructor
  case enough =>
    rw [shows.values, Labels.values, length_flatten_runs shows.regular.width, shows.count,
      labels.count_eq, shows.size]
  case width =>
    intro i inside
    rw [shows.size]
    exact found.width _ ((members _).mpr ⟨i, inside, rfl⟩)
  case values =>
    rw [shows.rows, shows.values]
    rfl
  case rows =>
    exact rows_eq stored
  case distinct =>
    rw [shows.rows]
    exact found.distinct
  case position =>
    intro i inside row
    rw [shows.position, found.position i (shows.count ▸ inside) row, standing i inside,
      Option.some.injEq, eq_comm]
  case within =>
    intro row i position
    rw [shows.position] at position
    exact shows.count ▸ found.within row i position
  case absent =>
    intro row
    rw [shows.position, found.absent, members]
    push Not
    rfl

/-- **However labels are made, rows are found exactly.** Values and index are made just when the
labels are and show them, and the rows of either are found exactly. -/
theorem Making.found_exactly (making : Making) :
    (making.stored = none ∧ making.labels = none) ∨
      ∃ stored labels, making.stored = some stored ∧ making.labels = some labels ∧
        stored.Exact ∧ labels.Exact ∧ stored.Shows labels := by
  have shows := making.shows
  generalize making.stored = stored at shows
  generalize making.labels = labels at shows
  cases shows with
  | none => exact .inl ⟨rfl, rfl⟩
  | some shows => exact .inr ⟨_, _, rfl, rfl, shows.found, shows.regular.found, shows⟩

/-- Cut down to no dimension, labels have a row without values, which is found. -/
example : (Making.project .single []).labels.map (fun labels => (labels.rows, labels.position [])) =
    some ([[]], some 0) := by
  decide

end LabeledBlocks
