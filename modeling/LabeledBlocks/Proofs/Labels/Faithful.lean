import LabeledBlocks.Proofs.Container.Contained
import LabeledBlocks.Proofs.Container.Parts
import LabeledBlocks.Proofs.Container.RoundTrip
import LabeledBlocks.Proofs.Labels.Making

/-!
# Labels that come back

Labels are described by a text and are stored in a container, and both are read back by the checks
that all labels are built by. Those want names that are told apart, and no row without names. What
operations make is of this kind, with one exception: labels may be cut down to any dimensions, to the
same one twice as well as to none at all.

* `Labels.ofJson_toJson_iff`, `Labels.load_save_iff` — exactly valid labels come back.
* `Making.Careful` — labels are only cut down to distinct dimensions, and at least to one.
* `Making.faithful_iff` — which of the labels that are made come back.
* `Making.projected_lost` — labels that do not.
-/

namespace LabeledBlocks

namespace Labels

variable {labels : Labels}

/-! ### Described by a text -/

theorem asInteger_toInt (value : Int32) : Json.asInteger (.integer value.toInt) = .ok value := by
  have bounds : -2 ^ 31 ≤ value.toInt ∧ value.toInt < 2 ^ 31 :=
    ⟨value.le_toInt, value.toInt_lt⟩
  rw [Json.asInteger, if_pos bounds, Int32.ofInt_toInt]

/-- The names and the values are found in a description as they are. -/
theorem namesAndValues_toJson (labels : Labels) :
    labels.toJson.namesAndValues = .ok (labels.names, labels.values) := by
  have names : (Json.list (labels.names.map .text)).asList Json.asText = .ok labels.names := by
    rw [Json.asList, mapM_eq_ok, List.forall₂_map_left_iff, List.forall₂_same]
    exact fun _ _ => rfl
  have values : (Json.list (labels.values.map fun v => .integer v.toInt)).asList Json.asInteger =
      .ok labels.values := by
    rw [Json.asList, mapM_eq_ok, List.forall₂_map_left_iff, List.forall₂_same]
    exact fun value _ => asInteger_toInt value
  rw [toJson, Json.namesAndValues, Json.fields, if_pos rfl, names, ok_bind_eq, Json.fields,
    if_neg (by decide), if_pos rfl, values]
  rfl

/-- Exactly valid labels come back from their description. -/
theorem ofJson_toJson_iff : ofJson labels.toJson = .ok labels ↔ labels.Valid := by
  rw [ofJson, namesAndValues_toJson, ok_bind_eq]
  dsimp only
  rw [mapError_eq_ok, ofValues_eq_ok_iff]
  exact and_iff_right ⟨rfl, rfl⟩

/-! ### Stored in a container -/

/-- Labels are saved exactly if their pieces fit, and this is what is saved. -/
theorem save_eq_ok_iff {bytes : List UInt8} :
    labels.save = .ok bytes ↔ Piece.Fit labels.layout ∧
      bytes = (Header.of .little .labels true false).enclose
        (Piece.allBytes .little labels.layout) := by
  rw [save]
  constructor
  · intro saved
    cases written : labels.write .standard .unlimited with
    | mk sink failure =>
      rw [written] at saved
      cases failure with
      | some error => cases saved
      | none =>
        cases saved
        obtain ⟨fit, rfl⟩ := Encoder.run_container_iff.mp written
        exact ⟨fit, Sink.written_holding _⟩
  · rintro ⟨fit, rfl⟩
    have written : labels.write .standard .unlimited = (_, none) :=
      Encoder.run_container_iff.mpr ⟨fit, rfl⟩
    rw [written]
    exact congrArg Except.ok (Sink.written_holding _)

/-- Labels that are loaded are valid, whatever the bytes are. -/
theorem valid_of_load {bytes : List UInt8} (loaded : load bytes = .ok labels) : labels.Valid := by
  rw [load, read_eq] at loaded
  obtain ⟨header, inner, parts, _, delimits, built, _⟩ :=
    Decoder.container_load_eq_ok Decoder.delimited_labels loaded
  cases built
  exact ((Decoder.yields_labels header.order).of_reads delimits.reads).2.valid

/-- Exactly valid labels come back from their container. -/
theorem load_save_iff (addressable : labels.Addressable) {bytes : List UInt8}
    (saved : labels.save = .ok bytes) : load bytes = .ok labels ↔ labels.Valid := by
  obtain ⟨fit, rfl⟩ := save_eq_ok_iff.mp saved
  refine ⟨valid_of_load, fun valid => ?_⟩
  have readable := Header.check_of .little .labels true false
  have reads := Decoder.reads_labels (Header.of .little .labels true false).order valid addressable
    fit
  rw [load, read_eq, Decoder.container_load_eq_ok_iff Decoder.delimited_labels]
  exact reads.enclosed readable true (List.append_nil _).symm

/-! ### What is made -/

/-- The names are told apart, and no row is without a name. -/
structure Unambiguous (labels : Labels) : Prop where
  distinct : labels.names.Nodup
  unnamed : labels.names = [] → labels.rows = []

instance : DecidablePred Unambiguous := fun labels =>
  decidable_of_iff (labels.names.Nodup ∧ (labels.names = [] → labels.rows = []))
    ⟨fun ⟨distinct, unnamed⟩ => ⟨distinct, unnamed⟩, fun ⟨distinct, unnamed⟩ => ⟨distinct, unnamed⟩⟩

theorem Valid.unambiguous (valid : labels.Valid) : labels.Unambiguous :=
  ⟨valid.distinct, valid.unnamed⟩

end Labels

namespace Making

open Labels

/-- Labels are only cut down to dimensions of which there is at least one and none comes twice. -/
def Careful : Making → Prop
  | project whole names => whole.Careful ∧ names ≠ [] ∧ names.Nodup
  | union first second | intersection first second => first.Careful ∧ second.Careful
  | _ => True

/-- The names of labels that are made are identifiers, and they are told apart if care was taken. -/
structure Makes (making : Making) (labels : Labels) : Prop where
  identifiers : ∀ name ∈ labels.names, IsIdentifier name
  unambiguous : making.Careful → labels.Unambiguous

variable {making : Making} {labels : Labels}

theorem Makes.of_valid (valid : labels.Valid) : Makes making labels :=
  ⟨valid.identifiers, fun _ => valid.unambiguous⟩

theorem regular_of_made (made : making.labels = some labels) : labels.Regular := by
  have shows := making.shows
  rw [made] at shows
  generalize making.stored = stored at shows
  cases shows with
  | some shows => exact shows.regular

theorem toOption_eq_some {ε α : Type} {x : Except ε α} {a : α} :
    x.toOption = some a ↔ x = .ok a := by
  cases x <;> simp [Except.toOption]

theorem given_eq_some {α : Type} {outcome : EStateM.Result ContainerError Feed α} {a : α} :
    Decoder.given outcome = some a ↔ ∃ after, outcome = .ok a after := by
  cases outcome <;> simp [Decoder.given]

/-- Labels with the names of both are made of what either has. -/
theorem makes_of_made (made : making.labels = some labels) : Makes making labels := by
  induction making generalizing labels with
  | ofRows names rows => exact .of_valid (ofRows_eq_ok_iff.mp (toOption_eq_some.mp made)).2
  | ofValues names values => exact .of_valid (ofValues_eq_ok_iff.mp (toOption_eq_some.mp made)).2
  | empty names => exact .of_valid (ofRows_eq_ok_iff.mp (toOption_eq_some.mp made)).2
  | single =>
    cases made
    exact .of_valid (by decide)
  | union first second ih ih' =>
    obtain ⟨a, madeA, made⟩ := Option.bind_eq_some_iff.mp made
    obtain ⟨b, madeB, made⟩ := Option.bind_eq_some_iff.mp made
    obtain ⟨⟨_, _, _⟩, united, rfl⟩ := map_eq_ok.mp (toOption_eq_some.mp made)
    obtain ⟨⟨same, names, rows⟩, _⟩ := (unionWithPositions_eq_ok_iff (regular_of_made madeA)
      (regular_of_made madeB)).mp united
    have fromA := ih madeA
    have fromB := ih' madeB
    dsimp only
    refine ⟨names ▸ fromA.identifiers, fun careful => ⟨?_, fun unnamed => ?_⟩⟩
    · rw [names]
      exact (fromA.unambiguous careful.1).distinct
    · rw [names] at unnamed
      rw [rows, (fromA.unambiguous careful.1).unnamed unnamed,
        (fromB.unambiguous careful.2).unnamed (same ▸ unnamed)]
      rfl
  | intersection first second ih ih' =>
    obtain ⟨a, madeA, made⟩ := Option.bind_eq_some_iff.mp made
    obtain ⟨b, madeB, made⟩ := Option.bind_eq_some_iff.mp made
    have found := toOption_eq_some.mp made
    rw [Labels.intersection_eq, refused_eq_ok] at found
    obtain ⟨_, found⟩ := found
    cases found
    have fromA := ih madeA
    refine ⟨fromA.identifiers, fun careful => ⟨(fromA.unambiguous careful.1).distinct, ?_⟩⟩
    intro unnamed
    have none := (fromA.unambiguous careful.1).unnamed unnamed
    rw [of, none]
    rfl
  | project whole wanted ih =>
    obtain ⟨a, madeA, made⟩ := Option.bind_eq_some_iff.mp made
    obtain ⟨⟨_, _⟩, cut, rfl⟩ := map_eq_ok.mp (toOption_eq_some.mp made)
    obtain ⟨dimensions, found, _⟩ := bind_eq_ok.mp cut
    have known := (dimensions_eq_ok_iff.mp found).1
    rw [project_eq known] at cut
    cases cut
    refine ⟨fun name member => (ih madeA).identifiers name (known name member), fun careful => ?_⟩
    exact ⟨careful.2.2, fun unnamed => absurd unnamed careful.2.1⟩
  | ofJson value =>
    obtain ⟨⟨names, values⟩, _, built⟩ := bind_eq_ok.mp (toOption_eq_some.mp made)
    exact .of_valid (ofValues_eq_ok_iff.mp (mapError_eq_ok.mp built)).2
  | decoded order feed =>
    obtain ⟨after, decoded⟩ := given_eq_some.mp made
    obtain ⟨_, _, _, storable⟩ := Decoder.yields_labels order feed labels after decoded
    exact .of_valid storable.valid
  | read verify feed =>
    obtain ⟨after, read⟩ := given_eq_some.mp made
    rw [Labels.read_eq] at read
    obtain ⟨header, _, _, ⟨_, parts, delimits, ends⟩, _⟩ :=
      Decoder.container_eq_ok Decoder.delimited_labels read
    obtain ⟨built, _⟩ := Decoder.yields_ending.of_reads ends.reads
    cases built
    exact .of_valid ((Decoder.yields_labels header.order).of_reads delimits.reads).2.valid

theorem valid_iff_unambiguous (made : making.labels = some labels) :
    labels.Valid ↔ labels.Unambiguous :=
  ⟨Valid.unambiguous, fun ⟨distinct, unnamed⟩ =>
    ⟨regular_of_made made, (makes_of_made made).identifiers, distinct, unnamed⟩⟩

/-- **Labels come back exactly if their names are told apart and no row is without a name.** Whatever
operations made them, they come back from their description exactly then; if their values and lengths
have room in a container, they are stored in one, from which they come back exactly then; and so it is
whenever they were only cut down to distinct dimensions, and at least to one. -/
theorem faithful_iff (made : making.labels = some labels) :
    (Labels.ofJson labels.toJson = .ok labels ↔ labels.Unambiguous) ∧
      (labels.Addressable → Piece.Fit labels.layout →
        ∃ bytes, labels.save = .ok bytes ∧
          (Labels.load bytes = .ok labels ↔ labels.Unambiguous)) ∧
      (making.Careful → labels.Unambiguous) := by
  have valid := valid_iff_unambiguous made
  refine ⟨ofJson_toJson_iff.trans valid, fun addressable fit => ?_,
    (makes_of_made made).unambiguous⟩
  have saved := save_eq_ok_iff.mpr ⟨fit, rfl⟩
  exact ⟨_, saved, (load_save_iff addressable saved).trans valid⟩

/-- The second of two dimensions, of rows of which two become equal. -/
def cutDown : Making :=
  .project (.union (.ofRows ["a", "b"] [[1, 2], [1, 3]]) (.ofValues ["a", "b"] [2, 2])) ["b"]

theorem cutDown_faithful :
    cutDown.labels = some (.of ["b"] [[2], [3]]) ∧
      Labels.ofJson (Labels.of ["b"] [[2], [3]]).toJson = .ok (.of ["b"] [[2], [3]]) ∧
      ∃ bytes, (Labels.of ["b"] [[2], [3]]).save = .ok bytes ∧
        Labels.load bytes = .ok (.of ["b"] [[2], [3]]) := by
  have made : cutDown.labels = some (.of ["b"] [[2], [3]]) := by decide +kernel
  have careful : cutDown.Careful := ⟨⟨trivial, trivial⟩, by decide, by decide⟩
  obtain ⟨described, stored, unambiguous⟩ := faithful_iff made
  obtain ⟨bytes, saved, loaded⟩ := stored (by decide) (by decide)
  exact ⟨made, described.mpr (unambiguous careful), bytes, saved, loaded.mpr (unambiguous careful)⟩

/-- Cut down to the same dimension twice, labels are refused by what describes them and by their
container; cut down to none, they lose their row in the one and are refused by the other. -/
theorem projected_lost :
    ((project (.ofRows ["a"] [[1], [2]]) ["a", "a"]).labels = some (.of ["a", "a"] [[1, 1], [2, 2]]) ∧
      Labels.ofJson (Labels.of ["a", "a"] [[1, 1], [2, 2]]).toJson =
        .error (.invalid (.duplicateName "a" .withinLabels)) ∧
      ((Labels.of ["a", "a"] [[1, 1], [2, 2]]).save >>= Labels.load) =
        .error (.content (.invalid (.duplicateName "a" .withinLabels)))) ∧
    ((project .single []).labels = some (.of [] [[]]) ∧
      Labels.ofJson (Labels.of [] [[]]).toJson = .ok (.of [] []) ∧
      ((Labels.of [] [[]]).save >>= Labels.load) =
        .error (.content (.malformed (.rowsWithoutDimensions 1)))) := by
  refine ⟨⟨by decide +kernel, rfl, by decide +kernel⟩, by decide +kernel, rfl, by decide +kernel⟩

end Making

end LabeledBlocks
