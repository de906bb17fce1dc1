import LabeledBlocks.Block.JoinSamples
import LabeledBlocks.Proofs.Block.Joining
import LabeledBlocks.Proofs.Dense

/-!
# Joining along the samples gathers

Blocks are joined along their samples by a table of new positions and by copying rows. What comes
out is the block that is gathered from them by the same sources.

* `Block.newPositions_eq` — the table holds the place of every sample.
* `Block.joinSamples_eq_ok_iff` — what it takes to join blocks, one level of gradients at a time.
-/

namespace LabeledBlocks.Block

/-! ### The table of new positions -/

def places (counts : List Nat) (place : Nat → Nat → Option Nat) : Array (Array (Option Nat)) :=
  (counts.zipIdx.map fun entry => table entry.1 (place entry.2)).toArray

theorem getElem?_places (counts : List Nat) (place : Nat → Nat → Option Nat) (b : Nat) :
    (places counts place)[b]? = counts[b]?.map fun count => table count (place b) := by
  rw [places, List.getElem?_toArray, List.getElem?_map, List.getElem?_zipIdx, Option.map_map,
    Nat.zero_add]
  rfl

/-- The places when one sample has gone to a position. -/
def withPlace (place : Nat → Nat → Option Nat) (source : Source) (j : Nat) :
    Nat → Nat → Option Nat :=
  fun b n => if source = ⟨b, n⟩ then some j else place b n

/-- The table after one more sample was given a place. -/
theorem modify_places (counts : List Nat) (place : Nat → Nat → Option Nat) (source : Source)
    (j : Nat) :
    (places counts place).modify source.block (·.setIfInBounds source.index (some j)) =
      places counts (withPlace place source j) := by
  obtain ⟨block, index⟩ := source
  refine Array.ext_getElem? fun b => ?_
  rw [Array.getElem?_modify, getElem?_places, getElem?_places]
  by_cases same : block = b
  · subst same
    have own : withPlace place ⟨block, index⟩ j block =
        fun m => if index = m then some j else place block m := by
      funext m
      simp [withPlace]
    simp [own, setIfInBounds_table, Function.comp_def]
  · have other : withPlace place ⟨block, index⟩ j b = place b := by
      funext m
      simp [withPlace, same]
    simp [same, other]

/-- While the table is filled, later sources take precedence over what is there already. -/
theorem foldl_places (counts : List Nat) {sources : List Source} (nodup : sources.Nodup)
    (start : Nat) (place : Nat → Nat → Option Nat) :
    (sources.zipIdx start).foldl
        (fun found entry =>
          found.modify entry.1.block (·.setIfInBounds entry.1.index (some entry.2)))
        (places counts place) =
      places counts fun b n => ((placeOf sources b n).map (start + ·)).or (place b n) := by
  induction sources generalizing start place with
  | nil => rfl
  | cons source sources ih =>
    obtain ⟨new, nodup⟩ := List.nodup_cons.mp nodup
    rw [List.zipIdx_cons, List.foldl_cons, modify_places, ih nodup]
    refine congrArg (places counts) (funext fun b => funext fun n => ?_)
    rw [placeOf, placeOf, List.idxOf?_cons, withPlace]
    by_cases same : source = ⟨b, n⟩
    · have absent : sources.idxOf? ⟨b, n⟩ = none := List.idxOf?_eq_none_iff.mpr (same ▸ new)
      simp [same, absent]
    · have step : (fun i => start + 1 + i) = fun i => start + (i + 1) := by
        funext i
        omega
      simp [same, Function.comp_def, step]

/-- Before the table is filled, no sample has a place. -/
theorem places_empty (counts : List Nat) :
    (counts.map (Array.replicate · none)).toArray = places counts fun _ _ => none := by
  refine Array.ext_getElem? fun b => ?_
  rw [getElem?_places, List.getElem?_toArray, List.getElem?_map]
  refine congrArg (Option.map · _) (funext fun count => ?_)
  simp [table, ← List.toArray_replicate]

/-- The table holds the place of every sample that is taken over. -/
theorem newPositions_eq (counts : List Nat) {sources : List Source} (nodup : sources.Nodup) :
    newPositions counts sources = places counts (placeOf sources) := by
  rw [newPositions, places_empty, foldl_places counts nodup]
  refine congrArg (places counts) (funext fun b => funext fun n => ?_)
  simp

/-! ### Gradient rows -/

/-- Rows that refer to samples of their block survive when they follow their samples. -/
theorem survivingRows_eq_ok_iff {count block start : Nat} {place : Nat → Option Nat}
    {rows : List Row} {result : List (Row × Source)} :
    survivingRows (table count place) block start rows = .ok result ↔
      (∀ row ∈ rows, Refers count row) ∧
        result = (rows.zipIdx start).filterMap fun entry =>
          (follow place entry.1).map (·, ⟨block, entry.2⟩) := by
  induction rows generalizing start result with
  | nil => simp [survivingRows, eq_comm]
  | cons row rows ih =>
    rw [survivingRows, List.forall_mem_cons, List.zipIdx_cons, List.filterMap_cons]
    cases looked : reference (table count place) row with
    | error e =>
      have fails : ¬Refers count row := by
        intro refers
        obtain ⟨number, rest, rfl, _⟩ := id refers
        have found := (reference_table count place).mpr ⟨refers, number, rfl, rfl⟩
        rw [looked] at found
        cases found
      simp [fails]
    | ok pair =>
      obtain ⟨found, rest⟩ := pair
      obtain ⟨refers, number, rfl, rfl⟩ := (reference_table count place).mp looked
      cases placed : place number.toInt.toNat with
      | none =>
        have dropped : follow place (number :: rest) = none := by
          rw [follow, placed, Option.map_none]
        simp only [dropped, Option.map_none, ih, refers, true_and]
      | some j =>
        simp only [follow, placed, Option.map_some, map_eq_ok, ih, refers, true_and]
        constructor
        · rintro ⟨rest, ⟨all, rfl⟩, rfl⟩
          exact ⟨all, rfl⟩
        · rintro ⟨all, rfl⟩
          exact ⟨_, ⟨all, rfl⟩, rfl⟩

/-- The rows of every gradient refer to samples of its block. -/
def Referring (blocks gradients : List Block) : Prop :=
  List.Forall₂ (fun block gradient =>
    ∀ row ∈ gradient.samples.rows, Refers block.samples.count row) blocks gradients

/-- The rows of a gradient that follow their samples, with their sources. -/
def survivorsOf (place : Nat → Nat → Option Nat) (entry : Block × Nat) : List (Row × Source) :=
  entry.1.samples.rows.zipIdx.filterMap fun row =>
    (follow (place entry.2) row.1).map (·, ⟨entry.2, row.2⟩)

theorem flatten_survivorsOf (place : Nat → Nat → Option Nat) (gradients : List Block) :
    (gradients.zipIdx.map (survivorsOf place)).flatten =
      (sourcedRows gradients).filterMap fun entry =>
        (follow (place entry.2.block) entry.1).map (·, entry.2) := by
  rw [← List.flatMap_def, sourcedRows, List.filterMap_flatMap]
  refine List.flatMap_congr fun entry _ => ?_
  rw [List.filterMap_map]
  rfl

/-- The rows that survive in any of the gradients are those that follow their samples. -/
theorem mapM_survivingRows {blocks gradients : List Block} (referring : Referring blocks gradients)
    (place : Nat → Nat → Option Nat) :
    ∃ parts, ((gradients.zip
          (places (blocks.map fun block => block.samples.count) place).toList).zipIdx.mapM
        fun entry => survivingRows entry.1.2 entry.2 0 entry.1.1.samples.rows) = .ok parts ∧
      parts.flatten = (sourcedRows gradients).filterMap fun entry =>
        (follow (place entry.2.block) entry.1).map (·, entry.2) := by
  have length := referring.length_eq
  have each : ∀ entry ∈ (gradients.zip (places (blocks.map fun block => block.samples.count)
        place).toList).zipIdx,
      survivingRows entry.1.2 entry.2 0 entry.1.1.samples.rows =
        .ok (survivorsOf place (entry.1.1, entry.2)) := by
    rintro ⟨⟨gradient, placed⟩, b⟩ member
    have found := List.mem_zipIdx_iff_getElem?.mp member
    obtain ⟨standing, here⟩ := List.getElem?_zip_eq_some.mp found
    dsimp only at standing here
    rw [Array.getElem?_toList, getElem?_places, List.getElem?_map, Option.map_map,
      Option.map_eq_some_iff] at here
    obtain ⟨block, block_at, rfl⟩ := here
    obtain ⟨inside, block_is⟩ := List.getElem?_eq_some_iff.mp block_at
    obtain ⟨inside', gradient_is⟩ := List.getElem?_eq_some_iff.mp standing
    have refers := List.Forall₂.get referring inside inside'
    rw [List.get_eq_getElem, List.get_eq_getElem, block_is, gradient_is] at refers
    exact survivingRows_eq_ok_iff.mpr ⟨refers, rfl⟩
  refine ⟨_, mapM_eq_map each, ?_⟩
  have heads : ((gradients.zip (places (blocks.map fun block => block.samples.count)
      place).toList).zipIdx.map fun entry => (entry.1.1, entry.2)) = gradients.zipIdx := by
    have full : gradients.length ≤ (places (blocks.map fun block => block.samples.count)
        place).toList.length := by
      simp [places, length]
    conv => rhs; rw [← List.map_fst_zip full, List.zipIdx_map]
    rfl
  have split : ((gradients.zip (places (blocks.map fun block => block.samples.count)
      place).toList).zipIdx.map fun entry => survivorsOf place (entry.1.1, entry.2)) =
        gradients.zipIdx.map (survivorsOf place) := by
    rw [← heads, List.map_map]
    rfl
  rw [split, flatten_survivorsOf]

/-! ### Values -/

def sourceRow (blocks : List Block) (source : Source) : List FloatBits :=
  (blocks[source.block]?.map fun block => block.valueRow source.index).getD []

theorem sourceRow_eq {blocks : List Block} {source : Source} {block : Block}
    (found : blocks[source.block]? = some block) :
    sourceRow blocks source = block.valueRow source.index := by
  rw [sourceRow, found]
  rfl

/-- A row that is in range is copied. -/
theorem row_eq {block : Block} (wellFormed : block.WellFormed) {index : Nat}
    (inRange : index < block.samples.count) :
    ∃ row, block.values.row block.rowLength index = .ok row ∧
      row.toList = block.valueRow index := by
  have enough : (index + 1) * block.rowLength ≤ block.values.data.size := by
    rw [← Array.length_toList, wellFormed.length_data]
    exact Nat.mul_le_mul_right _ inRange
  refine ⟨_, if_pos enough, ?_⟩
  rw [Array.toList_extract, valueRow, List.extract_eq_take_drop, Nat.succ_mul,
    Nat.add_sub_cancel_left]

/-- Blocks in which a sample has the same number of values. -/
structure Aligned (length : Nat) (blocks : List Block) : Prop where
  wellFormed : ∀ block ∈ blocks, block.WellFormed
  rowLength : ∀ block ∈ blocks, block.rowLength = length

/-- Rows that are looked up one by one are put one behind the other. -/
theorem copies_eq_ok_iff {copy : Source → Except Error (Array FloatBits)} {known : Source → Prop}
    {rowOf : Source → List FloatBits}
    (one : ∀ source row, copy source = .ok row ↔ known source ∧ row = (rowOf source).toArray)
    {sources : List Source} {data : Array FloatBits} :
    (do
      let rows ← sources.mapM copy
      pure (rows.flatMap Array.toList).toArray) = .ok data ↔
      (∀ source ∈ sources, known source) ∧ data = (sources.flatMap rowOf).toArray := by
  rw [bind_eq_ok]
  constructor
  · rintro ⟨_, copied, done⟩
    obtain ⟨all, rfl⟩ := (mapM_eq_ok_map one).mp copied
    rw [pure_eq_ok, List.flatMap_map] at done
    exact ⟨all, done.symm⟩
  · rintro ⟨all, rfl⟩
    refine ⟨_, (mapM_eq_ok_map one).mpr ⟨all, rfl⟩, ?_⟩
    rw [pure_eq_ok, List.flatMap_map]

/-- The values of all sources are copied when all of them are in range. -/
theorem sampleValues_eq_ok_iff {length : Nat} {blocks : List Block}
    (aligned : Aligned length blocks) {sources : List Source} {data : Array FloatBits} :
    sampleValues ((blocks.map Block.values).zip
        (blocks.map fun block => block.samples.count)).toArray length sources = .ok data ↔
      (∀ source ∈ sources, InRange blocks source) ∧
        data = (sources.flatMap (sourceRow blocks)).toArray := by
  unfold sampleValues
  apply copies_eq_ok_iff
  intro source row
  rw [List.getElem?_toArray, List.zip_map', List.getElem?_map]
  cases found : blocks[source.block]? with
  | none => simp [InRange, found]
  | some block =>
    have member := List.mem_of_getElem? found
    rw [Option.map_some, sourceRow_eq found]
    dsimp only
    by_cases inRange : source.index < block.samples.count
    · obtain ⟨row', copied, same⟩ := row_eq (aligned.wellFormed block member) inRange
      rw [aligned.rowLength block member] at copied
      rw [if_pos inRange, copied, ← same, Array.toArray_toList, Except.ok.injEq]
      simp [InRange, found, inRange, eq_comm]
    · simp [InRange, found, inRange]

/-! ### Joining, one level of gradients at a time -/

/-- A block can be joined with the first one, as far as its gradients are left out of account. -/
structure Matching (first other : Block) : Prop where
  components : other.components = first.components
  properties : other.properties = first.properties
  parameters : other.parameters = first.parameters

/-- Blocks can be joined along their samples when they have the same components and properties. -/
theorem checkJoinable_eq_ok_iff {first : Block} (regular : first.AxesLabelled Labels.Regular)
    {position : Nat} {blocks : List Block}
    (regular' : ∀ block ∈ blocks, block.AxesLabelled Labels.Regular) :
    checkJoinable first.components first.properties position blocks = .ok () ↔
      ∀ block ∈ blocks, block.components = first.components ∧
        block.properties = first.properties := by
  induction blocks generalizing position with
  | nil => simp [checkJoinable]
  | cons block blocks ih =>
    rw [List.forall_mem_cons] at regular'
    simp only [checkJoinable, throw_bind_eq, refused_eq_ok, check_bind_eq_ok, Bool.not_eq_true',
      Bool.not_eq_false, ih regular'.2, List.forall_mem_cons, and_assoc,
      checkSameComponents_eq_ok_iff regular.components regular'.1.components,
      Labels.identical_iff regular'.1.properties regular.properties]

def joinedOwn (first : Block) (others : List Block) (samples : Labels) (sources : List Source) :
    Block :=
  ⟨⟨sources.length :: first.values.shape.tail,
      (sources.flatMap (sourceRow (first :: others))).toArray⟩,
    samples, first.components, first.properties, []⟩

def placesOf (blocks : List Block) (sources : List Source) : List (Array (Option Nat)) :=
  (places (blocks.map fun block => block.samples.count) (placeOf sources)).toList

/-- What it takes to join some blocks. -/
structure CanJoin (first : Block) (others : List Block) (samples : Labels)
    (sources : List Source) : Prop where
  matching : ∀ other ∈ others, Matching first other
  inRange : ∀ source ∈ sources, InRange (first :: others) source
  room : Dense.span (sources.length :: first.values.shape.tail) ≤ Dense.maxLength
  count : samples.count = sources.length
  newNames : ∀ name ∈ componentNames first.components, name ∉ samples.names

/-- Blocks that match have rows of the same length. -/
theorem aligned_of_matching {first : Block} {others : List Block}
    (wellFormed : ∀ block ∈ first :: others, block.WellFormed)
    (matching : ∀ other ∈ others, Matching first other) :
    Aligned first.rowLength (first :: others) := by
  refine ⟨wellFormed, ?_⟩
  have own := wellFormed first List.mem_cons_self
  intro block member
  rw [(wellFormed block member).rowLength_eq, own.rowLength_eq]
  rcases List.mem_cons.mp member with rfl | inside
  · rfl
  · rw [(matching block inside).components, (matching block inside).properties]

/-- The array of the joined block has the shape that its labels ask for. -/
theorem joinedOwn_shape_iff {first : Block} (wellFormed : first.WellFormed) {samples : Labels}
    {sources : List Source} :
    sources.length :: first.values.shape.tail =
        labelledShape samples first.components first.properties ↔
      samples.count = sources.length := by
  rw [wellFormed.shape, labelledShape, labelledShape, List.tail_cons, List.cons.injEq, eq_comm]
  exact and_iff_left rfl

/-- The steps of joining, in terms of the parts of the first block. -/
theorem joinSamples_eq (first : Block) (others : List Block) (samples : Labels)
    (sources : List Source) :
    joinSamples first others samples sources = (do
      checkJoinable first.components first.properties 1 others
      checkSameParameters first.parameters 1 others
      Dense.checkSpan (sources.length :: first.values.shape.tail)
      let data ← sampleValues (((first :: others).map Block.values).zip
        ((first :: others).map fun block => block.samples.count)).toArray
        first.values.shape.tail.prod sources
      let result ← ofValues ⟨sources.length :: first.values.shape.tail, data⟩ samples
        first.components first.properties
      joinSampleGradients first.gradients others
        (newPositions ((first :: others).map fun block => block.samples.count) sources).toList
        result) := by
  obtain ⟨values, firstSamples, components, properties, gradients⟩ := first
  rw [joinSamples]
  rfl

/-- The steps of joining blocks. -/
theorem joinSamples_steps {first : Block} {others : List Block} {samples : Labels}
    {sources : List Source} {result : Block} :
    joinSamples first others samples sources = .ok result ↔
      checkJoinable first.components first.properties 1 others = .ok () ∧
      checkSameParameters first.parameters 1 others = .ok () ∧
      Dense.checkSpan (sources.length :: first.values.shape.tail) = .ok () ∧
      ∃ data, sampleValues (((first :: others).map Block.values).zip
          ((first :: others).map fun block => block.samples.count)).toArray first.rowLength
          sources = .ok data ∧
        ∃ block, ofValues ⟨sources.length :: first.values.shape.tail, data⟩ samples
            first.components first.properties = .ok block ∧
          joinSampleGradients first.gradients others
            (newPositions ((first :: others).map fun block => block.samples.count) sources).toList
            block = .ok result := by
  rw [joinSamples_eq, check_bind_eq_ok, check_bind_eq_ok, check_bind_eq_ok, bind_eq_ok]
  simp only [bind_eq_ok]
  rfl

/-- Blocks are joined along their samples exactly if all checks are passed, and this is the result.
-/
theorem joinSamples_eq_ok_iff {first : Block} {others : List Block} {samples : Labels}
    {sources : List Source} {result : Block}
    (wellFormed : ∀ block ∈ first :: others, block.WellFormed)
    (regular : ∀ block ∈ first :: others, block.AxesLabelled Labels.Regular)
    (nodup : sources.Nodup) :
    joinSamples first others samples sources = .ok result ↔
      CanJoin first others samples sources ∧
        joinSampleGradients first.gradients others (placesOf (first :: others) sources)
          (joinedOwn first others samples sources) = .ok result := by
  have own := wellFormed first List.mem_cons_self
  rw [List.forall_mem_cons] at regular
  rw [joinSamples_steps, checkJoinable_eq_ok_iff regular.1 regular.2, checkSameParameters_eq_ok_iff,
    Dense.checkSpan_eq_ok_iff, newPositions_eq _ nodup]
  simp only [ofValues_eq_ok_iff, joinedOwn_shape_iff own]
  constructor
  · rintro ⟨joinable, parameters, room, data, copied, _, ⟨count, _, newNames, rfl⟩, rest⟩
    have matching : ∀ other ∈ others, Matching first other := fun other member =>
      ⟨(joinable other member).1, (joinable other member).2, parameters other member⟩
    obtain ⟨inRange, rfl⟩ :=
      (sampleValues_eq_ok_iff (aligned_of_matching wellFormed matching)).mp copied
    exact ⟨⟨matching, inRange, room, count, fun name member => (newNames name member).1⟩, rest⟩
  · rintro ⟨⟨matching, inRange, room, count, newNames⟩, rest⟩
    have copied := (sampleValues_eq_ok_iff (aligned_of_matching wellFormed matching)).mpr
      ⟨inRange, rfl⟩
    refine ⟨fun other member => ⟨(matching other member).components,
      (matching other member).properties⟩, fun other member => (matching other member).parameters,
      room, _, copied, _, ⟨count, own.distinctNames, ?_, rfl⟩, rest⟩
    exact fun name member => ⟨newNames name member, (own.newNames name member).2⟩

/-! ### Joining the gradients -/

/-- Only gradients are added to the result, for each gradient of the first block one. -/
theorem gains_joinSampleGradients {gradients : List (String × Block)} {others : List Block}
    {placed : List (Array (Option Nat))} {result final : Block}
    (h : joinSampleGradients gradients others placed result = .ok final) :
    Gains (gradients.map (·.1)) result final := by
  induction gradients generalizing result with
  | nil =>
    rw [joinSampleGradients, Except.ok.injEq] at h
    exact h ▸ .nothing
  | cons entry gradients ih =>
    simp only [joinSampleGradients, bind_eq_ok] at h
    obtain ⟨_, _, _, _, _, _, _, _, joined, _, added, adds, rest⟩ := h
    exact .another adds (ih rest)

/-- The labels of the joined block are those that were asked for, and those of the first block. -/
theorem joinSamples_axes {first : Block} {others : List Block} {samples : Labels}
    {sources : List Source} {result : Block}
    (h : joinSamples first others samples sources = .ok result) :
    result.samples = samples ∧ result.components = first.components ∧
      result.properties = first.properties := by
  obtain ⟨_, _, _, data, _, own, built, rest⟩ := joinSamples_steps.mp h
  obtain ⟨_, _, _, rfl⟩ := ofValues_eq_ok_iff.mp built
  exact (gains_joinSampleGradients rest).same.axes

/-- Labels that are regular stay regular when blocks are joined along their samples. -/
theorem joinSamples_regular {first : Block} {others : List Block} {samples : Labels}
    {sources : List Source} {result : Block} (regular : first.AxesLabelled Labels.Regular)
    (regular' : samples.Regular) (h : joinSamples first others samples sources = .ok result) :
    result.AxesLabelled Labels.Regular := by
  obtain ⟨sameSamples, sameComponents, sameProperties⟩ := joinSamples_axes h
  constructor
  · exact sameSamples ▸ regular'
  · rw [sameComponents]
    exact regular.components
  · rw [sameProperties]
    exact regular.properties

/-- The gradients of well-formed blocks refer to samples of their blocks. -/
theorem referring_gradientsFor {parameter : String} {blocks : List Block}
    (wellFormed : ∀ block ∈ blocks, block.WellFormed)
    (all : ∀ block ∈ blocks, parameter ∈ block.parameters) :
    Referring blocks (gradientsFor parameter blocks) := by
  induction blocks with
  | nil => exact List.Forall₂.nil
  | cons block blocks ih =>
    rw [List.forall_mem_cons] at wellFormed all
    obtain ⟨gradient, found⟩ := Option.isSome_iff_exists.mp (isSome_gradient?_iff.mpr all.1)
    rw [gradientsFor_cons found]
    refine .cons ?_ (ih wellFormed.2 all.2)
    have member := (gradient?_eq_some wellFormed.1.ordered).mp found
    exact (wellFormed.1.gradients parameter gradient member).inRange

/-- What becomes of one gradient of the first block. -/
structure GradientJoined (others : List Block) (sources : List Source) (result : Block)
    (entry joined : String × Block) : Prop where
  parameter : joined.1 = entry.1
  names : ∀ other ∈ gradientsFor entry.1 others, other.samples.names = entry.2.samples.names
  goes : GradientOf result entry.1 joined.2
  made : ∃ samples, Labels.ofRows entry.2.samples.names
      ((following sources (entry.2 :: gradientsFor entry.1 others)).map (·.1)) = .ok samples ∧
    joinSamples entry.2 (gradientsFor entry.1 others) samples
      ((following sources (entry.2 :: gradientsFor entry.1 others)).map (·.2)) = .ok joined.2

/-- What becomes of a gradient does not depend on the other gradients of the result. -/
theorem GradientJoined.of_same {others : List Block} {sources : List Source}
    {result result' : Block} {entry joined : String × Block}
    (h : GradientJoined others sources result entry joined)
    (same : SameUpToGradients result result') :
    GradientJoined others sources result' entry joined :=
  ⟨h.parameter, h.names, h.goes.of_same same, h.made⟩

section Gradients

variable {first : Block} {others : List Block} {sources : List Source}

/-- Blocks that match the first one have gradients for its parameters. -/
theorem mem_parameters_of_gradient (matching : ∀ other ∈ others, Matching first other)
    {parameter : String} {gradient : Block} (member : (parameter, gradient) ∈ first.gradients) :
    ∀ block ∈ first :: others, parameter ∈ block.parameters := by
  have has : parameter ∈ first.parameters := List.mem_map_of_mem (f := Prod.fst) member
  refine List.forall_mem_cons.mpr ⟨has, fun other inside => ?_⟩
  rwa [(matching other inside).parameters]

/-- The rows that survive in a gradient of the first block and in those of the others are those that
follow their samples. -/
theorem exists_survivingRows (wellFormed : ∀ block ∈ first :: others, block.WellFormed)
    (matching : ∀ other ∈ others, Matching first other) {parameter : String} {gradient : Block}
    (member : (parameter, gradient) ∈ first.gradients) (sources : List Source) :
    ∃ parts, (((gradient :: gradientsFor parameter others).zip
          (placesOf (first :: others) sources)).zipIdx.mapM
        fun entry => survivingRows entry.1.2 entry.2 0 entry.1.1.samples.rows) = .ok parts ∧
      parts.flatten = following sources (gradient :: gradientsFor parameter others) := by
  have found := (gradient?_eq_some (wellFormed first List.mem_cons_self).ordered).mpr member
  have referring :=
    referring_gradientsFor wellFormed (mem_parameters_of_gradient matching member)
  rw [gradientsFor_cons found] at referring
  exact mapM_survivingRows referring (placeOf sources)

/-- What it takes to join one more gradient, whose parameter comes behind those before. -/
theorem joinSampleGradients_cons_iff
    (wellFormed : ∀ block ∈ first :: others, block.WellFormed)
    (matching : ∀ other ∈ others, Matching first other) {entry : String × Block}
    {gradients : List (String × Block)} (member : entry ∈ first.gradients)
    (regular : entry.2.AxesLabelled Labels.Regular) {result final : Block}
    (regular' : result.AxesLabelled Labels.Regular)
    (last : ∀ other ∈ result.parameters, other < entry.1) :
    joinSampleGradients (entry :: gradients) others (placesOf (first :: others) sources) result =
        .ok final ↔
      ∃ joined, GradientJoined others sources result entry joined ∧
        joinSampleGradients gradients others (placesOf (first :: others) sources)
          { result with gradients := result.gradients ++ [joined] } = .ok final := by
  obtain ⟨parameter, gradient⟩ := entry
  have hasAll := mem_parameters_of_gradient matching member
  have hasOthers := (List.forall_mem_cons.mp hasAll).2
  obtain ⟨parts, copied, flat⟩ := exists_survivingRows wellFormed matching member sources
  have new : parameter ∉ result.parameters := fun inside =>
    String.lt_irrefl parameter (last parameter inside)
  simp only [joinSampleGradients, bind_eq_ok, mapM_gradientFor_eq_ok_iff]
  constructor
  · rintro ⟨_, ⟨_, rfl⟩, _, names, parts', copied', samples, built, joined, made, added, adds, rest⟩
    obtain rfl : parts' = parts := Except.ok.inj (copied'.symm.trans copied)
    rw [flat] at built made
    have joinedRegular :=
      joinSamples_regular regular (Labels.regular_ofRows built) made
    obtain ⟨_, goes, rfl⟩ := (addGradient_eq_ok_iff regular' joinedRegular).mp adds
    rw [insertGradient_eq_append last] at rest
    exact ⟨(parameter, joined),
      ⟨rfl, checkSampleNames_eq_ok_iff.mp names, goes, samples, built, made⟩, rest⟩
  · rintro ⟨⟨parameter', joined⟩, ⟨rfl, names, goes, samples, built, made⟩, rest⟩
    have joinedRegular :=
      joinSamples_regular regular (Labels.regular_ofRows built) made
    have adds := (addGradient_eq_ok_iff regular' joinedRegular).mpr ⟨new, goes, rfl⟩
    rw [insertGradient_eq_append last] at adds
    rw [← flat] at built made
    exact ⟨_, ⟨hasOthers, rfl⟩, (), checkSampleNames_eq_ok_iff.mpr names, parts, copied, samples,
      built, joined, made, _, adds, rest⟩

/-- One gradient after the other is joined and added to the result. -/
theorem joinSampleGradients_eq_ok_iff
    (wellFormed : ∀ block ∈ first :: others, block.WellFormed)
    (matching : ∀ other ∈ others, Matching first other)
    {gradients : List (String × Block)} (among : ∀ entry ∈ gradients, entry ∈ first.gradients)
    (regular : ∀ entry ∈ gradients, entry.2.AxesLabelled Labels.Regular) {result final : Block}
    (regular' : result.AxesLabelled Labels.Regular)
    (ordered : (result.parameters ++ gradients.map (·.1)).Pairwise (· < ·)) :
    joinSampleGradients gradients others (placesOf (first :: others) sources) result =
        .ok final ↔
      ∃ added, List.Forall₂ (GradientJoined others sources result) gradients added ∧
        final = { result with gradients := result.gradients ++ added } := by
  induction gradients generalizing result with
  | nil =>
    rw [joinSampleGradients, Except.ok.injEq]
    constructor
    · rintro rfl
      exact ⟨[], .nil, by rw [List.append_nil, Block.eta]⟩
    · rintro ⟨_, ⟨⟩, rfl⟩
      rw [List.append_nil, Block.eta]
  | cons entry gradients ih =>
    rw [List.forall_mem_cons] at among regular
    have last : ∀ other ∈ result.parameters, other < entry.1 := by
      rw [List.map_cons, List.pairwise_append] at ordered
      exact fun other before => ordered.2.2 other before entry.1 List.mem_cons_self
    have ordered' : ∀ joined : String × Block, joined.1 = entry.1 →
        ((result.gradients ++ [joined]).map (·.1) ++ gradients.map (·.1)).Pairwise (· < ·) := by
      intro joined same
      rw [List.map_append, List.map_singleton, same, List.append_assoc]
      exact ordered
    have regularNext : ∀ joined, AxesLabelled Labels.Regular
        { result with gradients := result.gradients ++ [joined] } := fun _ =>
      ⟨regular'.samples, regular'.components, regular'.properties⟩
    have same : ∀ joined, SameUpToGradients
        { result with gradients := result.gradients ++ [joined] } result := fun _ => rfl
    rw [joinSampleGradients_cons_iff wellFormed matching among.1 regular.1 regular' last]
    constructor
    · rintro ⟨joined, made, rest⟩
      obtain ⟨added, all, rfl⟩ :=
        (ih among.2 regular.2 (regularNext joined) (ordered' joined made.parameter)).mp rest
      refine ⟨joined :: added, .cons made (all.imp fun _ _ h => h.of_same (same joined)), ?_⟩
      rw [List.append_assoc]
      rfl
    · rintro ⟨_, all, rfl⟩
      obtain ⟨joined, added, made, further, rfl⟩ := List.forall₂_cons_left_iff.mp all
      refine ⟨joined, made,
        (ih among.2 regular.2 (regularNext joined) (ordered' joined made.parameter)).mpr
          ⟨added, further.imp fun _ _ h => h.of_same (same joined).symm, ?_⟩⟩
      rw [List.append_assoc]
      rfl

/-- What it takes to join blocks, in terms of joining their gradients. -/
theorem joinSamples_level_iff {samples : Labels} {result : Block}
    (wellFormed : ∀ block ∈ first :: others, block.WellFormed)
    (regular : ∀ block ∈ first :: others, block.AxesLabelled Labels.Regular)
    (inner : ∀ entry ∈ first.gradients, entry.2.AxesLabelled Labels.Regular)
    (regular' : samples.Regular) (nodup : sources.Nodup) :
    joinSamples first others samples sources = .ok result ↔
      CanJoin first others samples sources ∧
        ∃ added, List.Forall₂ (GradientJoined others sources
            (joinedOwn first others samples sources)) first.gradients added ∧
          result = { joinedOwn first others samples sources with gradients := added } := by
  rw [joinSamples_eq_ok_iff wellFormed regular nodup]
  refine and_congr_right fun can => ?_
  have own := regular first List.mem_cons_self
  have ownRegular : (joinedOwn first others samples sources).AxesLabelled Labels.Regular :=
    ⟨regular', own.components, own.properties⟩
  exact joinSampleGradients_eq_ok_iff wellFormed can.matching (fun _ member => member) inner
    ownRegular (wellFormed first List.mem_cons_self).ordered

end Gradients

end LabeledBlocks.Block
