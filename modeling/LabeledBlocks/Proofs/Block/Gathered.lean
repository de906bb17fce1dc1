import LabeledBlocks.Block.Joining
import LabeledBlocks.Proofs.Block.Consistent
import LabeledBlocks.Proofs.Groups

/-!
# Gathered blocks

A block is gathered from other blocks by a list of sources, one for each of its samples: it has the
values of its sources, and in its gradients the rows of those gradient rows whose sample is among
the sources, with the sample number that the sample has now. The gradients are gathered in turn from
the gradients of the other blocks, by the rows that were kept.

* `Block.Gathered` — a block is gathered from others.
* `Block.Gathered.unique` — there is only one such block, once its samples are given.
* `Block.Gathered.all` — a block is gathered from itself.
* `Block.Gathered.trans` — blocks can be gathered in two steps.
* `Block.Gathered.single` — blocks without a source do not matter.
-/

namespace LabeledBlocks.Block

/-! ### Rows of values -/

/-- How many values belong to one sample. -/
def rowLength (block : Block) : Nat :=
  block.values.shape.tail.prod

def valueRow (block : Block) (sample : Nat) : List FloatBits :=
  (block.values.data.toList.drop (sample * block.rowLength)).take block.rowLength

section Values

variable {block other : Block}

theorem WellFormed.length_data (wellFormed : block.WellFormed) :
    block.values.data.toList.length = block.samples.count * block.rowLength := by
  rw [Array.length_toList, wellFormed.filled, rowLength, wellFormed.shape]
  rfl

theorem WellFormed.rowLength_eq (wellFormed : block.WellFormed) :
    block.rowLength = (block.components.map Labels.count ++ [block.properties.count]).prod := by
  rw [rowLength, wellFormed.shape]
  rfl

theorem WellFormed.length_valueRow (wellFormed : block.WellFormed) {sample : Nat}
    (inRange : sample < block.samples.count) :
    (block.valueRow sample).length = block.rowLength := by
  rw [valueRow, List.length_take, List.length_drop, wellFormed.length_data]
  have : (sample + 1) * block.rowLength ≤ block.samples.count * block.rowLength :=
    Nat.mul_le_mul_right _ inRange
  rw [Nat.succ_mul] at this
  omega

/-- The values are the rows of all samples. -/
theorem WellFormed.data_eq (wellFormed : block.WellFormed) :
    block.values.data.toList = (List.range block.samples.count).flatMap block.valueRow := by
  rw [← flatten_groups wellFormed.length_data, groups_eq_map, List.flatMap_def]
  rfl

/-- Values that consist of rows of the right length have these rows. -/
theorem valueRow_of_rows {α : Type} {sources : List α} {rowOf : α → List FloatBits}
    (length : ∀ source ∈ sources, (rowOf source).length = block.rowLength)
    (data : block.values.data.toList = sources.flatMap rowOf) {j : Nat} {source : α}
    (found : sources[j]? = some source) : block.valueRow j = rowOf source := by
  have cut := groups_flatMap rowOf length
  rw [← data, groups_eq_map] at cut
  have inRange := (List.getElem?_eq_some_iff.mp found).1
  have rows := congrArg (·[j]?) cut
  simp only [List.getElem?_map, List.getElem?_range inRange, found, Option.map_some] at rows
  exact Option.some.inj rows

/-- The same labels and the same values of every sample make the same values. -/
theorem WellFormed.values_eq (wellFormed : block.WellFormed) (wellFormed' : other.WellFormed)
    (samples : block.samples = other.samples) (components : block.components = other.components)
    (properties : block.properties = other.properties)
    (rows : ∀ sample < block.samples.count, block.valueRow sample = other.valueRow sample) :
    block.values = other.values := by
  have shape : block.values.shape = other.values.shape := by
    rw [wellFormed.shape, wellFormed'.shape, samples, components, properties]
  have data : block.values.data.toList = other.values.data.toList := by
    rw [wellFormed.data_eq, wellFormed'.data_eq, ← samples]
    exact List.flatMap_congr fun sample member => rows sample (List.mem_range.mp member)
  cases h : block.values
  cases h' : other.values
  rw [h, h'] at shape data
  rw [Dense.mk.injEq]
  exact ⟨shape, Array.toList_inj.mp data⟩

end Values

/-! ### Rows and their sources -/

/-- The rows of some blocks, one block after the other, with their sources. -/
def sourcedRows (blocks : List Block) : List (Row × Source) :=
  blocks.zipIdx.flatMap fun entry =>
    entry.1.samples.rows.zipIdx.map fun row => (row.1, ⟨entry.2, row.2⟩)

/-- Every row comes with the block and the position that it is taken from. -/
theorem mem_sourcedRows {blocks : List Block} {row : Row} {source : Source} :
    (row, source) ∈ sourcedRows blocks ↔ ∃ block, blocks[source.block]? = some block ∧
      block.samples.rows[source.index]? = some row := by
  simp only [sourcedRows, List.mem_flatMap, List.mem_map, Prod.exists, Prod.mk.injEq,
    List.mem_zipIdx_iff_getElem?]
  constructor
  · rintro ⟨block, b, found, row', r, found', rfl, rfl⟩
    exact ⟨block, found, found'⟩
  · rintro ⟨block, found, found'⟩
    exact ⟨block, source.block, found, row, source.index, found', rfl, rfl⟩

/-- The sources of the rows of some items, one item after the other, are different. -/
theorem nodup_sources_flatMap {α : Type} (rowsOf : α → List Row) (items : List α) :
    (items.zipIdx.flatMap fun entry =>
      (rowsOf entry.1).zipIdx.map fun row => Source.mk entry.2 row.2).Nodup := by
  rw [List.nodup_flatMap]
  constructor
  · rintro ⟨item, b⟩ _
    have indices : ((rowsOf item).zipIdx.map Prod.snd).Nodup := by
      rw [List.zipIdx_map_snd]
      exact List.nodup_range'
    refine List.Nodup.of_map Source.index ?_
    rwa [List.map_map]
  · have numbers : (items.zipIdx.map Prod.snd).Nodup := by
      rw [List.zipIdx_map_snd]
      exact List.nodup_range'
    refine (List.pairwise_map.mp numbers).imp ?_
    intro a b different source ha hb
    simp only [List.mem_map] at ha hb
    obtain ⟨_, _, rfl⟩ := ha
    obtain ⟨_, _, same⟩ := hb
    exact different (congrArg Source.block same).symm

/-- Every source stands once. -/
theorem nodup_sourcedRows (blocks : List Block) : ((sourcedRows blocks).map (·.2)).Nodup := by
  rw [sourcedRows, List.map_flatMap]
  simp only [List.map_map]
  exact nodup_sources_flatMap (fun block => block.samples.rows) blocks

/-- The gradient row whose sample has gone to a new position, if it has gone to one. -/
def follow (place : Nat → Option Nat) : Row → Option Row
  | [] => none
  | reference :: rest => (place reference.toInt.toNat).map fun j => Int32.ofNat j :: rest

/-- Where the sample of a block has gone. -/
def placeOf (sources : List Source) (block sample : Nat) : Option Nat :=
  sources.idxOf? ⟨block, sample⟩

/-- The gradient rows that follow their samples, with their sources. -/
def following (sources : List Source) (gradients : List Block) : List (Row × Source) :=
  (sourcedRows gradients).filterMap fun entry =>
    (follow (placeOf sources entry.2.block) entry.1).map (·, entry.2)

/-- A row follows its sample when that has a new position, and is left out otherwise. -/
theorem follow_eq_some_iff {place : Nat → Option Nat} {row moved : Row} :
    follow place row = some moved ↔ ∃ reference rest j, row = reference :: rest ∧
      place reference.toInt.toNat = some j ∧ moved = Int32.ofNat j :: rest := by
  cases row with
  | nil => simp [follow]
  | cons reference rest =>
    rw [follow, Option.map_eq_some_iff]
    constructor
    · rintro ⟨j, placed, rfl⟩
      exact ⟨reference, rest, j, rfl, placed, rfl⟩
    · rintro ⟨_, _, j, same, placed, rfl⟩
      obtain ⟨rfl, rfl⟩ := List.cons.inj same
      exact ⟨j, placed, rfl⟩

/-- Every gradient row follows once. -/
theorem nodup_following (sources : List Source) (gradients : List Block) :
    ((following sources gradients).map (·.2)).Nodup := by
  refine List.Nodup.sublist ?_ (nodup_sourcedRows gradients)
  unfold following
  generalize sourcedRows gradients = rows
  induction rows with
  | nil => exact List.Sublist.refl _
  | cons entry rows ih =>
    rw [List.map_cons]
    cases followed : follow (placeOf sources entry.2.block) entry.1 with
    | none =>
      rw [List.filterMap_cons_none (by rw [followed]; rfl)]
      exact ih.cons _
    | some moved =>
      rw [List.filterMap_cons_some (b := (moved, entry.2)) (by rw [followed]; rfl), List.map_cons]
      exact ih.cons_cons _

/-! ### Gathering -/

def gradientsFor (parameter : String) (blocks : List Block) : List Block :=
  blocks.filterMap (·.gradient? parameter)

def InRange (blocks : List Block) (source : Source) : Prop :=
  ∃ block, blocks[source.block]? = some block ∧ source.index < block.samples.count

/-- The source of a row is a sample of the blocks. -/
theorem inRange_of_mem_sourcedRows {blocks : List Block} {row : Row} {source : Source}
    (member : (row, source) ∈ sourcedRows blocks) : InRange blocks source := by
  obtain ⟨block, standing, isRow⟩ := mem_sourcedRows.mp member
  exact ⟨block, standing, block.samples.count_eq ▸ (List.getElem?_eq_some_iff.mp isRow).1⟩

/-- A block is gathered from others, as far as its gradients are left out of account. -/
structure GatheredLevel (blocks : List Block) (sources : List Source) (result : Block) : Prop where
  components : ∀ block ∈ blocks, block.components = result.components
  properties : ∀ block ∈ blocks, block.properties = result.properties
  parameters : ∀ block ∈ blocks, block.parameters = result.parameters
  inRange : ∀ source ∈ sources, InRange blocks source
  count : result.samples.count = sources.length
  values : ∀ (j : Nat) source block, sources[j]? = some source →
    blocks[source.block]? = some block → result.valueRow j = block.valueRow source.index

/-- The sample at position `j` of a block comes from `sources[j]`, and the gradient rows of the
samples come with them, at every depth. -/
inductive Gathered : (blocks : List Block) → (sources : List Source) → (result : Block) → Prop where
  | intro {blocks : List Block} {sources : List Source} {result : Block}
      (level : GatheredLevel blocks sources result)
      (names : ∀ parameter gradient, (parameter, gradient) ∈ result.gradients →
        ∀ other ∈ gradientsFor parameter blocks, other.samples.names = gradient.samples.names)
      (rows : ∀ parameter gradient, (parameter, gradient) ∈ result.gradients →
        gradient.samples.rows =
          (following sources (gradientsFor parameter blocks)).map (·.1))
      (deeper : ∀ parameter gradient, (parameter, gradient) ∈ result.gradients →
        Gathered (gradientsFor parameter blocks)
          ((following sources (gradientsFor parameter blocks)).map (·.2)) gradient) :
      Gathered blocks sources result

theorem Gathered.level {blocks : List Block} {sources : List Source} {result : Block}
    (h : Gathered blocks sources result) : GatheredLevel blocks sources result := by
  cases h with
  | intro level _ _ _ => exact level

theorem isSome_gradient?_iff {block : Block} {parameter : String} :
    (block.gradient? parameter).isSome ↔ parameter ∈ block.parameters := by
  rw [← Option.ne_none_iff_isSome, ne_eq, gradient?_eq_none, not_not]

theorem getElem?_gradientsFor {parameter : String} {blocks : List Block}
    (all : ∀ block ∈ blocks, parameter ∈ block.parameters) (b : Nat) :
    (gradientsFor parameter blocks)[b]? = blocks[b]?.bind (·.gradient? parameter) :=
  getElem?_filterMap (fun block member => isSome_gradient?_iff.mpr (all block member)) b

/-- What is related to blocks is related to their gradients. -/
theorem forall₂_gradientsFor {α : Type} {R : α → Block → Prop} {S : α → Block → Prop} {l : List α}
    {blocks : List Block} {parameter : String} (related : List.Forall₂ R l blocks)
    (all : ∀ block ∈ blocks, parameter ∈ block.parameters)
    (step : ∀ a block gradient, R a block → block.gradient? parameter = some gradient →
      S a gradient) :
    List.Forall₂ S l (gradientsFor parameter blocks) := by
  have found := forall₂_filterMap fun block member => isSome_gradient?_iff.mpr (all block member)
  exact forall₂_of_common related.flip found fun block _ a gradient => step a block gradient

/-- What holds at every depth of some blocks holds at every depth of their gradients. -/
theorem everywhere_gradientsFor {P : Block → Prop} {parameter : String} {blocks : List Block}
    (wellFormed : ∀ block ∈ blocks, block.WellFormed)
    (holds : ∀ block ∈ blocks, block.Everywhere P) :
    ∀ gradient ∈ gradientsFor parameter blocks, gradient.Everywhere P := by
  intro gradient member
  obtain ⟨block, isBlock, has⟩ := List.mem_filterMap.mp member
  exact (holds block isBlock).inner
    ((gradient?_eq_some (wellFormed block isBlock).ordered).mp has)

theorem gradientsFor_ne_nil {parameter : String} {blocks : List Block} (nonempty : blocks ≠ [])
    (all : ∀ block ∈ blocks, parameter ∈ block.parameters) :
    gradientsFor parameter blocks ≠ [] := by
  obtain ⟨block, blocks, rfl⟩ := List.exists_cons_of_ne_nil nonempty
  obtain ⟨gradient, found⟩ := Option.isSome_iff_exists.mp
    (isSome_gradient?_iff.mpr (all block List.mem_cons_self))
  exact List.ne_nil_of_mem (List.mem_filterMap.mpr ⟨block, List.mem_cons_self, found⟩)

theorem GatheredLevel.mem_parameters {blocks : List Block} {sources : List Source}
    {result gradient : Block} {parameter : String} (level : GatheredLevel blocks sources result)
    (member : (parameter, gradient) ∈ result.gradients) :
    ∀ block ∈ blocks, parameter ∈ block.parameters := by
  intro block inside
  rw [level.parameters block inside]
  exact List.mem_map_of_mem (f := Prod.fst) member

/-! ### There is only one result -/

/-- Gradients for the same parameters that agree parameter by parameter are the same. -/
theorem gradients_eq {a b : Block} (parameters : a.parameters = b.parameters)
    (same : ∀ parameter gradient gradient', (parameter, gradient) ∈ a.gradients →
      (parameter, gradient') ∈ b.gradients → gradient = gradient') :
    a.gradients = b.gradients := by
  have length : a.gradients.length = b.gradients.length := by
    have := congrArg List.length parameters
    rwa [Block.parameters, Block.parameters, List.length_map, List.length_map] at this
  refine List.ext_getElem length fun i inside inside' => ?_
  have parameter : a.gradients[i].1 = b.gradients[i].1 := by
    have := congrArg (·[i]?) parameters
    simpa [Block.parameters, inside, inside'] using this
  refine Prod.ext parameter (same a.gradients[i].1 _ _ (List.getElem_mem inside) ?_)
  rw [parameter]
  exact List.getElem_mem inside'

/-- There is only one block that is gathered in a certain way, once its samples are given. -/
theorem Gathered.unique {blocks : List Block} {sources : List Source} {a b : Block}
    (h : Gathered blocks sources a) (h' : Gathered blocks sources b) (consistent : a.Consistent)
    (consistent' : b.Consistent) (nonempty : blocks ≠ []) (samples : a.samples = b.samples) :
    a = b := by
  induction h generalizing b with
  | @intro blocks sources a level names rows deeper ih =>
    cases h' with
    | intro level' names' rows' deeper' =>
      obtain ⟨block, others, rfl⟩ := List.exists_cons_of_ne_nil nonempty
      have first : block ∈ block :: others := List.mem_cons_self
      have components := (level.components block first).symm.trans (level'.components block first)
      have properties := (level.properties block first).symm.trans (level'.properties block first)
      have parameters := (level.parameters block first).symm.trans (level'.parameters block first)
      have values : a.values = b.values := by
        refine consistent.own.values_eq consistent'.own samples components properties ?_
        intro j inside
        rw [level.count] at inside
        have found := List.getElem?_eq_getElem inside
        obtain ⟨other, standing, _⟩ := level.inRange _ (List.getElem_mem inside)
        rw [level.values j _ other found standing, level'.values j _ other found standing]
      have gradients : a.gradients = b.gradients := by
        refine gradients_eq parameters fun parameter gradient gradient' member member' => ?_
        have some := gradientsFor_ne_nil nonempty (level.mem_parameters member)
        refine ih parameter gradient member (deeper' parameter gradient' member')
          (consistent.inner member) (consistent'.inner member') some ?_
        obtain ⟨other, rest, split⟩ := List.exists_cons_of_ne_nil some
        have one : other ∈ gradientsFor parameter (block :: others) := split ▸ List.mem_cons_self
        refine Labels.ext_iff.mpr ⟨?_, ?_⟩
        · rw [← names parameter gradient member other one,
            ← names' parameter gradient' member' other one]
        · rw [rows parameter gradient member, rows' parameter gradient' member']
      rw [← Block.eta a, ← Block.eta b, values, samples, components, properties, gradients]

/-! ### Gathering from one block -/

def samplesAt (block : Nat) (positions : List Nat) : List Source :=
  positions.map (Source.mk block)

theorem getElem?_samplesAt (block : Nat) (positions : List Nat) (j : Nat) :
    (samplesAt block positions)[j]? = positions[j]?.map (Source.mk block) :=
  List.getElem?_map

theorem nodup_samplesAt {block : Nat} {positions : List Nat} :
    (samplesAt block positions).Nodup ↔ positions.Nodup :=
  List.nodup_map_iff fun _ _ same => congrArg Source.index same

theorem placeOf_samplesAt (block : Nat) (positions : List Nat) (n : Nat) :
    placeOf (samplesAt block positions) block n = positions.idxOf? n := by
  unfold placeOf samplesAt
  induction positions with
  | nil => rfl
  | cons first positions ih =>
    rw [List.map_cons, List.idxOf?_cons, List.idxOf?_cons, ih]
    by_cases same : first = n
    · simp [same]
    · simp [same]

theorem placeOf_samplesAt_of_ne {block other : Nat} (different : other ≠ block)
    (positions : List Nat) (n : Nat) : placeOf (samplesAt block positions) other n = none := by
  rw [placeOf, List.idxOf?_eq_none_iff]
  intro member
  obtain ⟨_, _, same⟩ := List.mem_map.mp member
  exact different (congrArg Source.block same).symm

/-- The rows of one gradient that follow the samples at these positions, with their own
positions. -/
def followingRows (positions : List Nat) (rows : List Row) : List (Row × Nat) :=
  rows.zipIdx.filterMap fun entry => (follow positions.idxOf? entry.1).map (·, entry.2)

theorem follow_none {place : Nat → Option Nat} (none : ∀ n, place n = none) (row : Row) :
    follow place row = .none := by
  cases row with
  | nil => rfl
  | cons reference rest => rw [follow, none, Option.map_none]

/-- Only the rows of one gradient follow the samples of its block. -/
theorem following_samplesAt {gradients : List Block} {block : Nat} {gradient : Block}
    (found : gradients[block]? = some gradient) (positions : List Nat) :
    following (samplesAt block positions) gradients =
      (followingRows positions gradient.samples.rows).map fun entry =>
        (entry.1, ⟨block, entry.2⟩) := by
  have own : placeOf (samplesAt block positions) block = positions.idxOf? :=
    funext fun n => placeOf_samplesAt block positions n
  rw [following, sourcedRows, List.filterMap_flatMap, flatMap_zipIdx_eq found ?_]
  · rw [followingRows, List.filterMap_map, List.map_filterMap, Nat.zero_add]
    refine List.filterMap_congr fun entry _ => ?_
    simp [Function.comp_def, own, Option.map_map]
  · rintro ⟨other, b⟩ _ different
    rw [Nat.zero_add] at different
    rw [List.filterMap_map, List.filterMap_eq_nil_iff]
    intro entry _
    rw [Function.comp_apply, follow_none fun n => placeOf_samplesAt_of_ne different positions n]
    rfl

theorem map_fst_following_samplesAt {gradients : List Block} {block : Nat} {gradient : Block}
    (found : gradients[block]? = some gradient) (positions : List Nat) :
    (following (samplesAt block positions) gradients).map (·.1) =
      (followingRows positions gradient.samples.rows).map (·.1) := by
  rw [following_samplesAt found, List.map_map]
  rfl

theorem map_snd_following_samplesAt {gradients : List Block} {block : Nat} {gradient : Block}
    (found : gradients[block]? = some gradient) (positions : List Nat) :
    (following (samplesAt block positions) gradients).map (·.2) =
      samplesAt block ((followingRows positions gradient.samples.rows).map (·.2)) := by
  rw [following_samplesAt found, List.map_map, samplesAt, List.map_map]
  rfl

theorem gradientsFor_singleton {block gradient : Block} {parameter : String}
    (found : block.gradient? parameter = some gradient) :
    gradientsFor parameter [block] = [gradient] := by
  simp [gradientsFor, found]

/-! ### A block is gathered from itself -/

theorem ofNat_toNat {reference : Int32} (positive : 0 ≤ reference.toInt) :
    Int32.ofNat reference.toInt.toNat = reference := by
  rw [← Int32.ofInt_eq_ofNat, Int.toNat_of_nonneg positive, Int32.ofInt_toInt]

/-- If every sample stays where it is, every row stays as it is. -/
theorem followingRows_range {count : Nat} {rows : List Row}
    (inRange : ∀ row ∈ rows, Refers count row) :
    followingRows (List.range count) rows = rows.zipIdx := by
  have stays : ∀ entry ∈ rows.zipIdx,
      (follow (List.range count).idxOf? entry.1).map (·, entry.2) = some entry := by
    rintro ⟨row, r⟩ member
    obtain ⟨reference, rest, same, positive, small⟩ :=
      inRange row (List.fst_mem_of_mem_zipIdx member)
    have place : (List.range count).idxOf? reference.toInt.toNat = some reference.toInt.toNat := by
      rw [idxOf?_eq_some_iff_getElem? List.nodup_range]
      exact List.getElem?_range (by omega)
    dsimp only
    rw [same, follow, place, Option.map_some, ofNat_toNat positive, Option.map_some]
  rw [followingRows, List.filterMap_congr stays, List.filterMap_some]

/-- Every block is gathered from itself. -/
theorem Gathered.all {block : Block} (consistent : block.Consistent) :
    Gathered [block] (samplesAt 0 (List.range block.samples.count)) block := by
  induction consistent with
  | @intro block wellFormed _ ih =>
    have alone : ∀ parameter gradient, (parameter, gradient) ∈ block.gradients →
        gradientsFor parameter [block] = [gradient] := fun parameter gradient member =>
      gradientsFor_singleton ((gradient?_eq_some wellFormed.ordered).mpr member)
    have kept : ∀ parameter gradient, (parameter, gradient) ∈ block.gradients →
        followingRows (List.range block.samples.count) gradient.samples.rows =
          gradient.samples.rows.zipIdx := fun parameter gradient member =>
      followingRows_range (wellFormed.gradients parameter gradient member).inRange
    refine .intro ⟨?_, ?_, ?_, ?_, ?_, ?_⟩ ?_ ?_ ?_
    · exact fun other member => List.mem_singleton.mp member ▸ rfl
    · exact fun other member => List.mem_singleton.mp member ▸ rfl
    · exact fun other member => List.mem_singleton.mp member ▸ rfl
    · intro source member
      obtain ⟨n, inside, rfl⟩ := List.mem_map.mp member
      exact ⟨block, rfl, List.mem_range.mp inside⟩
    · rw [samplesAt, List.length_map, List.length_range]
    · intro j source other found standing
      rw [getElem?_samplesAt, Option.map_eq_some_iff] at found
      obtain ⟨n, here, rfl⟩ := found
      obtain ⟨_, rfl⟩ := List.getElem?_eq_some_iff.mp here
      cases standing
      rw [List.getElem_range]
    · intro parameter gradient member other inside
      rw [alone parameter gradient member] at inside
      exact List.mem_singleton.mp inside ▸ rfl
    · intro parameter gradient member
      rw [alone parameter gradient member, map_fst_following_samplesAt rfl,
        kept parameter gradient member, List.zipIdx_map_fst]
    · intro parameter gradient member
      rw [alone parameter gradient member, map_snd_following_samplesAt rfl,
        kept parameter gradient member, List.zipIdx_map_snd, ← List.range_eq_range',
        ← gradient.samples.count_eq]
      exact ih parameter gradient member

/-! ### Blocks without a source do not matter -/

/-- What is gathered from the samples of one of the blocks is gathered from this block. -/
theorem Gathered.single {blocks : List Block} {b : Nat} {positions : List Nat}
    {result block : Block} (h : Gathered blocks (samplesAt b positions) result)
    (found : blocks[b]? = some block) : Gathered [block] (samplesAt 0 positions) result := by
  generalize sources : samplesAt b positions = gathered at h
  induction h generalizing positions block with
  | @intro blocks _ result level names rows deeper ih =>
    subst sources
    have member := List.mem_of_getElem? found
    have gradientAt : ∀ parameter gradient, (parameter, gradient) ∈ result.gradients →
        ∃ own, block.gradient? parameter = some own ∧
          (gradientsFor parameter blocks)[b]? = some own := by
      intro parameter gradient inside
      have all := level.mem_parameters inside
      obtain ⟨own, has⟩ := Option.isSome_iff_exists.mp
        (isSome_gradient?_iff.mpr (all block member))
      refine ⟨own, has, ?_⟩
      rw [getElem?_gradientsFor all, found, Option.bind_some, has]
    refine .intro ⟨?_, ?_, ?_, ?_, ?_, ?_⟩ ?_ ?_ ?_
    · exact fun other one => List.mem_singleton.mp one ▸ level.components block member
    · exact fun other one => List.mem_singleton.mp one ▸ level.properties block member
    · exact fun other one => List.mem_singleton.mp one ▸ level.parameters block member
    · intro source inside
      obtain ⟨n, here, rfl⟩ := List.mem_map.mp inside
      obtain ⟨other, standing, small⟩ := level.inRange ⟨b, n⟩ (List.mem_map_of_mem here)
      cases found.symm.trans standing
      exact ⟨block, rfl, small⟩
    · rw [level.count, samplesAt, samplesAt, List.length_map, List.length_map]
    · intro j source other here standing
      rw [getElem?_samplesAt, Option.map_eq_some_iff] at here
      obtain ⟨n, here, rfl⟩ := here
      cases standing
      refine level.values j ⟨b, n⟩ block ?_ found
      rw [getElem?_samplesAt, here, Option.map_some]
    · intro parameter gradient inside other one
      obtain ⟨own, has, standing⟩ := gradientAt parameter gradient inside
      rw [gradientsFor_singleton has] at one
      rw [List.mem_singleton.mp one]
      exact names parameter gradient inside own (List.mem_of_getElem? standing)
    · intro parameter gradient inside
      obtain ⟨own, has, standing⟩ := gradientAt parameter gradient inside
      rw [rows parameter gradient inside, gradientsFor_singleton has,
        map_fst_following_samplesAt standing, map_fst_following_samplesAt rfl]
    · intro parameter gradient inside
      obtain ⟨own, has, standing⟩ := gradientAt parameter gradient inside
      rw [gradientsFor_singleton has, map_snd_following_samplesAt rfl]
      exact ih parameter gradient inside standing (map_snd_following_samplesAt standing _).symm

/-! ### Gathering in two steps -/

def sourcesAt (sources : List Source) (positions : List Nat) : List Source :=
  positions.filterMap (sources[·]?)

section Trans

variable {sources : List Source} {positions : List Nat}

theorem getElem?_sourcesAt (inRange : ∀ p ∈ positions, p < sources.length) (j : Nat) :
    (sourcesAt sources positions)[j]? = positions[j]?.bind (sources[·]?) := by
  refine getElem?_filterMap (fun p member => ?_) j
  rw [List.getElem?_eq_getElem (inRange p member)]
  rfl

theorem nodup_sourcesAt (nodup : sources.Nodup) (nodup' : positions.Nodup) :
    (sourcesAt sources positions).Nodup := by
  refine List.Nodup.filterMap ?_ nodup'
  intro i j source here there
  obtain ⟨inside, here⟩ := List.getElem?_eq_some_iff.mp here
  obtain ⟨inside', there⟩ := List.getElem?_eq_some_iff.mp there
  exact (List.Nodup.getElem_inj_iff nodup).mp (here.trans there.symm)

/-- A sample goes to its new position in two steps. -/
theorem placeOf_sourcesAt (nodup : sources.Nodup) (nodup' : positions.Nodup)
    (inRange : ∀ p ∈ positions, p < sources.length) (block n : Nat) :
    placeOf (sourcesAt sources positions) block n =
      (placeOf sources block n).bind positions.idxOf? := by
  refine Option.ext fun k => ?_
  rw [placeOf, placeOf, idxOf?_eq_some_iff_getElem? (nodup_sourcesAt nodup nodup'),
    getElem?_sourcesAt inRange, Option.bind_eq_some_iff, Option.bind_eq_some_iff]
  simp only [idxOf?_eq_some_iff_getElem? nodup, idxOf?_eq_some_iff_getElem? nodup']
  exact exists_congr fun p => and_comm

theorem placeOf_lt {block n j : Nat} (placed : placeOf sources block n = some j) :
    j < sources.length :=
  (List.idxOf?_eq_some_iff.mp placed).1

/-- A row follows its sample in two steps, as long as the sample number on the way can be written
down. -/
theorem follow_bind {p q : Nat → Option Nat} (small : ∀ n j, p n = some j → j < 2 ^ 31)
    (row : Row) : follow (fun n => (p n).bind q) row = (follow p row).bind (follow q) := by
  cases row with
  | nil => rfl
  | cons reference rest =>
    simp only [follow]
    cases placed : p reference.toInt.toNat with
    | none => rfl
    | some j =>
      have back : (Int32.ofNat j).toInt.toNat = j := by
        rw [Int32.toInt_ofNat_of_lt (small _ j placed)]
        exact Int.toNat_natCast j
      rw [Option.bind_some, Option.map_some, Option.bind_some, follow, back]

/-- The gradient rows that follow some of the sources are those that follow all of them, followed
once more. -/
theorem following_sourcesAt (nodup : sources.Nodup) (nodup' : positions.Nodup)
    (inRange : ∀ p ∈ positions, p < sources.length) (small : sources.length ≤ 2 ^ 31)
    (gradients : List Block) :
    following (sourcesAt sources positions) gradients =
      (following sources gradients).filterMap fun entry =>
        (follow positions.idxOf? entry.1).map (·, entry.2) := by
  rw [following, following, List.filterMap_filterMap]
  refine List.filterMap_congr fun entry _ => ?_
  have place : placeOf (sourcesAt sources positions) entry.2.block =
      fun n => (placeOf sources entry.2.block n).bind positions.idxOf? :=
    funext fun n => placeOf_sourcesAt nodup nodup' inRange entry.2.block n
  have holds : ∀ n j, placeOf sources entry.2.block n = some j → j < 2 ^ 31 :=
    fun n j placed => Nat.lt_of_lt_of_le (placeOf_lt placed) small
  rw [place, follow_bind holds]
  cases follow (placeOf sources entry.2.block) entry.1 with
  | none => rfl
  | some moved => rfl

/-- The rows that follow in two steps are those that follow the rows on the way. -/
theorem following_two_steps (nodup : sources.Nodup) (nodup' : positions.Nodup)
    (inRange : ∀ p ∈ positions, p < sources.length) (small : sources.length ≤ 2 ^ 31)
    {gradients : List Block} {rows : List Row}
    (between : (following sources gradients).map (·.1) = rows) :
    (following (sourcesAt sources positions) gradients).map (·.1) =
        (followingRows positions rows).map (·.1) ∧
      (following (sourcesAt sources positions) gradients).map (·.2) =
        sourcesAt ((following sources gradients).map (·.2))
          ((followingRows positions rows).map (·.2)) := by
  subst between
  rw [following_sourcesAt nodup nodup' inRange small,
    ← filterMap_zipIdx_lookup (follow positions.idxOf?)]
  generalize following sources gradients = rows
  rw [List.map_filterMap, List.map_filterMap, sourcesAt, List.filterMap_map, ← followingRows]
  constructor
  · have total : ∀ entry ∈ followingRows positions (rows.map (·.1)),
        ((rows.map (·.2))[entry.2]?.map (entry.1, ·)).map (·.1) = some entry.1 := by
      rintro ⟨moved, r⟩ member
      obtain ⟨⟨row, r'⟩, inside, same⟩ := List.mem_filterMap.mp member
      obtain ⟨_, _, same⟩ := Option.map_eq_some_iff.mp same
      obtain ⟨rfl, rfl⟩ := Prod.mk.inj same
      have small : r' < (rows.map (·.2)).length := by
        have := List.snd_lt_of_mem_zipIdx inside
        rw [List.length_map] at this ⊢
        omega
      rw [List.getElem?_eq_getElem small]
      rfl
    rw [List.filterMap_congr total]
    exact congrFun List.filterMap_eq_map' _
  · refine List.filterMap_congr fun entry _ => ?_
    rw [Option.map_map]
    exact Option.map_id'

end Trans

/-- Samples that can be numbered, at every depth. -/
abbrev Numbered (block : Block) : Prop :=
  block.Everywhere fun block => block.samples.count ≤ 2 ^ 31

theorem nodup_followingRows (positions : List Nat) (gradient : Block) :
    ((followingRows positions gradient.samples.rows).map (·.2)).Nodup := by
  have nodup := nodup_following (samplesAt 0 positions) [gradient]
  rwa [map_snd_following_samplesAt rfl, nodup_samplesAt] at nodup

section TwoSteps

variable {blocks : List Block} {sources : List Source} {positions : List Nat} {mid result : Block}

/-- The samples that are taken in the second step stand in the block of the first one. -/
theorem GatheredLevel.lt_length (level : GatheredLevel blocks sources mid)
    (level' : GatheredLevel [mid] (samplesAt 0 positions) result) :
    ∀ p ∈ positions, p < sources.length := by
  intro p member
  obtain ⟨_, standing, inside⟩ := level'.inRange ⟨0, p⟩ (List.mem_map_of_mem member)
  cases standing
  rwa [level.count] at inside

/-- Outside the gradients, two steps are one step from the sources of the sources. -/
theorem GatheredLevel.trans (level : GatheredLevel blocks sources mid)
    (level' : GatheredLevel [mid] (samplesAt 0 positions) result) :
    GatheredLevel blocks (sourcesAt sources positions) result := by
  have one : mid ∈ [mid] := List.mem_singleton_self mid
  have inRange := level.lt_length level'
  refine ⟨?_, ?_, ?_, ?_, ?_, ?_⟩
  · exact fun block member => (level.components block member).trans (level'.components mid one)
  · exact fun block member => (level.properties block member).trans (level'.properties mid one)
  · exact fun block member => (level.parameters block member).trans (level'.parameters mid one)
  · intro source member
    obtain ⟨p, _, found⟩ := List.mem_filterMap.mp member
    exact level.inRange source (List.mem_of_getElem? found)
  · have total : ∀ p ∈ positions, (sources[p]?).isSome := fun p member => by
      rw [List.getElem?_eq_getElem (inRange p member)]
      rfl
    rw [level'.count, samplesAt, List.length_map, sourcesAt, length_filterMap total]
  · intro j source block found standing
    rw [getElem?_sourcesAt inRange, Option.bind_eq_some_iff] at found
    obtain ⟨p, here, there⟩ := found
    rw [level'.values j ⟨0, p⟩ mid (by rw [getElem?_samplesAt, here]; rfl) rfl]
    exact level.values p source block there standing

/-- Blocks can be gathered in two steps, the second one from a single block. -/
theorem Gathered.trans (h : Gathered blocks sources mid)
    (h' : Gathered [mid] (samplesAt 0 positions) result) (nodup : sources.Nodup)
    (nodup' : positions.Nodup) (numbered : mid.Numbered) (consistent : mid.Consistent) :
    Gathered blocks (sourcesAt sources positions) result := by
  induction h generalizing positions result with
  | @intro blocks sources mid level names rows deeper ih =>
    cases h' with
    | intro level' names' rows' deeper' =>
      have inRange := level.lt_length level'
      have small : sources.length ≤ 2 ^ 31 := level.count ▸ numbered.own
      have between : ∀ parameter gradient, (parameter, gradient) ∈ result.gradients →
          ∃ other, (parameter, other) ∈ mid.gradients ∧ gradientsFor parameter [mid] = [other] := by
        intro parameter gradient member
        obtain ⟨other, has⟩ := Option.isSome_iff_exists.mp (isSome_gradient?_iff.mpr
          (level'.mem_parameters member mid (List.mem_singleton_self mid)))
        exact ⟨other, (gradient?_eq_some consistent.own.ordered).mp has,
          gradientsFor_singleton has⟩
      refine .intro (level.trans level') ?_ ?_ ?_
      · intro parameter gradient member other inside
        obtain ⟨middle, has, alone⟩ := between parameter gradient member
        rw [names parameter middle has other inside]
        exact names' parameter gradient member middle (alone ▸ List.mem_singleton_self middle)
      · intro parameter gradient member
        obtain ⟨middle, has, alone⟩ := between parameter gradient member
        rw [(following_two_steps nodup nodup' inRange small (rows parameter middle has).symm).1,
          rows' parameter gradient member, alone, map_fst_following_samplesAt rfl]
      · intro parameter gradient member
        obtain ⟨middle, has, alone⟩ := between parameter gradient member
        rw [(following_two_steps nodup nodup' inRange small (rows parameter middle has).symm).2]
        refine ih parameter middle has ?_ (nodup_following sources _)
          (nodup_followingRows positions middle) (numbered.inner has) (consistent.inner has)
        have next := deeper' parameter gradient member
        rwa [alone, map_snd_following_samplesAt rfl] at next

end TwoSteps

/-- What is gathered from samples of one block can be numbered if that block can. -/
theorem Gathered.numbered {block result : Block} {positions : List Nat}
    (h : Gathered [block] (samplesAt 0 positions) result) (nodup : positions.Nodup)
    (numbered : block.Numbered) (ordered : block.Consistent) : result.Numbered := by
  generalize blocks_eq : [block] = blocks at h
  generalize sources_eq : samplesAt 0 positions = sources at h
  induction h generalizing block positions with
  | @intro blocks sources result level names rows deeper ih =>
    subst blocks_eq sources_eq
    have one : block ∈ [block] := List.mem_singleton_self block
    refine .intro ?_ ?_
    · have subset : positions ⊆ List.range block.samples.count := by
        intro p member
        obtain ⟨_, standing, inside⟩ := level.inRange ⟨0, p⟩ (List.mem_map_of_mem member)
        cases standing
        exact List.mem_range.mpr inside
      have few := nodup.length_le_of_subset subset
      rw [List.length_range] at few
      rw [level.count, samplesAt, List.length_map]
      exact Nat.le_trans few numbered.own
    · intro parameter gradient member
      obtain ⟨own, has⟩ := Option.isSome_iff_exists.mp
        (isSome_gradient?_iff.mpr (level.mem_parameters member block one))
      have alone := gradientsFor_singleton has
      have inside := (gradient?_eq_some ordered.own.ordered).mp has
      refine ih parameter gradient member (nodup_followingRows positions own)
        (numbered.inner inside) (ordered.inner inside) alone.symm ?_
      rw [alone, map_snd_following_samplesAt rfl]

end LabeledBlocks.Block
