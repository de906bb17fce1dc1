import LabeledBlocks.Proofs.Block.Gathered

/-!
# Widened blocks

A block is widened from other blocks when its properties are properties of these blocks, and when
every sample of these blocks has a place among its samples. Below a property stand the values of the
block that it comes from, each at the place of its sample, and zeros at all places where that block
has no sample. The gradients are widened in turn: their rows are those of the gradients of the other
blocks, with the places of the samples as sample numbers, each row once.

* `Block.Placing` — every sample has a place, and no two samples of a block have the same one.
* `Block.Widens` — a block is widened from others.
* `Block.placing_placeAmong` — the rows of gradients have places when the samples of the blocks do.
-/

namespace LabeledBlocks.Block

/-! ### Single values -/

def componentSize (block : Block) : Nat :=
  (block.components.map Labels.count).prod

/-- The value of a sample at an index of the components, for one property. -/
def valueAt (block : Block) (sample component property : Nat) : Option FloatBits :=
  block.values.data[(sample * block.componentSize + component) * block.properties.count + property]?

theorem WellFormed.rowLength_eq_mul {block : Block} (wellFormed : block.WellFormed) :
    block.rowLength = block.componentSize * block.properties.count := by
  rw [wellFormed.rowLength_eq, List.prod_append, List.prod_singleton]
  rfl

/-- A single value is one of the values of its sample. -/
theorem WellFormed.valueAt_eq {block : Block} (wellFormed : block.WellFormed) {c p : Nat}
    (insideC : c < block.componentSize) (insideP : p < block.properties.count) (n : Nat) :
    block.valueAt n c p = (block.valueRow n)[c * block.properties.count + p]? := by
  have length := wellFormed.rowLength_eq_mul
  have inside : c * block.properties.count + p < block.rowLength := by
    have next : (c + 1) * block.properties.count ≤
        block.componentSize * block.properties.count := Nat.mul_le_mul_right _ insideC
    rw [Nat.succ_mul] at next
    omega
  have place : (n * block.componentSize + c) * block.properties.count + p =
      n * block.rowLength + (c * block.properties.count + p) := by
    rw [length, Nat.add_mul, Nat.mul_assoc, Nat.add_assoc]
  rw [valueAt, valueRow, List.getElem?_take_of_lt inside, List.getElem?_drop, place,
    Array.getElem?_toList]

/-! ### Places of samples -/

/-- Every sample of the blocks has a place among `count` samples, and no two samples of the same
block have the same place. -/
structure Placing (blocks : List Block) (place : Nat → Nat → Nat) (count : Nat) : Prop where
  inside : ∀ b block, blocks[b]? = some block → ∀ n < block.samples.count, place b n < count
  apart : ∀ b block, blocks[b]? = some block → ∀ n < block.samples.count,
    ∀ m < block.samples.count, place b n = place b m → n = m

/-- A gradient row with the place of its sample as its sample number. -/
def redirect (place : Nat → Nat) : Row → Row
  | [] => []
  | number :: rest => Int32.ofNat (place number.toInt.toNat) :: rest

/-- The sample number of the redirected row is the place of the sample, the rest is as before. -/
def Redirects (place : Nat → Nat) (row : Row) : Prop :=
  ∃ number number' rest, row = number :: rest ∧ redirect place row = number' :: rest ∧
    number'.toInt = place number.toInt.toNat

def redirectedOf (place : Nat → Nat → Nat) (entry : Block × Nat) : List Row :=
  entry.1.samples.rows.map (redirect (place entry.2))

def redirectedRows (place : Nat → Nat → Nat) (gradients : List Block) : List Row :=
  gradients.zipIdx.flatMap (redirectedOf place)

/-- The place that a row of a gradient has among `rows` after it is redirected. -/
def placeAmong (rows : List Row) (place : Nat → Nat → Nat) (gradients : List Block) (b n : Nat) :
    Nat :=
  rows.idxOf (redirect (place b) ((gradients[b]?.bind (·.samples.rows[n]?)).getD []))

theorem placeAmong_eq {rows : List Row} {place : Nat → Nat → Nat} {gradients : List Block}
    {b n : Nat} {gradient : Block} {row : Row} (found : gradients[b]? = some gradient)
    (isRow : gradient.samples.rows[n]? = some row) :
    placeAmong rows place gradients b n = rows.idxOf (redirect (place b) row) := by
  rw [placeAmong, found, Option.bind_some, isRow, Option.getD_some]

theorem mem_redirectedRows {place : Nat → Nat → Nat} {gradients : List Block} {b : Nat}
    {gradient : Block} (found : gradients[b]? = some gradient) {row : Row}
    (member : row ∈ gradient.samples.rows) :
    redirect (place b) row ∈ redirectedRows place gradients := by
  refine List.mem_flatMap.mpr ⟨(gradient, b), List.mem_zipIdx_iff_getElem?.mpr found, ?_⟩
  exact List.mem_map_of_mem member

/-- Rows that are redirected to the same row are the same, if their samples have different
places. -/
theorem Redirects.inj {place : Nat → Nat} {count : Nat} {row row' : Row}
    (redirects : Redirects place row)
    (apart : ∀ n < count, ∀ m < count, place n = place m → n = m) (refers : Refers count row)
    (refers' : Refers count row') (redirects' : Redirects place row')
    (same : redirect place row = redirect place row') : row = row' := by
  obtain ⟨a, a', rest, rfl, hrow, ha⟩ := redirects
  obtain ⟨b, b', rest', rfl, hrow', hb⟩ := redirects'
  rw [hrow, hrow'] at same
  obtain ⟨rfl, rfl⟩ := List.cons.inj same
  obtain ⟨_, _, head, positive, small⟩ := refers
  obtain ⟨_, _, head', positive', small'⟩ := refers'
  obtain ⟨rfl, -⟩ := List.cons.inj head
  obtain ⟨rfl, -⟩ := List.cons.inj head'
  have places : place a.toInt.toNat = place b.toInt.toNat := Int.ofNat_inj.mp (ha.symm.trans hb)
  have numbers := apart a.toInt.toNat (by omega) b.toInt.toNat (by omega) places
  have equal : a = b := Int32.toInt_inj.mp (by omega)
  rw [equal]

section Redirect

variable {place : Nat → Nat} {count : Nat} (fits : ∀ n < count, n < 2 ^ 31 → place n < 2 ^ 31)

include fits

/-- A place that can be written down becomes the sample number. -/
theorem redirects_of_refers {row : Row} (refers : Refers count row) : Redirects place row := by
  obtain ⟨number, rest, rfl, positive, small⟩ := refers
  have bound : number.toInt < 2 ^ 31 := number.toInt_lt
  have fit := fits number.toInt.toNat (by omega) (by omega)
  exact ⟨number, Int32.ofNat (place number.toInt.toNat), rest, rfl, rfl,
    Int32.toInt_ofNat_of_lt fit⟩

/-- Different rows are still different when they are redirected. -/
theorem redirect_inj (apart : ∀ n < count, ∀ m < count, place n = place m → n = m) {row row' : Row}
    (refers : Refers count row) (refers' : Refers count row')
    (same : redirect place row = redirect place row') : row = row' :=
  (redirects_of_refers fits refers).inj apart refers refers' (redirects_of_refers fits refers') same

end Redirect

section Gradients

variable {blocks : List Block} {place : Nat → Nat → Nat} {count : Nat} {parameter : String}

/-- The rows of the gradient of a block refer to its samples. -/
theorem refers_gradientsFor (wellFormed : ∀ block ∈ blocks, block.WellFormed)
    (all : ∀ block ∈ blocks, parameter ∈ block.parameters) {b : Nat} {gradient : Block}
    (found : (gradientsFor parameter blocks)[b]? = some gradient) :
    ∃ block, blocks[b]? = some block ∧
      ∀ row ∈ gradient.samples.rows, Refers block.samples.count row := by
  rw [getElem?_gradientsFor all, Option.bind_eq_some_iff] at found
  obtain ⟨block, standing, has⟩ := found
  have own := wellFormed block (List.mem_of_getElem? standing)
  exact ⟨block, standing,
    (own.gradients parameter gradient ((gradient?_eq_some own.ordered).mp has)).inRange⟩

/-- Rows of gradients that are collected have places, if those of each gradient are still different
when they are redirected. -/
theorem placing_redirected {gradients : List Block}
    (nodup : ∀ b gradient, gradients[b]? = some gradient → (redirectedOf place (gradient, b)).Nodup)
    {samples : Labels} (rows : samples.rows = (redirectedRows place gradients).eraseDups) :
    Placing gradients (placeAmong samples.rows place gradients) samples.count := by
  have there : ∀ b gradient, gradients[b]? = some gradient →
      ∀ row ∈ gradient.samples.rows, redirect (place b) row ∈ samples.rows := by
    intro b gradient found row member
    rw [rows, List.mem_eraseDups]
    exact mem_redirectedRows found member
  refine ⟨?_, ?_⟩
  · intro b gradient found n inside
    rw [gradient.samples.count_eq] at inside
    have isRow := List.getElem?_eq_getElem inside
    rw [placeAmong_eq found isRow, samples.count_eq]
    exact List.idxOf_lt_length_of_mem (there b gradient found _ (List.getElem_mem inside))
  · intro b gradient found n inside m inside' same
    rw [gradient.samples.count_eq] at inside inside'
    have isRow := List.getElem?_eq_getElem inside
    have isRow' := List.getElem?_eq_getElem inside'
    rw [placeAmong_eq found isRow, placeAmong_eq found isRow'] at same
    have equal := (List.idxOf_inj (there b gradient found _ (List.getElem_mem inside))).mp same
    have known : n < (redirectedOf place (gradient, b)).length := by
      rwa [redirectedOf, List.length_map]
    have known' : m < (redirectedOf place (gradient, b)).length := by
      rwa [redirectedOf, List.length_map]
    have alike : (redirectedOf place (gradient, b))[n] = (redirectedOf place (gradient, b))[m] := by
      simpa only [redirectedOf, List.getElem_map] using equal
    exact (nodup b gradient found).getElem_inj_iff.mp alike

/-- Rows of gradients that are collected with the places of their samples have places themselves. -/
theorem placing_placeAmong (placing : Placing blocks place count)
    (fits : ∀ b block, blocks[b]? = some block →
      ∀ n < block.samples.count, n < 2 ^ 31 → place b n < 2 ^ 31)
    (wellFormed : ∀ block ∈ blocks, block.WellFormed)
    (all : ∀ block ∈ blocks, parameter ∈ block.parameters)
    (nodup : ∀ gradient ∈ gradientsFor parameter blocks, gradient.samples.rows.Nodup)
    {samples : Labels}
    (rows : samples.rows = (redirectedRows place (gradientsFor parameter blocks)).eraseDups) :
    Placing (gradientsFor parameter blocks)
      (placeAmong samples.rows place (gradientsFor parameter blocks)) samples.count := by
  refine placing_redirected (fun b gradient found => ?_) rows
  obtain ⟨block, standing, refers⟩ := refers_gradientsFor wellFormed all found
  refine List.Nodup.map_on (fun row isRow row' isRow' same => ?_)
    (nodup gradient (List.mem_of_getElem? found))
  exact redirect_inj (fits b block standing) (placing.apart b block standing) (refers row isRow)
    (refers row' isRow') same

end Gradients

/-! ### Widening -/

/-- A block is widened from others, as far as its gradients are left out of account. -/
structure WidensLevel (blocks : List Block) (place : Nat → Nat → Nat) (sources : List Source)
    (result : Block) : Prop where
  components : ∀ block ∈ blocks, block.components = result.components
  parameters : ∀ block ∈ blocks, block.parameters = result.parameters
  placing : Placing blocks place result.samples.count
  inRange : ∀ source ∈ sources, ∃ block, blocks[source.block]? = some block ∧
    source.index < block.properties.count
  count : result.properties.count = sources.length
  values : ∀ (j : Nat) source block, sources[j]? = some source →
    blocks[source.block]? = some block → ∀ n < block.samples.count, ∀ c < result.componentSize,
      ∃ value, block.valueAt n c source.index = some value ∧
        result.valueAt (place source.block n) c j = some value
  zeros : ∀ (j : Nat) source block, sources[j]? = some source →
    blocks[source.block]? = some block → ∀ m < result.samples.count,
      (∀ n < block.samples.count, place source.block n ≠ m) → ∀ c < result.componentSize,
        result.valueAt m c j = some 0

theorem WidensLevel.mem_parameters {blocks : List Block} {place : Nat → Nat → Nat}
    {sources : List Source} {result gradient : Block} {parameter : String}
    (level : WidensLevel blocks place sources result)
    (member : (parameter, gradient) ∈ result.gradients) :
    ∀ block ∈ blocks, parameter ∈ block.parameters := by
  intro block inside
  rw [level.parameters block inside]
  exact List.mem_map_of_mem (f := Prod.fst) member

/-- The property at position `j` of a block comes from `sources[j]`, and sample `n` of the block at
position `b` has the place `place b n`. The gradients have the rows of all gradients with the new
sample numbers, each row once, in order of first appearance, and are widened by the same sources. -/
inductive Widens : (blocks : List Block) → (place : Nat → Nat → Nat) → (sources : List Source) →
    (result : Block) → Prop where
  | intro {blocks : List Block} {place : Nat → Nat → Nat} {sources : List Source} {result : Block}
      (level : WidensLevel blocks place sources result)
      (names : ∀ parameter gradient, (parameter, gradient) ∈ result.gradients →
        ∀ other ∈ gradientsFor parameter blocks, other.samples.names = gradient.samples.names)
      (properties : ∀ parameter gradient, (parameter, gradient) ∈ result.gradients →
        gradient.properties = result.properties)
      (redirected : ∀ parameter gradient, (parameter, gradient) ∈ result.gradients →
        ∀ b other, (gradientsFor parameter blocks)[b]? = some other →
          ∀ row ∈ other.samples.rows, Redirects (place b) row)
      (rows : ∀ parameter gradient, (parameter, gradient) ∈ result.gradients →
        gradient.samples.rows =
          (redirectedRows place (gradientsFor parameter blocks)).eraseDups)
      (deeper : ∀ parameter gradient, (parameter, gradient) ∈ result.gradients →
        Widens (gradientsFor parameter blocks)
          (placeAmong gradient.samples.rows place (gradientsFor parameter blocks)) sources
          gradient) :
      Widens blocks place sources result

end LabeledBlocks.Block
