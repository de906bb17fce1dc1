import LabeledBlocks.Proofs.Block.JoinProperties

/-!
# Joined blocks are widened

Blocks that are joined along their properties give a block that is widened from them, at every depth
of gradients.

* `Block.wellFormed_widened`, `Block.widensLevel_joined` — one level of the joined block.
* `Block.Widenable` — what the joining starts from, at every depth.
* `Block.widens_joinProperties` — the joined block is widened from the others, consistent and valid.
-/

namespace LabeledBlocks.Block

variable {first : Block} {others : List Block} {place : Nat → Nat → Nat}
  {samples properties : Labels} {sources : List Source} {result : Block} {data : Array FloatBits}
  {added : List (String × Block)}

/-! ### One level -/

/-- The parameters of the joined block are those of the first one. -/
theorem map_fst_widened {gradients : List (String × Block)}
    (all : List.Forall₂ (GradientWidened others place properties sources result) gradients added) :
    gradients.map (·.1) = added.map (·.1) :=
  map_eq_map_of_forall₂ all fun _ _ joined => joined.parameter.symm

/-- What is made of well-formed blocks side by side is well-formed. -/
theorem wellFormed_widened (own : first.WellFormed)
    (joined : ColumnsJoined first others place samples properties sources data)
    (all : List.Forall₂ (GradientWidened others place properties sources
      (widenedOwn first samples properties data)) first.gradients added) :
    WellFormed { widenedOwn first samples properties data with gradients := added } := by
  constructor
  · rfl
  · have inner : (first.components.map Labels.count ++ [properties.count]).prod =
        first.componentSize * sources.length := by
      rw [List.prod_append, List.prod_singleton, joined.count]
      rfl
    change data.size = (labelledShape samples first.components properties).prod
    rw [labelledShape, List.prod_cons, inner, joined.size, Nat.mul_assoc]
  · exact joined.room
  · exact own.distinctNames
  · exact joined.newNames
  · rw [Block.parameters, ← map_fst_widened all]
    exact own.ordered
  · intro parameter gradient member
    obtain ⟨entry, _, made⟩ := exists_of_mem_right all member
    have goes := made.goes
    rw [← made.parameter] at goes
    exact { goes with }

/-- On one level, the joined block has exactly the columns that its sources ask for. -/
theorem widensLevel_joined
    (joined : ColumnsJoined first others place samples properties sources data)
    (all : List.Forall₂ (GradientWidened others place properties sources
      (widenedOwn first samples properties data)) first.gradients added)
    (placing : Placing (first :: others) place samples.count)
    (inRange : ∀ source ∈ sources, ∃ block, (first :: others)[source.block]? = some block ∧
      source.index < block.properties.count) :
    WidensLevel (first :: others) place sources
      { widenedOwn first samples properties data with gradients := added } := by
  have parameters : first.parameters = added.map (·.1) := map_fst_widened all
  have cell : ∀ m c j,
      valueAt { widenedOwn first samples properties data with gradients := added } m c j =
        data[(m * first.componentSize + c) * sources.length + j]? := by
    intro m c j
    rw [← joined.count]
    rfl
  refine ⟨?_, ?_, placing, inRange, joined.count, ?_, ?_⟩
  · rw [List.forall_mem_cons]
    exact ⟨rfl, joined.components⟩
  · rw [List.forall_mem_cons]
    exact ⟨parameters, fun other member => (joined.parameters other member).trans parameters⟩
  · intro j source block isSource found n inside c insideC
    have insideM := placing.inside source.block block found n inside
    obtain ⟨value, here, copied, _⟩ :=
      joined.values (place source.block n) insideM c insideC j source block isSource found
    exact ⟨value, copied n inside rfl, (cell ..).trans here⟩
  · intro j source block isSource found m insideM none c insideC
    obtain ⟨value, here, _, zero⟩ :=
      joined.values m insideM c insideC j source block isSource found
    rw [cell, here, zero none]

/-! ### All levels -/

/-- The gradients of blocks have the properties that sources refer to. -/
theorem inRange_gradientsFor {blocks : List Block} {parameter : String} {sources : List Source}
    (wellFormed : ∀ block ∈ blocks, block.WellFormed)
    (all : ∀ block ∈ blocks, parameter ∈ block.parameters)
    (inRange : ∀ source ∈ sources, ∃ block, blocks[source.block]? = some block ∧
      source.index < block.properties.count) :
    ∀ source ∈ sources, ∃ gradient, (gradientsFor parameter blocks)[source.block]? = some gradient ∧
      source.index < gradient.properties.count := by
  intro source member
  obtain ⟨block, found, inside⟩ := inRange source member
  have inBlocks := List.mem_of_getElem? found
  have own := wellFormed block inBlocks
  obtain ⟨gradient, has⟩ :=
    Option.isSome_iff_exists.mp (isSome_gradient?_iff.mpr (all block inBlocks))
  refine ⟨gradient, ?_, ?_⟩
  · rw [getElem?_gradientsFor all, found, Option.bind_some, has]
  · rw [(own.gradients parameter gradient ((gradient?_eq_some own.ordered).mp has)).properties]
    exact inside

/-- What the joining of blocks starts from, at the top and again for the gradients below: consistent
blocks with valid labels, whose samples have places that can be written down as sample numbers, and
sources among their properties. -/
structure Widenable (blocks : List Block) (place : Nat → Nat → Nat) (samples properties : Labels)
    (sources : List Source) : Prop where
  consistent : ∀ block ∈ blocks, block.Consistent
  valid : ∀ block ∈ blocks, block.Labelled Labels.Valid
  validSamples : samples.Valid
  validProperties : properties.Valid
  placing : Placing blocks place samples.count
  fits : ∀ b block, blocks[b]? = some block →
    ∀ n < block.samples.count, n < 2 ^ 31 → place b n < 2 ^ 31
  inRange : ∀ source ∈ sources, ∃ block, blocks[source.block]? = some block ∧
    source.index < block.properties.count

namespace Widenable

variable {blocks : List Block} {parameter : String}

theorem wellFormed (start : Widenable blocks place samples properties sources) :
    ∀ block ∈ blocks, block.WellFormed :=
  fun block member => (start.consistent block member).own

/-- The gradients with the collected rows are a start again, if the rows can be numbered. -/
theorem gradients (start : Widenable blocks place samples properties sources)
    (all : ∀ block ∈ blocks, parameter ∈ block.parameters) {collected : Labels}
    (valid : collected.Valid) (small : collected.count ≤ 2 ^ 31)
    (rows : collected.rows = (redirectedRows place (gradientsFor parameter blocks)).eraseDups) :
    Widenable (gradientsFor parameter blocks)
      (placeAmong collected.rows place (gradientsFor parameter blocks)) collected properties
      sources := by
  have validGradients : ∀ gradient ∈ gradientsFor parameter blocks,
      gradient.Labelled Labels.Valid := everywhere_gradientsFor start.wellFormed start.valid
  have placing : Placing (gradientsFor parameter blocks)
      (placeAmong collected.rows place (gradientsFor parameter blocks)) collected.count := by
    apply placing_placeAmong start.placing start.fits start.wellFormed all _ rows
    intro gradient member
    exact (validGradients gradient member).own.samples.nodup
  constructor
  · exact everywhere_gradientsFor start.wellFormed start.consistent
  · exact validGradients
  · exact valid
  · exact start.validProperties
  · exact placing
  · intro b gradient found n inside _
    exact Nat.lt_of_lt_of_le (placing.inside b gradient found n inside) small
  · exact inRange_gradientsFor start.wellFormed all start.inRange

end Widenable

/-- The joined block is widened from the blocks by its sources. It is consistent, and its labels are
valid. -/
theorem widens_joinProperties
    (start : Widenable (first :: others) place samples properties sources)
    (h : joinProperties first others samples (placeTables 0 place (first :: others)) properties
      sources = .ok result)
    (numbered : ∀ parameter gradient, (parameter, gradient) ∈ result.gradients →
      gradient.Numbered) :
    Widens (first :: others) place sources result ∧ result.Consistent ∧
      result.Labelled Labels.Valid := by
  have firstConsistent := start.consistent first List.mem_cons_self
  induction firstConsistent generalizing others place samples result with
  | @intro first own deeper ih =>
    have axes : ∀ block ∈ first :: others, block.AxesLabelled Labels.Regular :=
      fun block member => (start.valid block member).own.regular
    have firstValid := start.valid first List.mem_cons_self
    have inner : ∀ entry ∈ first.gradients, entry.2.AxesLabelled Labels.Regular :=
      fun entry member => (firstValid.inner member).own.regular
    obtain ⟨data, joined, added, all, rfl⟩ := joinProperties_level start.wellFormed axes inner
      start.validSamples.toRegular start.validProperties.toRegular start.placing h
    have level := widensLevel_joined joined all start.placing start.inRange
    have step : ∀ parameter gradient, (parameter, gradient) ∈ added →
        (∀ other ∈ gradientsFor parameter (first :: others),
            other.samples.names = gradient.samples.names) ∧
          gradient.properties = properties ∧
          gradient.samples.rows =
            (redirectedRows place (gradientsFor parameter (first :: others))).eraseDups ∧
          Widens (gradientsFor parameter (first :: others))
            (placeAmong gradient.samples.rows place (gradientsFor parameter (first :: others)))
            sources gradient ∧
          gradient.Consistent ∧ gradient.Labelled Labels.Valid := by
      intro parameter gradient member
      obtain ⟨⟨parameter', own'⟩, inside, made⟩ := exists_of_mem_right all member
      obtain ⟨same, names, _, collected, valid, names', rows, made⟩ := made
      dsimp only at same names names' rows made
      subst same
      have cons : gradientsFor parameter (first :: others) =
          own' :: gradientsFor parameter others :=
        gradientsFor_cons ((gradient?_eq_some own.ordered).mpr inside)
      have numbered' := numbered parameter gradient member
      have axes' := joinProperties_axes made
      rw [← cons] at rows made
      have start' := start.gradients (level.mem_parameters member) valid
        (axes'.1 ▸ numbered'.own) rows
      rw [axes'.1, axes'.2.2, names']
      rw [cons] at rows made start' ⊢
      exact ⟨List.forall_mem_cons.mpr ⟨rfl, names⟩, rfl, rows,
        ih parameter own' inside start' made fun _ _ further => numbered'.inner further⟩
    refine ⟨.intro level ?_ ?_ ?_ ?_ ?_, .intro (wellFormed_widened own joined all) ?_,
      .intro ?_ ?_⟩
    · exact fun parameter gradient member => (step parameter gradient member).1
    · exact fun parameter gradient member => (step parameter gradient member).2.1
    · intro parameter gradient member b other found row isRow
      obtain ⟨block, standing, refers⟩ :=
        refers_gradientsFor start.wellFormed (level.mem_parameters member) found
      exact redirects_of_refers (start.fits b block standing) (refers row isRow)
    · exact fun parameter gradient member => (step parameter gradient member).2.2.1
    · exact fun parameter gradient member => (step parameter gradient member).2.2.2.1
    · exact fun parameter gradient member => (step parameter gradient member).2.2.2.2.1
    · exact ⟨start.validSamples, firstValid.own.components, start.validProperties⟩
    · exact fun parameter gradient member => (step parameter gradient member).2.2.2.2.2

end LabeledBlocks.Block
