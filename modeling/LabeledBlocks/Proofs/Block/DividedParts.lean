import LabeledBlocks.Proofs.Block.Compatible
import LabeledBlocks.Proofs.Block.Divided
import LabeledBlocks.Proofs.Block.JoinAssembled

/-!
# The parts of a divided block

The parts of a divided block can be joined again, and the block is assembled of them: a sample of a
part stands in the block at its position.

* `Block.Divided.compatible` — parts can be joined.
* `Block.Divided.assembled` — the block is assembled of its parts.
-/

namespace LabeledBlocks.Block

variable {block : Block} {positions : List (List Nat)} {parts : List Block}

/-! ### Parts can be joined -/

theorem Divided.taken (h : Divided block positions parts) :
    List.Forall₂ (Takes block) positions parts := by
  cases h with
  | intro _ taken _ _ _ => exact taken

theorem Divided.partition (h : Divided block positions parts) :
    Partition positions block.samples.count := by
  cases h with
  | intro partition _ _ _ _ => exact partition

/-- The parts have the parameters of the block. -/
theorem Divided.parameters (h : Divided block positions parts) :
    ∀ part ∈ parts, part.parameters = block.parameters := by
  intro part isPart
  obtain ⟨_, _, takes⟩ := exists_of_mem_right h.taken isPart
  exact takes.parameters

/-- The parts have as many samples as the block. -/
theorem Divided.sum_count (h : Divided block positions parts) :
    (parts.map fun part => part.samples.count).sum = block.samples.count := by
  have lengths : positions.map List.length = parts.map fun part => part.samples.count :=
    map_eq_map_of_forall₂ h.taken fun _ _ takes => takes.count.symm
  rw [← lengths, ← List.length_flatten, h.partition.once.length_eq, List.length_range]

/-- The parts of a block whose samples can be numbered can be joined. -/
theorem Divided.compatible (h : Divided block positions parts) (consistent : block.Consistent)
    (numbered : block.Numbered) : Compatible parts := by
  induction h with
  | @intro block positions parts partition taken names rows deeper ih =>
    have h := Divided.intro partition taken names rows deeper
    have ofBlock : ∀ part ∈ parts, ∀ parameter ∈ part.parameters,
        ∃ gradient, (parameter, gradient) ∈ block.gradients := by
      intro part isPart parameter has
      rw [h.parameters part isPart] at has
      obtain ⟨⟨_, gradient⟩, member, rfl⟩ := List.mem_map.mp has
      exact ⟨gradient, member⟩
    apply Compatible.intro
    · intro a ha b hb
      obtain ⟨_, _, one⟩ := exists_of_mem_right taken ha
      obtain ⟨_, _, other⟩ := exists_of_mem_right taken hb
      exact ⟨other.components.trans one.components.symm, other.properties.trans one.properties.symm,
        other.parameters.trans one.parameters.symm⟩
    · rw [h.sum_count]
      exact numbered.own
    · intro part isPart
      obtain ⟨_, _, takes⟩ := exists_of_mem_right taken isPart
      have bounded := consistent.own.bounded
      rw [consistent.own.shape, labelledShape, ← takes.components, ← takes.properties] at bounded
      rw [h.sum_count]
      exact bounded
    · intro parameter a ha b hb
      obtain ⟨part, isPart, found⟩ := List.mem_filterMap.mp ha
      obtain ⟨gradient, member⟩ := ofBlock part isPart parameter
        (isSome_gradient?_iff.mp (Option.isSome_of_mem found))
      rw [names parameter gradient member a ha, names parameter gradient member b hb]
    · rintro parameter ⟨part, isPart, has⟩
      obtain ⟨gradient, member⟩ := ofBlock part isPart parameter has
      exact ih parameter gradient member (consistent.inner member) (numbered.inner member)

/-! ### The block is assembled of its parts -/

section Assembled

variable {ι : Type} {isPart : ι → Prop} {position : ι → Nat} {part : ι → Block}
  {row : ι → Nat → Nat} {own : ι → List Nat}

/-- What is related to the blocks of a list is related to the parts that are listed there. -/
theorem Listed.related {α : Type} {R : α → Block → Prop} {l : List α} {blocks : List Block}
    (listed : Listed isPart position part blocks) (all : List.Forall₂ R l blocks) {i : ι} {a : α}
    (isOne : isPart i) (standing : l[position i]? = some a) : R a (part i) := by
  obtain ⟨found, isFound, related⟩ := exists_getElem?_right all standing
  obtain rfl := Option.some.inj (isFound.symm.trans (listed.found i isOne))
  exact related

section Level

variable (h : Divided block positions parts) (listed : Listed isPart position part parts)
  (standing : ∀ i, isPart i → positions[position i]? = some (own i))
  (placed : ∀ i, isPart i → ∀ n < (part i).samples.count, (own i)[n]? = some (row i n))

include h listed standing placed

/-- Every sample of the block has its place in exactly one part. -/
theorem Divided.covers :
    Covers isPart (fun i => (part i).samples.count) row block.samples.count := by
  constructor
  · intro i isOne n inside
    have isPosition : row i n ∈ positions.flatten := List.mem_flatten.mpr
      ⟨_, List.mem_of_getElem? (standing i isOne), List.mem_of_getElem? (placed i isOne n inside)⟩
    exact List.mem_range.mp (h.partition.once.mem_iff.mp isPosition)
  · intro m inside
    have isPosition := h.partition.once.mem_iff.mpr (List.mem_range.mpr inside)
    obtain ⟨_, isList, member⟩ := List.mem_flatten.mp isPosition
    obtain ⟨b, atB⟩ := List.mem_iff_getElem?.mp isList
    obtain ⟨n, atN⟩ := List.mem_iff_getElem?.mp member
    obtain ⟨_, isFound, takes⟩ := exists_getElem?_right h.taken atB
    obtain ⟨i, isOne, rfl, rfl⟩ := listed.exists_part isFound
    obtain rfl := Option.some.inj (atB.symm.trans (standing i isOne))
    have small : n < (part i).samples.count := by
      rw [takes.count]
      exact (List.getElem?_eq_some_iff.mp atN).1
    exact ⟨i, n, isOne, small, Option.some.inj ((placed i isOne n small).symm.trans atN)⟩

/-- Outside the gradients, the block is assembled of its parts. -/
theorem Divided.assembledLevel (nonempty : parts ≠ [])
    (wellFormed : ∀ part ∈ parts, part.WellFormed) (whole : block.WellFormed) :
    AssembledLevel isPart (fun _ p => p) part row block := by
  have takes := fun i isOne => listed.related h.taken isOne (standing i isOne)
  have covers := h.covers listed standing placed
  constructor
  · exact fun i isOne => (takes i isOne).components
  · exact fun i isOne => (takes i isOne).parameters
  · exact covers
  · obtain ⟨i, isOne, -⟩ := listed.onto 0 (List.length_pos_iff.mpr nonempty)
    constructor
    · intro j isOther p inside
      rwa [← (takes j isOther).properties]
    · intro q inside
      rw [← (takes i isOne).properties] at inside
      exact ⟨i, q, isOne, inside, rfl⟩
  · intro i isOne n insideN p insideP c insideC
    have properties := (takes i isOne).properties
    have size : (part i).componentSize = block.componentSize := by
      rw [componentSize, componentSize, (takes i isOne).components]
    rw [whole.valueAt_eq insideC (properties ▸ insideP),
      (wellFormed _ (listed.mem isOne)).valueAt_eq (size ▸ insideC) insideP, properties,
      (takes i isOne).values n _ (placed i isOne n insideN)]
  · -- no place is left free, since every sample has all its values in its part
    intro r insideR q insideQ free
    obtain ⟨i, n, isOne, insideN, atRow⟩ := covers.covered r insideR
    rw [← (takes i isOne).properties] at insideQ
    exact absurd rfl (free i isOne n insideN q insideQ atRow)

end Level

/-- A gradient row of a part is a row of the gradient of the block, when its sample number goes back
to the sample of the block. -/
theorem exists_divided_row {positions : List Nat} {rows moved : List Row} {place : Nat → Nat}
    {count : Nat}
    (all : List.Forall₂ (fun n moved => ∃ row, rows[n]? = some row ∧
      Renumbered (samplesAt 0 positions) 0 row moved) (rowsOf positions rows) moved)
    (placed : ∀ n < positions.length, positions[n]? = some (place n))
    (refers : ∀ row ∈ rows, Refers count row) {k : Nat} {r : Row} (isRow : moved[k]? = some r) :
    ∃ n : Nat, (rowsOf positions rows)[k]? = some n ∧ rows[n]? = some (redirect place r) ∧
      Redirects place r := by
  obtain ⟨n, standing, row, isOwn, reference, reference', rest, rfl, rfl, positive', found⟩ :=
    exists_getElem?_right all.flip isRow
  obtain ⟨_, _, same, positive, _⟩ := refers _ (List.mem_of_getElem? isOwn)
  obtain ⟨rfl, rfl⟩ := List.cons.inj same
  rw [getElem?_samplesAt, Option.map_eq_some_iff] at found
  obtain ⟨sample, found, same⟩ := found
  obtain ⟨-, rfl⟩ := Source.mk.inj same
  have place_eq := (placed _ (List.getElem?_eq_some_iff.mp found).1).symm.trans found
  rw [Option.some.injEq] at place_eq
  refine ⟨n, standing, ?_, ?_⟩
  · rwa [redirect, place_eq, ofNat_toNat positive]
  · rw [redirects_cons_iff, place_eq, ofNat_toNat positive]
    omega

/-- A divided block is assembled of its parts, at every depth. -/
theorem Divided.assembled (h : Divided block positions parts)
    (listed : Listed isPart position part parts) (nonempty : parts ≠ [])
    (standing : ∀ i, isPart i → positions[position i]? = some (own i))
    (placed : ∀ i, isPart i → ∀ n < (part i).samples.count, (own i)[n]? = some (row i n))
    (inner : ∀ part ∈ parts, part.Consistent) (consistent : block.Consistent)
    (regular : block.Labelled Labels.Regular) :
    Assembled isPart (fun _ p => p) part row block := by
  induction h generalizing part row own with
  | @intro block positions parts partition taken names rows deeper ih =>
    have h := Divided.intro partition taken names rows deeper
    have wellFormed : ∀ part ∈ parts, part.WellFormed := fun part isPart =>
      (inner part isPart).own
    have takes := fun i isOne => listed.related taken isOne (standing i isOne)
    have has : ∀ parameter gradient, (parameter, gradient) ∈ block.gradients →
        ∀ part ∈ parts, parameter ∈ part.parameters := by
      intro parameter gradient member part isPart
      rw [h.parameters part isPart]
      exact List.mem_map_of_mem (f := Prod.fst) member
    have below : ∀ parameter gradient, (parameter, gradient) ∈ block.gradients →
        Listed isPart position (fun i => gradientAt parameter (part i))
          (gradientsFor parameter parts) :=
      fun parameter gradient member => listed.gradients (has parameter gradient member)
    have moved {parameter : String} {gradient : Block}
        (member : (parameter, gradient) ∈ block.gradients) {i : ι} (isOne : isPart i) {k : Nat}
        {r : Row} (isRow : (gradientAt parameter (part i)).samples.rows[k]? = some r) :=
      exists_divided_row ((below parameter gradient member).related
          (rows parameter gradient member) isOne (standing i isOne))
        (fun n inside => placed i isOne n ((takes i isOne).count ▸ inside))
        (consistent.own.gradients parameter gradient member).inRange isRow
    have level := h.assembledLevel listed standing placed nonempty wellFormed consistent.own
    apply Assembled.intro level
    · intro parameter gradient member i isOne
      exact names parameter gradient member _ ((below parameter gradient member).mem isOne)
    · intro parameter gradient member i isOne r isRow
      obtain ⟨k, inside⟩ := List.mem_iff_getElem?.mp isRow
      obtain ⟨n, _, isOwn, redirects⟩ := moved member isOne inside
      exact ⟨redirects, List.mem_of_getElem? isOwn⟩
    · intro parameter gradient member
      apply ih parameter gradient member (below parameter gradient member)
        (gradientsFor_ne_nil nonempty (has parameter gradient member)) _ _
        (everywhere_gradientsFor wellFormed inner) (consistent.inner member)
        (regular.inner member)
      · exact fun i => rowsOf (own i) gradient.samples.rows
      · intro i isOne
        rw [List.getElem?_map, standing i isOne, Option.map_some]
      · -- no two rows of the gradient are the same, so a row is found only at its own position
        intro i isOne k inside
        rw [Labels.count_eq] at inside
        have isRow := List.getElem?_eq_getElem inside
        obtain ⟨n, stands, isOwn, _⟩ := moved member isOne isRow
        have distinct := (regular.inner member).own.samples.nodup
        have place := (idxOf?_eq_some_iff_getElem? distinct).mpr isOwn
        rw [idxOf?_of_mem (List.mem_of_getElem? isOwn)] at place
        rw [rowAmong_eq isRow, Option.some.inj place]
        exact stands

end Assembled

end LabeledBlocks.Block
