import LabeledBlocks.Proofs.Block.JoinSamples

/-!
# Gradient rows that follow their samples

When samples of some blocks are taken, the rows of the gradients follow those that they refer to. If
the samples that are taken can be numbered, the rows that follow refer to them and are still
different, so that they make valid labels, and the gradient that is made of them goes with the new
block.

* `Block.length_sources_le` — different samples of some blocks are not more than all samples.
* `Block.valid_followingSamples` — the rows that follow make valid labels.
* `Block.GradientOf.joined` — a joined gradient goes with the joined block.
-/

namespace LabeledBlocks.Block

/-! ### Numbers of samples -/

theorem length_sourcedRows (blocks : List Block) :
    (sourcedRows blocks).length = (blocks.map fun block => block.samples.count).sum := by
  rw [sourcedRows, List.length_flatMap]
  simp only [List.length_map, List.length_zipIdx, ← Labels.count_eq]
  conv => rhs; rw [← List.zipIdx_map_fst 0 blocks, List.map_map]
  rfl

/-- Different samples of some blocks are not more than all samples. -/
theorem length_sources_le {blocks : List Block} {sources : List Source} (nodup : sources.Nodup)
    (inRange : ∀ source ∈ sources, InRange blocks source) :
    sources.length ≤ (blocks.map fun block => block.samples.count).sum := by
  have subset : sources ⊆ (sourcedRows blocks).map (·.2) := by
    intro source member
    obtain ⟨block, standing, inside⟩ := inRange source member
    rw [block.samples.count_eq] at inside
    have isRow := mem_sourcedRows.mpr ⟨block, standing, List.getElem?_eq_getElem inside⟩
    exact List.mem_map_of_mem (f := Prod.snd) isRow
  have few := nodup.length_le_of_subset subset
  rwa [List.length_map, length_sourcedRows] at few

/-! ### Gradient rows that follow their samples -/

section Following

variable {sources : List Source} {gradients : List Block}

theorem length_of_follow {place : Nat → Option Nat} {row moved : Row}
    (followed : follow place row = some moved) : moved.length = row.length := by
  obtain ⟨_, _, _, rfl, _, rfl⟩ := follow_eq_some_iff.mp followed
  rfl

/-- A row that follows its sample comes from a row of one of the gradients. -/
theorem mem_following {moved : Row} {source : Source} :
    (moved, source) ∈ following sources gradients ↔ ∃ row, (row, source) ∈ sourcedRows gradients ∧
      follow (placeOf sources source.block) row = some moved := by
  simp only [following, List.mem_filterMap, Prod.exists, Option.map_eq_some_iff, Prod.mk.injEq]
  constructor
  · rintro ⟨row, _, isRow, _, followed, rfl, rfl⟩
    exact ⟨row, isRow, followed⟩
  · rintro ⟨row, isRow, followed⟩
    exact ⟨row, source, isRow, moved, followed, rfl, rfl⟩

theorem inRange_following :
    ∀ source ∈ (following sources gradients).map (·.2), InRange gradients source := by
  intro source member
  obtain ⟨⟨moved, _⟩, isRow, rfl⟩ := List.mem_map.mp member
  obtain ⟨row, isRow, _⟩ := mem_following.mp isRow
  exact inRange_of_mem_sourcedRows isRow

variable (small : sources.length ≤ 2 ^ 31)

include small

/-- The rows that follow refer to the samples that were taken. -/
theorem refers_following :
    ∀ row ∈ (following sources gradients).map (·.1), Refers sources.length row := by
  intro moved member
  obtain ⟨⟨_, source⟩, isRow, rfl⟩ := List.mem_map.mp member
  obtain ⟨row, _, followed⟩ := mem_following.mp isRow
  obtain ⟨_, rest, j, _, placed, moved⟩ := follow_eq_some_iff.mp followed
  have inside := placeOf_lt placed
  have number : (Int32.ofNat j).toInt = j := Int32.toInt_ofNat_of_lt (by omega)
  exact ⟨Int32.ofNat j, rest, moved, by omega, by omega⟩

/-- Different rows are still different when they have followed their samples. -/
theorem follow_inj {b b' count count' : Nat} {row row' moved : Row}
    (followed : follow (placeOf sources b) row = some moved)
    (followed' : follow (placeOf sources b') row' = some moved) (refers : Refers count row)
    (refers' : Refers count' row') : b = b' ∧ row = row' := by
  obtain ⟨number, rest, j, rfl, placed, rfl⟩ := follow_eq_some_iff.mp followed
  obtain ⟨number', rest', j', rfl, placed', same⟩ := follow_eq_some_iff.mp followed'
  obtain ⟨sameNumber, rfl⟩ := List.cons.inj same
  obtain ⟨inside, here, _⟩ := List.idxOf?_eq_some_iff.mp placed
  obtain ⟨inside', here', _⟩ := List.idxOf?_eq_some_iff.mp placed'
  have places : j = j' := by
    have values := congrArg Int32.toInt sameNumber
    rw [Int32.toInt_ofNat_of_lt (by omega), Int32.toInt_ofNat_of_lt (by omega)] at values
    exact Int.ofNat_inj.mp values
  subst places
  obtain ⟨sameBlock, sameSample⟩ := Source.mk.inj (here.symm.trans here')
  obtain ⟨_, _, head, positive, _⟩ := refers
  obtain ⟨_, _, head', positive', _⟩ := refers'
  obtain ⟨rfl, -⟩ := List.cons.inj head
  obtain ⟨rfl, -⟩ := List.cons.inj head'
  have equal : number = number' := Int32.toInt_inj.mp (by omega)
  exact ⟨sameBlock, by rw [equal]⟩

/-- Rows that follow different samples stay different. -/
theorem nodup_rows_following (nodup : ∀ gradient ∈ gradients, gradient.samples.rows.Nodup)
    (refers : ∀ gradient ∈ gradients, ∀ row ∈ gradient.samples.rows, ∃ count, Refers count row) :
    ((following sources gradients).map (·.1)).Nodup := by
  apply List.Nodup.map_on _ (List.Nodup.of_map _ (nodup_following sources gradients))
  rintro ⟨moved, b, n⟩ member ⟨_, b', n'⟩ member' rfl
  obtain ⟨row, isRow, followed⟩ := mem_following.mp member
  obtain ⟨row', isRow', followed'⟩ := mem_following.mp member'
  obtain ⟨gradient, standing, isOwn⟩ := mem_sourcedRows.mp isRow
  obtain ⟨gradient', standing', isOwn'⟩ := mem_sourcedRows.mp isRow'
  dsimp only at followed followed' standing standing' isOwn isOwn'
  have isGradient := List.mem_of_getElem? standing
  obtain ⟨count, refersRow⟩ := refers gradient isGradient row (List.mem_of_getElem? isOwn)
  obtain ⟨count', refersRow'⟩ := refers gradient' (List.mem_of_getElem? standing') row'
    (List.mem_of_getElem? isOwn')
  obtain ⟨rfl, rfl⟩ := follow_inj small followed followed' refersRow refersRow'
  obtain rfl := Option.some.inj (standing.symm.trans standing')
  have inside := (List.getElem?_eq_some_iff.mp isOwn).1
  rw [(List.getElem?_inj inside (nodup gradient isGradient)).mp (isOwn.trans isOwn'.symm)]

end Following

/-! ### The labels of rows that follow -/

/-- The samples of the gradients that follow samples of their blocks. -/
def followingSamples (sources : List Source) (names : List String) (gradients : List Block) :
    Labels where
  names := names
  rows := (following sources gradients).map (·.1)

theorem refers_of_mem_gradientsFor {blocks : List Block}
    (wellFormed : ∀ block ∈ blocks, block.WellFormed) (parameter : String) :
    ∀ gradient ∈ gradientsFor parameter blocks, ∀ row ∈ gradient.samples.rows,
      ∃ count, Refers count row := by
  intro gradient member row isRow
  obtain ⟨block, isBlock, has⟩ := List.mem_filterMap.mp member
  have own := wellFormed block isBlock
  have goes := own.gradients parameter gradient ((gradient?_eq_some own.ordered).mp has)
  exact ⟨_, goes.inRange row isRow⟩

/-- The samples of gradients that follow the samples of their blocks are valid labels. -/
theorem valid_followingSamples {sources : List Source} {gradients : List Block} {gradient : Block}
    (small : sources.length ≤ 2 ^ 31) (isOne : gradient ∈ gradients)
    (names : ∀ other ∈ gradients, other.samples.names = gradient.samples.names)
    (valid : ∀ other ∈ gradients, other.samples.Valid)
    (refers : ∀ other ∈ gradients, ∀ row ∈ other.samples.rows, ∃ count, Refers count row)
    (named : gradient.samples.names ≠ []) :
    (followingSamples sources gradient.samples.names gradients).Valid := by
  refine ⟨⟨?_, ?_⟩, (valid gradient isOne).identifiers, (valid gradient isOne).distinct,
    fun unnamed => absurd unnamed named⟩
  · intro moved member
    obtain ⟨⟨_, source⟩, isRow, rfl⟩ := List.mem_map.mp member
    obtain ⟨row, isRow, followed⟩ := mem_following.mp isRow
    obtain ⟨other, standing, isOwn⟩ := mem_sourcedRows.mp isRow
    have isOther := List.mem_of_getElem? standing
    dsimp only
    rw [length_of_follow followed, (valid other isOther).width row (List.mem_of_getElem? isOwn),
      Labels.size, names other isOther]
    rfl
  · exact nodup_rows_following small (fun other isOther => (valid other isOther).nodup) refers

theorem GradientOf.names_ne_nil {block gradient : Block} {parameter : String}
    (goes : GradientOf block parameter gradient) : gradient.samples.names ≠ [] := by
  intro none
  have referring := goes.referring
  rw [none] at referring
  cases referring

/-- The rows that follow in a gradient of the first block and in those of the other blocks make
valid labels. -/
theorem valid_followingSamples_gradientsFor {first gradient : Block} {others : List Block}
    {sources : List Source} {parameter : String} (small : sources.length ≤ 2 ^ 31)
    (wellFormed : ∀ block ∈ first :: others, block.WellFormed)
    (valid : ∀ block ∈ first :: others, block.Labelled Labels.Valid)
    (member : (parameter, gradient) ∈ first.gradients)
    (names : ∀ other ∈ gradientsFor parameter others,
      other.samples.names = gradient.samples.names) :
    (followingSamples sources gradient.samples.names
      (gradient :: gradientsFor parameter others)).Valid := by
  have own := wellFormed first List.mem_cons_self
  have valid' := @everywhere_gradientsFor _ parameter _ wellFormed valid
  have refers := refers_of_mem_gradientsFor wellFormed parameter
  rw [gradientsFor_cons ((gradient?_eq_some own.ordered).mpr member)] at valid' refers
  exact valid_followingSamples small List.mem_cons_self (List.forall_mem_cons.mpr ⟨rfl, names⟩)
    (fun other inside => (valid' other inside).own.samples) refers
    (own.gradients parameter gradient member).names_ne_nil

/-- A gradient that is joined goes with the joined block if its rows refer to the samples. -/
theorem GradientOf.joined {first gradient joined : Block} {others gradients : List Block}
    {samples kept : Labels} {sources taken : List Source} {parameter : String}
    (goes : GradientOf first parameter gradient)
    (made : joinSamples gradient gradients kept taken = .ok joined)
    (names : kept.names = gradient.samples.names)
    (refers : ∀ row ∈ kept.rows, Refers samples.count row) :
    GradientOf (joinedOwn first others samples sources) parameter joined := by
  obtain ⟨sameSamples, sameComponents, sameProperties⟩ := joinSamples_axes made
  refine ⟨goes.named, ?_, ?_, ?_, ?_⟩
  · rw [sameSamples, names]
    exact goes.referring
  · rw [sameComponents]
    exact goes.components
  · rw [sameProperties]
    exact goes.properties
  · rw [sameSamples]
    exact refers

end LabeledBlocks.Block
