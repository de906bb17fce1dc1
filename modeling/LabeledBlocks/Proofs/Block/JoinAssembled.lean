import LabeledBlocks.Proofs.Block.Assembled
import LabeledBlocks.Proofs.Block.Merges

/-!
# Joined blocks are assembled

A block that is merged of others along their samples, and a block that is widened from others along
their properties, are assembled of these blocks: the sources say where every sample or every property
has gone.

* `Block.Listed` — the parts are the blocks of a list.
* `Block.Merges.assembled` — a merged block is assembled.
* `Block.Widens.assembled` — a widened block is assembled.
-/

namespace LabeledBlocks.Block

variable {ι : Type}

/-! ### Parts in a list -/

/-- The parts are the blocks of the list, each at its position. -/
structure Listed (isPart : ι → Prop) (position : ι → Nat) (part : ι → Block)
    (blocks : List Block) : Prop where
  found : ∀ i, isPart i → blocks[position i]? = some (part i)
  onto : ∀ b < blocks.length, ∃ i, isPart i ∧ position i = b

namespace Listed

variable {isPart : ι → Prop} {position : ι → Nat} {part : ι → Block} {blocks : List Block}
  {parameter : String}

theorem mem (listed : Listed isPart position part blocks) {i : ι} (isOne : isPart i) :
    part i ∈ blocks :=
  List.mem_of_getElem? (listed.found i isOne)

theorem exists_part (listed : Listed isPart position part blocks) {b : Nat} {block : Block}
    (standing : blocks[b]? = some block) : ∃ i, isPart i ∧ position i = b ∧ part i = block := by
  obtain ⟨inside, rfl⟩ := List.getElem?_eq_some_iff.mp standing
  obtain ⟨i, isOne, rfl⟩ := listed.onto b inside
  have found := listed.found i isOne
  rw [List.getElem?_eq_getElem inside] at found
  exact ⟨i, isOne, rfl, (Option.some.inj found).symm⟩

/-- What is listed of blocks is listed of their gradients as well. -/
theorem gradients (listed : Listed isPart position part blocks)
    (all : ∀ block ∈ blocks, parameter ∈ block.parameters) :
    Listed isPart position (fun i => gradientAt parameter (part i))
      (gradientsFor parameter blocks) := by
  constructor
  · intro i isOne
    rw [getElem?_gradientsFor all, listed.found i isOne, Option.bind_some]
    exact gradient?_eq_gradientAt (all _ (listed.mem isOne))
  · have length : (gradientsFor parameter blocks).length = blocks.length :=
      length_filterMap fun block member => isSome_gradient?_iff.mpr (all block member)
    rw [length]
    exact listed.onto

/-- A redirected row comes from a part. -/
theorem exists_redirected (listed : Listed isPart position part blocks) {place : Nat → Nat → Nat}
    {moved : Row} (isMoved : moved ∈ redirectedRows place blocks) :
    ∃ i, isPart i ∧ ∃ r ∈ (part i).samples.rows, moved = redirect (place (position i)) r := by
  obtain ⟨⟨block, b⟩, isBlock, inside⟩ := List.mem_flatMap.mp isMoved
  obtain ⟨r, isRow, rfl⟩ := List.mem_map.mp inside
  obtain ⟨i, isOne, rfl, rfl⟩ := listed.exists_part (List.mem_zipIdx_iff_getElem?.mp isBlock)
  exact ⟨i, isOne, r, isRow, rfl⟩

end Listed

/-! ### Merged blocks are assembled -/

section Merged

variable {isPart : ι → Prop} {position : ι → Nat} {part : ι → Block} {row : ι → Nat → Nat}
  {blocks : List Block} {sources : List Source} {whole : Block}

/-- One level of a block that is gathered is assembled of the listed blocks. -/
theorem GatheredLevel.assembled (level : GatheredLevel blocks sources whole)
    (listed : Listed isPart position part blocks) (nonempty : blocks ≠ [])
    (nodup : sources.Nodup)
    (placed : ∀ i, isPart i → ∀ n < (part i).samples.count,
      sources[row i n]? = some ⟨position i, n⟩)
    (wellFormed : ∀ block ∈ blocks, block.WellFormed) (own : whole.WellFormed) :
    AssembledLevel isPart (fun _ p => p) part row whole := by
  have covers : Covers isPart (fun i => (part i).samples.count) row whole.samples.count := by
    rw [level.count]
    constructor
    · exact fun i isOne n inside => (List.getElem?_eq_some_iff.mp (placed i isOne n inside)).1
    · intro m inside
      have here := List.getElem?_eq_getElem inside
      obtain ⟨block, standing, small⟩ := level.inRange _ (List.getElem_mem inside)
      obtain ⟨i, isOne, atBlock, rfl⟩ := listed.exists_part standing
      have there := placed i isOne _ small
      rw [atBlock] at there
      refine ⟨i, _, isOne, small, ?_⟩
      rw [← idxOf?_eq_some_iff_getElem? nodup] at here there
      exact Option.some.inj (there.symm.trans here)
  constructor
  · exact fun i isOne => level.components _ (listed.mem isOne)
  · exact fun i isOne => level.parameters _ (listed.mem isOne)
  · exact covers
  · obtain ⟨i, isOne, -⟩ := listed.onto 0 (List.length_pos_iff.mpr nonempty)
    constructor
    · intro j isOther p inside
      rwa [← level.properties _ (listed.mem isOther)]
    · intro q inside
      rw [← level.properties _ (listed.mem isOne)] at inside
      exact ⟨i, q, isOne, inside, rfl⟩
  · intro i isOne n insideN p insideP c insideC
    have member := listed.mem isOne
    have size : (part i).componentSize = whole.componentSize := by
      rw [componentSize, componentSize, level.components _ member]
    have properties := level.properties _ member
    rw [own.valueAt_eq insideC (properties ▸ insideP),
      (wellFormed _ member).valueAt_eq (size ▸ insideC) insideP, properties,
      level.values _ _ _ (placed i isOne n insideN) (listed.found i isOne)]
  · intro r insideR q insideQ free
    obtain ⟨i, n, isOne, insideN, atRow⟩ := covers.covered r insideR
    rw [← level.properties _ (listed.mem isOne)] at insideQ
    exact absurd rfl (free i isOne n insideN q insideQ atRow)

/-- A row that refers to what has become of its sample is redirected to it. -/
theorem Renumbered.redirects {block count : Nat} {place : Nat → Nat} {r moved : Row}
    (nodup : sources.Nodup) (placed : ∀ n < count, sources[place n]? = some ⟨block, n⟩)
    (refers : Refers count r) (renumbered : Renumbered sources block r moved) :
    Redirects place r ∧ redirect place r = moved := by
  obtain ⟨reference, reference', rest, rfl, rfl, positive', found⟩ := renumbered
  obtain ⟨_, _, same, positive, small⟩ := refers
  obtain ⟨rfl, rfl⟩ := List.cons.inj same
  have there := placed reference.toInt.toNat (by omega)
  rw [← idxOf?_eq_some_iff_getElem? nodup] at found there
  have place_eq := Option.some.inj (there.symm.trans found)
  rw [redirects_cons_iff, redirect, place_eq, ofNat_toNat positive']
  exact ⟨by omega, rfl⟩

/-- Every gradient row of a block stands in the gradient of the merged block, redirected. -/
theorem exists_merged_row {gradients : List Block} {rows : List Row} {gradient : Block}
    {b n count : Nat} {place : Nat → Nat} {r : Row}
    (all : List.Forall₂ (fun entry moved => Renumbered sources entry.2.block entry.1 moved)
      (sourcedRows gradients) rows)
    (nodup : sources.Nodup) (placed : ∀ n < count, sources[place n]? = some ⟨b, n⟩)
    (found : gradients[b]? = some gradient) (isRow : gradient.samples.rows[n]? = some r)
    (refers : Refers count r) :
    ∃ j : Nat, ((sourcedRows gradients).map (·.2))[j]? = some ⟨b, n⟩ ∧
      rows[j]? = some (redirect place r) ∧ Redirects place r := by
  have isEntry : (r, ⟨b, n⟩) ∈ sourcedRows gradients :=
    mem_sourcedRows.mpr ⟨gradient, found, isRow⟩
  obtain ⟨j, standing⟩ := List.mem_iff_getElem?.mp isEntry
  obtain ⟨moved, isMoved, renumbered⟩ := exists_getElem?_right all standing
  obtain ⟨redirects, rfl⟩ := renumbered.redirects nodup placed refers
  refine ⟨j, ?_, isMoved, redirects⟩
  rw [List.getElem?_map, standing, Option.map_some]

/-- A merged block is assembled: its rows are where the sources say. -/
theorem Merges.assembled (h : Merges blocks sources whole)
    (listed : Listed isPart position part blocks) (nonempty : blocks ≠ [])
    (placed : ∀ i, isPart i → ∀ n < (part i).samples.count,
      sources[row i n]? = some ⟨position i, n⟩)
    (consistent : ∀ block ∈ blocks, block.Consistent) (own : whole.Consistent)
    (regular : whole.Labelled Labels.Regular) :
    Assembled isPart (fun _ p => p) part row whole := by
  induction h generalizing part row with
  | @intro blocks sources whole level complete names rows deeper ih =>
    have nodup : sources.Nodup := complete.nodup_iff.mpr (nodup_sourcedRows blocks)
    have wellFormed : ∀ block ∈ blocks, block.WellFormed := fun block member =>
      (consistent block member).own
    have below : ∀ parameter gradient, (parameter, gradient) ∈ whole.gradients →
        Listed isPart position (fun i => gradientAt parameter (part i))
          (gradientsFor parameter blocks) := fun _ _ member =>
      listed.gradients (level.mem_parameters member)
    have top := level.assembled listed nonempty nodup placed wellFormed own.own
    have moved {parameter : String} {gradient : Block}
        (member : (parameter, gradient) ∈ whole.gradients) {i : ι} (isOne : isPart i) {n : Nat}
        {r : Row} (isRow : (gradientAt parameter (part i)).samples.rows[n]? = some r) :=
      exists_merged_row (rows parameter gradient member) nodup (placed i isOne)
        ((below parameter gradient member).found i isOne) isRow
        ((top.gradientOf member isOne (wellFormed _ (listed.mem isOne))).inRange r
          (List.mem_of_getElem? isRow))
    refine .intro top ?_ ?_ ?_
    · intro parameter gradient member i isOne
      exact names parameter gradient member _ ((below parameter gradient member).mem isOne)
    · intro parameter gradient member i isOne r isRow
      obtain ⟨n, inside⟩ := List.mem_iff_getElem?.mp isRow
      obtain ⟨j, _, isMoved, redirects⟩ := moved member isOne inside
      exact ⟨redirects, List.mem_of_getElem? isMoved⟩
    · intro parameter gradient member
      have all := level.mem_parameters member
      refine ih parameter gradient member (below parameter gradient member)
        (gradientsFor_ne_nil nonempty all) ?_ (everywhere_gradientsFor wellFormed consistent)
        (own.inner member) (regular.inner member)
      intro i isOne n inside
      rw [Labels.count_eq] at inside
      have isRow := List.getElem?_eq_getElem inside
      obtain ⟨j, isSource, isMoved, _⟩ := moved member isOne isRow
      have distinct := (regular.inner member).own.samples.nodup
      have place := (idxOf?_eq_some_iff_getElem? distinct).mpr isMoved
      rw [idxOf?_of_mem (List.mem_of_getElem? isMoved)] at place
      rw [rowAmong_eq isRow, Option.some.inj place]
      exact isSource

end Merged

/-! ### Widened blocks are assembled -/

section Widened

variable {isPart : ι → Prop} {position : ι → Nat} {part : ι → Block} {row column : ι → Nat → Nat}
  {blocks : List Block} {place : Nat → Nat → Nat} {sources : List Source} {whole : Block}

/-- One level of a block that is made of columns is assembled of the listed blocks. -/
theorem WidensLevel.assembled (level : WidensLevel blocks place sources whole)
    (listed : Listed isPart position part blocks) (nodup : sources.Nodup)
    (placed : ∀ i, isPart i → ∀ p < (part i).properties.count,
      sources[column i p]? = some ⟨position i, p⟩)
    (rows : Covers isPart (fun i => (part i).samples.count) row whole.samples.count)
    (same : ∀ i, isPart i → ∀ n < (part i).samples.count, row i n = place (position i) n) :
    AssembledLevel isPart column part row whole := by
  have columnOf : ∀ i, isPart i → ∀ p < (part i).properties.count, ∀ q,
      sources[q]? = some ⟨position i, p⟩ → column i p = q := by
    intro i isOne p inside q isSource
    have there := placed i isOne p inside
    rw [← idxOf?_eq_some_iff_getElem? nodup] at isSource there
    exact Option.some.inj (there.symm.trans isSource)
  have sourceOf : ∀ q < whole.properties.count, ∃ i, isPart i ∧ ∃ p < (part i).properties.count,
      sources[q]? = some ⟨position i, p⟩ := by
    intro q inside
    rw [level.count] at inside
    obtain ⟨block, standing, small⟩ := level.inRange _ (List.getElem_mem inside)
    obtain ⟨i, isOne, atBlock, rfl⟩ := listed.exists_part standing
    refine ⟨i, isOne, _, small, ?_⟩
    rw [atBlock]
    exact List.getElem?_eq_getElem inside
  constructor
  · exact fun i isOne => level.components _ (listed.mem isOne)
  · exact fun i isOne => level.parameters _ (listed.mem isOne)
  · exact rows
  · constructor
    · intro i isOne p inside
      rw [level.count]
      exact (List.getElem?_eq_some_iff.mp (placed i isOne p inside)).1
    · intro q inside
      obtain ⟨i, isOne, p, small, isSource⟩ := sourceOf q inside
      exact ⟨i, p, isOne, small, columnOf i isOne p small q isSource⟩
  · intro i isOne n insideN p insideP c insideC
    obtain ⟨value, own, there⟩ := level.values _ _ _ (placed i isOne p insideP)
      (listed.found i isOne) n insideN c insideC
    rw [same i isOne n insideN, there, own]
  · intro r insideR q insideQ free c insideC
    obtain ⟨i, isOne, p, insideP, isSource⟩ := sourceOf q insideQ
    refine level.zeros q _ _ isSource (listed.found i isOne) r insideR ?_ c insideC
    intro n insideN atRow
    refine free i isOne n insideN p insideP ?_ (columnOf i isOne p insideP q isSource)
    rw [same i isOne n insideN]
    exact atRow

/-- The rows that are collected from gradients, each once, are those of the gradients. -/
theorem Listed.covers_rowAmong (listed : Listed isPart position part blocks) {samples : Labels}
    (rows : samples.rows = (redirectedRows place blocks).eraseDups)
    (same : ∀ i, isPart i → ∀ r ∈ (part i).samples.rows,
      redirect (row i) r = redirect (place (position i)) r) :
    Covers isPart (fun i => (part i).samples.count)
      (fun i => rowAmong samples.rows (row i) (part i)) samples.count := by
  have distinct : samples.rows.Nodup := rows ▸ nodup_eraseDups _
  have mem_iff : ∀ r, r ∈ samples.rows ↔ r ∈ redirectedRows place blocks := fun r => by
    rw [rows, List.mem_eraseDups]
  constructor
  · intro i isOne n inside
    rw [Labels.count_eq] at inside ⊢
    have isRow := List.getElem_mem inside
    rw [rowAmong_eq (List.getElem?_eq_getElem inside), same i isOne _ isRow]
    apply List.idxOf_lt_length_of_mem
    exact (mem_iff _).mpr (mem_redirectedRows (listed.found i isOne) isRow)
  · intro m inside
    rw [Labels.count_eq] at inside
    obtain ⟨i, isOne, r, isRow, moved⟩ :=
      listed.exists_redirected ((mem_iff _).mp (List.getElem_mem inside))
    obtain ⟨n, isRow'⟩ := List.mem_iff_getElem?.mp isRow
    have small : n < (part i).samples.count := by
      rw [Labels.count_eq]
      exact (List.getElem?_eq_some_iff.mp isRow').1
    refine ⟨i, n, isOne, small, ?_⟩
    rw [rowAmong_eq isRow', same i isOne r isRow, ← moved, distinct.idxOf_getElem m inside]

/-- A row of a gradient stands among the collected rows, redirected, also if it is redirected by
other places that agree where it refers to. -/
theorem collected_row {gradients : List Block} {rows : List Row} {gradient : Block} {b count : Nat}
    {place' : Nat → Nat} {r : Row} (collected : rows = (redirectedRows place gradients).eraseDups)
    (found : gradients[b]? = some gradient) (isRow : r ∈ gradient.samples.rows)
    (refers : Refers count r) (same : ∀ n < count, place' n = place b n)
    (redirects : Redirects (place b) r) :
    redirect place' r = redirect (place b) r ∧ Redirects place' r ∧ redirect place' r ∈ rows := by
  have equal := redirect_congr refers same
  refine ⟨equal, (redirects_congr refers same).mpr redirects, ?_⟩
  rw [collected, List.mem_eraseDups, equal]
  exact mem_redirectedRows found isRow

/-- A widened block is assembled: its columns are where the sources say. -/
theorem Widens.assembled (h : Widens blocks place sources whole)
    (listed : Listed isPart position part blocks) (nodup : sources.Nodup)
    (placed : ∀ i, isPart i → ∀ p < (part i).properties.count,
      sources[column i p]? = some ⟨position i, p⟩)
    (rows : Covers isPart (fun i => (part i).samples.count) row whole.samples.count)
    (same : ∀ i, isPart i → ∀ n < (part i).samples.count, row i n = place (position i) n)
    (consistent : ∀ block ∈ blocks, block.Consistent) :
    Assembled isPart column part row whole := by
  induction h generalizing part row with
  | @intro blocks place sources whole level names properties redirected collected deeper ih =>
    have wellFormed : ∀ block ∈ blocks, block.WellFormed := fun block member =>
      (consistent block member).own
    have below : ∀ parameter gradient, (parameter, gradient) ∈ whole.gradients →
        Listed isPart position (fun i => gradientAt parameter (part i))
          (gradientsFor parameter blocks) := fun _ _ member =>
      listed.gradients (level.mem_parameters member)
    have goes : ∀ parameter gradient, (parameter, gradient) ∈ whole.gradients →
        ∀ i, isPart i → GradientOf (part i) parameter (gradientAt parameter (part i)) := by
      intro parameter gradient member i isOne
      have own := wellFormed _ (listed.mem isOne)
      exact own.gradients _ _ (mem_gradientAt own (level.mem_parameters member _ (listed.mem isOne)))
    have moved {parameter : String} {gradient : Block}
        (member : (parameter, gradient) ∈ whole.gradients) {i : ι} (isOne : isPart i) {r : Row}
        (isRow : r ∈ (gradientAt parameter (part i)).samples.rows) :=
      collected_row (collected parameter gradient member)
        ((below parameter gradient member).found i isOne) isRow
        ((goes parameter gradient member i isOne).inRange r isRow) (same i isOne)
        (redirected parameter gradient member _ _ ((below parameter gradient member).found i isOne)
          r isRow)
    refine .intro (level.assembled listed nodup placed rows same) ?_ ?_ ?_
    · intro parameter gradient member i isOne
      exact names parameter gradient member _ ((below parameter gradient member).mem isOne)
    · intro parameter gradient member i isOne r isRow
      exact (moved member isOne isRow).2
    · intro parameter gradient member
      refine ih parameter gradient member (below parameter gradient member) nodup ?_ ?_ ?_
        (everywhere_gradientsFor wellFormed consistent)
      · intro i isOne p inside
        rw [(goes parameter gradient member i isOne).properties] at inside
        exact placed i isOne p inside
      · exact (below parameter gradient member).covers_rowAmong (collected parameter gradient member)
          fun i isOne r isRow => (moved member isOne isRow).1
      · intro i isOne n inside
        rw [Labels.count_eq] at inside
        have isRow := List.getElem?_eq_getElem inside
        have found := (below parameter gradient member).found i isOne
        rw [rowAmong_eq isRow, placeAmong_eq found isRow,
          (moved member isOne (List.getElem_mem inside)).1]

end Widened

end LabeledBlocks.Block
