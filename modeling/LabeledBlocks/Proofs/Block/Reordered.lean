import LabeledBlocks.Proofs.Block.Assembled

/-!
# Reordered blocks

Two blocks are the same up to the order of their rows when the samples of one can be moved to those
of the other with all their values, and when the gradients are again the same up to the order of
their rows, with sample numbers that follow the samples. Two blocks that are assembled of the same
parts, with the same columns, are the same in this sense.

* `Block.Reordered` — the same up to the order of the rows, at every depth.
* `Block.Assembled.reordered` — what is assembled of the same parts is the same up to the order.
* `Block.Reordered.values_eq` — if all samples stay, the values are the same.
-/

namespace LabeledBlocks.Block

/-! ### Reordering -/

/-- Two blocks are the same up to the order of their samples, as far as their gradients are left out
of account: sample `n` of the first is sample `moved n` of the second. -/
structure ReorderedLevel (moved : Nat → Nat) (a b : Block) : Prop where
  names : a.samples.names = b.samples.names
  components : a.components = b.components
  properties : a.properties = b.properties
  parameters : a.parameters = b.parameters
  inside : ∀ n < a.samples.count, moved n < b.samples.count
  apart : ∀ n < a.samples.count, ∀ m < a.samples.count, moved n = moved m → n = m
  onto : ∀ m < b.samples.count, ∃ n < a.samples.count, moved n = m
  values : ∀ n < a.samples.count, a.valueRow n = b.valueRow (moved n)

/-- Two blocks are the same up to the order of their samples, and so are their gradients, at every
depth: a gradient row moves to one with the number that its sample has now, and is the same
otherwise. -/
inductive Reordered : (moved : Nat → Nat) → (a b : Block) → Prop where
  | intro {moved : Nat → Nat} {a b : Block} (below : String → Nat → Nat)
      (level : ReorderedLevel moved a b)
      (rows : ∀ parameter gradient gradient', (parameter, gradient) ∈ a.gradients →
        (parameter, gradient') ∈ b.gradients → ∀ k row, gradient.samples.rows[k]? = some row →
          Redirects moved row ∧
            gradient'.samples.rows[below parameter k]? = some (redirect moved row))
      (deeper : ∀ parameter gradient gradient', (parameter, gradient) ∈ a.gradients →
        (parameter, gradient') ∈ b.gradients →
          Reordered (below parameter) gradient gradient') :
      Reordered moved a b

theorem Reordered.level {moved : Nat → Nat} {a b : Block} (h : Reordered moved a b) :
    ReorderedLevel moved a b := by
  cases h with
  | intro _ level _ _ => exact level

/-- If every sample stays where it is, the values are the same. -/
theorem Reordered.values_eq {a b : Block} (h : Reordered id a b) (own : a.WellFormed)
    (own' : b.WellFormed) (samples : a.samples = b.samples) : a.values = b.values :=
  own.values_eq own' samples h.level.components h.level.properties h.level.values

/-- The values of a sample are the same if each of them is. -/
theorem WellFormed.valueRow_eq {a b : Block} (own : a.WellFormed) (own' : b.WellFormed)
    (components : a.components = b.components) (properties : a.properties = b.properties)
    {n m : Nat} (inside : n < a.samples.count) (inside' : m < b.samples.count)
    (same : ∀ c < a.componentSize, ∀ q < a.properties.count,
      a.valueAt n c q = b.valueAt m c q) : a.valueRow n = b.valueRow m := by
  have size : a.componentSize = b.componentSize := by
    rw [componentSize, componentSize, components]
  have length := own.rowLength_eq_mul
  have length' : b.rowLength = a.rowLength := by
    rw [own.rowLength_eq, own'.rowLength_eq, components, properties]
  refine List.ext_getElem? fun k => ?_
  by_cases small : k < a.componentSize * a.properties.count
  · have some : 0 < a.properties.count := by
      rcases Nat.eq_zero_or_pos a.properties.count with none | some
      · rw [none] at small
        omega
      · exact some
    have insideC : k / a.properties.count < a.componentSize := Nat.div_lt_of_lt_mul <| by
      rwa [Nat.mul_comm]
    have insideQ := Nat.mod_lt k some
    have place : k / a.properties.count * a.properties.count + k % a.properties.count = k :=
      Nat.div_add_mod' k a.properties.count
    have here := own.valueAt_eq insideC insideQ n
    have there := own'.valueAt_eq (size ▸ insideC) (properties ▸ insideQ) m
    rw [← properties] at there
    rw [place] at here there
    rw [← here, ← there, same _ insideC _ insideQ]
  · have none : (a.valueRow n)[k]? = none := by
      rw [List.getElem?_eq_none_iff, own.length_valueRow inside, length]
      omega
    have none' : (b.valueRow m)[k]? = .none := by
      rw [List.getElem?_eq_none_iff, own'.length_valueRow inside', length', length]
      omega
    rw [none, none']

/-! ### What is assembled of the same parts -/

section Assembled

variable {ι : Type} {isPart : ι → Prop} {column row row' : ι → Nat → Nat} {part : ι → Block}
  {moved : Nat → Nat} {a b : Block}

/-- Outside the gradients, blocks that are assembled of the same parts are the same up to the order
of their samples. -/
theorem AssembledLevel.reordered (level : AssembledLevel isPart column part row a)
    (level' : AssembledLevel isPart column part row' b) (some : ∃ i, isPart i)
    (follows : ∀ i, isPart i → ∀ n < (part i).samples.count, row' i n = moved (row i n))
    (names : a.samples.names = b.samples.names) (properties : a.properties = b.properties)
    (apart : ∀ n < a.samples.count, ∀ m < a.samples.count, moved n = moved m → n = m)
    (own : a.WellFormed) (own' : b.WellFormed) : ReorderedLevel moved a b := by
  obtain ⟨one, isOne⟩ := some
  have components := (level.components one isOne).symm.trans (level'.components one isOne)
  have size : a.componentSize = b.componentSize := by
    rw [componentSize, componentSize, components]
  have inside : ∀ r < a.samples.count, moved r < b.samples.count := by
    intro r insideR
    obtain ⟨i, n, isPart, insideN, rfl⟩ := level.rows.covered r insideR
    rw [← follows i isPart n insideN]
    exact level'.rows.inside i isPart n insideN
  refine ⟨names, components, properties, ?_, inside, apart, ?_, ?_⟩
  · exact (level.parameters one isOne).symm.trans (level'.parameters one isOne)
  · intro r insideR
    obtain ⟨i, n, isPart, insideN, rfl⟩ := level'.rows.covered r insideR
    exact ⟨row i n, level.rows.inside i isPart n insideN, (follows i isPart n insideN).symm⟩
  · intro r insideR
    refine own.valueRow_eq own' components properties insideR (inside r insideR) ?_
    intro c insideC q insideQ
    -- a cell is taken by the same part in both blocks, or free in both
    by_cases taken : ∃ i, isPart i ∧ ∃ n < (part i).samples.count, ∃ p < (part i).properties.count,
        row i n = r ∧ column i p = q
    · obtain ⟨i, isPart, n, insideN, p, insideP, rfl, rfl⟩ := taken
      rw [← follows i isPart n insideN, level.values i isPart n insideN p insideP c insideC,
        level'.values i isPart n insideN p insideP c (size ▸ insideC)]
    · rw [level.zeros r insideR q insideQ ?_ c insideC,
        level'.zeros _ (inside r insideR) q (properties ▸ insideQ) ?_ c (size ▸ insideC)]
      · intro i isPart n insideN p insideP atRow atColumn
        rw [follows i isPart n insideN] at atRow
        have atRow' := apart _ (level.rows.inside i isPart n insideN) r insideR atRow
        exact taken ⟨i, isPart, n, insideN, p, insideP, atRow', atColumn⟩
      · intro i isPart n insideN p insideP atRow atColumn
        exact taken ⟨i, isPart, n, insideN, p, insideP, atRow, atColumn⟩

theorem eq_gradientAt {block gradient : Block} (wellFormed : block.WellFormed) {parameter : String}
    (member : (parameter, gradient) ∈ block.gradients) : gradient = gradientAt parameter block := by
  rw [gradientAt, (gradient?_eq_some wellFormed.ordered).mpr member, Option.getD_some]

section Rows

variable (h : Assembled isPart column part row a) (h' : Assembled isPart column part row' b)
  (follows : ∀ i, isPart i → ∀ n < (part i).samples.count, row' i n = moved (row i n))
  (parts : ∀ i, isPart i → (part i).Consistent) {parameter : String} {gradient gradient' : Block}
  (member : (parameter, gradient) ∈ a.gradients) (member' : (parameter, gradient') ∈ b.gradients)

include h h' follows parts member member'

/-- A gradient row of a part goes to the row of the second block that its row in the first block is
moved to. -/
theorem Assembled.redirect_moved {i : ι} (isOne : isPart i) {r : Row}
    (isRow : r ∈ (gradientAt parameter (part i)).samples.rows) :
    Redirects moved (redirect (row i) r) ∧
      redirect moved (redirect (row i) r) = redirect (row' i) r := by
  obtain ⟨same, iff⟩ :=
    h.redirect_twice member isOne (parts i isOne).own (follows i isOne) isRow
  exact ⟨iff.mpr (h'.redirects member' isOne isRow).1, same⟩

/-- Every gradient row of the first block is moved to one of the second. -/
theorem Assembled.moved_row {r : Row} (isRow : r ∈ gradient.samples.rows) :
    Redirects moved r ∧ redirect moved r ∈ gradient'.samples.rows := by
  obtain ⟨i, isOne, own, isOwn, rfl⟩ := h.exists_row member isRow
  obtain ⟨redirects, same⟩ := h.redirect_moved h' follows parts member member' isOne isOwn
  exact ⟨redirects, same ▸ (h'.redirects member' isOne isOwn).2⟩

/-- Different gradient rows are moved to different rows. -/
theorem Assembled.moved_apart
    (apart : ∀ n < a.samples.count, ∀ m < a.samples.count, moved n = moved m → n = m)
    (own : a.WellFormed) (nodup : gradient.samples.rows.Nodup) :
    ∀ k < gradient.samples.count, ∀ m < gradient.samples.count,
      rowAmong gradient'.samples.rows moved gradient k =
        rowAmong gradient'.samples.rows moved gradient m → k = m := by
  intro k insideK m insideM same
  rw [Labels.count_eq] at insideK insideM
  have refers := (own.gradients parameter gradient member).inRange
  have isK := List.getElem_mem insideK
  have isM := List.getElem_mem insideM
  obtain ⟨redirects, stands⟩ := h.moved_row h' follows parts member member' isK
  obtain ⟨redirects', stands'⟩ := h.moved_row h' follows parts member member' isM
  rw [rowAmong_eq (List.getElem?_eq_getElem insideK),
    rowAmong_eq (List.getElem?_eq_getElem insideM), List.idxOf_inj stands] at same
  have equal := redirects.inj apart (refers _ isK) (refers _ isM) redirects' same
  exact nodup.getElem_inj_iff.mp equal

end Rows

/-- Blocks that are assembled of the same parts, with the same columns, are the same up to the order
of their samples, at every depth. -/
theorem Assembled.reordered (h : Assembled isPart column part row a)
    (h' : Assembled isPart column part row' b) (some : ∃ i, isPart i)
    (follows : ∀ i, isPart i → ∀ n < (part i).samples.count, row' i n = moved (row i n))
    (names : a.samples.names = b.samples.names) (properties : a.properties = b.properties)
    (apart : ∀ n < a.samples.count, ∀ m < a.samples.count, moved n = moved m → n = m)
    (parts : ∀ i, isPart i → (part i).Consistent) (consistent : a.Consistent)
    (consistent' : b.Consistent) (regular : a.Labelled Labels.Regular) : Reordered moved a b := by
  induction h generalizing b row' moved with
  | @intro part row a level sampleNames redirected deeper ih =>
    have h := Assembled.intro level sampleNames redirected deeper
    refine .intro (fun parameter => rowAmong (gradientAt parameter b).samples.rows moved
      (gradientAt parameter a)) ?_ ?_ ?_
    · exact level.reordered h'.level some follows names properties apart consistent.own
        consistent'.own
    · intro parameter gradient gradient' member member' k r isRow
      obtain ⟨redirects, stands⟩ :=
        h.moved_row h' follows parts member member' (List.mem_of_getElem? isRow)
      rw [← eq_gradientAt consistent.own member, ← eq_gradientAt consistent'.own member']
      exact ⟨redirects, getElem?_rowAmong isRow stands⟩
    · intro parameter gradient gradient' member member'
      have goes := consistent.own.gradients parameter gradient member
      have goes' := consistent'.own.gradients parameter gradient' member'
      rw [← eq_gradientAt consistent.own member, ← eq_gradientAt consistent'.own member']
      refine ih parameter gradient member (h'.inner member') ?_ ?_ ?_ ?_ ?_
        (consistent.inner member) (consistent'.inner member') (regular.inner member)
      · intro i isOne n inside
        rw [Labels.count_eq] at inside
        have isRow := List.getElem?_eq_getElem inside
        have isOwn := List.getElem_mem inside
        have stands := getElem?_rowAmong isRow (h.redirects member isOne isOwn).2
        rw [rowAmong_eq isRow, rowAmong_eq stands,
          (h.redirect_moved h' follows parts member member' isOne isOwn).2]
      · obtain ⟨i, isOne⟩ := some
        exact (h.sampleNames member isOne).symm.trans (h'.sampleNames member' isOne)
      · exact goes.properties.trans (properties.trans goes'.properties.symm)
      · exact h.moved_apart h' follows parts member member' apart consistent.own
          (regular.inner member).own.samples.nodup
      · exact fun i isOne => (parts i isOne).inner
          (level.mem_gradientAt member isOne (parts i isOne).own)

end Assembled

end LabeledBlocks.Block
