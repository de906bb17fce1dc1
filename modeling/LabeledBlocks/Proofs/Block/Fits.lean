import LabeledBlocks.Proofs.Block.Reordered

/-!
# Blocks that fit into another one

A block fits into a host when its samples have different places among those of the host, and when
its gradients fit in turn: each of their rows, with the place of its sample as sample number, is a
row of the gradient of the host. Properties and values play no part in it. The parts of a block that
is assembled fit into it, and what is assembled of parts fits wherever all of them do.

* `Block.Fits` — a block fits into a host, at every depth.
* `Block.Assembled.fits` — the parts fit into the whole.
* `Block.Assembled.fits_of_parts` — a whole fits where its parts do.
* `Block.Fits.numbered` — what fits is not longer than its host.
-/

namespace LabeledBlocks.Block

/-! ### Fitting -/

/-- The samples of a part have different places in the host, as far as the gradients are left out of
account. -/
structure FitsLevel (row : Nat → Nat) (part host : Block) : Prop where
  components : part.components = host.components
  parameters : part.parameters = host.parameters
  inside : ∀ n < part.samples.count, row n < host.samples.count
  apart : ∀ n < part.samples.count, ∀ m < part.samples.count, row n = row m → n = m

/-- Sample `n` of the part has the place `row n` in the host, and the rows of its gradients are rows
of the gradients of the host, with these places as sample numbers. -/
inductive Fits : (row : Nat → Nat) → (part host : Block) → Prop where
  | intro {row : Nat → Nat} {part host : Block} (level : FitsLevel row part host)
      (names : ∀ parameter gradient, (parameter, gradient) ∈ host.gradients →
        (gradientAt parameter part).samples.names = gradient.samples.names)
      (redirected : ∀ parameter gradient, (parameter, gradient) ∈ host.gradients →
        ∀ r ∈ (gradientAt parameter part).samples.rows,
          Redirects row r ∧ redirect row r ∈ gradient.samples.rows)
      (deeper : ∀ parameter gradient, (parameter, gradient) ∈ host.gradients →
        Fits (rowAmong gradient.samples.rows row (gradientAt parameter part))
          (gradientAt parameter part) gradient) :
      Fits row part host

namespace Fits

variable {row : Nat → Nat} {part host gradient : Block} {parameter : String}

theorem level (h : Fits row part host) : FitsLevel row part host := by
  cases h with
  | intro level _ _ _ => exact level

theorem sampleNames (h : Fits row part host) (member : (parameter, gradient) ∈ host.gradients) :
    (gradientAt parameter part).samples.names = gradient.samples.names := by
  cases h with
  | intro _ names _ _ => exact names parameter gradient member

theorem redirects (h : Fits row part host) (member : (parameter, gradient) ∈ host.gradients)
    {r : Row} (isRow : r ∈ (gradientAt parameter part).samples.rows) :
    Redirects row r ∧ redirect row r ∈ gradient.samples.rows := by
  cases h with
  | intro _ _ redirected _ => exact redirected parameter gradient member r isRow

theorem inner (h : Fits row part host) (member : (parameter, gradient) ∈ host.gradients) :
    Fits (rowAmong gradient.samples.rows row (gradientAt parameter part))
      (gradientAt parameter part) gradient := by
  cases h with
  | intro _ _ _ deeper => exact deeper parameter gradient member

/-- The host has the gradients that the part has. -/
theorem mem_host (h : Fits row part host) (consistent : host.Consistent)
    (member : (parameter, gradient) ∈ part.gradients) :
    (parameter, gradientAt parameter host) ∈ host.gradients := by
  apply mem_gradientAt consistent.own
  rw [← h.level.parameters]
  exact List.mem_map_of_mem (f := Prod.fst) member

end Fits

/-! ### Gradient rows keep apart -/

/-- Different gradient rows have different places, if the samples have. -/
theorem rowAmong_inj {rows : List Row} {place : Nat → Nat} {gradient : Block} {count : Nat}
    (apart : ∀ n < count, ∀ m < count, place n = place m → n = m)
    (nodup : gradient.samples.rows.Nodup)
    (refers : ∀ r ∈ gradient.samples.rows, Refers count r)
    (redirects : ∀ r ∈ gradient.samples.rows, Redirects place r ∧ redirect place r ∈ rows) :
    ∀ k < gradient.samples.count, ∀ m < gradient.samples.count,
      rowAmong rows place gradient k = rowAmong rows place gradient m → k = m := by
  intro k insideK m insideM same
  rw [Labels.count_eq] at insideK insideM
  have isK := List.getElem_mem insideK
  have isM := List.getElem_mem insideM
  rw [rowAmong_eq (List.getElem?_eq_getElem insideK),
    rowAmong_eq (List.getElem?_eq_getElem insideM), List.idxOf_inj (redirects _ isK).2] at same
  have equal := (redirects _ isK).1.inj apart (refers _ isK) (refers _ isM) (redirects _ isM).1 same
  exact nodup.getElem_inj_iff.mp equal

/-! ### Wholes and parts -/

section Assembled

variable {ι : Type} {isPart : ι → Prop} {column row : ι → Nat → Nat} {part : ι → Block}
  {whole : Block}

/-- The parts of an assembled block fit into it. -/
theorem Assembled.fits (h : Assembled isPart column part row whole)
    (apart : ∀ i, isPart i → ∀ n < (part i).samples.count, ∀ m < (part i).samples.count,
      row i n = row i m → n = m)
    (parts : ∀ i, isPart i → (part i).Consistent)
    (regular : ∀ i, isPart i → (part i).Labelled Labels.Regular) {i : ι} (isOne : isPart i) :
    Fits (row i) (part i) whole := by
  induction h with
  | @intro part row whole level names redirected deeper ih =>
    have gradients : ∀ parameter gradient, (parameter, gradient) ∈ whole.gradients → ∀ i, isPart i →
        (parameter, gradientAt parameter (part i)) ∈ (part i).gradients :=
      fun parameter gradient member i isOne => level.mem_gradientAt member isOne (parts i isOne).own
    refine .intro ⟨level.components i isOne, level.parameters i isOne, level.rows.inside i isOne,
      apart i isOne⟩ ?_ ?_ ?_
    · exact fun parameter gradient member => names parameter gradient member i isOne
    · exact fun parameter gradient member => redirected parameter gradient member i isOne
    · intro parameter gradient member
      apply ih parameter gradient member
      · intro i isOne
        have goes := level.gradientOf member isOne (parts i isOne).own
        have nodup := ((regular i isOne).inner (gradients _ _ member i isOne)).own.samples.nodup
        exact rowAmong_inj (apart i isOne) nodup goes.inRange
          (redirected parameter gradient member i isOne)
      · exact fun i isOne => (parts i isOne).inner (gradients _ _ member i isOne)
      · exact fun i isOne => (regular i isOne).inner (gradients _ _ member i isOne)

variable {place : ι → Nat → Nat} {outer : Nat → Nat} {host : Block}

/-- What is assembled of parts fits into a host if all of them do, with places that do not depend on
the part that a sample comes from. -/
theorem Assembled.fits_of_parts (h : Assembled isPart column part row whole)
    (fits : ∀ i, isPart i → Fits (place i) (part i) host) (some : ∃ i, isPart i)
    (same : ∀ i, isPart i → ∀ n < (part i).samples.count, place i n = outer (row i n))
    (apart : ∀ n < whole.samples.count, ∀ m < whole.samples.count, outer n = outer m → n = m)
    (parts : ∀ i, isPart i → (part i).Consistent) (consistent : whole.Consistent)
    (regular : whole.Labelled Labels.Regular) : Fits outer whole host := by
  induction h generalizing place outer host with
  | @intro part row whole level names redirected deeper ih =>
    have h := Assembled.intro level names redirected deeper
    obtain ⟨one, isOne⟩ := id some
    have components := (level.components one isOne).symm.trans (fits one isOne).level.components
    have parameters := (level.parameters one isOne).symm.trans (fits one isOne).level.parameters
    have between : ∀ parameter gradient, (parameter, gradient) ∈ host.gradients →
        (parameter, gradientAt parameter whole) ∈ whole.gradients := by
      intro parameter gradient member
      apply mem_gradientAt consistent.own
      rw [parameters]
      exact List.mem_map_of_mem (f := Prod.fst) member
    have moved : ∀ parameter gradient, (parameter, gradient) ∈ host.gradients →
        ∀ r ∈ (gradientAt parameter whole).samples.rows,
          Redirects outer r ∧ redirect outer r ∈ gradient.samples.rows := by
      intro parameter gradient member r isRow
      have isMid := between parameter gradient member
      obtain ⟨i, isOne, own, isOwn, rfl⟩ := h.exists_row isMid isRow
      obtain ⟨once, iff⟩ := h.redirect_twice isMid isOne (parts i isOne).own (same i isOne) isOwn
      obtain ⟨redirects, stands⟩ := (fits i isOne).redirects member isOwn
      exact ⟨iff.mpr redirects, once ▸ stands⟩
    refine .intro ⟨components, parameters, ?_, apart⟩ ?_ moved ?_
    · intro m inside
      obtain ⟨i, n, isOne, small, rfl⟩ := level.rows.covered m inside
      rw [← same i isOne n small]
      exact (fits i isOne).level.inside n small
    · intro parameter gradient member
      have isMid := between parameter gradient member
      exact (h.sampleNames isMid isOne).symm.trans ((fits one isOne).sampleNames member)
    · intro parameter gradient member
      have isMid := between parameter gradient member
      apply ih parameter _ isMid (fun i isOne => (fits i isOne).inner member)
      · intro i isOne n inside
        rw [Labels.count_eq] at inside
        have isRow := List.getElem?_eq_getElem inside
        have isOwn := List.getElem_mem inside
        have stands := getElem?_rowAmong isRow (h.redirects isMid isOne isOwn).2
        obtain ⟨once, _⟩ := h.redirect_twice isMid isOne (parts i isOne).own (same i isOne) isOwn
        rw [rowAmong_eq isRow, rowAmong_eq stands, once]
      · exact rowAmong_inj apart (regular.inner isMid).own.samples.nodup
          (consistent.own.gradients _ _ isMid).inRange (moved parameter gradient member)
      · exact fun i isOne => (parts i isOne).inner
          (level.mem_gradientAt isMid isOne (parts i isOne).own)
      · exact consistent.inner isMid
      · exact regular.inner isMid

end Assembled

/-! ### Numbers of samples -/

/-- A block that fits into another one has no more samples. -/
theorem FitsLevel.count_le {row : Nat → Nat} {part host : Block} (h : FitsLevel row part host) :
    part.samples.count ≤ host.samples.count := by
  have nodup : ((List.range part.samples.count).map row).Nodup := by
    apply List.Nodup.map_on _ List.nodup_range
    intro n inside m inside' same
    exact h.apart n (List.mem_range.mp inside) m (List.mem_range.mp inside') same
  have subset : (List.range part.samples.count).map row ⊆ List.range host.samples.count := by
    intro place member
    obtain ⟨n, inside, rfl⟩ := List.mem_map.mp member
    exact List.mem_range.mpr (h.inside n (List.mem_range.mp inside))
  simpa using nodup.length_le_of_subset subset

/-- The samples of what fits can be numbered if those of the host can. -/
theorem Fits.numbered {row : Nat → Nat} {part host : Block} (h : Fits row part host)
    (own : part.Consistent) (consistent : host.Consistent) (numbered : host.Numbered) :
    part.Numbered := by
  induction h with
  | @intro row part host level names redirected deeper ih =>
    have h := Fits.intro level names redirected deeper
    refine .intro (Nat.le_trans level.count_le numbered.own) fun parameter gradient member => ?_
    have isHost := h.mem_host consistent member
    rw [eq_gradientAt own.own member]
    exact ih parameter _ isHost (eq_gradientAt own.own member ▸ own.inner member)
      (consistent.inner isHost) (numbered.inner isHost)

end LabeledBlocks.Block
