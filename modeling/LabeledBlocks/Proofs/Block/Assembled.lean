import LabeledBlocks.Proofs.Block.Widens

/-!
# Assembled blocks

Blocks that are merged along their samples and blocks that are widened along their properties have
this in common: every sample of a part has a row in the whole and every property a column, there
are no other rows and columns, and where no part has a value there is zero. Said in this way, a
whole that is assembled of wholes is assembled of their parts, whichever of the two was done first.

* `Block.Covers` — places of the positions of some parts that leave no place free.
* `Block.Assembled` — a block is assembled of parts, at every depth.
* `Block.Assembled.trans` — what is assembled of assembled blocks is assembled of their parts.
-/

namespace LabeledBlocks.Block

variable {ι κ : Type}

/-! ### Places -/

/-- Every position of a part has one of the places below `total`, and no place is left free. -/
structure Covers (isPart : ι → Prop) (size : ι → Nat) (place : ι → Nat → Nat) (total : Nat) :
    Prop where
  inside : ∀ i, isPart i → ∀ n < size i, place i n < total
  covered : ∀ m < total, ∃ i n, isPart i ∧ n < size i ∧ place i n = m

/-- Places among the places of parts are places of what these are made of. -/
theorem Covers.trans {isPart : ι → Prop} {isMid : κ → Prop} {group : ι → κ} {size : ι → Nat}
    {size' : κ → Nat} {place : ι → Nat → Nat} {inner : κ → ι → Nat → Nat} {outer : κ → Nat → Nat}
    {total : Nat} (outside : Covers isMid size' outer total)
    (within : ∀ k, isMid k → Covers (fun i => isPart i ∧ group i = k) size (inner k) (size' k))
    (onto : ∀ i, isPart i → isMid (group i))
    (same : ∀ i, isPart i → ∀ n < size i, place i n = outer (group i) (inner (group i) i n)) :
    Covers isPart size place total := by
  constructor
  · intro i part n inRange
    have mid := (within (group i) (onto i part)).inside i ⟨part, rfl⟩ n inRange
    rw [same i part n inRange]
    exact outside.inside (group i) (onto i part) _ mid
  · intro m inRange
    obtain ⟨k, m, mid, small, rfl⟩ := outside.covered m inRange
    obtain ⟨i, n, ⟨part, rfl⟩, small', rfl⟩ := (within k mid).covered m small
    exact ⟨i, n, part, small', same i part n small'⟩

/-- Where the places are those of rows, there are no rows but these. -/
theorem Covers.mem_iff {isPart : ι → Prop} {size : ι → Nat} {rowOf : ι → Nat → Row}
    {rows : List Row}
    (covers : Covers isPart size (fun i n => rows.idxOf (rowOf i n)) rows.length) {row : Row} :
    row ∈ rows ↔ ∃ i n, isPart i ∧ n < size i ∧ rowOf i n = row := by
  constructor
  · intro member
    obtain ⟨m, inside, rfl⟩ := List.mem_iff_getElem.mp member
    obtain ⟨i, n, part, small, rfl⟩ := covers.covered m inside
    exact ⟨i, n, part, small, (List.getElem_idxOf inside).symm⟩
  · rintro ⟨i, n, part, small, rfl⟩
    exact List.idxOf_lt_length_iff.mp (covers.inside i part n small)

/-! ### Sample numbers that change twice -/

theorem redirects_cons_iff {place : Nat → Nat} {number : Int32} {rest : Row} :
    Redirects place (number :: rest) ↔
      (Int32.ofNat (place number.toInt.toNat)).toInt = place number.toInt.toNat := by
  constructor
  · rintro ⟨_, _, _, same, moved, value⟩
    obtain ⟨rfl, rfl⟩ := List.cons.inj same
    obtain ⟨rfl, -⟩ := List.cons.inj moved
    exact value
  · intro value
    exact ⟨number, _, rest, rfl, rfl, value⟩

section Twice

variable {inner outer place : Nat → Nat} {count : Nat} {row : Row} (refers : Refers count row)
  (same : ∀ n < count, place n = outer (inner n))

include refers same

/-- A sample number that can be written down on the way changes as if it changed once. -/
theorem redirect_redirect (redirects : Redirects inner row) :
    redirect outer (redirect inner row) = redirect place row := by
  obtain ⟨number, rest, rfl, positive, small⟩ := refers
  have value := redirects_cons_iff.mp redirects
  rw [redirect, redirect, redirect, value, Int.toNat_natCast, same _ (by omega)]

theorem redirects_redirect_iff (redirects : Redirects inner row) :
    Redirects outer (redirect inner row) ↔ Redirects place row := by
  obtain ⟨number, rest, rfl, positive, small⟩ := refers
  have value := redirects_cons_iff.mp redirects
  rw [redirect, redirects_cons_iff, redirects_cons_iff, value, Int.toNat_natCast,
    same _ (by omega)]

end Twice

/-- Sample numbers change alike when the places of the samples are the same. -/
theorem redirect_congr {place place' : Nat → Nat} {count : Nat} {row : Row}
    (refers : Refers count row) (same : ∀ n < count, place n = place' n) :
    redirect place row = redirect place' row := by
  obtain ⟨number, rest, rfl, positive, small⟩ := refers
  rw [redirect, redirect, same _ (by omega)]

theorem redirects_congr {place place' : Nat → Nat} {count : Nat} {row : Row}
    (refers : Refers count row) (same : ∀ n < count, place n = place' n) :
    Redirects place row ↔ Redirects place' row := by
  obtain ⟨number, rest, rfl, positive, small⟩ := refers
  rw [redirects_cons_iff, redirects_cons_iff, same _ (by omega)]

/-! ### Assembling -/

def gradientAt (parameter : String) (block : Block) : Block :=
  (block.gradient? parameter).getD block

theorem gradient?_eq_gradientAt {block : Block} {parameter : String}
    (has : parameter ∈ block.parameters) :
    block.gradient? parameter = some (gradientAt parameter block) := by
  obtain ⟨gradient, found⟩ := Option.isSome_iff_exists.mp (isSome_gradient?_iff.mpr has)
  rw [gradientAt, found, Option.getD_some]

theorem mem_gradientAt {block : Block} (wellFormed : block.WellFormed) {parameter : String}
    (has : parameter ∈ block.parameters) :
    (parameter, gradientAt parameter block) ∈ block.gradients :=
  (gradient?_eq_some wellFormed.ordered).mp (gradient?_eq_gradientAt has)

/-- The place that a row of a gradient has among `rows`, when the samples of its block have these
places. -/
def rowAmong (rows : List Row) (place : Nat → Nat) (gradient : Block) (n : Nat) : Nat :=
  rows.idxOf (redirect place (gradient.samples.rows[n]?.getD []))

theorem rowAmong_eq {rows : List Row} {place : Nat → Nat} {gradient : Block} {n : Nat} {r : Row}
    (isRow : gradient.samples.rows[n]? = some r) :
    rowAmong rows place gradient n = rows.idxOf (redirect place r) := by
  rw [rowAmong, isRow, Option.getD_some]

theorem getElem?_rowAmong {rows : List Row} {place : Nat → Nat} {gradient : Block} {n : Nat}
    {r : Row} (isRow : gradient.samples.rows[n]? = some r) (stands : redirect place r ∈ rows) :
    rows[rowAmong rows place gradient n]? = some (redirect place r) := by
  rw [rowAmong_eq isRow, List.getElem?_eq_getElem (List.idxOf_lt_length_of_mem stands),
    List.getElem_idxOf]

/-- A block is assembled of parts, as far as its gradients are left out of account. -/
structure AssembledLevel (isPart : ι → Prop) (column : ι → Nat → Nat) (part : ι → Block)
    (row : ι → Nat → Nat) (whole : Block) : Prop where
  components : ∀ i, isPart i → (part i).components = whole.components
  parameters : ∀ i, isPart i → (part i).parameters = whole.parameters
  rows : Covers isPart (fun i => (part i).samples.count) row whole.samples.count
  columns : Covers isPart (fun i => (part i).properties.count) column whole.properties.count
  values : ∀ i, isPart i → ∀ n < (part i).samples.count, ∀ p < (part i).properties.count,
    ∀ c < whole.componentSize,
      whole.valueAt (row i n) c (column i p) = (part i).valueAt n c p
  zeros : ∀ r < whole.samples.count, ∀ q < whole.properties.count,
    (∀ i, isPart i → ∀ n < (part i).samples.count, ∀ p < (part i).properties.count,
      row i n = r → column i p ≠ q) → ∀ c < whole.componentSize, whole.valueAt r c q = some 0

/-- Sample `n` of a part is row `row i n` of the whole, and property `p` is column `column i p`. The
gradients have the rows of the gradients of all parts, with the rows of the samples as sample
numbers, and are assembled of them in turn. -/
inductive Assembled (isPart : ι → Prop) (column : ι → Nat → Nat) :
    (part : ι → Block) → (row : ι → Nat → Nat) → (whole : Block) → Prop where
  | intro {part : ι → Block} {row : ι → Nat → Nat} {whole : Block}
      (level : AssembledLevel isPart column part row whole)
      (names : ∀ parameter gradient, (parameter, gradient) ∈ whole.gradients →
        ∀ i, isPart i →
          (gradientAt parameter (part i)).samples.names = gradient.samples.names)
      (redirected : ∀ parameter gradient, (parameter, gradient) ∈ whole.gradients →
        ∀ i, isPart i → ∀ r ∈ (gradientAt parameter (part i)).samples.rows,
          Redirects (row i) r ∧ redirect (row i) r ∈ gradient.samples.rows)
      (deeper : ∀ parameter gradient, (parameter, gradient) ∈ whole.gradients →
        Assembled isPart column (fun i => gradientAt parameter (part i))
          (fun i => rowAmong gradient.samples.rows (row i) (gradientAt parameter (part i)))
          gradient) :
      Assembled isPart column part row whole

section Gradients

variable {isPart : ι → Prop} {column row : ι → Nat → Nat} {part : ι → Block}
  {whole gradient : Block} {parameter : String}

theorem Assembled.level (h : Assembled isPart column part row whole) :
    AssembledLevel isPart column part row whole := by
  cases h with
  | intro level _ _ _ => exact level

/-- The parts have the gradients that the whole has. -/
theorem AssembledLevel.mem_gradientAt (level : AssembledLevel isPart column part row whole)
    (member : (parameter, gradient) ∈ whole.gradients) {i : ι} (isOne : isPart i)
    (wellFormed : (part i).WellFormed) :
    (parameter, gradientAt parameter (part i)) ∈ (part i).gradients := by
  apply Block.mem_gradientAt wellFormed
  rw [level.parameters i isOne]
  exact List.mem_map_of_mem (f := Prod.fst) member

/-- The gradients of the parts refer to their samples, and have their properties. -/
theorem AssembledLevel.gradientOf (level : AssembledLevel isPart column part row whole)
    (member : (parameter, gradient) ∈ whole.gradients) {i : ι} (isOne : isPart i)
    (wellFormed : (part i).WellFormed) :
    GradientOf (part i) parameter (gradientAt parameter (part i)) :=
  wellFormed.gradients _ _ (level.mem_gradientAt member isOne wellFormed)

section Inner

variable (h : Assembled isPart column part row whole)
  (member : (parameter, gradient) ∈ whole.gradients)

include h member

theorem Assembled.sampleNames {i : ι} (isOne : isPart i) :
    (gradientAt parameter (part i)).samples.names = gradient.samples.names := by
  cases h with
  | intro _ names _ _ => exact names parameter gradient member i isOne

theorem Assembled.redirects {i : ι} (isOne : isPart i) {r : Row}
    (isRow : r ∈ (gradientAt parameter (part i)).samples.rows) :
    Redirects (row i) r ∧ redirect (row i) r ∈ gradient.samples.rows := by
  cases h with
  | intro _ _ redirected _ => exact redirected parameter gradient member i isOne r isRow

theorem Assembled.inner : Assembled isPart column (fun i => gradientAt parameter (part i))
    (fun i => rowAmong gradient.samples.rows (row i) (gradientAt parameter (part i))) gradient := by
  cases h with
  | intro _ _ _ deeper => exact deeper parameter gradient member

/-- Every row of a gradient of the whole comes from a part. -/
theorem Assembled.exists_row {moved : Row} (isMoved : moved ∈ gradient.samples.rows) :
    ∃ i, isPart i ∧ ∃ r ∈ (gradientAt parameter (part i)).samples.rows,
      redirect (row i) r = moved := by
  obtain ⟨k, isMoved⟩ := List.mem_iff_getElem?.mp isMoved
  have inside := (List.getElem?_eq_some_iff.mp isMoved).1
  rw [← Labels.count_eq] at inside
  obtain ⟨i, n, isOne, small, rfl⟩ := (h.inner member).level.rows.covered k inside
  rw [Labels.count_eq] at small
  have isRow := List.getElem_mem small
  have stands := getElem?_rowAmong (List.getElem?_eq_getElem small) (h.redirects member isOne isRow).2
  exact ⟨i, isOne, _, isRow, Option.some.inj (stands.symm.trans isMoved)⟩

/-- A gradient row of a part goes to its row in the whole, and if the samples of the whole go on from
there, the row goes on as if the samples of the part went all the way at once. -/
theorem Assembled.redirect_twice {i : ι} (isOne : isPart i) (own : (part i).WellFormed)
    {outer place : Nat → Nat} (same : ∀ n < (part i).samples.count, place n = outer (row i n))
    {r : Row} (isRow : r ∈ (gradientAt parameter (part i)).samples.rows) :
    redirect outer (redirect (row i) r) = redirect place r ∧
      (Redirects outer (redirect (row i) r) ↔ Redirects place r) := by
  have once := (h.redirects member isOne isRow).1
  have refers := (h.level.gradientOf member isOne own).inRange r isRow
  exact ⟨redirect_redirect refers same once, redirects_redirect_iff refers same once⟩

end Inner

end Gradients

/-! ### Assembling in two steps -/

section Trans

variable {isPart : ι → Prop} {isMid : κ → Prop} {group : ι → κ} {part : ι → Block} {mid : κ → Block}
  {row column : ι → Nat → Nat} {innerRow innerColumn : κ → ι → Nat → Nat}
  {outerRow outerColumn : κ → Nat → Nat} {whole : Block}

/-- Outside the gradients, a whole that is assembled of wholes is assembled of their parts. -/
theorem AssembledLevel.trans (outer : AssembledLevel isMid outerColumn mid outerRow whole)
    (inner : ∀ k, isMid k → AssembledLevel (fun i => isPart i ∧ group i = k) (innerColumn k) part
      (innerRow k) (mid k))
    (onto : ∀ i, isPart i → isMid (group i))
    (sameRow : ∀ i, isPart i → ∀ n < (part i).samples.count,
      row i n = outerRow (group i) (innerRow (group i) i n))
    (sameColumn : ∀ i, isPart i → ∀ p < (part i).properties.count,
      column i p = outerColumn (group i) (innerColumn (group i) i p)) :
    AssembledLevel isPart column part row whole := by
  have size : ∀ k, isMid k → (mid k).componentSize = whole.componentSize := fun k isOne => by
    rw [componentSize, componentSize, outer.components k isOne]
  constructor
  · intro i isOne
    have isGroup := onto i isOne
    exact ((inner _ isGroup).components i ⟨isOne, rfl⟩).trans (outer.components _ isGroup)
  · intro i isOne
    have isGroup := onto i isOne
    exact ((inner _ isGroup).parameters i ⟨isOne, rfl⟩).trans (outer.parameters _ isGroup)
  · exact outer.rows.trans (fun k isGroup => (inner k isGroup).rows) onto sameRow
  · exact outer.columns.trans (fun k isGroup => (inner k isGroup).columns) onto sameColumn
  · intro i isOne n insideN p insideP c insideC
    have isGroup := onto i isOne
    have within := inner (group i) isGroup
    have atRow := within.rows.inside i ⟨isOne, rfl⟩ n insideN
    have atColumn := within.columns.inside i ⟨isOne, rfl⟩ p insideP
    rw [sameRow i isOne n insideN, sameColumn i isOne p insideP,
      outer.values _ isGroup _ atRow _ atColumn c insideC,
      within.values i ⟨isOne, rfl⟩ n insideN p insideP c (size _ isGroup ▸ insideC)]
  · intro r insideR q insideQ free c insideC
    -- a cell that no part reaches is free in the whole, or taken by a cell that is free itself
    by_cases taken : ∃ k, isMid k ∧ ∃ m < (mid k).samples.count, ∃ q' < (mid k).properties.count,
        outerRow k m = r ∧ outerColumn k q' = q
    · obtain ⟨k, isGroup, m, insideM, q', insideQ', rfl, rfl⟩ := taken
      rw [outer.values k isGroup m insideM q' insideQ' c insideC]
      refine (inner k isGroup).zeros m insideM q' insideQ' ?_ c (size k isGroup ▸ insideC)
      rintro i ⟨isOne, rfl⟩ n insideN p insideP rfl rfl
      exact free i isOne n insideN p insideP (sameRow i isOne n insideN)
        (sameColumn i isOne p insideP)
    · refine outer.zeros r insideR q insideQ ?_ c insideC
      intro k isGroup m insideM q' insideQ' atRow atColumn
      exact taken ⟨k, isGroup, m, insideM, q', insideQ', atRow, atColumn⟩

/-- What is assembled of assembled blocks is assembled of their parts, at every depth. -/
theorem Assembled.trans (outer : Assembled isMid outerColumn mid outerRow whole)
    (inner : ∀ k, isMid k → Assembled (fun i => isPart i ∧ group i = k) (innerColumn k) part
      (innerRow k) (mid k))
    (onto : ∀ i, isPart i → isMid (group i))
    (sameRow : ∀ i, isPart i → ∀ n < (part i).samples.count,
      row i n = outerRow (group i) (innerRow (group i) i n))
    (sameColumn : ∀ i, isPart i → ∀ p < (part i).properties.count,
      column i p = outerColumn (group i) (innerColumn (group i) i p))
    (parts : ∀ i, isPart i → (part i).Consistent) (mids : ∀ k, isMid k → (mid k).Consistent) :
    Assembled isPart column part row whole := by
  induction outer generalizing part row innerRow with
  | @intro mid outerRow whole level names redirected deeper ih =>
    have between : ∀ parameter gradient, (parameter, gradient) ∈ whole.gradients → ∀ k, isMid k →
        (parameter, gradientAt parameter (mid k)) ∈ (mid k).gradients :=
      fun parameter gradient member k isGroup =>
        level.mem_gradientAt member isGroup (mids k isGroup).own
    refine .intro (level.trans (fun k isGroup => (inner k isGroup).level) onto sameRow sameColumn)
      ?_ ?_ ?_
    · intro parameter gradient member i isOne
      have isGroup := onto i isOne
      have within := (inner _ isGroup).sampleNames (between _ _ member _ isGroup) ⟨isOne, rfl⟩
      exact within.trans (names parameter gradient member _ isGroup)
    · intro parameter gradient member i isOne r isRow
      have isGroup := onto i isOne
      have isMiddle := between parameter gradient member _ isGroup
      obtain ⟨_, stands⟩ := (inner _ isGroup).redirects isMiddle ⟨isOne, rfl⟩ isRow
      obtain ⟨again, stands'⟩ := redirected parameter gradient member _ isGroup _ stands
      obtain ⟨same, iff⟩ := (inner _ isGroup).redirect_twice isMiddle ⟨isOne, rfl⟩
        (parts i isOne).own (sameRow i isOne) isRow
      exact ⟨iff.mp again, same ▸ stands'⟩
    · intro parameter gradient member
      refine ih parameter gradient member
        (fun k isGroup => (inner k isGroup).inner (between parameter gradient member k isGroup))
        ?_ ?_ ?_ ?_
      · intro i isOne n inside
        have isGroup := onto i isOne
        have isMiddle := between parameter gradient member _ isGroup
        rw [Labels.count_eq] at inside
        have isRow := List.getElem?_eq_getElem inside
        have isOwn := List.getElem_mem inside
        obtain ⟨_, stands⟩ := (inner _ isGroup).redirects isMiddle ⟨isOne, rfl⟩ isOwn
        obtain ⟨same, _⟩ := (inner _ isGroup).redirect_twice isMiddle ⟨isOne, rfl⟩
          (parts i isOne).own (sameRow i isOne) isOwn
        dsimp only
        rw [rowAmong_eq isRow, rowAmong_eq (getElem?_rowAmong isRow stands), same]
      · intro i isOne p inside
        have isGroup := onto i isOne
        have goes := (inner _ isGroup).level.gradientOf (between _ _ member _ isGroup) ⟨isOne, rfl⟩
          (parts i isOne).own
        rw [goes.properties] at inside
        exact sameColumn i isOne p inside
      · intro i isOne
        have isGroup := onto i isOne
        exact (parts i isOne).inner ((inner _ isGroup).level.mem_gradientAt
          (between _ _ member _ isGroup) ⟨isOne, rfl⟩ (parts i isOne).own)
      · exact fun k isGroup => (mids k isGroup).inner (between parameter gradient member k isGroup)

end Trans

end LabeledBlocks.Block
