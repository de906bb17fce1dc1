import LabeledBlocks.Block.JoinProperties
import LabeledBlocks.Proofs.Block.Joining
import LabeledBlocks.Proofs.Block.Widens
import LabeledBlocks.Proofs.Dense
import LabeledBlocks.Proofs.Labels.SetOperations

/-!
# Joining along the properties

Blocks are joined along their properties by inverting a table of places for each of them, and by
looking up every value of the result. What one level of the joining computes is stated here.

* `Block.inverse_eq` — the table of places is inverted.
* `Block.propertyValues_eq_ok` — every value of the result is looked up on its own.
* `Block.unionSamples_eq_ok` — the rows of gradients are collected with their places.
* `Block.joinProperties_level` — what comes out of joining blocks, one level at a time.
-/

namespace LabeledBlocks.Block

/-! ### Inverting places -/

/-- While the table is filled, later positions take precedence over what is there already. -/
theorem foldl_inverse (length : Nat) {positions : List Nat} (nodup : positions.Nodup) (start : Nat)
    (place : Nat → Option Nat) :
    (positions.zipIdx start).foldl
        (fun found entry => found.setIfInBounds entry.1 (some entry.2)) (table length place) =
      table length fun n => ((positions.idxOf? n).map (start + ·)).or (place n) := by
  induction positions generalizing start place with
  | nil => rfl
  | cons first positions ih =>
    obtain ⟨new, nodup⟩ := List.nodup_cons.mp nodup
    rw [List.zipIdx_cons, List.foldl_cons, setIfInBounds_table, ih nodup]
    apply congrArg
    funext n
    rw [List.idxOf?_cons]
    by_cases same : first = n
    · have absent : positions.idxOf? n = none := List.idxOf?_eq_none_iff.mpr (same ▸ new)
      simp [same, absent]
    · have step : (fun i => start + 1 + i) = fun i => start + (i + 1) := by
        funext i
        omega
      simp [same, Function.comp_def, step]

/-- The table of places is inverted when no place is taken twice. -/
theorem inverse_eq (length : Nat) {positions : List Nat} (nodup : positions.Nodup) :
    inverse length positions = table length positions.idxOf? := by
  have empty : Array.replicate length none = table length fun _ => (none : Option Nat) := by
    simp [table, ← List.toArray_replicate]
  rw [inverse, empty, foldl_inverse length nodup]
  simp

/-- The tables of the places of all samples of some blocks, the first block at position `start`. -/
def placeTables (start : Nat) (place : Nat → Nat → Nat) (blocks : List Block) : List (Array Nat) :=
  (blocks.zipIdx start).map fun entry => table entry.1.samples.count (place entry.2)

theorem getElem?_placeTables {start b : Nat} {place : Nat → Nat → Nat} {blocks : List Block}
    {block : Block} (standing : blocks[b]? = some block) :
    (placeTables start place blocks)[b]? =
      some (table block.samples.count (place (start + b))) := by
  rw [placeTables, List.getElem?_map, List.getElem?_zipIdx, standing]
  rfl

/-- What a block lends whose samples have these places. -/
def lentBy (count : Nat) (block : Block) (place : Nat → Nat) : Lender where
  values := block.values
  propertyCount := block.properties.count
  sampleAt := table count ((List.range block.samples.count).map place).idxOf?

section Lending

variable {count : Nat} {block : Block} {place : Nat → Nat}

theorem nodup_map_place
    (apart : ∀ n < block.samples.count, ∀ m < block.samples.count, place n = place m → n = m) :
    ((List.range block.samples.count).map place).Nodup := by
  apply List.Nodup.map_on _ List.nodup_range
  intro n inside m inside' same
  exact apart n (List.mem_range.mp inside) m (List.mem_range.mp inside') same

/-- A block lends all of its samples, each at its place. -/
theorem lender_eq_ok
    (apart : ∀ n < block.samples.count, ∀ m < block.samples.count, place n = place m → n = m)
    {lent : Lender} (h : lender count block (table block.samples.count place) = .ok lent) :
    lent = lentBy count block place := by
  unfold lender at h
  split at h
  · rw [table, List.toList_toArray, inverse_eq count (nodup_map_place apart)] at h
    exact (Except.ok.inj h).symm
  · cases h

/-- Every block lends its values by the places of its samples. -/
theorem getElem?_lenders {blocks : List Block} {place : Nat → Nat → Nat}
    (placing : Placing blocks place count) {lenders : List Lender}
    (h : ((blocks.zip (placeTables 0 place blocks)).mapM fun entry =>
      lender count entry.1 entry.2) = .ok lenders) {b : Nat} (found : blocks[b]? = some block) :
    lenders[b]? = some (lentBy count block (place b)) := by
  have entry : (blocks.zip (placeTables 0 place blocks))[b]? =
      some (block, table block.samples.count (place b)) := by
    rw [List.getElem?_zip_eq_some, getElem?_placeTables found, Nat.zero_add]
    exact ⟨found, rfl⟩
  obtain ⟨lent, here, made⟩ := exists_getElem?_right (mapM_eq_ok.mp h) entry
  rw [here, lender_eq_ok (placing.apart b block found) made]

/-- A value is that of the sample which has the place, and zero where there is none. -/
theorem lentValue_eq_ok {lenders : Array Lender} {source : Source} {size m c : Nat}
    (found : lenders[source.block]? = some (lentBy count block place))
    (apart : ∀ n < block.samples.count, ∀ k < block.samples.count, place n = place k → n = k)
    (inside : m < count) {value : FloatBits} (h : lentValue lenders size m c source = .ok value) :
    (∀ n < block.samples.count, place n = m →
      block.values.data[(n * size + c) * block.properties.count + source.index]? = some value) ∧
    ((∀ n < block.samples.count, place n ≠ m) → value = 0) := by
  have nodup := nodup_map_place apart
  have sample : (lentBy count block place).sampleAt[m]? =
      some (((List.range block.samples.count).map place).idxOf? m) := by
    rw [lentBy, getElem?_table, if_pos inside]
  rw [lentValue, found] at h
  simp only [sample] at h
  cases own : ((List.range block.samples.count).map place).idxOf? m with
  | none =>
    rw [own] at h
    have absent := List.idxOf?_eq_none_iff.mp own
    constructor
    · intro n small same
      exact absurd (List.mem_map.mpr ⟨n, List.mem_range.mpr small, same⟩) absent
    · intro _
      exact (Except.ok.inj h).symm
  | some k =>
    rw [own] at h
    have here := (idxOf?_eq_some_iff_getElem? nodup).mp own
    rw [List.getElem?_map, Option.map_eq_some_iff] at here
    obtain ⟨k', isSample, placed⟩ := here
    obtain ⟨small, rfl⟩ := List.getElem?_eq_some_iff.mp isSample
    rw [List.length_range] at small
    rw [List.getElem_range] at placed
    constructor
    · intro n small' same
      obtain rfl := apart n small' k small (same.trans placed.symm)
      dsimp only [lentBy, Dense.value] at h
      split at h
      · rename_i found'
        rw [← Except.ok.inj h]
        exact found'
      · cases h
    · intro none
      exact absurd placed (none k small)

end Lending

/-! ### Looking up all values -/

/-- The values of the result are those that are looked up for each sample, each index of the
components and each source. -/
theorem propertyValues_eq_ok {lenders : Array Lender} {count size : Nat} {sources : List Source}
    {data : Array FloatBits} (h : propertyValues lenders count size sources = .ok data) :
    data.size = count * size * sources.length ∧
      ∀ m < count, ∀ c < size, ∀ (j : Nat) source, sources[j]? = some source →
        ∃ value, lentValue lenders size m c source = .ok value ∧
          data[(m * size + c) * sources.length + j]? = some value := by
  unfold propertyValues at h
  cases sources with
  | nil =>
    rw [← pure_eq_ok.mp h]
    simp
  | cons first sources =>
    generalize all : first :: sources = sources' at h ⊢
    have some : sources'.isEmpty = false := by
      rw [← all]
      rfl
    rw [some, if_neg Bool.false_ne_true] at h
    obtain ⟨planes, looked, h⟩ := bind_eq_ok.mp h
    rw [← pure_eq_ok.mp h]
    have planes_of := mapM_eq_ok.mp looked
    have planeLength : ∀ plane ∈ planes, plane.length = size := by
      intro plane member
      obtain ⟨m, _, made⟩ := exists_of_mem_right planes_of member
      rw [← (mapM_eq_ok.mp made).length_eq, List.length_range]
    have lineLength : ∀ line ∈ planes.flatten, line.length = sources'.length := by
      intro line member
      obtain ⟨plane, isPlane, inPlane⟩ := List.mem_flatten.mp member
      obtain ⟨m, _, made⟩ := exists_of_mem_right planes_of isPlane
      obtain ⟨c, _, made⟩ := exists_of_mem_right (mapM_eq_ok.mp made) inPlane
      exact (mapM_eq_ok.mp made).length_eq.symm
    constructor
    · rw [List.size_toArray, length_flatten_runs lineLength, length_flatten_runs planeLength,
        ← planes_of.length_eq, List.length_range]
    · intro m insideM c insideC j source isSource
      obtain ⟨plane, isPlane, made⟩ :=
        exists_getElem?_right planes_of (List.getElem?_range insideM)
      obtain ⟨line, isLine, made⟩ :=
        exists_getElem?_right (mapM_eq_ok.mp made) (List.getElem?_range insideC)
      obtain ⟨value, isValue, made⟩ := exists_getElem?_right (mapM_eq_ok.mp made) isSource
      have insideJ := (List.getElem?_eq_some_iff.mp isSource).1
      refine ⟨value, made, ?_⟩
      rw [List.getElem?_toArray, getElem?_flatten_runs lineLength insideJ,
        getElem?_flatten_runs planeLength insideC, isPlane, Option.bind_some, isLine,
        Option.bind_some, isValue]

/-! ### Collecting gradient rows -/

/-- Rows are redirected when each of them refers to a sample. -/
theorem movedRows_table {count : Nat} {place : Nat → Nat} {rows moved : List Row} :
    movedRows (table count place) rows = .ok moved ↔
      (∀ row ∈ rows, Refers count row) ∧ moved = rows.map (redirect place) := by
  apply mapM_eq_ok_map
  intro row result
  rw [bind_eq_ok]
  constructor
  · rintro ⟨⟨position, rest⟩, looked, done⟩
    obtain ⟨refers, number, rfl, rfl⟩ := (reference_table count place).mp looked
    exact ⟨refers, (pure_eq_ok.mp done).symm⟩
  · rintro ⟨refers, rfl⟩
    obtain ⟨number, rest, rfl, _⟩ := id refers
    exact ⟨(place number.toInt.toNat, rest),
      (reference_table count place).mpr ⟨refers, number, rfl, rfl⟩, rfl⟩

/-- The rows of gradients are redirected and put behind those that are there, and each of them is
told where it stands in the end. -/
theorem unionSamples_eq_ok {parameter : String} {names : List String} {merged samples : Labels}
    {number : Nat} {place : Nat → Nat → Nat} {blocks gradients : List Block}
    {placed : List (Array Nat)} (length : gradients.length = blocks.length) (valid : merged.Valid)
    (mergedNames : merged.names = names)
    (h : unionSamples parameter names merged number
      (gradients.zip (placeTables number place blocks)) = .ok (samples, placed)) :
    (∀ gradient ∈ gradients, gradient.samples.names = names) ∧ samples.names = names ∧
      samples.Valid ∧
      samples.rows =
        (merged.rows ++ (gradients.zipIdx number).flatMap (redirectedOf place)).eraseDups ∧
      placed = (gradients.zipIdx number).map fun entry =>
        ((redirectedOf place entry).map samples.rows.idxOf).toArray := by
  induction gradients generalizing blocks merged number placed with
  | nil =>
    rw [List.zip_nil_left, unionSamples, Except.ok.injEq, Prod.mk.injEq] at h
    obtain ⟨rfl, rfl⟩ := h
    simp [mergedNames, valid, eraseDups_eq_self valid.nodup]
  | cons gradient gradients ih =>
    cases blocks with
    | nil => cases length
    | cons block blocks =>
      rw [placeTables, List.zipIdx_cons, List.map_cons, ← placeTables, List.zip_cons_cons,
        unionSamples, check_bind_eq_ok] at h
      obtain ⟨sameNames, h⟩ := h
      obtain ⟨rows, redirected, h⟩ := bind_eq_ok.mp h
      obtain ⟨own, built, h⟩ := bind_eq_ok.mp h
      obtain ⟨⟨union, first, second⟩, united, h⟩ := bind_eq_ok.mp h
      obtain ⟨⟨samples', others⟩, further, h⟩ := bind_eq_ok.mp h
      rw [pure_eq_ok, Prod.mk.injEq] at h
      obtain ⟨rfl, rfl⟩ := h
      obtain ⟨_, rfl⟩ := movedRows_table.mp redirected
      obtain ⟨⟨ownNames, ownRows⟩, ownValid⟩ := Labels.ofRows_eq_ok_iff.mp built
      obtain ⟨⟨agree, unionNames, unionRows⟩, _, rfl⟩ :=
        (Labels.unionWithPositions_eq_ok_iff valid.toRegular ownValid.toRegular).mp united
      have unionValid := valid.union ownValid agree unionNames unionRows
      obtain ⟨names', finalNames, finalValid, finalRows, rfl⟩ :=
        ih (Nat.succ.inj length) unionValid (unionNames.trans mergedNames) further
      have whole : samples'.rows = (merged.rows ++ own.rows ++
          (gradients.zipIdx (number + 1)).flatMap (redirectedOf place)).eraseDups := by
        rw [finalRows, unionRows, eraseDups_eraseDups_append]
      have stays : own.rows.map union.rows.idxOf = own.rows.map samples'.rows.idxOf := by
        apply List.map_congr_left
        intro row member
        rw [whole, idxOf_eraseDups_append _ (List.mem_append_right _ member), unionRows]
      refine ⟨?_, finalNames, finalValid, ?_, ?_⟩
      · rw [List.forall_mem_cons]
        exact ⟨checkSampleNames_eq_ok_iff.mp sameNames gradient (List.mem_singleton_self _), names'⟩
      · rw [whole, ownRows, List.append_assoc]
        rfl
      · rw [stays, ownRows]
        rfl

theorem table_eq_map {α : Type} (rows : List Row) (f : Row → α) :
    table rows.length (fun n => f (rows[n]?.getD [])) = (rows.map f).toArray := by
  rw [table]
  apply congrArg
  apply List.ext_getElem
  · simp
  · intro n _ inside
    rw [List.length_map] at inside
    simp [inside]

/-- The places that the rows are told are their places among the collected rows. -/
theorem placeTables_placeAmong (rows : List Row) (place : Nat → Nat → Nat)
    (gradients : List Block) :
    placeTables 0 (placeAmong rows place gradients) gradients =
      gradients.zipIdx.map fun entry => ((redirectedOf place entry).map rows.idxOf).toArray := by
  apply List.map_congr_left
  rintro ⟨gradient, b⟩ member
  have found := List.mem_zipIdx_iff_getElem?.mp member
  dsimp only at found ⊢
  rw [redirectedOf, List.map_map, ← table_eq_map, gradient.samples.count_eq]
  apply congrArg
  funext n
  rw [placeAmong, found]
  rfl

/-! ### Joining the gradients -/

/-- Only gradients are added to the result, for each gradient of the first block one. -/
theorem gains_joinPropertyGradients {gradients : List (String × Block)} {others : List Block}
    {positions : List (Array Nat)} {properties : Labels} {sources : List Source}
    {result final : Block}
    (h : joinPropertyGradients gradients others positions properties sources result = .ok final) :
    Gains (gradients.map (·.1)) result final := by
  induction gradients generalizing result with
  | nil =>
    rw [joinPropertyGradients, Except.ok.injEq] at h
    exact h ▸ .nothing
  | cons entry gradients ih =>
    simp only [joinPropertyGradients, bind_eq_ok] at h
    obtain ⟨_, _, _, _, _, _, joined, _, added, adds, rest⟩ := h
    exact .another adds (ih rest)

/-- The steps of joining, in terms of the parts of the first block. -/
theorem joinProperties_eq (first : Block) (others : List Block) (samples : Labels)
    (positions : List (Array Nat)) (properties : Labels) (sources : List Source) :
    joinProperties first others samples positions properties sources = (do
      checkAllComponents first.components 1 others
      checkSameParameters first.parameters 1 others
      Dense.checkSpan (samples.count :: (first.values.shape.tail.dropLast ++ [sources.length]))
      let lenders ← ((first :: others).zip positions).mapM fun entry =>
        lender samples.count entry.1 entry.2
      let data ← propertyValues lenders.toArray samples.count
        first.values.shape.tail.dropLast.prod sources
      let result ← ofValues ⟨samples.count :: (first.values.shape.tail.dropLast ++
        [sources.length]), data⟩ samples first.components properties
      joinPropertyGradients first.gradients others positions properties sources result) := by
  obtain ⟨values, firstSamples, components, firstProperties, gradients⟩ := first
  rw [joinProperties]
  rfl

/-- The steps of joining blocks. -/
theorem joinProperties_steps {first : Block} {others : List Block} {samples properties : Labels}
    {positions : List (Array Nat)} {sources : List Source} {result : Block} :
    joinProperties first others samples positions properties sources = .ok result ↔
      checkAllComponents first.components 1 others = .ok () ∧
      checkSameParameters first.parameters 1 others = .ok () ∧
      Dense.checkSpan (samples.count :: (first.values.shape.tail.dropLast ++ [sources.length])) =
        .ok () ∧
      ∃ lenders, (((first :: others).zip positions).mapM fun entry =>
          lender samples.count entry.1 entry.2) = .ok lenders ∧
        ∃ data, propertyValues lenders.toArray samples.count
            first.values.shape.tail.dropLast.prod sources = .ok data ∧
          ∃ block, ofValues ⟨samples.count :: (first.values.shape.tail.dropLast ++
              [sources.length]), data⟩ samples first.components properties = .ok block ∧
            joinPropertyGradients first.gradients others positions properties sources block =
              .ok result := by
  rw [joinProperties_eq, check_bind_eq_ok, check_bind_eq_ok, check_bind_eq_ok]
  simp only [bind_eq_ok]

/-- The labels of the joined block are those that were asked for. -/
theorem joinProperties_axes {first : Block} {others : List Block} {samples properties : Labels}
    {positions : List (Array Nat)} {sources : List Source} {result : Block}
    (h : joinProperties first others samples positions properties sources = .ok result) :
    result.samples = samples ∧ result.components = first.components ∧
      result.properties = properties := by
  obtain ⟨_, _, _, _, _, _, _, own, built, rest⟩ := joinProperties_steps.mp h
  obtain ⟨_, _, _, rfl⟩ := ofValues_eq_ok_iff.mp built
  exact (gains_joinPropertyGradients rest).same.axes

/-- Labels that are regular stay regular when blocks are joined along their properties. -/
theorem joinProperties_regular {first : Block} {others : List Block} {samples properties : Labels}
    {positions : List (Array Nat)} {sources : List Source} {result : Block}
    (regular : first.AxesLabelled Labels.Regular) (regularSamples : samples.Regular)
    (regularProperties : properties.Regular)
    (h : joinProperties first others samples positions properties sources = .ok result) :
    result.AxesLabelled Labels.Regular := by
  obtain ⟨sameSamples, sameComponents, sameProperties⟩ := joinProperties_axes h
  constructor
  · exact sameSamples ▸ regularSamples
  · rw [sameComponents]
    exact regular.components
  · exact sameProperties ▸ regularProperties

/-- What becomes of one gradient of the first block. -/
structure GradientWidened (others : List Block) (place : Nat → Nat → Nat) (properties : Labels)
    (sources : List Source) (result : Block) (entry joined : String × Block) : Prop where
  parameter : joined.1 = entry.1
  names : ∀ other ∈ gradientsFor entry.1 others, other.samples.names = entry.2.samples.names
  goes : GradientOf result entry.1 joined.2
  made : ∃ samples : Labels, samples.Valid ∧ samples.names = entry.2.samples.names ∧
    samples.rows = (redirectedRows place (entry.2 :: gradientsFor entry.1 others)).eraseDups ∧
    joinProperties entry.2 (gradientsFor entry.1 others) samples
      (placeTables 0 (placeAmong samples.rows place (entry.2 :: gradientsFor entry.1 others))
        (entry.2 :: gradientsFor entry.1 others)) properties sources = .ok joined.2

/-- What becomes of a gradient does not depend on the other gradients of the result. -/
theorem GradientWidened.of_same {others : List Block} {place : Nat → Nat → Nat}
    {properties : Labels} {sources : List Source} {result result' : Block}
    {entry joined : String × Block}
    (h : GradientWidened others place properties sources result entry joined)
    (same : SameUpToGradients result result') :
    GradientWidened others place properties sources result' entry joined :=
  ⟨h.parameter, h.names, h.goes.of_same same, h.made⟩

section Gradients

variable {first : Block} {others : List Block} {place : Nat → Nat → Nat} {properties : Labels}
  {sources : List Source}

/-- One gradient after the other is joined and added to the result. -/
theorem joinPropertyGradients_eq_ok (regularProperties : properties.Regular)
    {gradients : List (String × Block)}
    (regular : ∀ entry ∈ gradients, entry.2.AxesLabelled Labels.Regular) {result final : Block}
    (regular' : result.AxesLabelled Labels.Regular)
    (ordered : (result.parameters ++ gradients.map (·.1)).Pairwise (· < ·))
    (h : joinPropertyGradients gradients others (placeTables 0 place (first :: others)) properties
      sources result = .ok final) :
    ∃ added, List.Forall₂ (GradientWidened others place properties sources result) gradients
        added ∧
      final = { result with gradients := result.gradients ++ added } := by
  induction gradients generalizing result with
  | nil =>
    rw [joinPropertyGradients, Except.ok.injEq] at h
    subst h
    exact ⟨[], .nil, by rw [List.append_nil, Block.eta]⟩
  | cons entry gradients ih =>
    obtain ⟨parameter, gradient⟩ := entry
    rw [List.forall_mem_cons] at regular
    have last : ∀ other ∈ result.parameters, other < parameter := by
      rw [List.map_cons, List.pairwise_append] at ordered
      exact fun other before => ordered.2.2 other before parameter List.mem_cons_self
    simp only [joinPropertyGradients, bind_eq_ok] at h
    obtain ⟨otherGradients, found, unmerged, emptied, ⟨samples, placed⟩, united, joined, made,
      added, adds, rest⟩ := h
    have count := (mapM_eq_ok.mp found).length_eq
    obtain ⟨_, rfl⟩ := mapM_gradientFor_eq_ok_iff.mp found
    obtain ⟨⟨unmergedNames, unmergedRows⟩, unmergedValid⟩ := Labels.ofRows_eq_ok_iff.mp emptied
    obtain ⟨names, samplesNames, valid, rows, rfl⟩ :=
      unionSamples_eq_ok (by simp [count]) unmergedValid unmergedNames united
    rw [unmergedRows, List.nil_append] at rows
    rw [← placeTables_placeAmong] at made
    have joinedRegular :=
      joinProperties_regular regular.1 valid.toRegular regularProperties made
    obtain ⟨_, goes, rfl⟩ := (addGradient_eq_ok_iff regular' joinedRegular).mp adds
    rw [insertGradient_eq_append last] at rest
    have ordered' : ((result.gradients ++ [(parameter, joined)]).map (·.1) ++
        gradients.map (·.1)).Pairwise (· < ·) := by
      rw [List.map_append, List.map_singleton, List.append_assoc]
      exact ordered
    have regularNext : AxesLabelled Labels.Regular
        { result with gradients := result.gradients ++ [(parameter, joined)] } :=
      ⟨regular'.samples, regular'.components, regular'.properties⟩
    obtain ⟨further, all, rfl⟩ := ih regular.2 regularNext ordered' rest
    have here : GradientWidened others place properties sources result (parameter, gradient)
        (parameter, joined) :=
      ⟨rfl, (List.forall_mem_cons.mp names).2, goes, samples, valid, samplesNames, rows, made⟩
    have same : SameUpToGradients
        { result with gradients := result.gradients ++ [(parameter, joined)] } result := rfl
    refine ⟨(parameter, joined) :: further, .cons here (all.imp fun _ _ h => h.of_same same), ?_⟩
    rw [List.append_assoc]
    rfl

/-! ### Joining, one level of gradients at a time -/

/-- Components are accepted when they are the same in all blocks. -/
theorem checkAllComponents_eq_ok_iff {components : List Labels} {position : Nat}
    {blocks : List Block} (regular : ∀ labels ∈ components, labels.Regular)
    (regular' : ∀ block ∈ blocks, block.AxesLabelled Labels.Regular) :
    checkAllComponents components position blocks = .ok () ↔
      ∀ block ∈ blocks, block.components = components := by
  induction blocks generalizing position with
  | nil => simp [checkAllComponents]
  | cons block blocks ih =>
    rw [List.forall_mem_cons] at regular' ⊢
    rw [checkAllComponents, check_bind_eq_ok, ih regular'.2,
      checkSameComponents_eq_ok_iff regular regular'.1.components]

def widenedOwn (first : Block) (samples properties : Labels) (data : Array FloatBits) : Block :=
  ⟨⟨labelledShape samples first.components properties, data⟩, samples, first.components, properties,
    []⟩

/-- What holds of blocks that are joined and of the values of the result. -/
structure ColumnsJoined (first : Block) (others : List Block) (place : Nat → Nat → Nat)
    (samples properties : Labels) (sources : List Source) (data : Array FloatBits) : Prop where
  components : ∀ other ∈ others, other.components = first.components
  parameters : ∀ other ∈ others, other.parameters = first.parameters
  room : Dense.span (labelledShape samples first.components properties) ≤ Dense.maxLength
  count : properties.count = sources.length
  newNames : ∀ name ∈ componentNames first.components,
    name ∉ samples.names ∧ name ∉ properties.names
  size : data.size = samples.count * first.componentSize * sources.length
  values : ∀ m < samples.count, ∀ c < first.componentSize, ∀ (j : Nat) source block,
    sources[j]? = some source → (first :: others)[source.block]? = some block →
      ∃ value, data[(m * first.componentSize + c) * sources.length + j]? = some value ∧
        (∀ n < block.samples.count, place source.block n = m →
          block.valueAt n c source.index = some value) ∧
        ((∀ n < block.samples.count, place source.block n ≠ m) → value = 0)

/-- The steps of joining blocks, of which the array of the first has the shape of its labels. -/
theorem joinProperties_eq_ok {samples : Labels} {positions : List (Array Nat)} {result : Block}
    (own : first.WellFormed)
    (h : joinProperties first others samples positions properties sources = .ok result) :
    checkAllComponents first.components 1 others = .ok () ∧
      checkSameParameters first.parameters 1 others = .ok () ∧
      Dense.checkSpan (samples.count :: (first.components.map Labels.count ++ [sources.length])) =
        .ok () ∧
      ∃ lenders, (((first :: others).zip positions).mapM fun entry =>
          lender samples.count entry.1 entry.2) = .ok lenders ∧
        ∃ data, propertyValues lenders.toArray samples.count first.componentSize sources =
            .ok data ∧
          ∃ block, ofValues ⟨samples.count :: (first.components.map Labels.count ++
              [sources.length]), data⟩ samples first.components properties = .ok block ∧
            joinPropertyGradients first.gradients others positions properties sources block =
              .ok result := by
  have axes : first.values.shape.tail.dropLast = first.components.map Labels.count := by
    rw [own.shape, labelledShape, List.tail_cons, List.dropLast_concat]
  rw [componentSize, ← axes]
  exact joinProperties_steps.mp h

/-- What comes out of joining blocks, in terms of joining their gradients. -/
theorem joinProperties_level {samples : Labels} {result : Block}
    (wellFormed : ∀ block ∈ first :: others, block.WellFormed)
    (regular : ∀ block ∈ first :: others, block.AxesLabelled Labels.Regular)
    (inner : ∀ entry ∈ first.gradients, entry.2.AxesLabelled Labels.Regular)
    (regularSamples : samples.Regular) (regularProperties : properties.Regular)
    (placing : Placing (first :: others) place samples.count)
    (h : joinProperties first others samples (placeTables 0 place (first :: others)) properties
      sources = .ok result) :
    ∃ data, ColumnsJoined first others place samples properties sources data ∧
      ∃ added, List.Forall₂ (GradientWidened others place properties sources
          (widenedOwn first samples properties data)) first.gradients added ∧
        result = { widenedOwn first samples properties data with gradients := added } := by
  have own := wellFormed first List.mem_cons_self
  obtain ⟨ownRegular, othersRegular⟩ := List.forall_mem_cons.mp regular
  obtain ⟨components, parameters, room, lenders, lent, data, looked, block, built, rest⟩ :=
    joinProperties_eq_ok own h
  obtain ⟨shape, _, newNames, rfl⟩ := ofValues_eq_ok_iff.mp built
  have sameComponents :=
    (checkAllComponents_eq_ok_iff ownRegular.components othersRegular).mp components
  have count : sources.length = properties.count := by
    rw [labelledShape, List.cons.injEq, List.append_cancel_left_eq, List.cons.injEq] at shape
    exact shape.2.1
  obtain ⟨size, values⟩ := propertyValues_eq_ok looked
  refine ⟨data, ⟨sameComponents, checkSameParameters_eq_ok_iff.mp parameters,
    Dense.checkSpan_eq_ok_iff.mp (shape ▸ room), count.symm, newNames, size, ?_⟩, ?_⟩
  · intro m insideM c insideC j source block isSource found
    obtain ⟨value, made, here⟩ := values m insideM c insideC j source isSource
    have lends : lenders.toArray[source.block]? =
        some (lentBy samples.count block (place source.block)) := by
      rw [List.getElem?_toArray]
      exact getElem?_lenders placing lent found
    obtain ⟨copied, absent⟩ :=
      lentValue_eq_ok lends (placing.apart source.block block found) insideM made
    have sameSize : block.componentSize = first.componentSize := by
      rcases List.mem_cons.mp (List.mem_of_getElem? found) with rfl | isOther
      · rfl
      · rw [componentSize, sameComponents block isOther]
        rfl
    refine ⟨value, here, ?_, absent⟩
    intro n inside placed
    rw [valueAt, sameSize]
    exact copied n inside placed
  · rw [count] at rest
    exact joinPropertyGradients_eq_ok regularProperties inner
      ⟨regularSamples, ownRegular.components, regularProperties⟩ own.ordered rest

end Gradients

end LabeledBlocks.Block
