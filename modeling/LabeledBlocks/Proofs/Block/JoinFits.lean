import LabeledBlocks.Proofs.Block.Compatible
import LabeledBlocks.Proofs.Block.Fits
import LabeledBlocks.Proofs.Block.JoinWidens
import LabeledBlocks.Proofs.RowMajor

/-!
# Joining blocks that fit into a common host

Blocks can be joined along their properties if there is a block into which all of them fit, and
whose gradients have samples that can be numbered. The rows that are collected of their gradients
are then not more than those of the host, whatever their order is.

* `Block.exists_propertyValues` — the look-up of the values never fails.
* `Block.exists_unionSamples` — gradient rows can be collected.
* `Block.exists_joinProperties` — blocks that fit into a host are joined.
* `Block.labelled_joinProperties` — joined blocks have valid labels.
-/

namespace LabeledBlocks.Block

/-! ### Values -/

/-- A value that is looked up by its sample, the index of its components and its property is one of
the array. -/
theorem WellFormed.place_lt {block : Block} (own : block.WellFormed) {n c p : Nat}
    (insideN : n < block.samples.count) (insideC : c < block.componentSize)
    (insideP : p < block.properties.count) :
    (n * block.componentSize + c) * block.properties.count + p < block.values.data.size := by
  have whole :
      Within [block.samples.count, block.componentSize, block.properties.count] [n, c, p] :=
    .cons insideN (.cons insideC (.cons insideP .nil))
  have small := offset_lt whole
  rw [own.filled, own.shape, labelledShape, List.prod_cons, List.prod_append, List.prod_singleton]
  simpa only [offset_cons, offset_nil, List.prod_cons, List.prod_nil, Nat.mul_one, Nat.add_zero,
    componentSize, Nat.add_mul, Nat.mul_assoc, Nat.add_assoc] using small

section Values

variable {count : Nat} {place : Nat → Nat → Nat} {blocks : List Block}
  (placing : Placing blocks place count)

include placing

/-- Every block can lend its properties when all samples have a place. -/
theorem exists_lenders : ∃ lenders, ((blocks.zip (placeTables 0 place blocks)).mapM fun entry =>
    lender count entry.1 entry.2) = .ok lenders := by
  have each : ∀ entry ∈ blocks.zip (placeTables 0 place blocks), ∃ lent,
      lender count entry.1 entry.2 = .ok lent := by
    rintro ⟨block, positions⟩ member
    obtain ⟨b, found⟩ := List.mem_iff_getElem?.mp member
    obtain ⟨standing, stands⟩ := List.getElem?_zip_eq_some.mp found
    have positions_eq : positions = table block.samples.count (place b) := by
      rw [getElem?_placeTables standing, Option.some.injEq, Nat.zero_add] at stands
      exact stands.symm
    have inside : positions.all (· < count) := by
      rw [positions_eq, table, List.all_toArray, List.all_map, List.all_eq_true]
      intro n small
      exact decide_eq_true (placing.inside b block standing n (List.mem_range.mp small))
    exact ⟨_, by rw [lender, if_pos inside]⟩
  obtain ⟨lenders, all⟩ := exists_forall₂ each
  exact ⟨lenders, mapM_eq_ok.mpr all⟩

/-- A value that is looked up is there. -/
theorem exists_lentValue {lenders : Array Lender} {source : Source} {block : Block} {size m c : Nat}
    (standing : blocks[source.block]? = some block) (own : block.WellFormed)
    (found : lenders[source.block]? = some (lentBy count block (place source.block)))
    (same : size = block.componentSize) (insideM : m < count) (insideC : c < size)
    (insideP : source.index < block.properties.count) :
    ∃ value, lentValue lenders size m c source = .ok value := by
  have nodup := nodup_map_place (placing.apart source.block block standing)
  have sample : (lentBy count block (place source.block)).sampleAt[m]? =
      some (((List.range block.samples.count).map (place source.block)).idxOf? m) := by
    rw [lentBy, getElem?_table, if_pos insideM]
  rw [lentValue, found]
  simp only [sample]
  cases isOwn : ((List.range block.samples.count).map (place source.block)).idxOf? m with
  | none => exact ⟨0, rfl⟩
  | some n =>
    have here := (idxOf?_eq_some_iff_getElem? nodup).mp isOwn
    have insideN := (List.getElem?_eq_some_iff.mp here).1
    rw [List.length_map, List.length_range] at insideN
    have stands : (n * size + c) * block.properties.count + source.index <
        block.values.data.size := by
      rw [same] at insideC ⊢
      exact own.place_lt insideN insideC insideP
    refine ⟨block.values.data[(n * size + c) * block.properties.count + source.index], ?_⟩
    simp only [lentBy, Dense.value, Array.getElem?_eq_getElem stands]

/-- All values can be copied when their sources are in range. -/
theorem exists_propertyValues {lenders : List Lender} {size : Nat} {sources : List Source}
    (lent : ((blocks.zip (placeTables 0 place blocks)).mapM fun entry =>
      lender count entry.1 entry.2) = .ok lenders)
    (wellFormed : ∀ block ∈ blocks, block.WellFormed)
    (same : ∀ block ∈ blocks, size = block.componentSize)
    (inRange : ∀ source ∈ sources, ∃ block, blocks[source.block]? = some block ∧
      source.index < block.properties.count) :
    ∃ data, propertyValues lenders.toArray count size sources = .ok data := by
  have value : ∀ m ∈ List.range count, ∀ c ∈ List.range size, ∀ source ∈ sources,
      ∃ value, lentValue lenders.toArray size m c source = .ok value := by
    intro m insideM c insideC source isSource
    obtain ⟨block, standing, insideP⟩ := inRange source isSource
    have isBlock := List.mem_of_getElem? standing
    have found : lenders.toArray[source.block]? =
        some (lentBy count block (place source.block)) := by
      rw [List.getElem?_toArray]
      exact getElem?_lenders placing lent standing
    exact exists_lentValue placing standing (wellFormed block isBlock) found (same block isBlock)
      (List.mem_range.mp insideM) (List.mem_range.mp insideC) insideP
  have line : ∀ m ∈ List.range count, ∀ c ∈ List.range size, ∃ line,
      sources.mapM (lentValue lenders.toArray size m c) = .ok line := by
    intro m insideM c insideC
    obtain ⟨line, all⟩ := exists_forall₂ (value m insideM c insideC)
    exact ⟨line, mapM_eq_ok.mpr all⟩
  have plane : ∀ m ∈ List.range count, ∃ plane, ((List.range size).mapM fun c =>
      sources.mapM (lentValue lenders.toArray size m c)) = .ok plane := by
    intro m insideM
    obtain ⟨plane, all⟩ := exists_forall₂ (line m insideM)
    exact ⟨plane, mapM_eq_ok.mpr all⟩
  obtain ⟨planes, all⟩ := exists_forall₂ plane
  unfold propertyValues
  split
  · exact ⟨#[], rfl⟩
  · exact ⟨_, bind_eq_ok.mpr ⟨planes, mapM_eq_ok.mpr all, rfl⟩⟩

end Values

/-! ### Gradient rows -/

/-- A redirected row refers to the place of its sample. -/
theorem Redirects.refers {place : Nat → Nat} {count total : Nat} {row : Row}
    (redirects : Redirects place row) (inside : ∀ n < count, place n < total)
    (refers : Refers count row) : Refers total (redirect place row) := by
  obtain ⟨number, number', rest, rfl, same, value⟩ := redirects
  obtain ⟨_, _, head, positive, small⟩ := refers
  obtain ⟨rfl, -⟩ := List.cons.inj head
  have := inside number.toInt.toNat (by omega)
  exact ⟨number', rest, same, by omega, by omega⟩

/-- The redirected rows of the gradients of some blocks refer to the samples that are wanted. -/
theorem Widenable.refers_redirectedRows {blocks : List Block} {place : Nat → Nat → Nat}
    {samples properties : Labels} {sources : List Source} {parameter : String}
    (start : Widenable blocks place samples properties sources)
    (all : ∀ block ∈ blocks, parameter ∈ block.parameters) :
    ∀ r ∈ redirectedRows place (gradientsFor parameter blocks), Refers samples.count r := by
  intro moved isMoved
  obtain ⟨⟨gradient, b⟩, isGradient, inside⟩ := List.mem_flatMap.mp isMoved
  obtain ⟨r, isRow, rfl⟩ := List.mem_map.mp inside
  obtain ⟨block, standing, refers⟩ :=
    refers_gradientsFor start.wellFormed all (List.mem_zipIdx_iff_getElem?.mp isGradient)
  exact (redirects_of_refers (start.fits b block standing) (refers r isRow)).refers
    (start.placing.inside b block standing) (refers r isRow)

/-- The redirected rows of a gradient make valid labels, if they are still different. -/
theorem valid_redirected {place : Nat → Nat} {count : Nat} {gradient : Block}
    (valid : gradient.samples.Valid) (refers : ∀ r ∈ gradient.samples.rows, Refers count r)
    (redirects : ∀ r ∈ gradient.samples.rows, Redirects place r)
    (apart : ∀ n < count, ∀ m < count, place n = place m → n = m) :
    (Labels.of gradient.samples.names (gradient.samples.rows.map (redirect place))).Valid := by
  refine ⟨⟨?_, ?_⟩, valid.identifiers, valid.distinct, fun unnamed => ?_⟩
  · intro moved member
    obtain ⟨r, isRow, rfl⟩ := List.mem_map.mp member
    have width := valid.width r isRow
    obtain ⟨number, number', rest, rfl, same, _⟩ := redirects r isRow
    rw [same]
    exact width
  · refine List.Nodup.map_on (fun r isRow r' isRow' same => ?_) valid.nodup
    exact (redirects r isRow).inj apart (refers r isRow) (refers r' isRow') (redirects r' isRow')
      same
  · have none := valid.unnamed unnamed
    exact List.map_eq_nil_iff.mpr none

/-- The rows of gradients can be collected when they refer to samples and are still different with
the places of these. -/
theorem exists_unionSamples {parameter : String} {names : List String} {merged : Labels}
    {number : Nat} {place : Nat → Nat → Nat} {blocks gradients : List Block}
    (length : gradients.length = blocks.length) (valid : merged.Valid)
    (mergedNames : merged.names = names)
    (sameNames : ∀ gradient ∈ gradients, gradient.samples.names = names)
    (each : ∀ (b : Nat) gradient block, gradients[b]? = some gradient → blocks[b]? = some block →
      (∀ r ∈ gradient.samples.rows, Refers block.samples.count r) ∧
        (Labels.of gradient.samples.names
          (gradient.samples.rows.map (redirect (place (number + b))))).Valid) :
    ∃ samples placed, unionSamples parameter names merged number
      (gradients.zip (placeTables number place blocks)) = .ok (samples, placed) := by
  induction gradients generalizing blocks merged number with
  | nil => exact ⟨merged, [], by rw [List.zip_nil_left, unionSamples]⟩
  | cons gradient gradients ih =>
    cases blocks with
    | nil => cases length
    | cons block blocks =>
      rw [List.forall_mem_cons] at sameNames
      obtain ⟨refers, valid'⟩ := each 0 gradient block rfl rfl
      rw [sameNames.1, Nat.add_zero] at valid'
      let own := Labels.of names (gradient.samples.rows.map (redirect (place number)))
      let union := Labels.of names (merged.rows ++ own.rows).eraseDups
      have united := (@Labels.unionWithPositions_eq_ok_iff merged own valid.toRegular
        valid'.toRegular union _ _).mpr ⟨⟨mergedNames, mergedNames.symm, rfl⟩, rfl, rfl⟩
      have unionValid : union.Valid := valid.union valid' mergedNames mergedNames.symm rfl
      obtain ⟨samples, placed, rest⟩ := ih (Nat.succ.inj length) unionValid rfl sameNames.2
        fun b gradient block standing standing' => by
          have here := each (b + 1) gradient block standing standing'
          rwa [← Nat.add_assoc, Nat.add_right_comm] at here
      refine ⟨samples, (own.rows.map union.rows.idxOf).toArray :: placed, ?_⟩
      rw [placeTables, List.zipIdx_cons, List.map_cons, ← placeTables, List.zip_cons_cons,
        unionSamples, check_bind_eq_ok]
      refine ⟨checkSampleNames_eq_ok_iff.mpr fun other member => ?_, ?_⟩
      · rw [List.mem_singleton.mp member, sameNames.1]
      · exact bind_eq_ok.mpr ⟨_, movedRows_table.mpr ⟨refers, rfl⟩, bind_eq_ok.mpr
          ⟨own, Labels.ofRows_of_valid valid', bind_eq_ok.mpr
            ⟨_, united, bind_eq_ok.mpr ⟨_, rest, rfl⟩⟩⟩⟩

/-- What it takes to join a gradient of the first block and to add it to the result. -/
structure GradientJoins (others : List Block) (positions : List (Array Nat)) (properties : Labels)
    (sources : List Source) (result : Block) (entry : String × Block) (joined : Block) : Prop where
  all : ∀ other ∈ others, entry.1 ∈ other.parameters
  made : ∃ unmerged samples placed, Labels.empty entry.2.samples.names = .ok unmerged ∧
    unionSamples entry.1 entry.2.samples.names unmerged 0
      ((entry.2 :: gradientsFor entry.1 others).zip positions) = .ok (samples, placed) ∧
    joinProperties entry.2 (gradientsFor entry.1 others) samples placed properties sources =
      .ok joined
  regular : joined.AxesLabelled Labels.Regular
  goes : GradientOf result entry.1 joined

section Join

variable {others : List Block} {positions : List (Array Nat)} {properties : Labels}
  {sources : List Source}

/-- One gradient after the other is joined and added. -/
theorem exists_joinPropertyGradients {P : Block → Prop} {gradients : List (String × Block)}
    {result : Block} (each : ∀ entry ∈ gradients, ∃ joined,
      GradientJoins others positions properties sources result entry joined ∧ P joined)
    (regular : result.AxesLabelled Labels.Regular)
    (ordered : (result.parameters ++ gradients.map (·.1)).Pairwise (· < ·))
    (holds : ∀ entry ∈ result.gradients, P entry.2) :
    ∃ final, joinPropertyGradients gradients others positions properties sources result =
        .ok final ∧ ∀ entry ∈ final.gradients, P entry.2 := by
  induction gradients generalizing result with
  | nil => exact ⟨result, rfl, holds⟩
  | cons entry gradients ih =>
    obtain ⟨parameter, gradient⟩ := entry
    rw [List.forall_mem_cons] at each
    obtain ⟨⟨joined, joins, isP⟩, further⟩ := each
    obtain ⟨unmerged, samples, placed, emptied, united, made⟩ := joins.made
    have last : ∀ other ∈ result.parameters, other < parameter := by
      rw [List.map_cons, List.pairwise_append] at ordered
      exact fun other before => ordered.2.2 other before parameter List.mem_cons_self
    have new : parameter ∉ result.parameters := fun known =>
      String.lt_irrefl parameter (last parameter known)
    have adds := (addGradient_eq_ok_iff regular joins.regular).mpr ⟨new, joins.goes, rfl⟩
    rw [insertGradient_eq_append last] at adds
    let next : Block := { result with gradients := result.gradients ++ [(parameter, joined)] }
    have same : SameUpToGradients result next := rfl
    obtain ⟨final, rest, kept⟩ := @ih next
      (fun other member => by
        obtain ⟨joined, joins, isP⟩ := further other member
        exact ⟨joined, ⟨joins.all, joins.made, joins.regular, joins.goes.of_same same⟩, isP⟩)
      { regular with }
      (by
        rw [Block.parameters, List.map_append, List.map_singleton, List.append_assoc]
        exact ordered)
      (by
        rw [List.forall_mem_append]
        exact ⟨holds, fun other member => List.mem_singleton.mp member ▸ isP⟩)
    refine ⟨final, ?_, kept⟩
    simp only [joinPropertyGradients, bind_eq_ok]
    exact ⟨_, mapM_gradientFor_eq_ok_iff.mpr ⟨joins.all, rfl⟩, unmerged, emptied,
      ⟨samples, placed⟩, united, joined, made, next, adds, rest⟩

end Join

/-! ### Blocks that fit into a host -/

/-- What the joining of blocks starts from that fit into a host. A sample with the place `m` in the
host has the place `moved m` among the samples that are wanted, the host has as many samples and
properties as are wanted, and the samples of its gradients can be numbered. -/
structure Hosted (blocks : List Block) (place row : Nat → Nat → Nat) (moved : Nat → Nat)
    (samples properties : Labels) (sources : List Source) (host : Block) : Prop
    extends Widenable blocks place samples properties sources where
  fitting : ∀ b block, blocks[b]? = some block → Fits (row b) block host
  follows : ∀ b block, blocks[b]? = some block → ∀ n < block.samples.count,
    place b n = moved (row b n)
  hostConsistent : host.Consistent
  numbered : ∀ parameter gradient, (parameter, gradient) ∈ host.gradients → gradient.Numbered
  sampleNames : samples.names = host.samples.names
  propertyNames : ∀ name ∈ properties.names, name ∈ host.properties.names
  count : properties.count = sources.length
  few : samples.count ≤ host.samples.count
  wide : properties.count ≤ host.properties.count

namespace Hosted

variable {blocks : List Block} {place row : Nat → Nat → Nat} {moved : Nat → Nat}
  {samples properties : Labels} {sources : List Source} {host : Block}

/-! #### One level -/

section Level

variable {first : Block} {others : List Block}
  (hosted : Hosted (first :: others) place row moved samples properties sources host)

include hosted

theorem components : ∀ block ∈ first :: others, block.components = first.components := by
  intro block member
  obtain ⟨b, standing⟩ := List.mem_iff_getElem?.mp member
  rw [(hosted.fitting 0 first rfl).level.components,
    (hosted.fitting b block standing).level.components]

theorem parameters : ∀ block ∈ first :: others, block.parameters = first.parameters := by
  intro block member
  obtain ⟨b, standing⟩ := List.mem_iff_getElem?.mp member
  rw [(hosted.fitting 0 first rfl).level.parameters,
    (hosted.fitting b block standing).level.parameters]

/-- The names of the components are not used by the new samples and properties. -/
theorem newNames : ∀ name ∈ componentNames first.components,
    name ∉ samples.names ∧ name ∉ properties.names := by
  intro name member
  rw [(hosted.fitting 0 first rfl).level.components] at member
  have new := hosted.hostConsistent.own.newNames name member
  rw [hosted.sampleNames]
  exact ⟨new.1, fun isProperty => new.2 (hosted.propertyNames name isProperty)⟩

/-- The axes between the samples and the properties. -/
theorem innerShape : first.values.shape.tail.dropLast = first.components.map Labels.count := by
  rw [(hosted.wellFormed first List.mem_cons_self).shape, labelledShape, List.tail_cons,
    List.dropLast_concat]

/-- There is an array for what is wanted, since there is one for the host. -/
theorem room : Dense.checkSpan
    (samples.count :: (first.values.shape.tail.dropLast ++ [sources.length])) = .ok () := by
  have own := hosted.hostConsistent.own
  have bounded := own.bounded
  rw [own.shape] at bounded
  rw [Dense.checkSpan_eq_ok_iff, hosted.innerShape, ← hosted.count,
    (hosted.fitting 0 first rfl).level.components]
  exact Nat.le_trans (Dense.span_mono hosted.few (Dense.span_last_mono hosted.wide _)) bounded

/-- The values of the blocks are put together. -/
theorem exists_values : ∃ lenders, (((first :: others).zip
      (placeTables 0 place (first :: others))).mapM fun entry =>
        lender samples.count entry.1 entry.2) = .ok lenders ∧
    ∃ data, propertyValues lenders.toArray samples.count first.values.shape.tail.dropLast.prod
        sources = .ok data ∧
      ofValues ⟨samples.count :: (first.values.shape.tail.dropLast ++ [sources.length]), data⟩
        samples first.components properties = .ok (widenedOwn first samples properties data) := by
  have own := hosted.wellFormed first List.mem_cons_self
  have size : ∀ block ∈ first :: others, first.componentSize = block.componentSize := by
    intro block member
    rw [componentSize, componentSize, hosted.components block member]
  obtain ⟨lenders, lent⟩ := exists_lenders hosted.placing
  obtain ⟨data, looked⟩ :=
    exists_propertyValues hosted.placing lent hosted.wellFormed size hosted.inRange
  have built : ofValues ⟨labelledShape samples first.components properties, data⟩ samples
      first.components properties = .ok (widenedOwn first samples properties data) :=
    ofValues_eq_ok_iff.mpr ⟨rfl, own.distinctNames, hosted.newNames, rfl⟩
  refine ⟨lenders, lent, data, ?_, ?_⟩
  · rw [hosted.innerShape]
    exact looked
  · rw [hosted.innerShape, ← hosted.count]
    exact built

end Level

/-! #### The gradients -/

section Gradient

variable (hosted : Hosted blocks place row moved samples properties sources host)
  {parameter : String} {gradient : Block} (member : (parameter, gradient) ∈ host.gradients)

include hosted member

theorem mem_parameters : ∀ block ∈ blocks, parameter ∈ block.parameters := by
  intro block isBlock
  obtain ⟨b, standing⟩ := List.mem_iff_getElem?.mp isBlock
  rw [(hosted.fitting b block standing).level.parameters]
  exact List.mem_map_of_mem (f := Prod.fst) member

/-- The gradients of the blocks are those that fit into the gradient of the host. -/
theorem exists_block {b : Nat} {other : Block}
    (found : (gradientsFor parameter blocks)[b]? = some other) :
    ∃ block, blocks[b]? = some block ∧ other = gradientAt parameter block := by
  have all := hosted.mem_parameters member
  rw [getElem?_gradientsFor all, Option.bind_eq_some_iff] at found
  obtain ⟨block, standing, has⟩ := found
  rw [gradient?_eq_gradientAt (all block (List.mem_of_getElem? standing))] at has
  exact ⟨block, standing, (Option.some.inj has).symm⟩

theorem gradientOf {b : Nat} {block : Block} (standing : blocks[b]? = some block) :
    GradientOf block parameter (gradientAt parameter block) := by
  have isBlock := List.mem_of_getElem? standing
  have own := hosted.wellFormed block isBlock
  exact own.gradients _ _ (mem_gradientAt own (hosted.mem_parameters member block isBlock))

theorem names_gradientsFor : ∀ other ∈ gradientsFor parameter blocks,
    other.samples.names = gradient.samples.names := by
  intro other isOther
  obtain ⟨b, found⟩ := List.mem_iff_getElem?.mp isOther
  obtain ⟨block, standing, rfl⟩ := hosted.exists_block member found
  exact (hosted.fitting b block standing).sampleNames member

/-- A gradient row has a place in the host, which leads to the place that is wanted. -/
theorem redirect_moved {b : Nat} {block : Block} (standing : blocks[b]? = some block) {r : Row}
    (isRow : r ∈ (gradientAt parameter block).samples.rows) :
    redirect (row b) r ∈ gradient.samples.rows ∧
      redirect moved (redirect (row b) r) = redirect (place b) r := by
  obtain ⟨redirects, stands⟩ := (hosted.fitting b block standing).redirects member isRow
  have refers := (hosted.gradientOf member standing).inRange r isRow
  exact ⟨stands, redirect_redirect refers (hosted.follows b block standing) redirects⟩

/-- The rows that are collected of the gradients are not more than those of the host. -/
theorem length_redirectedRows_le :
    (redirectedRows place (gradientsFor parameter blocks)).eraseDups.length ≤
      gradient.samples.count := by
  have subset : (redirectedRows place (gradientsFor parameter blocks)).eraseDups ⊆
      gradient.samples.rows.map (redirect moved) := by
    intro final isFinal
    obtain ⟨⟨other, b⟩, isOther, inside⟩ := List.mem_flatMap.mp (List.mem_eraseDups.mp isFinal)
    obtain ⟨r, isRow, rfl⟩ := List.mem_map.mp inside
    obtain ⟨block, standing, rfl⟩ :=
      hosted.exists_block member (List.mem_zipIdx_iff_getElem?.mp isOther)
    obtain ⟨stands, same⟩ := hosted.redirect_moved member standing isRow
    exact List.mem_map.mpr ⟨_, stands, same⟩
  have few := (nodup_eraseDups _).length_le_of_subset subset
  rwa [List.length_map, ← Labels.count_eq] at few

/-- The gradient of a block refers to its samples, and its rows are still different with the places
of these. -/
theorem valid_redirected {b : Nat} {block : Block} (standing : blocks[b]? = some block) :
    (∀ r ∈ (gradientAt parameter block).samples.rows, Refers block.samples.count r) ∧
      (Labels.of (gradientAt parameter block).samples.names
        ((gradientAt parameter block).samples.rows.map (redirect (place b)))).Valid := by
  have isBlock := List.mem_of_getElem? standing
  have own := mem_gradientAt (hosted.wellFormed block isBlock)
    (hosted.mem_parameters member block isBlock)
  have refers := (hosted.gradientOf member standing).inRange
  refine ⟨refers, Block.valid_redirected ((hosted.valid block isBlock).inner own).own.samples refers
    (fun r isRow => ?_) (hosted.placing.apart b block standing)⟩
  exact redirects_of_refers (hosted.fits b block standing) (refers r isRow)

/-- The rows of the gradients can be collected. -/
theorem exists_collected (nonempty : blocks ≠ []) : ∃ unmerged collected,
    Labels.empty gradient.samples.names = .ok unmerged ∧
    unionSamples parameter gradient.samples.names unmerged 0
        ((gradientsFor parameter blocks).zip (placeTables 0 place blocks)) =
      .ok (collected, placeTables 0
        (placeAmong collected.rows place (gradientsFor parameter blocks))
        (gradientsFor parameter blocks)) ∧
    collected.names = gradient.samples.names ∧ collected.Valid ∧
    collected.rows = (redirectedRows place (gradientsFor parameter blocks)).eraseDups := by
  have all := hosted.mem_parameters member
  have names := hosted.names_gradientsFor member
  have validGradients : ∀ other ∈ gradientsFor parameter blocks, other.Labelled Labels.Valid :=
    everywhere_gradientsFor hosted.wellFormed hosted.valid
  obtain ⟨one, isOne⟩ := List.exists_mem_of_ne_nil _ (gradientsFor_ne_nil nonempty all)
  have validOne := (validGradients one isOne).own.samples
  have emptyValid : (Labels.of gradient.samples.names []).Valid := by
    rw [← names one isOne]
    exact ⟨⟨fun _ none => absurd none List.not_mem_nil, List.nodup_nil⟩, validOne.identifiers,
      validOne.distinct, fun _ => rfl⟩
  have emptied : Labels.empty gradient.samples.names = .ok (Labels.of gradient.samples.names []) :=
    Labels.ofRows_of_valid emptyValid
  have length : (gradientsFor parameter blocks).length = blocks.length :=
    length_filterMap fun block isBlock => isSome_gradient?_iff.mpr (all block isBlock)
  obtain ⟨collected, placed, united⟩ := @exists_unionSamples parameter _ _ 0 place _ _ length
    emptyValid rfl names fun b other block found standing => by
      obtain ⟨block', standing', rfl⟩ := hosted.exists_block member found
      cases standing.symm.trans standing'
      rw [Nat.zero_add]
      exact hosted.valid_redirected member standing
  obtain ⟨_, collectedNames, valid, rows, rfl⟩ := unionSamples_eq_ok length emptyValid rfl united
  rw [← placeTables_placeAmong] at united
  exact ⟨_, collected, emptied, united, collectedNames, valid, rows⟩

section Collected

variable {collected : Labels}
  (rows : collected.rows = (redirectedRows place (gradientsFor parameter blocks)).eraseDups)

include rows

/-- The rows that are collected can be numbered, since those of the host can. -/
theorem count_collected_le : collected.count ≤ 2 ^ 31 := by
  rw [collected.count_eq, rows]
  exact Nat.le_trans (hosted.length_redirectedRows_le member)
    (hosted.numbered parameter gradient member).own

/-- When their rows are collected, the gradients fit into that of the host. -/
theorem exists_hosted (names : collected.names = gradient.samples.names) (valid : collected.Valid) :
    ∃ row' moved', Hosted (gradientsFor parameter blocks)
      (placeAmong collected.rows place (gradientsFor parameter blocks)) row' moved' collected
      properties sources gradient := by
  have all := hosted.mem_parameters member
  have small := hosted.count_collected_le member rows
  have properties' := (hosted.hostConsistent.own.gradients parameter gradient member).properties
  refine ⟨fun b => rowAmong gradient.samples.rows (row b)
    (((gradientsFor parameter blocks)[b]?).getD gradient), fun k => collected.rows.idxOf
      (redirect moved (gradient.samples.rows[k]?.getD [])), ?_⟩
  refine { hosted.toWidenable.gradients all valid small rows with
    fitting := ?_
    follows := ?_
    hostConsistent := hosted.hostConsistent.inner member
    numbered := fun _ _ below => (hosted.numbered parameter gradient member).inner below
    sampleNames := names
    propertyNames := ?_
    count := hosted.count
    few := ?_
    wide := ?_ }
  · intro b other found
    obtain ⟨block, standing, rfl⟩ := hosted.exists_block member found
    rw [found]
    exact (hosted.fitting b block standing).inner member
  · intro b other found n inside
    obtain ⟨block, standing, rfl⟩ := hosted.exists_block member found
    rw [Labels.count_eq] at inside
    have isRow := List.getElem?_eq_getElem inside
    obtain ⟨stands, same⟩ := hosted.redirect_moved member standing (List.getElem_mem inside)
    rw [placeAmong_eq found isRow, found, Option.getD_some, getElem?_rowAmong isRow stands,
      Option.getD_some, same]
  · rw [properties']
    exact hosted.propertyNames
  · rw [collected.count_eq, rows]
    exact hosted.length_redirectedRows_le member
  · rw [properties']
    exact hosted.wide

end Collected

end Gradient

end Hosted

/-- Blocks that fit into a host are joined, and the gradients of what they are joined to can be
numbered. -/
theorem exists_joinProperties {first : Block} {others : List Block} {place row : Nat → Nat → Nat}
    {moved : Nat → Nat} {samples properties : Labels} {sources : List Source} {host : Block}
    (hosted : Hosted (first :: others) place row moved samples properties sources host) :
    ∃ result, joinProperties first others samples (placeTables 0 place (first :: others)) properties
        sources = .ok result ∧ ∀ entry ∈ result.gradients, entry.2.Numbered := by
  have firstConsistent := hosted.consistent first List.mem_cons_self
  induction firstConsistent generalizing others place row moved samples host with
  | @intro first own deeper ih =>
    have regular : ∀ block ∈ first :: others, block.AxesLabelled Labels.Regular :=
      fun block member => (hosted.valid block member).own.regular
    rw [List.forall_mem_cons] at regular
    obtain ⟨_, components⟩ := List.forall_mem_cons.mp hosted.components
    obtain ⟨_, parameters⟩ := List.forall_mem_cons.mp hosted.parameters
    obtain ⟨lenders, lent, data, looked, built⟩ := hosted.exists_values
    have each : ∀ entry ∈ first.gradients, ∃ joined,
        GradientJoins others (placeTables 0 place (first :: others)) properties sources
          (widenedOwn first samples properties data) entry joined ∧ joined.Numbered := by
      rintro ⟨parameter, gradient⟩ member
      have goes := own.gradients parameter gradient member
      have isHost := (hosted.fitting 0 first rfl).mem_host hosted.hostConsistent member
      have all := hosted.mem_parameters isHost
      have names := hosted.names_gradientsFor isHost
      obtain ⟨unmerged, collected, emptied, united, sameNames, valid, rows⟩ :=
        hosted.exists_collected isHost (List.cons_ne_nil first others)
      obtain ⟨row', moved', hosted'⟩ := hosted.exists_hosted isHost rows sameNames valid
      have refers : ∀ r ∈ collected.rows, Refers samples.count r := fun r isRow =>
        hosted.toWidenable.refers_redirectedRows all r (List.mem_eraseDups.mp (rows ▸ isRow))
      have small := hosted.count_collected_le isHost rows
      rw [gradientsFor_cons ((gradient?_eq_some own.ordered).mpr member)] at united hosted' names
      rw [← names gradient List.mem_cons_self] at emptied united
      obtain ⟨joined, made, numbered⟩ := ih parameter gradient member hosted'
      have regular' := joinProperties_regular ((hosted.valid first List.mem_cons_self).inner
        member).own.regular hosted'.validSamples.toRegular hosted.validProperties.toRegular made
      obtain ⟨sameSamples, sameComponents, sameProperties⟩ := joinProperties_axes made
      have sampleNames : joined.samples.names = gradient.samples.names := by
        rw [sameSamples, hosted'.sampleNames, names gradient List.mem_cons_self]
      have joins : GradientOf (widenedOwn first samples properties data) parameter joined :=
        ⟨goes.named, sampleNames ▸ goes.referring, sameComponents ▸ goes.components,
          sameProperties, sameSamples ▸ refers⟩
      refine ⟨joined, ⟨(List.forall_mem_cons.mp all).2, ⟨unmerged, collected, _, emptied, united,
        made⟩, regular', joins⟩, .intro ?_ fun _ _ below => numbered _ below⟩
      rw [sameSamples]
      exact small
    obtain ⟨result, added, numbered⟩ := exists_joinPropertyGradients each
      ⟨hosted.validSamples.toRegular, regular.1.components, hosted.validProperties.toRegular⟩
      own.ordered fun _ none => absurd none List.not_mem_nil
    exact ⟨result, joinProperties_steps.mpr
      ⟨(checkAllComponents_eq_ok_iff regular.1.components regular.2).mpr components,
        checkSameParameters_eq_ok_iff.mpr parameters, hosted.room, lenders, lent, data, looked, _, built, added⟩,
      numbered⟩

/-! ### Valid labels -/

theorem labelled_ofValues {P : Labels → Prop} {values : Dense} {samples properties : Labels}
    {components : List Labels} {block : Block} (ofSamples : P samples)
    (ofComponents : ∀ labels ∈ components, P labels) (ofProperties : P properties)
    (h : ofValues values samples components properties = .ok block) : block.Labelled P := by
  obtain ⟨_, _, _, rfl⟩ := ofValues_eq_ok_iff.mp h
  exact .intro ⟨ofSamples, ofComponents, ofProperties⟩ fun _ _ none =>
    absurd none List.not_mem_nil

/-- What holds of all labels of a block and of a gradient holds of them together. -/
theorem labelled_addGradient {P : Labels → Prop} {block gradient result : Block}
    {parameter : String} (own : block.Labelled P) (inner : gradient.Labelled P)
    (h : block.addGradient parameter gradient = .ok result) : result.Labelled P := by
  rw [addGradient, check_bind_eq_ok, pure_eq_ok] at h
  rw [← h.2]
  refine .intro { own.own with } fun other below member => ?_
  rcases mem_insertGradient.mp member with same | old
  · cases same
    exact inner
  · exact own.inner old

/-- The rows of all gradients make valid labels. -/
theorem valid_unionSamples {parameter : String} {names : List String} {merged samples : Labels}
    {number : Nat} {gradients : List (Block × Array Nat)} {placed : List (Array Nat)}
    (valid : merged.Valid)
    (h : unionSamples parameter names merged number gradients = .ok (samples, placed)) :
    samples.Valid := by
  induction gradients generalizing merged number placed with
  | nil =>
    rw [unionSamples, Except.ok.injEq, Prod.mk.injEq] at h
    exact h.1 ▸ valid
  | cons entry gradients ih =>
    simp only [unionSamples, bind_eq_ok] at h
    obtain ⟨_, _, rows, _, own, built, ⟨union, first, second⟩, united, ⟨samples', others⟩, further,
      done⟩ := h
    obtain ⟨rfl, _⟩ := Prod.mk.inj (pure_eq_ok.mp done)
    have ownValid := (Labels.ofRows_eq_ok_iff.mp built).2
    obtain ⟨⟨agree, unionNames, unionRows⟩, _⟩ :=
      (Labels.unionWithPositions_eq_ok_iff valid.toRegular ownValid.toRegular).mp united
    exact ih (valid.union ownValid agree unionNames unionRows) further

section Labels

variable {others : List Block} {properties : Labels} {sources : List Source} {result final : Block}

/-- Joined gradients have valid labels when each of them has. -/
theorem labelled_joinPropertyGradients {gradients : List (String × Block)}
    {positions : List (Array Nat)}
    (inner : ∀ entry ∈ gradients, ∀ (others : List Block) (samples : Labels)
      (positions : List (Array Nat)) (joined : Block), samples.Valid →
        joinProperties entry.2 others samples positions properties sources = .ok joined →
          joined.Labelled Labels.Valid)
    (labelled : result.Labelled Labels.Valid)
    (h : joinPropertyGradients gradients others positions properties sources result = .ok final) :
    final.Labelled Labels.Valid := by
  induction gradients generalizing result with
  | nil =>
    rw [joinPropertyGradients, Except.ok.injEq] at h
    exact h ▸ labelled
  | cons entry gradients ih =>
    rw [List.forall_mem_cons] at inner
    simp only [joinPropertyGradients, bind_eq_ok] at h
    obtain ⟨_, _, unmerged, emptied, ⟨samples, placed⟩, united, joined, made, added, adds, rest⟩ :=
      h
    have emptyValid := (Labels.ofRows_eq_ok_iff.mp emptied).2
    have joinedLabelled := inner.1 _ _ _ joined (valid_unionSamples emptyValid united) made
    exact ih inner.2 (labelled_addGradient labelled joinedLabelled adds) rest

/-- Joined blocks have valid labels, whether or not their samples can be numbered. -/
theorem labelled_joinProperties {first : Block} (labelled : first.Labelled Labels.Valid)
    {samples : Labels} (valid : samples.Valid) (validProperties : properties.Valid)
    {positions : List (Array Nat)}
    (h : joinProperties first others samples positions properties sources = .ok result) :
    result.Labelled Labels.Valid := by
  induction labelled generalizing others samples positions result with
  | @intro first own _ ih =>
    obtain ⟨_, _, _, _, _, data, _, bare, built, rest⟩ := joinProperties_steps.mp h
    refine labelled_joinPropertyGradients ?_
      (labelled_ofValues valid own.components validProperties built) rest
    intro entry member _ _ _ _ valid' made
    exact ih entry.1 entry.2 member valid' made

end Labels

end LabeledBlocks.Block
