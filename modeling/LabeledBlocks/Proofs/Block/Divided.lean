import LabeledBlocks.Proofs.Block.Merges

/-!
# Divided blocks

A block is divided into parts when each of its samples goes to exactly one of them. A part keeps its
samples in their order, and the rows of the gradients go where their samples go, in their order and
with the sample numbers that their samples have in the part. So every gradient row, too, goes to
exactly one part, at every depth.

* `Block.Divided` — a block is divided into parts.
* `Block.partition_positionsWhere` — rows are distributed by what they have.
* `Block.partition_rowsOf` — rows are distributed like the samples that they belong to.
* `Block.divided_of_gathered` — parts that are gathered from the samples divide the block.
-/

namespace LabeledBlocks.Block

/-! ### Rows of samples -/

/-- Does the row of a gradient belong to one of the samples at these positions? -/
def belongs (positions : List Nat) : Row → Bool
  | [] => false
  | number :: _ => number.toInt.toNat ∈ positions

/-- Where the rows stand that have a property. -/
def positionsWhere (p : Row → Bool) (rows : List Row) : List Nat :=
  (rows.zipIdx.filter fun entry => p entry.1).map (·.2)

/-- Where the rows of a gradient stand that belong to the samples at these positions. -/
def rowsOf (positions : List Nat) (rows : List Row) : List Nat :=
  positionsWhere (belongs positions) rows

/-- The positions are distributed: each of those below `count` is in exactly one of the lists, which
are increasing. -/
structure Partition (positions : List (List Nat)) (count : Nat) : Prop where
  once : positions.flatten.Perm (List.range count)
  increasing : ∀ own ∈ positions, own.Pairwise (· < ·)

/-! ### Dividing -/

/-- A part has the samples of a block at these positions, with all their values. -/
structure Takes (block : Block) (positions : List Nat) (part : Block) : Prop where
  components : part.components = block.components
  properties : part.properties = block.properties
  parameters : part.parameters = block.parameters
  count : part.samples.count = positions.length
  values : ∀ (j n : Nat), positions[j]? = some n → part.valueRow j = block.valueRow n

/-- Each of the parts has the samples at its positions, and the gradients have the rows that belong
to these samples, with the positions of the samples in the part as sample numbers. -/
inductive Divided : (block : Block) → (positions : List (List Nat)) → (parts : List Block) →
    Prop where
  | intro {block : Block} {positions : List (List Nat)} {parts : List Block}
      (partition : Partition positions block.samples.count)
      (taken : List.Forall₂ (Takes block) positions parts)
      (names : ∀ parameter gradient, (parameter, gradient) ∈ block.gradients →
        ∀ other ∈ gradientsFor parameter parts, other.samples.names = gradient.samples.names)
      (rows : ∀ parameter gradient, (parameter, gradient) ∈ block.gradients →
        List.Forall₂
          (fun own part => List.Forall₂
            (fun n moved => ∃ row, gradient.samples.rows[n]? = some row ∧
              Renumbered (samplesAt 0 own) 0 row moved)
            (rowsOf own gradient.samples.rows) part.samples.rows)
          positions (gradientsFor parameter parts))
      (deeper : ∀ parameter gradient, (parameter, gradient) ∈ block.gradients →
        Divided gradient (positions.map (rowsOf · gradient.samples.rows))
          (gradientsFor parameter parts)) :
      Divided block positions parts

/-! ### Rows are distributed like their samples -/

theorem mem_positionsWhere {p : Row → Bool} {rows : List Row} {n : Nat} :
    n ∈ positionsWhere p rows ↔ ∃ row, rows[n]? = some row ∧ p row = true := by
  simp only [positionsWhere, List.mem_map, List.mem_filter, Prod.exists, exists_eq_right,
    List.mem_zipIdx_iff_getElem?]

theorem pairwise_positionsWhere (p : Row → Bool) (rows : List Row) :
    (positionsWhere p rows).Pairwise (· < ·) := by
  have positions : (rows.zipIdx.map (·.2)).Pairwise (· < ·) := by
    rw [List.zipIdx_map_snd, ← List.range_eq_range']
    exact List.pairwise_lt_range
  exact positions.sublist (List.filter_sublist.map _)

/-- Properties of which every row has exactly one distribute the rows. -/
theorem partition_positionsWhere {ps : List (Row → Bool)} {rows : List Row}
    (apart : ps.Pairwise fun p q => ∀ row, p row = true → q row = true → False)
    (total : ∀ row ∈ rows, ∃ p ∈ ps, p row = true) :
    Partition (ps.map (positionsWhere · rows)) rows.length := by
  have increasing : ∀ own ∈ ps.map (positionsWhere · rows), own.Pairwise (· < ·) := by
    intro _ isOne
    obtain ⟨p, _, rfl⟩ := List.mem_map.mp isOne
    exact pairwise_positionsWhere p rows
  refine ⟨(List.perm_ext_iff_of_nodup ?_ List.nodup_range).mpr fun n => ?_, increasing⟩
  · apply List.nodup_flatten.mpr
    refine ⟨fun own isOne => (increasing own isOne).imp Nat.ne_of_lt, List.pairwise_map.mpr ?_⟩
    apply apart.imp
    intro p q never n member member'
    obtain ⟨row, standing, holds⟩ := mem_positionsWhere.mp member
    obtain ⟨row', standing', holds'⟩ := mem_positionsWhere.mp member'
    obtain rfl := Option.some.inj (standing.symm.trans standing')
    exact never row holds holds'
  · rw [List.mem_range, List.mem_flatten]
    constructor
    · rintro ⟨_, isOne, member⟩
      obtain ⟨p, _, rfl⟩ := List.mem_map.mp isOne
      obtain ⟨_, standing, _⟩ := mem_positionsWhere.mp member
      exact (List.getElem?_eq_some_iff.mp standing).1
    · intro inside
      obtain ⟨p, isOne, holds⟩ := total _ (List.getElem_mem inside)
      exact ⟨_, List.mem_map_of_mem isOne,
        mem_positionsWhere.mpr ⟨_, List.getElem?_eq_getElem inside, holds⟩⟩

theorem belongs_iff {own : List Nat} {row : Row} : belongs own row = true ↔
    ∃ number rest, row = number :: rest ∧ number.toInt.toNat ∈ own := by
  cases row with
  | nil => simp [belongs]
  | cons number rest => simp [belongs]

/-- Every row belongs to the samples of exactly one part. -/
theorem partition_rowsOf {positions : List (List Nat)} {rows : List Row} {count : Nat}
    (partition : Partition positions count) (refers : ∀ row ∈ rows, Refers count row) :
    Partition (positions.map (rowsOf · rows)) rows.length := by
  have nodup := partition.once.nodup_iff.mpr List.nodup_range
  have parted : Partition ((positions.map belongs).map (positionsWhere · rows)) rows.length := by
    apply partition_positionsWhere
    · apply List.pairwise_map.mpr
      apply (List.nodup_flatten.mp nodup).2.imp
      intro own other apart row member member'
      obtain ⟨number, rest, rfl, here⟩ := belongs_iff.mp member
      obtain ⟨_, _, same, there⟩ := belongs_iff.mp member'
      obtain ⟨rfl, -⟩ := List.cons.inj same
      exact apart here there
    · intro row isRow
      obtain ⟨number, rest, rfl, positive, small⟩ := refers row isRow
      have isSample : number.toInt.toNat ∈ positions.flatten := by
        rw [partition.once.mem_iff, List.mem_range]
        omega
      obtain ⟨own, isOne, member⟩ := List.mem_flatten.mp isSample
      exact ⟨_, List.mem_map_of_mem isOne, belongs_iff.mpr ⟨number, rest, rfl, member⟩⟩
  rwa [List.map_map] at parted

/-! ### Gathered parts -/

/-- Exactly the rows that belong to the samples follow them. -/
theorem map_snd_followingRows (own : List Nat) (rows : List Row) :
    (followingRows own rows).map (·.2) = rowsOf own rows := by
  rw [followingRows, rowsOf, positionsWhere, List.map_filterMap, ← List.filterMap_eq_filter,
    List.map_filterMap]
  apply List.filterMap_congr
  rintro ⟨row, n⟩ _
  cases row with
  | nil => rfl
  | cons number rest =>
    by_cases member : number.toInt.toNat ∈ own
    · have isTrue : belongs own (number :: rest) = true := decide_eq_true member
      rw [follow, idxOf?_of_mem member]
      simp [Option.guard, isTrue]
    · have isFalse : belongs own (number :: rest) = false := decide_eq_false member
      rw [follow, List.idxOf?_eq_none_iff.mpr member]
      simp [Option.guard, isFalse]

/-- The rows that follow are renumbered, each at its place. -/
theorem forall₂_followingRows {own : List Nat} (small : own.length ≤ 2 ^ 31) (rows : List Row) :
    List.Forall₂ (fun n moved => ∃ row, rows[n]? = some row ∧
        Renumbered (samplesAt 0 own) 0 row moved)
      (rowsOf own rows) ((followingRows own rows).map (·.1)) := by
  rw [← map_snd_followingRows, List.forall₂_map_left_iff, List.forall₂_map_right_iff,
    List.forall₂_same]
  rintro ⟨moved, n⟩ member
  obtain ⟨⟨row, n'⟩, isRow, same⟩ := List.mem_filterMap.mp member
  obtain ⟨_, followed, same⟩ := Option.map_eq_some_iff.mp same
  obtain ⟨rfl, rfl⟩ := Prod.mk.inj same
  refine ⟨row, List.mem_zipIdx_iff_getElem?.mp isRow, ?_⟩
  have place : placeOf (samplesAt 0 own) 0 = own.idxOf? := funext (placeOf_samplesAt 0 own)
  apply renumbered_of_follow
  · rwa [samplesAt, List.length_map]
  · rwa [place]

theorem takes_of_gathered {block part : Block} {own : List Nat}
    (level : GatheredLevel [block] (samplesAt 0 own) part) : Takes block own part := by
  have one := List.mem_singleton_self block
  refine ⟨(level.components block one).symm, (level.properties block one).symm,
    (level.parameters block one).symm, ?_, ?_⟩
  · rw [level.count, samplesAt, List.length_map]
  · intro j n standing
    exact level.values j ⟨0, n⟩ block (by rw [getElem?_samplesAt, standing]; rfl) rfl

/-- What the gradient of a part has of the gradient of the block. -/
structure IsGradientPart (gradient : Block) (own : List Nat) (part : Block) : Prop where
  names : part.samples.names = gradient.samples.names
  rows : part.samples.rows = (followingRows own gradient.samples.rows).map (·.1)
  gathered : Gathered [gradient] (samplesAt 0 (rowsOf own gradient.samples.rows)) part

/-- What is gathered of a gradient is a part of it. -/
theorem Gathered.isGradientPart {block gradient part inside : Block} {own : List Nat}
    {parameter : String} (h : Gathered [block] (samplesAt 0 own) part)
    (has : block.gradient? parameter = some gradient)
    (member : (parameter, inside) ∈ part.gradients) : IsGradientPart gradient own inside := by
  have alone := gradientsFor_singleton has
  cases h with
  | intro _ names rows deeper =>
    have rows := rows parameter inside member
    have deeper := deeper parameter inside member
    rw [alone, map_fst_following_samplesAt rfl] at rows
    rw [alone, map_snd_following_samplesAt rfl, map_snd_followingRows] at deeper
    have isOne : gradient ∈ gradientsFor parameter [block] := alone ▸ List.mem_singleton_self _
    exact ⟨(names parameter inside member gradient isOne).symm, rows, deeper⟩

/-- Parts that are gathered from the samples divide the block. -/
theorem divided_of_gathered {block : Block} {positions : List (List Nat)} {parts : List Block}
    (consistent : block.Consistent) (numbered : block.Numbered)
    (partition : Partition positions block.samples.count)
    (gathered : List.Forall₂ (fun own part => Gathered [block] (samplesAt 0 own) part ∧
      part.Consistent) positions parts) :
    Divided block positions parts := by
  induction consistent generalizing positions parts with
  | @intro block own deeper ih =>
    have one := List.mem_singleton_self block
    have small : ∀ own ∈ positions, own.length ≤ 2 ^ 31 := by
      intro own isOne
      have few := (List.sublist_flatten_of_mem isOne).length_le
      rw [partition.once.length_eq, List.length_range] at few
      exact Nat.le_trans few numbered.own
    have taken := gathered.imp fun _ _ h => takes_of_gathered h.1.level
    have parameters : ∀ parameter gradient, (parameter, gradient) ∈ block.gradients →
        ∀ part ∈ parts, parameter ∈ part.parameters := by
      intro parameter gradient member part isPart
      obtain ⟨_, _, takes⟩ := exists_of_mem_right taken isPart
      rw [takes.parameters]
      exact List.mem_map_of_mem (f := Prod.fst) member
    have inner : ∀ parameter gradient, (parameter, gradient) ∈ block.gradients →
        List.Forall₂ (fun own part => IsGradientPart gradient own part ∧ part.Consistent)
          positions (gradientsFor parameter parts) := by
      intro parameter gradient member
      have has := (gradient?_eq_some own.ordered).mpr member
      apply forall₂_gradientsFor gathered (parameters parameter gradient member)
      rintro own part inside ⟨gathered, consistent⟩ found
      have isInside := (gradient?_eq_some consistent.own.ordered).mp found
      exact ⟨gathered.isGradientPart has isInside, consistent.inner isInside⟩
    apply Divided.intro partition taken
    · intro parameter gradient member other isOther
      obtain ⟨_, _, known⟩ := exists_of_mem_right (inner parameter gradient member) isOther
      exact known.1.names
    · intro parameter gradient member
      apply forall₂_imp_of_mem (inner parameter gradient member)
      intro own isOne part _ known
      rw [known.1.rows]
      exact forall₂_followingRows (small own isOne) gradient.samples.rows
    · intro parameter gradient member
      have refers := (own.gradients parameter gradient member).inRange
      apply ih parameter gradient member (numbered.inner member)
      · rw [gradient.samples.count_eq]
        exact partition_rowsOf partition refers
      · rw [List.forall₂_map_left_iff]
        exact (inner parameter gradient member).imp fun _ _ known => ⟨known.1.gathered, known.2⟩

end LabeledBlocks.Block
