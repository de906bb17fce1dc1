import LabeledBlocks.Proofs.Block.Gathered
import Mathlib.Data.List.Sort

/-!
# Merged blocks

A block that is gathered from all samples of some blocks, each of them once, loses nothing: every
row of a gradient is there, once, and refers to what has become of its sample.

* `Block.Arranged` — rows in the order in which they are given, or sorted.
* `Block.Merges` — a block has all samples of some blocks, and all rows of their gradients.
* `Block.Gathered.merges` — what is gathered from all samples is merged.
-/

namespace LabeledBlocks.Block

/-! ### The order of the rows -/

/-- The same rows, in the given order or in increasing lexicographic order. -/
def Arranged (sorted : Bool) (rows arranged : List (Row × Source)) : Prop :=
  if sorted then arranged.Perm rows ∧ arranged.Pairwise fun a b => a.1 < b.1 else arranged = rows

theorem Arranged.perm {sorted : Bool} {rows arranged : List (Row × Source)}
    (h : Arranged sorted rows arranged) : arranged.Perm rows := by
  cases sorted with
  | false => exact List.Perm.of_eq h
  | true => exact h.1

/-- Rows are compared value by value. -/
theorem compare_eq_lt_iff {a b : Row} : compare a b = .lt ↔ a < b := by
  induction a generalizing b with
  | nil =>
    cases b with
    | nil => simp
    | cons y b => simp
  | cons x a ih =>
    cases b with
    | nil => simp
    | cons y b =>
      rw [List.compare_cons_cons, Ordering.then_eq_lt, ih, List.cons_lt_cons_iff,
        Std.compare_eq_lt, Std.LawfulEqOrd.compare_eq_iff_eq]

theorem sortRows_perm (rows : List (Row × Source)) : (sortRows rows).Perm rows :=
  List.mergeSort_perm rows _

theorem isLE_or_isLE (a b : Row) : ((compare a b).isLE || (compare b a).isLE) = true := by
  have swap : compare b a = (compare a b).swap := Std.OrientedCmp.eq_swap
  rw [swap]
  cases compare a b with
  | lt => rfl
  | eq => rfl
  | gt => rfl

theorem pairwise_isLE_sortRows (rows : List (Row × Source)) :
    (sortRows rows).Pairwise fun a b => (compare a.1 b.1).isLE = true :=
  List.pairwise_mergeSort (fun _ _ _ => Std.TransCmp.isLE_trans) (fun a b => isLE_or_isLE a.1 b.1)
    rows

/-- Distinct rows are in strictly increasing order when they have been sorted. -/
theorem pairwise_sortRows {rows : List (Row × Source)} (nodup : (rows.map (·.1)).Nodup) :
    (sortRows rows).Pairwise fun a b => a.1 < b.1 := by
  have different : (sortRows rows).Pairwise fun a b => a.1 ≠ b.1 :=
    List.pairwise_map.mp (((sortRows_perm rows).map _).nodup_iff.mpr nodup)
  refine ((pairwise_isLE_sortRows rows).and different).imp ?_
  rintro a b ⟨le, ne⟩
  rw [← compare_eq_lt_iff]
  cases order : compare a.1 b.1 with
  | lt => rfl
  | eq => exact absurd (Std.LawfulEqOrd.eq_of_compare order) ne
  | gt =>
    rw [order] at le
    cases le

/-- A member is put behind the smaller ones and in front of the larger ones. -/
theorem orderedInsert_append {α : Type} {r : α → α → Prop} [DecidableRel r] {a : α}
    {smaller larger : List α} (before : ∀ b ∈ smaller, ¬r a b) (behind : ∀ b ∈ larger, r a b) :
    (smaller ++ larger).orderedInsert r a = smaller ++ a :: larger := by
  induction smaller with
  | nil =>
    cases larger with
    | nil => rfl
    | cons next larger =>
      exact List.orderedInsert_cons_of_le r larger (behind next List.mem_cons_self)
  | cons first smaller ih =>
    rw [List.forall_mem_cons] at before
    rw [List.cons_append, List.orderedInsert_of_not_le r _ before.1, ih before.2, List.cons_append]

/-- Sorting by insertion, which can be evaluated step by step, gives the same. -/
theorem sortRows_eq_insertionSort (rows : List (Row × Source)) :
    sortRows rows = rows.insertionSort fun a b => (compare a.1 b.1).isLE = true := by
  induction rows with
  | nil => exact List.mergeSort_nil
  | cons entry rows ih =>
    obtain ⟨smaller, larger, whole, rest, before⟩ := List.mergeSort_cons
      (fun _ _ _ => Std.TransCmp.isLE_trans) (fun a b : Row × Source => isLE_or_isLE a.1 b.1)
      entry rows
    have ordered := pairwise_isLE_sortRows (entry :: rows)
    rw [sortRows, whole, List.pairwise_append, List.pairwise_cons] at ordered
    rw [sortRows, rest] at ih
    rw [sortRows, whole, List.insertionSort_cons, ← ih, orderedInsert_append _ ordered.2.1.1]
    simpa using before

/-- Rows that turn out to be different are arranged as asked for. -/
theorem arranged_sortRows {rows : List (Row × Source)} {sorted : Bool}
    (nodup : ((if sorted then sortRows rows else rows).map (·.1)).Nodup) :
    Arranged sorted rows (if sorted then sortRows rows else rows) := by
  cases sorted with
  | false => rfl
  | true =>
    have perm := sortRows_perm rows
    exact ⟨perm, pairwise_sortRows ((perm.map _).nodup_iff.mp nodup)⟩

/-- Whether the rows are sorted or not, they are the same. -/
theorem ite_sortRows_perm (rows : List (Row × Source)) (sorted : Bool) :
    (if sorted then sortRows rows else rows).Perm rows := by
  cases sorted with
  | false => exact .refl _
  | true => exact sortRows_perm rows

/-! ### Nothing is lost -/

/-- A gradient row of the block at this position, as it is when it refers to the position that its
sample has among the sources. -/
def Renumbered (sources : List Source) (block : Nat) (row moved : Row) : Prop :=
  ∃ reference reference' rest, row = reference :: rest ∧ moved = reference' :: rest ∧
    0 ≤ reference'.toInt ∧
    sources[reference'.toInt.toNat]? = some ⟨block, reference.toInt.toNat⟩

/-- A block has all samples of some blocks, each of them once, and at every depth all rows of their
gradients, each of them once, one block after the other. -/
inductive Merges : (blocks : List Block) → (sources : List Source) → (result : Block) → Prop where
  | intro {blocks : List Block} {sources : List Source} {result : Block}
      (level : GatheredLevel blocks sources result)
      (complete : sources.Perm ((sourcedRows blocks).map (·.2)))
      (names : ∀ parameter gradient, (parameter, gradient) ∈ result.gradients →
        ∀ other ∈ gradientsFor parameter blocks, other.samples.names = gradient.samples.names)
      (rows : ∀ parameter gradient, (parameter, gradient) ∈ result.gradients →
        List.Forall₂ (fun entry moved => Renumbered sources entry.2.block entry.1 moved)
          (sourcedRows (gradientsFor parameter blocks)) gradient.samples.rows)
      (deeper : ∀ parameter gradient, (parameter, gradient) ∈ result.gradients →
        Merges (gradientsFor parameter blocks)
          ((sourcedRows (gradientsFor parameter blocks)).map (·.2)) gradient) :
      Merges blocks sources result

/-- A row that follows its sample is renumbered. -/
theorem renumbered_of_follow {sources : List Source} {block : Nat} {row moved : Row}
    (small : sources.length ≤ 2 ^ 31) (followed : follow (placeOf sources block) row = some moved) :
    Renumbered sources block row moved := by
  obtain ⟨reference, rest, j, rfl, placed, rfl⟩ := follow_eq_some_iff.mp followed
  obtain ⟨inside, here, _⟩ := List.idxOf?_eq_some_iff.mp placed
  have number : (Int32.ofNat j).toInt = j := Int32.toInt_ofNat_of_lt (by omega)
  refine ⟨reference, Int32.ofNat j, rest, rfl, rfl, by omega, ?_⟩
  rw [number, Int.toNat_natCast, List.getElem?_eq_getElem inside, here]

section Complete

variable {blocks : List Block} {sources : List Source} {parameter : String}
  (complete : sources.Perm ((sourcedRows blocks).map (·.2)))
  (consistent : ∀ block ∈ blocks, block.Consistent)
  (all : ∀ block ∈ blocks, parameter ∈ block.parameters)

include complete consistent all

/-- If all samples are there, every row of a gradient follows its sample. -/
theorem exists_follow {entry : Row × Source}
    (member : entry ∈ sourcedRows (gradientsFor parameter blocks)) :
    ∃ moved, follow (placeOf sources entry.2.block) entry.1 = some moved := by
  obtain ⟨row, b, n⟩ := entry
  obtain ⟨gradient, found, isRow⟩ := mem_sourcedRows.mp member
  dsimp only at found isRow ⊢
  rw [getElem?_gradientsFor all, Option.bind_eq_some_iff] at found
  obtain ⟨block, standing, has⟩ := found
  have wellFormed := (consistent block (List.mem_of_getElem? standing)).own
  have listed := (gradient?_eq_some wellFormed.ordered).mp has
  have goes := wellFormed.gradients parameter gradient listed
  obtain ⟨reference, rest, rfl, positive, small⟩ := goes.inRange row (List.mem_of_getElem? isRow)
  have inside : reference.toInt.toNat < block.samples.rows.length := by
    rw [← block.samples.count_eq]
    omega
  have isSource : (⟨b, reference.toInt.toNat⟩ : Source) ∈ sources := by
    rw [complete.mem_iff, List.mem_map]
    exact ⟨(_, _), mem_sourcedRows.mpr ⟨block, standing, List.getElem?_eq_getElem inside⟩, rfl⟩
  obtain ⟨j, placed⟩ := Option.isSome_iff_exists.mp (List.isSome_idxOf?.mpr isSource)
  refine ⟨Int32.ofNat j :: rest, ?_⟩
  rw [follow, placeOf, placed, Option.map_some]

/-- If all samples are there, all rows of a gradient follow. -/
theorem forall₂_following :
    List.Forall₂ (fun entry kept => follow (placeOf sources entry.2.block) entry.1 = some kept.1 ∧
        kept.2 = entry.2)
      (sourcedRows (gradientsFor parameter blocks))
      (following sources (gradientsFor parameter blocks)) := by
  refine (forall₂_filterMap fun entry member => ?_).imp ?_
  · obtain ⟨moved, followed⟩ := exists_follow complete consistent all member
    rw [followed]
    rfl
  · rintro entry kept same
    obtain ⟨moved, followed, rfl⟩ := Option.map_eq_some_iff.mp same
    exact ⟨followed, rfl⟩

theorem map_snd_following :
    (following sources (gradientsFor parameter blocks)).map (·.2) =
      (sourcedRows (gradientsFor parameter blocks)).map (·.2) := by
  have all₂ := forall₂_following complete consistent all
  exact (map_eq_map_of_forall₂ all₂ fun _ _ followed => followed.2.symm).symm

end Complete

/-- What is gathered from all samples is merged. -/
theorem Gathered.merges {blocks : List Block} {sources : List Source} {result : Block}
    (h : Gathered blocks sources result)
    (complete : sources.Perm ((sourcedRows blocks).map (·.2)))
    (consistent : ∀ block ∈ blocks, block.Consistent) (numbered : result.Numbered) :
    Merges blocks sources result := by
  induction h with
  | @intro blocks sources result level names rows deeper ih =>
    have small : sources.length ≤ 2 ^ 31 := level.count ▸ numbered.own
    refine .intro level complete names ?_ ?_
    · intro parameter gradient member
      have all := level.mem_parameters member
      rw [rows parameter gradient member, List.forall₂_map_right_iff]
      exact (forall₂_following complete consistent all).imp fun _ _ h =>
        renumbered_of_follow small h.1
    · intro parameter gradient member
      have same := map_snd_following complete consistent (level.mem_parameters member)
      rw [← same]
      exact ih parameter gradient member (same ▸ List.Perm.refl _)
        (everywhere_gradientsFor (fun block one => (consistent block one).own) consistent)
        (numbered.inner member)

end LabeledBlocks.Block
