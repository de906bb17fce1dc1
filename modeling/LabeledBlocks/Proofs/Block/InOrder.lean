import LabeledBlocks.Proofs.Block.Consistent
import LabeledBlocks.Proofs.Container.Contents
import LabeledBlocks.Proofs.Text.Utf8Canonical

/-!
# Gradients as they are listed

A container may list the gradients of a block in any order. Each is put at its place among those
before it, so that the block has them in the order of their parameters, at every depth. A block
whose gradients are listed in this order already stays what it is, and whatever the order was, the
pieces of the layout are the same.

* `Block.inOrder` — the block with its gradients in order.
* `Block.inOrder_eq_self` — nothing changes where they are in order.
* `Block.layout_inOrder` — the layout is rearranged.
-/

namespace LabeledBlocks.Block

mutual

/-- The block with its gradients, and theirs, in the order of the parameters. -/
def inOrder : Block → Block
  | ⟨values, samples, components, properties, gradients⟩ =>
    ⟨values, samples, components, properties, placeAll [] gradients⟩

/-- Puts gradients at their places among others, one after the other. -/
def placeAll : (placed listed : List (String × Block)) → List (String × Block)
  | placed, [] => placed
  | placed, (parameter, block) :: rest =>
    placeAll (insertGradient parameter block.inOrder placed) rest

end

/-- The gradients are listed in the order of the bytes of their parameters. -/
def ListedInOrder (block : Block) : Prop :=
  block.gradients.Pairwise fun a b => Utf8.encode a.1 < Utf8.encode b.1

instance : DecidablePred ListedInOrder := fun block =>
  inferInstanceAs (Decidable
    (block.gradients.Pairwise fun a b => Utf8.encode a.1 < Utf8.encode b.1))

theorem inOrder_eq (block : Block) :
    block.inOrder = { block with gradients := placeAll [] block.gradients } := by
  cases block
  rfl

theorem listedInOrder_iff {block : Block} :
    block.ListedInOrder ↔ block.parameters.Pairwise (· < ·) := by
  simp only [ListedInOrder, Utf8.encode_lt_encode_iff, parameters, List.pairwise_map]

/-- Nothing is lost when a gradient is put at its place. -/
theorem insertGradient_perm (parameter : String) (gradient : Block)
    (gradients : List (String × Block)) :
    (insertGradient parameter gradient gradients).Perm ((parameter, gradient) :: gradients) := by
  induction gradients with
  | nil => exact List.Perm.refl _
  | cons first rest ih =>
    obtain ⟨other, block⟩ := first
    rw [insertGradient]
    split
    · exact List.Perm.refl _
    · exact (ih.cons _).trans (List.Perm.swap ..)

/-- However they are listed, the same gradients are placed. -/
theorem placeAll_perm (placed listed : List (String × Block)) :
    (placeAll placed listed).Perm
      (placed ++ listed.map fun entry => (entry.1, entry.2.inOrder)) := by
  induction listed generalizing placed with
  | nil => simp [placeAll]
  | cons first rest ih =>
    obtain ⟨parameter, block⟩ := first
    rw [placeAll, List.map_cons]
    refine (ih _).trans (((insertGradient_perm ..).append_right _).trans ?_)
    exact List.perm_middle.symm

theorem length_placeAll (placed listed : List (String × Block)) :
    (placeAll placed listed).length = placed.length + listed.length := by
  simpa using (placeAll_perm placed listed).length_eq

/-! ### What stays -/

/-- Gradients that are in order stay where they are. -/
theorem placeAll_eq_append {placed listed : List (String × Block)}
    (ordered : ((placed ++ listed).map (·.1)).Pairwise (· < ·))
    (inner : ∀ entry ∈ listed, entry.2.inOrder = entry.2) :
    placeAll placed listed = placed ++ listed := by
  induction listed generalizing placed with
  | nil => rw [placeAll, List.append_nil]
  | cons first rest ih =>
    obtain ⟨parameter, block⟩ := first
    rw [List.forall_mem_cons] at inner
    have last : ∀ other ∈ placed.map (·.1), other < parameter := by
      rw [List.map_append, List.pairwise_append] at ordered
      exact fun other before => ordered.2.2 other before parameter List.mem_cons_self
    rw [List.append_cons] at ordered
    rw [placeAll, inner.1, insertGradient_eq_append last, ih ordered inner.2, ← List.append_cons]

/-- A block whose gradients are listed in order everywhere is its own ordered form. -/
theorem inOrder_eq_self {block : Block} (ordered : block.Everywhere ListedInOrder) :
    block.inOrder = block := by
  induction ordered with
  | @intro block own deeper ih =>
    have ordered : (([] ++ block.gradients).map Prod.fst).Pairwise (· < ·) :=
      listedInOrder_iff.mp own
    rw [inOrder_eq, placeAll_eq_append ordered fun entry member => ih _ _ member]
    exact eta block

/-- What does not depend on the gradients of a block stays true at every depth. -/
theorem everywhere_inOrder {P : Block → Prop} {block : Block} (h : block.Everywhere P)
    (own : ∀ block gradients, P block → P { block with gradients }) :
    block.inOrder.Everywhere P := by
  induction h with
  | @intro block here deeper ih =>
    rw [inOrder_eq]
    refine .intro (own _ _ here) fun parameter gradient member => ?_
    have member' := (placeAll_perm [] block.gradients).mem_iff.mp member
    rw [List.nil_append, List.mem_map] at member'
    obtain ⟨entry, listed, same⟩ := member'
    cases same
    exact ih entry.1 entry.2 listed

mutual

/-- The pieces of the layout are the same in another order. -/
theorem layout_inOrder : (block : Block) → block.inOrder.layout.Perm block.layout
  | ⟨values, samples, components, properties, gradients⟩ => by
    rw [inOrder, layout, layout, length_placeAll, List.length_nil, Nat.zero_add]
    exact (gradientLayout_placeAll [] gradients).append_left _

/-- The pieces of gradients stay the same when they are put at their places, up to their order. -/
theorem gradientLayout_placeAll : (placed listed : List (String × Block)) →
    (gradientLayout (placeAll placed listed)).Perm (gradientLayout placed ++ gradientLayout listed)
  | placed, [] => by simp [placeAll, gradientLayout]
  | placed, (parameter, block) :: rest => by
    have inserted : (gradientLayout (insertGradient parameter block.inOrder placed)).Perm
        (gradientLayout ((parameter, block.inOrder) :: placed)) := by
      rw [gradientLayout_eq_flatMap, gradientLayout_eq_flatMap]
      exact (insertGradient_perm ..).flatMap_right _
    have own : (Piece.string parameter ++ block.inOrder.layout).Perm
        (Piece.string parameter ++ block.layout) := (layout_inOrder block).append_left _
    rw [placeAll, gradientLayout]
    calc (gradientLayout (placeAll (insertGradient parameter block.inOrder placed) rest)).Perm
          (gradientLayout (insertGradient parameter block.inOrder placed) ++ gradientLayout rest) :=
        gradientLayout_placeAll _ rest
      List.Perm _ ((Piece.string parameter ++ block.inOrder.layout ++ gradientLayout placed) ++
          gradientLayout rest) := by
        rw [gradientLayout] at inserted
        exact inserted.append_right _
      List.Perm _ ((Piece.string parameter ++ block.layout ++ gradientLayout placed) ++
          gradientLayout rest) := (own.append_right _).append_right _
      List.Perm _ _ := by
        rw [← List.append_assoc]
        exact List.perm_append_comm.append_right _

end

end LabeledBlocks.Block
