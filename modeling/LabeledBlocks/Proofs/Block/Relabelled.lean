import LabeledBlocks.Proofs.Block.Assembled

/-!
# Blocks with other labels of their samples

The labels of the samples say nothing about the values and the gradients, which know the samples by
their positions: as many other labels can stand in their place.

* `Block.relabelled` — a block with other labels of its samples.
* `Block.Consistent.relabelled` — it is as consistent as before.
* `Block.Assembled.relabelled` — it is assembled of the same parts.
-/

namespace LabeledBlocks.Block

def relabelled (block : Block) (samples : Labels) : Block :=
  { block with samples := samples }

variable {block : Block} {samples : Labels}

/-- A block with as many other labels is consistent if their names are not those of other axes. -/
theorem Consistent.relabelled (consistent : block.Consistent)
    (count : samples.count = block.samples.count)
    (names : ∀ name ∈ samples.names, name ∈ block.samples.names) :
    (block.relabelled samples).Consistent := by
  have own := consistent.own
  apply Everywhere.intro
  · refine ⟨?_, own.filled, own.bounded, own.distinctNames, ?_, own.ordered, ?_⟩
    · rw [labelledShape, Block.relabelled, count]
      exact own.shape
    · intro name isAxis
      have new := own.newNames name isAxis
      exact ⟨fun isSample => new.1 (names name isSample), new.2⟩
    · intro parameter gradient member
      have goes := own.gradients parameter gradient member
      refine ⟨goes.named, goes.referring, goes.components, goes.properties, ?_⟩
      rw [Block.relabelled, count]
      exact goes.inRange
  · exact fun parameter gradient member => consistent.inner member

theorem Labelled.relabelled {P : Labels → Prop} (labelled : block.Labelled P) (own : P samples) :
    (block.relabelled samples).Labelled P :=
  .intro ⟨own, labelled.own.components, labelled.own.properties⟩
    fun _ _ member => labelled.inner member

/-- A block with other labels is assembled of the same parts, in the same way. -/
theorem Assembled.relabelled {ι : Type} {isPart : ι → Prop} {column row : ι → Nat → Nat}
    {part : ι → Block} (h : Assembled isPart column part row block)
    (count : samples.count = block.samples.count) :
    Assembled isPart column part row (block.relabelled samples) := by
  cases h with
  | intro level names redirected deeper =>
    have same : (block.relabelled samples).samples.count = block.samples.count := count
    have rows := level.rows
    have zeros := level.zeros
    rw [← same] at rows zeros
    exact .intro ⟨level.components, level.parameters, rows, level.columns, level.values, zeros⟩
      names redirected deeper

end LabeledBlocks.Block
