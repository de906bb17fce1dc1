import LabeledBlocks.Proofs.Block.Following
import LabeledBlocks.Proofs.Block.Merges

/-!
# Room for joined blocks

The array of a joined block is made before anything is copied into it, and there is none whose axes
span too much, even if an empty axis leaves it without values. What is asked for depends on the
components and on how many samples are taken: at the top those that are told, in the gradients those
whose rows follow. When all samples are taken, it is the samples of all blocks together.

* `Block.TakenShape` — the shapes that are asked for when samples of some blocks are taken.
* `Block.StackedShape`, `Block.Roomy` — those for all samples, and that there can be such arrays.
* `Block.TakenShape.stacked`, `Block.TakenShape.span_le` — nothing asks for more than all samples.
-/

namespace LabeledBlocks.Block

variable {blocks : List Block} {sources : List Source} {shape : List Nat}

/-- The lengths of the axes behind the samples. -/
def sampleShape (block : Block) : List Nat :=
  block.components.map Labels.count ++ [block.properties.count]

theorem WellFormed.tail_shape {block : Block} (wellFormed : block.WellFormed) :
    block.values.shape.tail = block.sampleShape := by
  rw [wellFormed.shape]
  rfl

/-- The shapes of the arrays that are made when samples of some blocks are taken, for the first of
them and, at every depth, for the gradients that all of them have. -/
inductive TakenShape : (blocks : List Block) → (sources : List Source) → List Nat → Prop where
  | own {blocks : List Block} {sources : List Source} {first : Block}
      (isFirst : blocks.head? = some first) :
      TakenShape blocks sources (sources.length :: first.sampleShape)
  | deeper {blocks : List Block} {sources : List Source} {parameter : String} {shape : List Nat}
      (all : ∀ block ∈ blocks, parameter ∈ block.parameters)
      (inner : TakenShape (gradientsFor parameter blocks)
        ((following sources (gradientsFor parameter blocks)).map (·.2)) shape) :
      TakenShape blocks sources shape

/-- The shapes of arrays with the samples of all of the blocks, and of arrays with the samples of all
gradients with respect to a parameter that all of the blocks have, at every depth. -/
inductive StackedShape : (blocks : List Block) → List Nat → Prop where
  | own {blocks : List Block} {block : Block} (member : block ∈ blocks) :
      StackedShape blocks
        ((blocks.map fun block => block.samples.count).sum :: block.sampleShape)
  | deeper {blocks : List Block} {parameter : String} {shape : List Nat}
      (all : ∀ block ∈ blocks, parameter ∈ block.parameters)
      (inner : StackedShape (gradientsFor parameter blocks) shape) : StackedShape blocks shape

theorem not_stackedShape_nil : ¬StackedShape [] shape := by
  intro stacked
  generalize none : ([] : List Block) = blocks at stacked
  induction stacked with
  | own member => exact absurd (none ▸ member) List.not_mem_nil
  | deeper _ _ ih => exact ih (none ▸ rfl)

/-- There can be arrays for the samples of all blocks together, at every depth. -/
def Roomy (blocks : List Block) : Prop :=
  ∀ shape, StackedShape blocks shape → Dense.span shape ≤ Dense.maxLength

/-- When all samples are taken, arrays are asked for with all of them. -/
theorem TakenShape.stacked (taken : TakenShape blocks sources shape)
    (complete : sources.Perm ((sourcedRows blocks).map (·.2)))
    (consistent : ∀ block ∈ blocks, block.Consistent) : StackedShape blocks shape := by
  induction taken with
  | @own blocks sources first isFirst =>
    rw [complete.length_eq, List.length_map, length_sourcedRows]
    exact .own (List.mem_of_mem_head? isFirst)
  | @deeper blocks sources parameter shape all _ ih =>
    refine .deeper all (ih (.of_eq (map_snd_following complete consistent all)) ?_)
    exact everywhere_gradientsFor (fun block member => (consistent block member).own) consistent

/-- Whichever samples are taken, what is asked for spans no more than arrays with all samples. -/
theorem TakenShape.span_le (taken : TakenShape blocks sources shape) (nodup : sources.Nodup)
    (inRange : ∀ source ∈ sources, InRange blocks source) :
    ∃ whole, StackedShape blocks whole ∧ Dense.span shape ≤ Dense.span whole := by
  induction taken with
  | own isFirst =>
    exact ⟨_, .own (List.mem_of_mem_head? isFirst),
      Dense.span_mono (length_sources_le nodup inRange) (Nat.le_refl _)⟩
  | deeper all _ ih =>
    obtain ⟨whole, stacked, le⟩ := ih (nodup_following _ _) inRange_following
    exact ⟨whole, .deeper all stacked, le⟩

theorem Roomy.taken (roomy : Roomy blocks) (taken : TakenShape blocks sources shape)
    (nodup : sources.Nodup) (inRange : ∀ source ∈ sources, InRange blocks source) :
    Dense.span shape ≤ Dense.maxLength := by
  obtain ⟨whole, stacked, le⟩ := taken.span_le nodup inRange
  exact Nat.le_trans le (roomy whole stacked)

/-- There was room for the samples of all blocks if a consistent block was gathered of them. -/
theorem Gathered.roomy {result : Block} (h : Gathered blocks sources result)
    (complete : sources.Perm ((sourcedRows blocks).map (·.2)))
    (consistent : ∀ block ∈ blocks, block.Consistent) (consistent' : result.Consistent) :
    Roomy blocks := by
  intro shape stacked
  induction stacked generalizing sources result with
  | @own blocks block member =>
    have level := h.level
    have bounded := consistent'.own.bounded
    rwa [consistent'.own.shape, labelledShape, ← level.components block member,
      ← level.properties block member, level.count, complete.length_eq, List.length_map,
      length_sourcedRows] at bounded
  | @deeper blocks parameter shape all inner ih =>
    cases blocks with
    | nil => exact absurd inner not_stackedShape_nil
    | cons first others =>
      obtain ⟨level, _, _, deeper⟩ := h
      have has := all first List.mem_cons_self
      rw [level.parameters first List.mem_cons_self] at has
      obtain ⟨⟨_, gradient⟩, isGradient, rfl⟩ := List.mem_map.mp has
      exact ih (deeper _ gradient isGradient)
        (.of_eq (map_snd_following complete consistent all))
        (everywhere_gradientsFor (fun block member => (consistent block member).own) consistent)
        (consistent'.inner isGradient)

end LabeledBlocks.Block
