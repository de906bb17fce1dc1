import LabeledBlocks.Block.Joining
import LabeledBlocks.Labels.SetOperations

/-!
# Joining blocks along their properties

The result has properties of its own, each a copy of a property of one of the blocks, for samples
that the blocks share. A block need not have all of these samples: a value that its block does
not have is zero. This happens in gradients, where the blocks may have rows for different
samples, and the result has the rows of all of them.

* `Block.joinProperties` joins blocks, of which it is told the first, and their gradients.
-/

namespace LabeledBlocks.Block

/-- Refuses the first of some blocks, counted from `position`, that has other components than
the first block. -/
def checkAllComponents (components : List Labels) (position : Nat) :
    List Block → Except Error Unit
  | [] => .ok ()
  | block :: blocks => do
    checkSameComponents position components block.components
    checkAllComponents components (position + 1) blocks

/-- A block that lends its properties: its values, how many properties it has, and which of its
samples stands at each sample of the result. -/
structure Lender where
  values : Dense
  propertyCount : Nat
  sampleAt : Array (Option Nat)

/-- Prepares a block whose sample `r` is to stand at position `positions[r]` of `count`. -/
def lender (count : Nat) (block : Block) (positions : Array Nat) : Except Error Lender :=
  if positions.all (· < count) then
    .ok ⟨block.values, block.properties.count, inverse count positions.toList⟩
  else .error (.outOfRange .sample)

/-- The value at a sample and an index of the components, of which there are `componentSize`,
for the property at `source`. -/
def lentValue (lenders : Array Lender) (componentSize sample component : Nat) (source : Source) :
    Except Error FloatBits :=
  match lenders[source.block]? with
  | none => .error (.outOfRange .block)
  | some lender =>
    match lender.sampleAt[sample]? with
    | none => .error (.outOfRange .sample)
    | some none => .ok 0
    | some (some own) =>
      lender.values.value
        ((own * componentSize + component) * lender.propertyCount + source.index)

/-- All values of the result, which has none without properties. -/
def propertyValues (lenders : Array Lender) (sampleCount componentSize : Nat)
    (sources : List Source) : Except Error (Array FloatBits) := do
  if sources.isEmpty then
    return #[]
  let rows ← (List.range sampleCount).mapM fun sample =>
    (List.range componentSize).mapM fun component =>
      sources.mapM (lentValue lenders componentSize sample component)
  pure rows.flatten.flatten.toArray

/-- The gradient rows of one block with their references moved along with the samples. -/
def movedRows (positions : Array Nat) (rows : List Row) : Except Error (List Row) :=
  rows.mapM fun row => do
    let (position, rest) ← reference positions row
    pure (Int32.ofNat position :: rest)

/-- The union of the moved samples of some gradients, counted from `number`, with those
`merged` so far, and where the samples of each of them stand in it. -/
def unionSamples (parameter : String) (names : List String) (merged : Labels) (number : Nat) :
    List (Block × Array Nat) → Except Error (Labels × List (Array Nat))
  | [] => .ok (merged, [])
  | (gradient, positions) :: gradients => do
    checkSampleNames parameter names number [gradient]
    let rows ← movedRows positions gradient.samples.rows
    let own ← Labels.ofRows names rows
    let (merged, _, placed) ← Labels.unionWithPositions merged own
    let (merged, others) ← unionSamples parameter names merged (number + 1) gradients
    pure (merged, placed.toArray :: others)

mutual

/-- The block with these samples and properties, in which the property at position `j` is the
property at `sources[j]` of the blocks `first :: others`, and sample `r` of the block at
position `b` stands at `positions[b][r]`. -/
def joinProperties : (first : Block) → (others : List Block) → (samples : Labels) →
    (positions : List (Array Nat)) → (properties : Labels) → (sources : List Source) →
    Except Error Block
  | ⟨values, firstSamples, components, firstProperties, gradients⟩, others, samples, positions,
    properties, sources => do
    let blocks := ⟨values, firstSamples, components, firstProperties, gradients⟩ :: others
    checkAllComponents components 1 others
    checkSameParameters (gradients.map (·.1)) 1 others
    let inner := values.shape.tail.dropLast
    Dense.checkSpan (samples.count :: (inner ++ [sources.length]))
    let lenders ← (blocks.zip positions).mapM fun entry => lender samples.count entry.1 entry.2
    let data ← propertyValues lenders.toArray samples.count inner.prod sources
    let result ← ofValues ⟨samples.count :: (inner ++ [sources.length]), data⟩ samples components
      properties
    joinPropertyGradients gradients others positions properties sources result

/-- Joins the gradients of the first block with those of the others, and adds them to
`result`. -/
def joinPropertyGradients : (gradients : List (String × Block)) → (others : List Block) →
    (positions : List (Array Nat)) → (properties : Labels) → (sources : List Source) →
    (result : Block) → Except Error Block
  | [], _, _, _, _, result => .ok result
  | (parameter, gradient) :: rest, others, positions, properties, sources, result => do
    let otherGradients ← others.mapM (gradientFor parameter)
    let names := gradient.samples.names
    let unmerged ← Labels.empty names
    let (samples, placed) ←
      unionSamples parameter names unmerged 0 ((gradient :: otherGradients).zip positions)
    let joined ← joinProperties gradient otherGradients samples placed properties sources
    let result ← result.addGradient parameter joined
    joinPropertyGradients rest others positions properties sources result

end

end LabeledBlocks.Block
