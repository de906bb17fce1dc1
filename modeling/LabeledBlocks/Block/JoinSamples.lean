import LabeledBlocks.Block.Joining

/-!
# Joining blocks along their samples

The result has samples of its own, each a copy of a sample of one of the blocks. Blocks with
identical components and properties can be joined, gradients with them: a gradient row follows
the sample that it refers to, and is dropped when that sample is not taken over.

* `Block.joinSamples` joins blocks, of which it is told the first, and their gradients.
-/

namespace LabeledBlocks.Block

/-- Refuses the first of some blocks, counted from `position`, that has other components or
properties than the first block. -/
def checkJoinable (components : List Labels) (properties : Labels) (position : Nat) :
    List Block → Except Error Unit
  | [] => .ok ()
  | block :: blocks => do
    checkSameComponents position components block.components
    if !block.properties.identical properties then
      throw (.propertyMismatch (.joining position))
    checkJoinable components properties (position + 1) blocks

/-- The values of the samples that the result is made of. The `donors` are the values of the
blocks and their numbers of samples. -/
def sampleValues (donors : Array (Dense × Nat)) (rowLength : Nat) (sources : List Source) :
    Except Error (Array FloatBits) := do
  let rows ← sources.mapM fun source =>
    match donors[source.block]? with
    | some (values, count) =>
      if source.index < count then values.row rowLength source.index
      else .error (.outOfRange .sample)
    | none => .error (.outOfRange .block)
  pure (rows.flatMap Array.toList).toArray

/-- For every block, of which the numbers of samples are given, the new position of each of its
samples that is taken over. -/
def newPositions (counts : List Nat) (sources : List Source) : Array (Array (Option Nat)) :=
  sources.zipIdx.foldl
    (fun found entry =>
      found.modify entry.1.block (·.setIfInBounds entry.1.index (some entry.2)))
    (counts.map (Array.replicate · none)).toArray

/-- The gradient rows of one block, from position `start` on, that refer to a sample that is
taken over, with its new position in them. -/
def survivingRows (placed : Array (Option Nat)) (block start : Nat) :
    List Row → Except Error (List (Row × Source))
  | [] => .ok []
  | row :: rows =>
    match reference placed row with
    | .error error => .error error
    | .ok (none, _) => survivingRows placed block (start + 1) rows
    | .ok (some j, rest) =>
      (survivingRows placed block (start + 1) rows).map
        ((Int32.ofNat j :: rest, ⟨block, start⟩) :: ·)

mutual

/-- The block with these samples, of which the one at position `j` is the sample at
`sources[j]` of the blocks `first :: others`. -/
def joinSamples : (first : Block) → (others : List Block) → (samples : Labels) →
    (sources : List Source) → Except Error Block
  | ⟨values, firstSamples, components, properties, gradients⟩, others, samples, sources => do
    let blocks := ⟨values, firstSamples, components, properties, gradients⟩ :: others
    checkJoinable components properties 1 others
    checkSameParameters (gradients.map (·.1)) 1 others
    let inner := values.shape.tail
    Dense.checkSpan (sources.length :: inner)
    let counts := blocks.map fun block => block.samples.count
    let donors := (blocks.map Block.values).zip counts
    let data ← sampleValues donors.toArray inner.prod sources
    let result ← ofValues ⟨sources.length :: inner, data⟩ samples components properties
    joinSampleGradients gradients others (newPositions counts sources).toList result

/-- Joins the gradients of the first block with those of the others, and adds them to
`result`. -/
def joinSampleGradients : (gradients : List (String × Block)) → (others : List Block) →
    (placed : List (Array (Option Nat))) → (result : Block) → Except Error Block
  | [], _, _, result => .ok result
  | (parameter, gradient) :: rest, others, placed, result => do
    let otherGradients ← others.mapM (gradientFor parameter)
    let names := gradient.samples.names
    checkSampleNames parameter names 1 otherGradients
    let rows ← ((gradient :: otherGradients).zip placed).zipIdx.mapM fun entry =>
      survivingRows entry.1.2 entry.2 0 entry.1.1.samples.rows
    let rows := rows.flatten
    let samples ← Labels.ofRows names (rows.map (·.1))
    let joined ← joinSamples gradient otherGradients samples (rows.map (·.2))
    let result ← result.addGradient parameter joined
    joinSampleGradients rest others placed result

end

end LabeledBlocks.Block
