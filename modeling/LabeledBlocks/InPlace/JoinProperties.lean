import LabeledBlocks.Block.JoinProperties
import LabeledBlocks.InPlace.Access

/-!
# Joining along the properties in place

The values of a joined block are scattered into an array of zeros: for every column its source is
gone through sample by sample and component by component, and each value is written at the place of
its sample.

* `InPlace.joinProperties` joins blocks, of which it is told the first, and their gradients.
-/

namespace LabeledBlocks.InPlace

open Block

/-- The shape with other lengths of its first and its last axis. -/
def outline (shape : List Nat) (first last : Nat) : Except Error (Array Nat) := do
  let outline ← put .axis shape.toArray 0 first
  put .axis outline (outline.size - 1) last

def innerAxes (shape : List Nat) : Except Error (List Nat) :=
  if 2 ≤ shape.length then .ok shape.tail.dropLast else .error (.outOfRange .axis)

/-- The buffer, which has `width` columns, with the values of one property of a block in the column
`j`: those of sample `r` at the position `positions[r]`. -/
def scatterColumn (size width : Nat) (block : Block) (positions : Array Nat) (property j : Nat)
    (buffer : Array FloatBits) : Except Error (Array FloatBits) :=
  positions.toList.zipIdx.foldlM (fun buffer entry =>
    (List.range size).foldlM (fun buffer c => do
      let value ← block.values.value
        ((entry.2 * size + c) * block.properties.count + property)
      put .values buffer ((entry.1 * size + c) * width + j) value) buffer) buffer

/-- The buffer with the values of all sources, each of them a column. -/
def scatter (blocks : Array Block) (positions : Array (Array Nat)) (size : Nat)
    (sources : List Source) (buffer : Array FloatBits) : Except Error (Array FloatBits) :=
  sources.zipIdx.foldlM (fun buffer entry => do
    let block ← fetch .block blocks entry.1.block
    let own ← fetch .block positions entry.1.block
    scatterColumn size sources.length block own entry.1.index entry.2 buffer) buffer

/-- The rows of the gradient of block `b` with the positions of their samples in the table of this
block. -/
def redirectRows (positions : Array (Array Nat)) (b : Nat) (rows : List Row) :
    Except Error (List Row) :=
  rows.mapM fun row => do
    let (position, rest) ← lookUp positions b row
    pure (Int32.ofNat position :: rest)

/-- The union of the redirected samples of some gradients, counted from `b`, with those `merged` so
far, and where the samples of each of them stand in it. -/
def unionSamples (parameter : String) (names : List String) (positions : Array (Array Nat))
    (merged : Labels) (b : Nat) : List Block → Except Error (Labels × List (Array Nat))
  | [] => .ok (merged, [])
  | gradient :: gradients => do
    checkSampleNames parameter names b [gradient]
    let all ← rows gradient.samples
    let redirected ← redirectRows positions b all
    let own ← Labels.ofRows names redirected
    let (merged, _, placed) ← Labels.unionWithPositions merged own
    let (merged, others) ← unionSamples parameter names positions merged (b + 1) gradients
    pure (merged, placed.toArray :: others)

mutual

/-- The block with these samples and properties, in which the property at position `j` is the
property at `sources[j]` of the blocks `first :: others`, and sample `r` of the block at position
`b` stands at `positions[b][r]`. -/
def joinProperties : (first : Block) → (others : List Block) → (samples : Labels) →
    (positions : List (Array Nat)) → (properties : Labels) → (sources : List Source) →
    Except Error Block
  | ⟨values, firstSamples, components, firstProperties, gradients⟩, others, samples, positions,
    properties, sources => do
    let blocks := ⟨values, firstSamples, components, firstProperties, gradients⟩ :: others
    checkAllComponents components 1 others
    checkSameParameters (gradients.map (·.1)) 1 others
    let shape ← outline values.shape samples.count sources.length
    let inner ← innerAxes shape.toList
    let output ← Dense.create shape.toList
    let data ← scatter blocks.toArray positions.toArray inner.prod sources output.data
    let result ← ofValues ⟨shape.toList, data⟩ samples components properties
    joinPropertyGradients gradients others positions properties sources result

def joinPropertyGradients : (gradients : List (String × Block)) → (others : List Block) →
    (positions : List (Array Nat)) → (properties : Labels) → (sources : List Source) →
    (result : Block) → Except Error Block
  | [], _, _, _, _, result => .ok result
  | (parameter, gradient) :: rest, others, positions, properties, sources, result => do
    let otherGradients ← others.mapM (gradientFor parameter)
    let names := gradient.samples.names
    let unmerged ← Labels.empty names
    let (samples, placed) ←
      unionSamples parameter names positions.toArray unmerged 0 (gradient :: otherGradients)
    let joined ← joinProperties gradient otherGradients samples placed properties sources
    let result ← result.addGradient parameter joined
    joinPropertyGradients rest others positions properties sources result

end

end LabeledBlocks.InPlace
