import LabeledBlocks.Block.JoinSamples
import LabeledBlocks.InPlace.Access

/-!
# Joining along the samples in place

The values of a joined block are copied slice by slice, from the slice of a sample in its block to
the slice of its new position. Beside them stands a table of new positions for every block, in which
the samples of gradient rows are looked up.

* `InPlace.joinSamples` joins blocks, of which it is told the first, and their gradients.
-/

namespace LabeledBlocks.InPlace

open Block

/-- The buffer with the slice of position `j` replaced by the slice `index` of some values, both of
this length. -/
def copyRow (length : Nat) (buffer : Array FloatBits) (j : Nat) (values : Array FloatBits)
    (index : Nat) : Except Error (Array FloatBits) :=
  if (j + 1) * length ≤ buffer.size ∧ (index + 1) * length ≤ values.size then
    .ok (buffer.extract 0 (j * length) ++
      values.extract (index * length) ((index + 1) * length) ++
      buffer.extract ((j + 1) * length) buffer.size)
  else .error (.outOfRange .values)

/-- The buffer filled with the slices of all sources. -/
def copyRows (blocks : Array Block) (length : Nat) (sources : List Source)
    (buffer : Array FloatBits) : Except Error (Array FloatBits) :=
  sources.zipIdx.foldlM (fun buffer entry => do
    let block ← fetch .block blocks entry.1.block
    copyRow length buffer entry.2 block.values.data entry.1.index) buffer

/-- The tables of new positions with that of one more source. -/
def placeSource (tables : Array (Array (Option Nat))) (source : Source) (j : Nat) :
    Except Error (Array (Array (Option Nat))) := do
  let own ← fetch .block tables source.block
  let own ← put .sample own source.index (some j)
  put .block tables source.block own

def placeSources (blocks : List Block) (sources : List Source) :
    Except Error (Array (Array (Option Nat))) :=
  sources.zipIdx.foldlM (fun tables entry => placeSource tables entry.1 entry.2)
    (blocks.map fun block => Array.replicate block.samples.count none).toArray

/-- The rows of the gradient of block `b`, from position `start` on, whose samples are taken over,
with the new positions of these in them. -/
def keptRows (tables : Array (Array (Option Nat))) (b start : Nat) :
    List Row → Except Error (List (Row × Source))
  | [] => .ok []
  | row :: rows => do
    let (place, rest) ← lookUp tables b row
    let kept ← keptRows tables b (start + 1) rows
    match place with
    | none => pure kept
    | some j => pure ((Int32.ofNat j :: rest, ⟨b, start⟩) :: kept)

mutual

/-- The block with these samples, of which the one at position `j` is the sample at `sources[j]` of
the blocks `first :: others`. -/
def joinSamples : (first : Block) → (others : List Block) → (samples : Labels) →
    (sources : List Source) → Except Error Block
  | ⟨values, firstSamples, components, properties, gradients⟩, others, samples, sources => do
    let blocks := ⟨values, firstSamples, components, properties, gradients⟩ :: others
    checkJoinable components properties 1 others
    checkSameParameters (gradients.map (·.1)) 1 others
    let shape ← put .axis values.shape.toArray 0 sources.length
    let output ← Dense.create shape.toList
    let data ← copyRows blocks.toArray shape.toList.tail.prod sources output.data
    let tables ← placeSources blocks sources
    let result ← ofValues ⟨shape.toList, data⟩ samples components properties
    joinSampleGradients gradients others tables result

def joinSampleGradients : (gradients : List (String × Block)) → (others : List Block) →
    (tables : Array (Array (Option Nat))) → (result : Block) → Except Error Block
  | [], _, _, result => .ok result
  | (parameter, gradient) :: rest, others, tables, result => do
    let otherGradients ← others.mapM (gradientFor parameter)
    let names := gradient.samples.names
    checkSampleNames parameter names 1 otherGradients
    let kept ← (gradient :: otherGradients).zipIdx.mapM fun entry => do
      let all ← rows entry.1.samples
      keptRows tables entry.2 0 all
    let kept := kept.flatten
    let samples ← Labels.ofRows names (kept.map (·.1))
    let joined ← joinSamples gradient otherGradients samples (kept.map (·.2))
    let result ← result.addGradient parameter joined
    joinSampleGradients rest others tables result

end

end LabeledBlocks.InPlace
