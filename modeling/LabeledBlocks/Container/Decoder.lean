import LabeledBlocks.Block.Basic
import LabeledBlocks.Container.Checksum
import LabeledBlocks.Container.Header
import LabeledBlocks.Groups
import LabeledBlocks.Labels.Builder

/-!
# Decoding from a feed

A feed hands out bytes in order and keeps their checksum. At its end it either has no more bytes
or fails. Everything that is read is built up again by the checks of labels and blocks, and no
array is asked for before all its values have been handed out.

* `Decoder.take` reads a number of bytes.
* `Decoder.labels` and `Decoder.block` read labels and blocks.
* `Decoder.header` and `Decoder.trailer` read what stands before and behind the content.
-/

namespace LabeledBlocks

/-- What happens when more bytes are asked for than there are. -/
inductive Ending where
  | endOfData
  | failure
  deriving DecidableEq, Repr

/-- An array that was asked for: its shape, and how many bytes had been handed out then. -/
structure Request where
  shape : List Nat
  position : Nat
  deriving DecidableEq, Repr

/-- Bytes to read from. -/
structure Feed where
  /-- The bytes that have not been handed out. -/
  bytes : List UInt8
  ending : Ending
  /-- How many bytes have been handed out. -/
  position : Nat
  /-- The checksum of the bytes that have been handed out of a container. -/
  checksum : Checksum
  /-- The arrays that have been asked for, the latest first. -/
  asked : List Request
  deriving DecidableEq, Repr

def Feed.of (bytes : List UInt8) (ending : Ending) : Feed :=
  ⟨bytes, ending, 0, .start, []⟩

def Feed.requests (feed : Feed) : List Request :=
  feed.asked.reverse

/-- Gives an array for a shape. It may go by what was asked for before, the latest first, and it
may give an array that does not have the shape. -/
abbrev Allocator := (earlier : List Request) → (shape : List Nat) → Dense

def Allocator.zeros : Allocator := fun _ shape => Dense.zeros shape

/-- Reads from a feed. A failure leaves the feed where it was met. -/
abbrev Decoder := EStateM ContainerError Feed

namespace Decoder

/-! ### Bytes and numbers -/

/-- The next `count` bytes; `short` is the error when the data ends before. -/
def take (count : Nat) (short : ContainerError) : Decoder (List UInt8) := fun feed =>
  let data := feed.bytes.take count
  let after := { feed with
    bytes := feed.bytes.drop count
    position := feed.position + data.length
    checksum := feed.checksum.update data }
  if data.length = count then .ok data after
  else
    match feed.ending with
    | .endOfData => .error short after
    | .failure => .error (.transfer .source) after

def payload (count : Nat) (field : Field) : Decoder (List UInt8) :=
  take count (.content (.truncated field))

def number (order : ByteOrder) (count : Nat) (field : Field) : Decoder Nat := do
  let data ← payload count field
  pure (order.number data)

/-- A length or a small count. -/
def length (order : ByteOrder) (field : Field) : Decoder Nat :=
  number order 4 field

/-- A count of rows, of blocks or along an axis. -/
def count (order : ByteOrder) (field : Field) : Decoder Nat :=
  number order 8 field

def refuse {α : Type} (fault : ContentFault) : Decoder α :=
  throw (.content fault)

/-- What the checks of the data itself let through. -/
def accept {α : Type} (result : Except Error α) : Decoder α :=
  match result with
  | .ok value => pure value
  | .error error => refuse (.invalid error)

/-- A text behind its length in bytes. -/
def string (order : ByteOrder) (field : Field) : Decoder String := do
  let size ← length order field
  let data ← payload size field
  match Utf8.decode data with
  | .ok text => pure text
  | .error fault => refuse (.text fault field)

/-- The same thing a number of times. -/
def replicate {α : Type} (decoder : Decoder α) : Nat → Decoder (List α)
  | 0 => pure []
  | count + 1 => do
    let first ← decoder
    let rest ← replicate decoder count
    pure (first :: rest)

/-! ### Labels -/

/-- Every size in bytes must be less than this. -/
def addressLimit : Nat := 2 ^ 64

def integers (order : ByteOrder) (count : Nat) (data : List UInt8) : List Int32 :=
  (groups 4 count data).map fun bytes => (UInt32.ofNat (order.number bytes)).toInt32

/-- The size of label values in bytes, if it can be addressed. -/
def labelBytes (rows width : Nat) : Decoder Nat := do
  if rows * width * 4 ≥ addressLimit then
    refuse (.malformed .labelsTooLarge)
  pure (rows * width * 4)

/-- What is built of the names and the values of labels, of which `bytesOf` tells the size. -/
def labelsBy {α : Type} (bytesOf : (rows width : Nat) → Decoder Nat)
    (build : List String → List Int32 → Except Error α) (order : ByteOrder) : Decoder α := do
  let nameCount ← length order .nameCount
  let names ← replicate (string order .name) nameCount
  let rows ← count order .rowCount
  let width ← length order .rowWidth
  if width ≠ nameCount then
    refuse (.malformed (.rowWidth width nameCount))
  if width = 0 ∧ rows ≠ 0 then
    refuse (.malformed (.rowsWithoutDimensions rows))
  let size ← bytesOf rows width
  let data ← payload size .labelValues
  accept (build names (integers order (size / 4) data))

def labels (order : ByteOrder) : Decoder Labels :=
  labelsBy labelBytes Labels.ofValues order

/-! ### Blocks -/

def floats (order : ByteOrder) (count : Nat) (data : List UInt8) : List FloatBits :=
  (groups 8 count data).map fun bytes => .ofNat (order.number bytes)

def allocate (allocator : Allocator) (shape : List Nat) : Decoder Dense := fun feed =>
  .ok (allocator feed.asked shape) { feed with asked := ⟨shape, feed.position⟩ :: feed.asked }

/-- Puts values into an array that was asked for, if it has the shape and the room for them. -/
def fill (array : Dense) (shape : List Nat) (values : List FloatBits) : Decoder Dense := do
  if array.shape ≠ shape then
    refuse (.malformed (.allocatedShape array.shape shape))
  if array.data.size ≠ shape.prod then
    refuse (.malformed (.allocatedLength array.data.size shape))
  pure ⟨shape, values.toArray⟩

/-- The labels of a block. -/
structure Axes where
  samples : Labels
  components : List Labels
  properties : Labels

def Axes.shape (axes : Axes) : List Nat :=
  Block.labelledShape axes.samples axes.components axes.properties

/-- The labels of a block, which stand in front of its values. -/
def axesBy (labels : Decoder Labels) (order : ByteOrder) : Decoder Axes := do
  let samples ← labels
  let componentCount ← length order .componentCount
  let components ← replicate labels componentCount
  let properties ← labels
  pure ⟨samples, components, properties⟩

def axes (order : ByteOrder) : Decoder Axes :=
  axesBy (labels order) order

/-- The block of these labels and of the values behind them. The values are put into an array that
is asked for when all of them are there. -/
def valuesBehind (fill : (array : Dense) → (shape : List Nat) → (values : List FloatBits) →
      Decoder Dense)
    (allocator : Allocator) (order : ByteOrder) (axes : Axes) : Decoder Block := do
  let rank ← length order .rank
  if rank ≠ axes.components.length + 2 then
    refuse (.malformed (.rank rank axes.components.length))
  let shape ← replicate (count order .shape) rank
  if shape ≠ axes.shape then
    refuse (.invalid (.shapeMismatch .whole axes.shape shape))
  if 8 * Dense.span shape > Dense.maxLength then
    refuse (.malformed (.shapeTooLarge shape))
  let data ← payload (8 * shape.prod) .blockValues
  let array ← allocate allocator shape
  let values ← fill array shape (floats order shape.prod data)
  accept (Block.ofValues values axes.samples axes.components axes.properties)

def ownBlock (allocator : Allocator) (order : ByteOrder) : Decoder Block := do
  let axes ← axes order
  valuesBehind fill allocator order axes

/-- A number of gradients, added to a block one after the other. -/
def gradients (order : ByteOrder) (gradient : Decoder Block) : Nat → Block → Decoder Block
  | 0, block => pure block
  | count + 1, block => do
    let parameter ← string order .parameter
    let next ← gradient
    let block ← accept (block.addGradient parameter next)
    gradients order gradient count block

/-- A block whose gradients are nested at most `levels` deep, when `own` decodes a block without its
gradients. -/
def blockWithin (own : Decoder Block) (order : ByteOrder) : (levels : Nat) → Decoder Block
  | 0 => do
    let block ← own
    let gradientCount ← length order .gradientCount
    if gradientCount > 0 then
      refuse (.malformed .gradientsTooDeep)
    pure block
  | levels + 1 => do
    let block ← own
    let gradientCount ← length order .gradientCount
    gradients order (blockWithin own order levels) gradientCount block

def block (allocator : Allocator) (order : ByteOrder) : Decoder Block :=
  blockWithin (ownBlock allocator order) order maxGradientDepth

/-! ### Before and behind the content -/

/-- A header that can be read, of a container of this kind. The checksum of a container starts
with its header. -/
def header (kind : ContainerKind) : Decoder Header := do
  modify fun feed => { feed with checksum := .start }
  let data ← take Header.length (.corruptHeader .truncated)
  match Header.parse data with
  | .error fault => throw (.corruptHeader fault)
  | .ok header =>
    match header.check kind with
    | .error error => throw error
    | .ok () => pure header

/-- The checksum behind the content, if there is one. It is compared with that of the bytes
before it only if asked for. -/
def trailer (header : Header) (verify : Bool) : Decoder Unit := do
  if header.hasChecksum then
    let computed := (← get).checksum.value
    let stored ← number header.order 4 .checksum
    if verify ∧ UInt32.ofNat stored ≠ computed then
      refuse (.checksum (.ofNat stored) computed)

/-- Refuses data behind the container. One byte of it is handed out to see that there is some; the
checksum leaves it out. -/
def finish : Decoder Unit := fun feed =>
  match feed.bytes, feed.ending with
  | [], .endOfData => .ok () feed
  | [], .failure => .error (.transfer .source) feed
  | _ :: rest, _ =>
    let after := { feed with bytes := rest, position := feed.position + 1 }
    .error (.content (.malformed .trailingData)) after

end Decoder

end LabeledBlocks
