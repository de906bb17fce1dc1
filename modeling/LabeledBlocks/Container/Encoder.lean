import LabeledBlocks.Container.Checksum
import LabeledBlocks.Container.Header
import LabeledBlocks.Container.Layout

/-!
# Encoding into a sink

A sink takes bytes in until it is full. What an encoder writes goes to the sink and into a
running checksum, which is written behind the content at the end.

* `Sink.accept` takes in as many bytes as there is room for.
* `Encoder.put` writes pieces, `Encoder.header` a header, `Encoder.finish` what ends a
  container.
-/

namespace LabeledBlocks

/-- Where encoded bytes go. -/
structure Sink where
  /-- Everything that was taken in, the latest byte first. -/
  taken : List UInt8
  /-- How many more bytes there is room for, if not for any number. -/
  room : Option Nat
  /-- Does the flush at the end fail? -/
  flushFails : Bool
  deriving DecidableEq, Repr

namespace Sink

def unlimited : Sink := ⟨[], none, false⟩

def written (sink : Sink) : List UInt8 :=
  sink.taken.reverse

/-- As many of these bytes as there is room for. -/
def fitting (sink : Sink) (bytes : List UInt8) : List UInt8 :=
  match sink.room with
  | none => bytes
  | some room => bytes.take room

/-- Takes bytes in as far as there is room, and tells whether there was room for all. -/
def accept (sink : Sink) (bytes : List UInt8) : Sink × Bool :=
  ({ sink with
      taken := (sink.fitting bytes).reverse ++ sink.taken
      room := sink.room.map (· - bytes.length) },
    sink.room.all (bytes.length ≤ ·))

theorem written_accept (sink : Sink) (bytes : List UInt8) :
    (sink.accept bytes).1.written = sink.written ++ sink.fitting bytes := by
  simp [accept, written]

end Sink

/-- What an encoder has done so far: what it wrote, and the checksum of what it meant to
write. -/
structure Output where
  sink : Sink
  checksum : Checksum
  deriving DecidableEq, Repr

def Output.to (sink : Sink) : Output := ⟨sink, .start⟩

/-- Writes, and fails when the sink does. -/
abbrev Encoder := EStateM ContainerError Output

namespace Encoder

def bytes (data : List UInt8) : Encoder Unit := fun output =>
  let (sink, fits) := output.sink.accept data
  let output := { sink, checksum := output.checksum.update data }
  if fits then .ok () output else .error (.transfer .sinkFull) output

def put (order : ByteOrder) (pieces : List Piece) : Encoder Unit := do
  let (data, excess) := Piece.encodeAll order pieces
  bytes data
  match excess with
  | some n => throw (.misuse (.lengthTooLarge n))
  | none => pure ()

def header (header : Header) : Encoder Unit :=
  bytes header.bytes

/-- Writes the checksum of everything written before, if asked for, and flushes the sink. -/
def finish (order : ByteOrder) (checksum : Bool) : Encoder Unit := do
  if checksum then
    bytes (order.bytes 4 (← get).checksum.value.toNat)
  if (← get).sink.flushFails then
    throw (.transfer .flush)

end Encoder

end LabeledBlocks
