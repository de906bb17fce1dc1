import LabeledBlocks.Container.Reader
import LabeledBlocks.Container.Writer

/-!
# Whole containers

Labels, blocks and block maps written to a sink and read from a feed in one go.

* `Labels.write`, `Block.write` and `BlockMap.write` write a container, `Labels.save`,
  `Block.save` and `BlockMap.save` give the bytes of one.
* `Labels.read`, `Block.read` and `BlockMap.read` read one and leave what follows it.
* `Labels.load`, `Block.load` and `BlockMap.load` read bytes that are one container and nothing
  else.
-/

namespace LabeledBlocks

/-! ### Writing -/

/-- Writes a container of this kind: a header, the pieces of the content, and the end. -/
def Encoder.container (options : WriterOptions) (kind : ContainerKind) (content : List Piece) :
    Encoder Unit := do
  Encoder.header (.of options.order kind options.checksum false)
  Encoder.put options.order content
  Encoder.finish options.order options.checksum

/-- What the sink of a run holds at the end, and the failure that ended the run, if one did. -/
def Encoder.run (encoder : Encoder Unit) (sink : Sink) : Sink × Option ContainerError :=
  match encoder (.to sink) with
  | .ok _ output => (output.sink, none)
  | .error error output => (output.sink, some error)

def Labels.write (labels : Labels) (options : WriterOptions) (sink : Sink) :
    Sink × Option ContainerError :=
  (Encoder.container options .labels labels.layout).run sink

def Block.write (block : Block) (options : WriterOptions) (sink : Sink) :
    Sink × Option ContainerError :=
  (Encoder.container options .block block.layout).run sink

def BlockMap.write (map : BlockMap) (options : WriterOptions) (sink : Sink) :
    Sink × Option ContainerError :=
  match Writer.map map.keys map.blocks map.mixedProperties (.start sink options) with
  | .ok _ session => (session.output.sink, none)
  | .error error session => (session.output.sink, some error)

/-- What a sink without a limit holds after it was written to without a failure. -/
def saved (outcome : Sink × Option ContainerError) : Except ContainerError (List UInt8) :=
  match outcome with
  | (sink, none) => .ok sink.written
  | (_, some error) => .error error

def Labels.save (labels : Labels) : Except ContainerError (List UInt8) :=
  saved (labels.write .standard .unlimited)

def Block.save (block : Block) : Except ContainerError (List UInt8) :=
  saved (block.write .standard .unlimited)

def BlockMap.save (map : BlockMap) : Except ContainerError (List UInt8) :=
  saved (map.write .standard .unlimited)

/-! ### Reading -/

def Decoder.labelsContainer (verify : Bool) : Decoder Labels := do
  let header ← Decoder.header .labels
  let labels ← Decoder.labels header.order
  Decoder.trailer header verify
  pure labels

def Decoder.blockContainer (verify : Bool) : Decoder Block := do
  let header ← Decoder.header .block
  let block ← Decoder.block Allocator.zeros header.order
  Decoder.trailer header verify
  pure block

/-- What a reader gives, with what is left of its feed. -/
def Reader.run {α : Type} (reader : Reader α) (allocator : Allocator) (verify : Bool) :
    Decoder α := fun feed =>
  match reader (.start feed verify allocator) with
  | .ok value session => .ok value session.feed
  | .error error session => .error error session.feed

def Labels.read (verify : Bool) : Decoder Labels :=
  Decoder.labelsContainer verify

def Block.read (verify : Bool) : Decoder Block :=
  Decoder.blockContainer verify

/-- Reads a map from a feed, with arrays from an allocator. -/
def BlockMap.readWith (allocator : Allocator) (verify : Bool) : Decoder BlockMap :=
  Reader.map.run allocator verify

def BlockMap.read (verify : Bool) : Decoder BlockMap :=
  BlockMap.readWith Allocator.zeros verify

/-- What a decoder makes of bytes that must be used up by it. -/
def Decoder.load {α : Type} (decoder : Decoder α) (bytes : List UInt8) :
    Except ContainerError α :=
  match (do
    let value ← decoder
    Decoder.finish
    pure value : Decoder α) (.of bytes .endOfData) with
  | .ok value _ => .ok value
  | .error error _ => .error error

def Labels.load (bytes : List UInt8) : Except ContainerError Labels :=
  (Labels.read true).load bytes

def Block.load (bytes : List UInt8) : Except ContainerError Block :=
  (Block.read true).load bytes

def BlockMap.load (bytes : List UInt8) : Except ContainerError BlockMap :=
  (BlockMap.read true).load bytes

end LabeledBlocks
