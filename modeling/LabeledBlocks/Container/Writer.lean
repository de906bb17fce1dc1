import LabeledBlocks.Container.Encoder

/-!
# Writing a block map step by step

A writer puts the container of a block map together in a fixed order: the header, the keys, one
block for every key, and the end. A call out of turn is refused, and after any failure nothing
more is written.

* `Writer.header`, `Writer.keys`, `Writer.block` and `Writer.finish` take one step each.
* `Writer.map` takes all of them.
-/

namespace LabeledBlocks

/-- How far a writer has come. -/
inductive WriterPhase where
  | idle
  | writingKeys
  /-- So many of so many blocks have been written. -/
  | writingBlocks (written count : Nat)
  | done
  | failed
  deriving DecidableEq, Repr

def WriterPhase.state : WriterPhase → WriterState
  | .idle => .idle
  | .writingKeys => .writingKeys
  | .writingBlocks written _ => .writingBlocks written
  | .done => .done
  | .failed => .failed

/-- The choices that a writer leaves: the byte order, and whether there is a checksum at the
end. -/
structure WriterOptions where
  order : ByteOrder
  checksum : Bool
  deriving DecidableEq, Repr

/-- Least significant byte first, and a checksum. -/
def WriterOptions.standard : WriterOptions := ⟨.little, true⟩

/-- A writer of the container of one block map. -/
structure WriterSession where
  output : Output
  options : WriterOptions
  phase : WriterPhase
  deriving DecidableEq, Repr

def WriterSession.start (sink : Sink) (options : WriterOptions) : WriterSession :=
  ⟨.to sink, options, .idle⟩

/-- A call on a writer. -/
abbrev Writer := EStateM ContainerError WriterSession

namespace Writer

/-- Fails for good. -/
def fail {α : Type} (misuse : Misuse) : Writer α := fun session =>
  .error (.misuse misuse) { session with phase := .failed }

/-- Refuses a call that is out of turn. -/
def refuse {α : Type} (call : WriterCall) : Writer α := fun session =>
  fail (.writerCall call session.phase.state) session

/-- Writes, and goes over to the phase `next`; a failure of the sink is one for good. -/
def encode (encoder : Encoder Unit) (next : WriterPhase) : Writer Unit := fun session =>
  match encoder session.output with
  | .ok _ output => .ok () { session with output, phase := next }
  | .error error output => .error error { session with output, phase := .failed }

/-- Writes the header of a map that may or may not mix property names. -/
def header (mixedProperties : Bool) : Writer Unit := do
  let session ← get
  match session.phase with
  | .idle =>
    let options := session.options
    encode (Encoder.header (.of options.order .map options.checksum mixedProperties)) .writingKeys
  | _ => refuse .header

/-- The pieces of the keys of a map, and of the number of its blocks. -/
def keyLayout (keys : Labels) : List Piece :=
  keys.layout ++ [.count keys.count]

def keys (keys : Labels) : Writer Unit := do
  let session ← get
  match session.phase with
  | .writingKeys =>
    encode (Encoder.put session.options.order (keyLayout keys)) (.writingBlocks 0 keys.count)
  | _ => refuse .keys

def block (block : Block) : Writer Unit := do
  let session ← get
  match session.phase with
  | .writingBlocks written count =>
    if written < count then
      encode (Encoder.put session.options.order block.layout) (.writingBlocks (written + 1) count)
    else fail (.allBlocksWritten count)
  | _ => refuse .block

/-- Writes the end, once every block has been written. -/
def finish : Writer Unit := do
  let session ← get
  match session.phase with
  | .writingBlocks written count =>
    if written = count then
      encode (Encoder.finish session.options.order session.options.checksum) .done
    else fail (.blocksMissing written count)
  | _ => refuse .finish

def blocks : List Block → Writer Unit
  | [] => pure ()
  | first :: rest => do
    block first
    blocks rest

/-- Writes the container of a whole map. -/
def map (keys : Labels) (blocks : List Block) (mixedProperties : Bool) : Writer Unit := do
  header mixedProperties
  Writer.keys keys
  Writer.blocks blocks
  finish

end Writer

end LabeledBlocks
