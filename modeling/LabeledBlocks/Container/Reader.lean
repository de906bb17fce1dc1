import LabeledBlocks.BlockMap.Basic
import LabeledBlocks.Container.Decoder

/-!
# Reading a block map step by step

A reader takes the container of a block map apart in a fixed order: the header, the keys, then
one block after the other, and the checksum behind the last one. A call out of turn is refused,
and after any failure nothing more is read.

* `Reader.header`, `Reader.keys` and `Reader.block` take one step each.
* `Reader.map` reads what is left of the map, `Reader.next` the next block from wherever the
  reader stands.
-/

namespace LabeledBlocks

/-- How far a reader has come, and what it knows by then. -/
inductive ReaderPhase where
  | idle
  | readingKeys (header : Header)
  /-- The block at position `next` comes next, or the end when there is none. -/
  | readingBlocks (header : Header) (keys : Labels) (next : Nat)
  | done (header : Header) (keys : Labels)
  | failed (header : Option Header) (keys : Option Labels)

namespace ReaderPhase

/-- The phase without what is known in it. -/
def state : ReaderPhase → ReaderState
  | .idle => .idle
  | .readingKeys _ => .readingKeys
  | .readingBlocks _ _ next => .readingBlocks next
  | .done _ _ => .done
  | .failed _ _ => .failed

def header? : ReaderPhase → Option Header
  | .idle => none
  | .readingKeys header => some header
  | .readingBlocks header _ _ => some header
  | .done header _ => some header
  | .failed header _ => header

def keys? : ReaderPhase → Option Labels
  | .idle => none
  | .readingKeys _ => none
  | .readingBlocks _ keys _ => some keys
  | .done _ keys => some keys
  | .failed _ keys => keys

/-- The phase after a failure, in which what is known stays known. -/
def fail (phase : ReaderPhase) : ReaderPhase :=
  .failed phase.header? phase.keys?

end ReaderPhase

/-- A reader of the container of one block map. -/
structure ReaderSession where
  feed : Feed
  /-- Is the checksum to be compared? -/
  verify : Bool
  allocator : Allocator
  phase : ReaderPhase

def ReaderSession.start (feed : Feed) (verify : Bool) (allocator : Allocator) : ReaderSession :=
  ⟨feed, verify, allocator, .idle⟩

/-- A call on a reader. -/
abbrev Reader := EStateM ContainerError ReaderSession

namespace Reader

/-- Fails for good. -/
def fail {α : Type} (error : ContainerError) : Reader α := fun session =>
  .error error { session with phase := session.phase.fail }

/-- Refuses a call that is out of turn. -/
def refuse {α : Type} (call : ReaderCall) : Reader α := fun session =>
  fail (.misuse (.readerCall call session.phase.state)) session

/-- Reads from the feed; a failure there is one for good. -/
def decode {α : Type} (decoder : Decoder α) : Reader α := fun session =>
  match decoder session.feed with
  | .ok value feed => .ok value { session with feed }
  | .error error feed => fail error { session with feed }

def enter (phase : ReaderPhase) : Reader Unit :=
  modify fun session => { session with phase }

/-- Reads the header, and tells whether the map may mix property names. -/
def header : Reader Bool := do
  match (← get).phase with
  | .idle =>
    let header ← decode (Decoder.header .map)
    enter (.readingKeys header)
    pure header.mixedProperties
  | _ => refuse .header

/-- Reads the keys and the number of blocks, which must be that of the keys. -/
def keys : Reader Labels := do
  match (← get).phase with
  | .readingKeys header =>
    let keys ← decode (Decoder.labels header.order)
    let count ← decode (Decoder.count header.order .blockCount)
    if count ≠ keys.count then
      fail (.content (.malformed (.blockCount count keys.count)))
    enter (.readingBlocks header keys 0)
    pure keys
  | _ => refuse .keys

/-- Reads the next block. Behind the last one it reads the checksum, and from then on there is no
block any more. -/
def block : Reader (Option Block) := do
  match (← get).phase with
  | .readingBlocks header keys next =>
    if next = keys.count then
      decode (Decoder.trailer header (← get).verify)
      enter (.done header keys)
      pure none
    else
      let block ← decode (Decoder.block (← get).allocator header.order)
      enter (.readingBlocks header keys (next + 1))
      pure (some block)
  | .done _ _ => pure none
  | _ => refuse .block

/-- Reads `count` blocks, and then the end. -/
def blocks : (count : Nat) → Reader (List Block)
  | 0 => do
    let _ ← block
    pure []
  | count + 1 => do
    match ← block with
    | none => pure []
    | some first =>
      let rest ← blocks count
      pure (first :: rest)

/-- Reads the blocks of a map whose header and keys have been read, from the first on. -/
def content (header : Header) (keys : Labels) : Reader BlockMap := do
  let blocks ← blocks keys.count
  match BlockMap.ofBlocks keys blocks header.mixedProperties with
  | .ok map => pure map
  | .error error => fail (.content (.invalid error))

/-- Reads the keys and the blocks of a map whose header has been read, or the blocks only when
the keys have been read as well. -/
def rest : Reader BlockMap := do
  match (← get).phase with
  | .readingKeys header =>
    let keys ← keys
    content header keys
  | .readingBlocks header keys 0 => content header keys
  | _ => refuse .map

/-- Reads the whole map, or what is left of it when no block has been read. -/
def map : Reader BlockMap := do
  match (← get).phase with
  | .idle =>
    let _ ← header
    rest
  | _ => rest

def finish : Reader Unit := do
  match (← get).phase with
  | .done _ _ => decode Decoder.finish
  | _ => refuse .finish

/-- Reads the keys first, if they come next, and then the next block. -/
def nextFromKeys : Reader (Option Block) := do
  match (← get).phase with
  | .readingKeys _ =>
    let _ ← keys
    block
  | .done _ _ => pure none
  | .failed _ _ => pure none
  | _ => block

/-- Reads the next block, and before it what has not been read yet. There is none behind the last
block and after a failure. -/
def next : Reader (Option Block) := do
  match (← get).phase with
  | .idle =>
    let _ ← header
    nextFromKeys
  | _ => nextFromKeys

end Reader

end LabeledBlocks
