import LabeledBlocks.Error
import LabeledBlocks.Text.Utf8

/-!
# Container errors

Why a container can not be read or written. As with the errors of the data itself, each error is
a cause, and the `message` functions alone decide the wording.
-/

namespace LabeledBlocks

open Text

/-- What a container holds. -/
inductive ContainerKind where
  | map
  | block
  | labels
  deriving DecidableEq, Repr

def ContainerKind.text : ContainerKind → String
  | .map => "TensorMap"
  | .block => "TensorBlock"
  | .labels => "Labels"

/-! ### Header and content -/

/-- Why the start of a container is no header. -/
inductive HeaderFault where
  | truncated
  | magic (got : List UInt8)
  | marker (got : UInt8)
  | kind (got : UInt8)
  | versionZero
  | flags (unknown : UInt32)
  deriving DecidableEq, Repr

/-- The first bytes of every container: `TMAP`. -/
def magicBytes : List UInt8 := [0x54, 0x4D, 0x41, 0x50]

def HeaderFault.message : HeaderFault → String
  | .truncated => "truncated header"
  | .magic got =>
    s!"invalid magic bytes {counts (got.map UInt8.toNat)}, "
      ++ s!"expected {counts (magicBytes.map UInt8.toNat)}"
  | .marker got => s!"invalid byte order marker 0x{hexadecimal 2 got.toNat}"
  | .kind got => s!"unknown container kind {got.toNat}"
  | .versionZero => "invalid version 0"
  | .flags unknown => s!"unknown flags 0x{hexadecimal 1 unknown.toNat}"

/-- The parts of a container that are read one after the other. -/
inductive Field where
  | nameCount
  | name
  | rowCount
  | rowWidth
  | labelValues
  | componentCount
  | rank
  | shape
  | blockValues
  | gradientCount
  | parameter
  | blockCount
  | checksum
  deriving DecidableEq, Repr

/-- What is being read when a container breaks off. -/
def Field.text : Field → String
  | .nameCount => "Labels name count"
  | .name => "Labels dimension name"
  | .rowCount => "Labels row count"
  | .rowWidth => "Labels row width"
  | .labelValues => "Labels values"
  | .componentCount => "component count"
  | .rank => "values rank"
  | .shape => "values shape"
  | .blockValues => "block values"
  | .gradientCount => "gradient count"
  | .parameter => "gradient parameter"
  | .blockCount => "block count"
  | .checksum => "checksum"

/-- How deep gradients of gradients may be nested in a container. -/
def maxGradientDepth : Nat := 16

/-- Why the fields of a container do not go together. -/
inductive Malformation where
  | rowWidth (width names : Nat)
  | rowsWithoutDimensions (count : Nat)
  | labelsTooLarge
  | rank (got components : Nat)
  | shapeTooLarge (shape : List Nat)
  | allocatedShape (got expected : List Nat)
  | allocatedLength (got : Nat) (shape : List Nat)
  | gradientsTooDeep
  | blockCount (blocks keys : Nat)
  | kind (expected found : ContainerKind)
  | trailingData
  deriving DecidableEq, Repr

def Malformation.message : Malformation → String
  | .rowWidth width names =>
    s!"Labels row width {width} does not match the {names} dimension names"
  | .rowsWithoutDimensions count => s!"Labels without dimensions can not have {count} rows"
  | .labelsTooLarge => "Labels size overflows"
  | .rank got components => s!"values of rank {got} can not hold {components} component axes"
  | .shapeTooLarge shape => s!"values shape {counts shape} overflows"
  | .allocatedShape got expected =>
    s!"array allocator returned shape {counts got}, expected {counts expected}"
  | .allocatedLength got shape =>
    s!"array allocator returned {got} values for shape {counts shape}"
  | .gradientsTooDeep => s!"gradients nested deeper than {maxGradientDepth} levels"
  | .blockCount blocks keys => s!"the container has {blocks} blocks for {keys} keys"
  | .kind expected found =>
    s!"expected a {expected.text} container, found a {found.text} container"
  | .trailingData => "unexpected data after the end of the container"

/-- Why the content of a container is refused. -/
inductive ContentFault where
  /-- The labels, the block or the map that it describes does not exist. -/
  | invalid (error : Error)
  | truncated (field : Field)
  | text (fault : Utf8.Fault) (field : Field)
  | malformed (malformation : Malformation)
  | checksum (stored computed : UInt32)
  deriving DecidableEq, Repr

def ContentFault.message : ContentFault → String
  | .invalid error => s!"invalid data: {error.message}"
  | .truncated field => s!"unexpected end of data while reading {field.text}"
  | .text fault field => s!"invalid UTF-8 string: {fault.message} in {field.text}"
  | .malformed malformation => s!"malformed container: {malformation.message}"
  | .checksum stored computed =>
    s!"checksum mismatch: stored 0x{hexadecimal 8 stored.toNat}, "
      ++ s!"computed 0x{hexadecimal 8 computed.toNat}"

/-! ### Sessions -/

/-- How far a reader of a block map has come. -/
inductive ReaderState where
  | idle
  | readingKeys
  | readingBlocks (next : Nat)
  | done
  | failed
  deriving DecidableEq, Repr

def ReaderState.text : ReaderState → String
  | .idle => "Idle"
  | .readingKeys => "ReadingKeys"
  | .readingBlocks next => s!"ReadingBlocks({next})"
  | .done => "Done"
  | .failed => "Failed"

/-- How far a writer of a block map has come. -/
inductive WriterState where
  | idle
  | writingKeys
  | writingBlocks (next : Nat)
  | done
  | failed
  deriving DecidableEq, Repr

def WriterState.text : WriterState → String
  | .idle => "Idle"
  | .writingKeys => "WritingKeys"
  | .writingBlocks next => s!"WritingBlocks({next})"
  | .done => "Done"
  | .failed => "Failed"

/-- What can be asked of a reader. -/
inductive ReaderCall where
  | header
  | keys
  | block
  | map
  | finish
  deriving DecidableEq, Repr

def ReaderCall.text : ReaderCall → String
  | .header => "read_header"
  | .keys => "read_keys"
  | .block => "next_block"
  | .map => "read_map"
  | .finish => "expect_end"

/-- What can be asked of a writer. -/
inductive WriterCall where
  | header
  | keys
  | block
  | finish
  deriving DecidableEq, Repr

def WriterCall.text : WriterCall → String
  | .header => "write_header"
  | .keys => "write_keys"
  | .block => "write_block"
  | .finish => "finish"

/-- Why a call is refused without looking at any data. -/
inductive Misuse where
  | readerCall (call : ReaderCall) (state : ReaderState)
  | writerCall (call : WriterCall) (state : WriterState)
  | allBlocksWritten (count : Nat)
  | blocksMissing (written count : Nat)
  | lengthTooLarge (length : Nat)
  deriving DecidableEq, Repr

def Misuse.message : Misuse → String
  | .readerCall call state => s!"can not call {call.text} in state {state.text}"
  | .writerCall call state => s!"can not call {call.text} in state {state.text}"
  | .allBlocksWritten count => s!"all {count} blocks have already been written"
  | .blocksMissing written count => s!"only {written} of {count} blocks have been written"
  | .lengthTooLarge length => s!"{length} does not fit in a 32-bit length"

/-! ### All together -/

/-- What fails outside of a container: where it comes from or where it goes to. -/
inductive TransferFault where
  | source
  | sinkFull
  | flush
  deriving DecidableEq, Repr

def TransferFault.message : TransferFault → String
  | .source => "source failed"
  | .sinkFull => "sink full"
  | .flush => "flush failed"

/-- The newest version of the format. -/
def formatVersion : UInt32 := 1

/-- Why a container can not be read or written. -/
inductive ContainerError where
  | unsupportedVersion (found : UInt32)
  | corruptHeader (fault : HeaderFault)
  | content (fault : ContentFault)
  | misuse (fault : Misuse)
  | transfer (fault : TransferFault)
  deriving DecidableEq, Repr

def ContainerError.message : ContainerError → String
  | .unsupportedVersion found =>
    s!"unsupported container version {found.toNat}, "
      ++ s!"supported versions are 1 to {formatVersion.toNat}"
  | .corruptHeader fault => s!"corrupt container header: {fault.message}"
  | .content fault => s!"failed to decode container: {fault.message}"
  | .misuse fault => s!"invalid codec state: {fault.message}"
  | .transfer fault => s!"I/O error: {fault.message}"

end LabeledBlocks
