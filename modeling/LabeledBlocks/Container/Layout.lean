import LabeledBlocks.Block.Basic
import LabeledBlocks.Container.ByteOrder
import LabeledBlocks.Container.Error

/-!
# The layout of containers

Labels and blocks as a list of pieces, each of which has its own form in bytes. Labels are their
names, the number of rows, the width of a row and the values; a block is the labels of its
axes, the shape, the values and the gradients, each behind its parameter.

* `Labels.layout` and `Block.layout` give the pieces.
* `Piece.encodeAll` gives the bytes of pieces, up to the first length that does not fit.
-/

namespace LabeledBlocks

/-- A part of a container. -/
inductive Piece where
  /-- A length or a small count, in four bytes. -/
  | length (n : Nat)
  /-- A count of rows, of blocks or along an axis, in eight bytes. -/
  | count (n : Nat)
  /-- A text in UTF-8. -/
  | text (s : String)
  /-- Label values in four bytes each. -/
  | integers (values : List Int32)
  /-- Block values in eight bytes each. -/
  | floats (values : List FloatBits)
  deriving DecidableEq, Repr

namespace Piece

def bytes (order : ByteOrder) : Piece → List UInt8
  | .length n => order.bytes 4 n
  | .count n => order.bytes 8 n
  | .text s => Utf8.encode s
  | .integers values => values.flatMap fun v => order.bytes 4 v.toUInt32.toNat
  | .floats values => values.flatMap fun v => order.bytes 8 v.toNat

/-- A length that does not fit into its four bytes. -/
def excess? : Piece → Option Nat
  | .length n => if n < 2 ^ 32 then none else some n
  | _ => none

/-- The bytes of pieces up to the first length that does not fit, and that length. -/
def encodeAll (order : ByteOrder) : List Piece → List UInt8 × Option Nat
  | [] => ([], none)
  | piece :: pieces =>
    match piece.excess? with
    | some n => ([], some n)
    | none =>
      let (rest, excess) := encodeAll order pieces
      (piece.bytes order ++ rest, excess)

/-- A text behind its length in bytes. -/
def string (s : String) : List Piece :=
  [.length (Utf8.encode s).length, .text s]

end Piece

def Labels.layout (labels : Labels) : List Piece :=
  .length labels.size :: labels.names.flatMap Piece.string
    ++ [.count labels.count, .length labels.size, .integers labels.values]

namespace Block

def ownLayout (values : Dense) (samples : Labels) (components : List Labels)
    (properties : Labels) : List Piece :=
  samples.layout ++ [.length components.length] ++ components.flatMap Labels.layout
    ++ properties.layout ++ [.length values.shape.length] ++ values.shape.map .count
    ++ [.floats values.data.toList]

mutual

def layout : Block → List Piece
  | ⟨values, samples, components, properties, gradients⟩ =>
    ownLayout values samples components properties ++ [.length gradients.length]
      ++ gradientLayout gradients

def gradientLayout : List (String × Block) → List Piece
  | [] => []
  | (parameter, block) :: rest => Piece.string parameter ++ block.layout ++ gradientLayout rest

end

end Block

end LabeledBlocks
