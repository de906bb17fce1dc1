import LabeledBlocks.Arithmetic

/-!
# Floating-point numbers as bits

Numbers are only ever moved, compared, read and written, so they are held as the bits of their
binary64 form. Nothing is lost of a zero's sign or of what a NaN carries.

* `FloatBits.sameNumber` compares as numbers, `=` compares as bits.
* `FloatBits.significand` and `FloatBits.exponent` say which number the bits stand for.
-/

namespace LabeledBlocks

/-- The bits of a binary64 number. -/
abbrev FloatBits := UInt64

namespace FloatBits

/-- Is the number a NaN: all exponent bits set and a fraction that is not zero? -/
def isNaN (bits : FloatBits) : Bool :=
  bits <<< 1 > 0xFFE0000000000000

/-- Numeric equality: a NaN equals nothing, the two zeros equal each other. -/
def sameNumber (a b : FloatBits) : Bool :=
  !isNaN a && !isNaN b && (a == b || (a ||| b) <<< 1 == 0)

/-- The infinity above all numbers. -/
def infinity : FloatBits := 0x7FF0000000000000

def isNegative (bits : FloatBits) : Bool :=
  bits ≥ 0x8000000000000000

/-- The bits with the sign that is asked for, of bits without one. -/
def withSign (negative : Bool) (bits : FloatBits) : FloatBits :=
  if negative then bits ||| 0x8000000000000000 else bits

/-- The eleven bits between the sign and the fraction. -/
def exponentField (bits : FloatBits) : Nat :=
  bits.toNat / 2 ^ 52 % 2 ^ 11

/-- The whole number that is scaled by a power of two. -/
def significand (bits : FloatBits) : Nat :=
  let fraction := bits.toNat % 2 ^ 52
  if exponentField bits = 0 then fraction else 2 ^ 52 + fraction

/-- The exponent of that power: the absolute value of a finite number is
`significand * 2 ^ exponent`. -/
def exponent (bits : FloatBits) : Int :=
  (max 1 (exponentField bits) : Nat) - 1075

end FloatBits

end LabeledBlocks
