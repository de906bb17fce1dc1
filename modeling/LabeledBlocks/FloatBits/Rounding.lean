import LabeledBlocks.FloatBits.Basic

/-!
# Rounding to floating-point numbers

Numbers of at least zero and their products and quotients, each rounded to the nearest binary64
number in exact arithmetic. Halfway between two numbers, the one with the even significand is
taken.

* `FloatBits.ofRatio` rounds a quotient of two natural numbers.
* `FloatBits.product` and `FloatBits.quotient` round a product and a quotient of two numbers.
-/

namespace LabeledBlocks

/-- The natural number nearest to a quotient, a half going to the even one. -/
def roundDiv (numerator denominator : Nat) : Nat :=
  let quotient := numerator / denominator
  let twice := 2 * (numerator % denominator)
  if twice < denominator ∨ (twice = denominator ∧ quotient % 2 = 0) then quotient
  else quotient + 1

namespace FloatBits

/-- The exponent of the number next to a positive quotient: the quotient holds this power of two
at least 2^52 and less than 2^53 times, or it is closer to zero than such numbers are. -/
def exponentNear (numerator denominator : Nat) : Int :=
  let low := (numerator.log2 : Int) - denominator.log2 - 53
  let times := numerator * 2 ^ (-low).toNat / (denominator * 2 ^ low.toNat)
  max (-1074) (if times < 2 ^ 53 then low else low + 1)

/-- The number nearest to a quotient; infinity for one beyond the greatest number. The successor
of the greatest significand is the least one of the next exponent, so a significand that is
rounded up to it needs no care. -/
def ofRatio (numerator denominator : Nat) : FloatBits :=
  if numerator = 0 then 0
  else
    let exponent := exponentNear numerator denominator
    let significand :=
      roundDiv (numerator * 2 ^ (-exponent).toNat) (denominator * 2 ^ exponent.toNat)
    let bits := (exponent + 1074).toNat * 2 ^ 52 + significand
    if bits < infinity.toNat then UInt64.ofNat bits else infinity

def nearest (n : Nat) : FloatBits :=
  ofRatio n 1

def product (a b : FloatBits) : FloatBits :=
  let scale := exponent a + exponent b
  ofRatio (significand a * significand b * 2 ^ scale.toNat) (2 ^ (-scale).toNat)

def quotient (a b : FloatBits) : FloatBits :=
  let scale := exponent a - exponent b
  ofRatio (significand a * 2 ^ scale.toNat) (significand b * 2 ^ (-scale).toNat)

def tenTo (power : Nat) : FloatBits :=
  nearest (10 ^ power)

/-- A natural number of at most 64 bits, scaled by a power of ten. The number and the power are
rounded before they are multiplied or divided, so the result may differ in its last bit from the
nearest number. The greatest power of ten that is a number is `10 ^ 308`: beyond it every product
is infinite, and where it is divided by more than twice, nothing is left. -/
def ofScaled (number : Nat) (power : Int) : FloatBits :=
  let start := nearest number
  if start = 0 then 0
  else if 308 < power then infinity
  else if 0 ≤ power then product start (tenTo power.toNat)
  else if -308 ≤ power then quotient start (tenTo (-power).toNat)
  else if -616 ≤ power then quotient (quotient start (tenTo 308)) (tenTo (-power - 308).toNat)
  else 0

end FloatBits

end LabeledBlocks
