import LabeledBlocks.FloatBits.Rounding
import LabeledBlocks.FloatBits.Shortest
import LabeledBlocks.Json.Basic

/-!
# Numbers in structured text

A numeral is an integer if it has neither a fraction nor an exponent and the number fits into 64
bits, with a sign or without one. All other numerals are floating-point numbers, `-0` among them,
because no integer keeps the sign of a zero.

* `Numeral.ofText?` reads the parts of a numeral, `Numeral.toJson?` gives its value.
* `FloatBits.text` writes a floating-point number.
-/

namespace LabeledBlocks

/-! ### Reading -/

/-- A numeral in its parts, the digits as they are written. -/
structure Numeral where
  negative : Bool
  whole : List Char
  fraction : Option (List Char)
  exponent : Option Int
  deriving DecidableEq, Repr

namespace Numeral

/-- A number with one more digit. -/
def shiftIn (number : Nat) (digit : Char) : Nat :=
  10 * number + (digit.toNat - '0'.toNat)

def natural (digits : List Char) : Nat :=
  digits.foldl shiftIn 0

/-- At least one digit, and what follows the digits. -/
def digits? (text : List Char) : Option (List Char × List Char) :=
  match text.span Char.isDigit with
  | ([], _) => none
  | found => some found

/-- The digits in front of the point, which do not begin with a zero unless it is the only one. -/
def whole? (text : List Char) : Option (List Char × List Char) :=
  match digits? text with
  | some ('0' :: _ :: _, _) => none
  | found => found

/-- The digits after the point, if there is a point. -/
def fraction? : List Char → Option (Option (List Char) × List Char)
  | '.' :: text => (digits? text).map fun (found, rest) => (some found, rest)
  | text => some (none, text)

/-- An exponent without the letter in front of it. -/
def signedExponent? : List Char → Option (Int × List Char)
  | '-' :: text => (digits? text).map fun (found, rest) => (-(natural found : Int), rest)
  | '+' :: text => (digits? text).map fun (found, rest) => (natural found, rest)
  | text => (digits? text).map fun (found, rest) => (natural found, rest)

/-- The exponent, if there is one. -/
def exponent? : List Char → Option (Option Int × List Char)
  | [] => some (none, [])
  | letter :: text =>
    if letter = 'e' ∨ letter = 'E' then
      (signedExponent? text).map fun (found, rest) => (some found, rest)
    else some (none, letter :: text)

def unsigned? (negative : Bool) (text : List Char) : Option Numeral := do
  let (whole, text) ← whole? text
  let (fraction, text) ← fraction? text
  let (exponent, text) ← exponent? text
  if text.isEmpty then some ⟨negative, whole, fraction, exponent⟩ else none

def ofText? (text : String) : Option Numeral :=
  match text.toList with
  | '-' :: rest => unsigned? true rest
  | rest => unsigned? false rest

/-- The digits are added to a number for as long as it stays below 2^64; with it come the digits
from the first one that does not fit. -/
def extend (number : Nat) : List Char → Nat × List Char
  | [] => (number, [])
  | digit :: digits =>
    if shiftIn number digit < 2 ^ 64 then extend (shiftIn number digit) digits
    else (number, digit :: digits)

/-- The absolute value as a floating-point number. Digits beyond 64 bits are left out, each of
them in front of the point as a factor of ten. -/
def magnitude (numeral : Numeral) : FloatBits :=
  let (number, left) := extend 0 numeral.whole
  let fraction := numeral.fraction.getD []
  let (number, cut) := extend number fraction
  let places : Int := left.length - (fraction.length - cut.length : Nat)
  FloatBits.ofScaled number (places + numeral.exponent.getD 0)

def integer? (numeral : Numeral) : Option Int :=
  let number := natural numeral.whole
  if numeral.fraction.isSome ∨ numeral.exponent.isSome then none
  else if numeral.negative then
    if 0 < number ∧ number ≤ 2 ^ 63 then some (-(number : Int)) else none
  else if number < 2 ^ 64 then some number
  else none

/-- The value of a numeral, unless it is beyond all numbers. -/
def toJson? (numeral : Numeral) : Option Json :=
  match numeral.integer? with
  | some value => some (.integer value)
  | none =>
    if numeral.magnitude = FloatBits.infinity then none
    else some (.float (numeral.magnitude.withSign numeral.negative))

end Numeral

/-! ### Writing -/

/-- A number that is `digits` times the power of ten: positional with at least one digit on
either side of the point while the point is at most sixteen digits behind the first digit and at
most four zeros before it, and otherwise with an exponent that bears its sign. -/
def decimalText (digits : Nat) (power : Int) : String :=
  let digits := Nat.toDigits 10 digits
  let point := digits.length + power
  let zeros (n : Int) := List.replicate n.toNat '0'
  let text :=
    if 0 ≤ power ∧ point ≤ 16 then digits ++ zeros power ++ ['.', '0']
    else if 0 < point ∧ point ≤ 16 then
      digits.take point.toNat ++ '.' :: digits.drop point.toNat
    else if -5 < point ∧ point ≤ 0 then '0' :: '.' :: zeros (-point) ++ digits
    else
      let fraction := if digits.length = 1 then [] else '.' :: digits.tail
      let sign := if 0 < point then ['+'] else []
      digits.take 1 ++ fraction ++ 'e' :: sign ++ (toString (point - 1)).toList
  String.ofList text

def FloatBits.text (bits : FloatBits) : String :=
  let (digits, power) := bits.shortest
  (if bits.isNegative then "-" else "") ++ decimalText digits power

end LabeledBlocks
