import LabeledBlocks.FloatBits.Rounding

/-!
# The shortest decimal of a floating-point number

Of the decimals that round to a number the one with the fewest digits, and of several such ones
the one closest to the number. Each power of ten spans a grid of its multiples. The coarser the
grid, the fewer digits its multiples have, so the coarsest grid with a decimal that rounds to the
number is searched for.

* `FloatBits.shortest` gives the digits and the power of ten.
-/

namespace LabeledBlocks.FloatBits

/-- The multiple of `10 ^ power` that rounds to a positive number: one of its two neighbours, and
if both do, the closer one.

All is counted in quarters of the last place, `2 ^ (exponent - 2)`. The reals that round to the
number reach two quarters to either side, and one only below a power of two; their ends belong to
them if the significand is even. -/
def onGrid (bits : FloatBits) (power : Int) : Option Nat :=
  let quarters := 4 * significand bits
  let narrow := significand bits = 2 ^ 52 ∧ -1074 < exponent bits
  let least := if narrow then quarters - 1 else quarters - 2
  let greatest := quarters + 2
  let place := exponent bits - 2
  -- a quarter of the last place is `unit / step` times the power of ten
  let unit := 2 ^ place.toNat * 10 ^ (-power).toNat
  let step := 2 ^ (-place).toNat * 10 ^ power.toNat
  let roundsBack (multiple : Nat) : Bool :=
    if significand bits % 2 = 0 then
      least * unit ≤ multiple * step ∧ multiple * step ≤ greatest * unit
    else least * unit < multiple * step ∧ multiple * step < greatest * unit
  let below := quarters * unit / step
  match roundsBack below, roundsBack (below + 1) with
  | true, true => some (roundDiv (quarters * unit) step)
  | true, false => some below
  | false, true => some (below + 1)
  | false, false => none

/-- The digits of the shortest decimal and the power of ten that they are multiplied by, for the
absolute value of a finite number. The grids reach from `10 ^ 308`, the greatest power of ten that
is a number's decimal, to `10 ^ (-324)`, which is finer than the numbers lie anywhere. -/
def shortest (bits : FloatBits) : Nat × Int :=
  if significand bits = 0 then (0, 0)
  else
    let powers := (List.range 633).map fun (i : Nat) => 308 - (i : Int)
    let found := powers.findSome? fun power => (onGrid bits power).map fun digits => (digits, power)
    found.getD (0, 0)

end LabeledBlocks.FloatBits
