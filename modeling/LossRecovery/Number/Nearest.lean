/-!
# `LossRecovery.Number.Nearest` — rounding to the nearest number

Rates and elapsed times are reported from numbers of limited precision. They are kept as exact
rationals here, and every loss of precision is a call of one of the functions below.

## Contents
- `nearestInt`: the nearest integer, a half going to the even neighbour.
- `binade`, `nearestBinary`: the nearest number with a significand of 53 binary digits.
-/

namespace LossRecovery.Number

/-- The integer nearest to `q`; a half goes to the even neighbour. -/
def nearestInt (q : Rat) : Int :=
  if q - q.floor < 1 / 2 ∨ (q - q.floor = 1 / 2 ∧ q.floor % 2 = 0) then q.floor
  else q.floor + 1

/-- The exponent of the largest power of two that is not above a positive `q`. -/
def binade (q : Rat) : Int :=
  let guess : Int := (q.num.natAbs.log2 : Int) - q.den.log2
  if q < (2 : Rat) ^ guess then guess - 1 else guess

/-- The number with 53 significant binary digits that is nearest to `q`; a half goes to the even
significand. The exponent is not bounded. -/
def nearestBinary (q : Rat) : Rat :=
  if q = 0 then 0
  else
    let unit : Rat := (2 : Rat) ^ (binade q - 52)
    nearestInt (q / unit) * unit

end LossRecovery.Number
