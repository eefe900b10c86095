import LossRecovery.Number.Nearest
import LossRecovery.Text.Duration

/-!
# `LossRecovery.Text.FixedPoint` — numbers with a fixed number of decimal places

## Contents
- `fixedPoint`: a number rounded to a number of decimal places, a half going to the even neighbour.
-/

namespace LossRecovery.Text

/-- A number that is not negative, rounded to at least one decimal place. -/
def fixedPoint (places : Nat) (q : Rat) : String :=
  let unit := Nat.pow 10 places
  let scaled := (Number.nearestInt (q * unit)).toNat
  toString (scaled / unit) ++ "." ++ padLeft places (scaled % unit)

end LossRecovery.Text
