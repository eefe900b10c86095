import LossRecovery.Time

/-!
# `LossRecovery.Text.Duration` — the text of a duration

A duration is written in the largest of the units `s`, `ms`, `µs`, `ns` that makes its integer part
at least one, with the fraction cut after its last non-zero digit: `1.5ms`, `2s`, `0ns`.

## Contents
- `padLeft`, `dropTrailingZeros`, `withFraction`: a number with a decimal fraction.
- `duration`: the text of a duration.
-/

namespace LossRecovery.Text

/-- The decimal digits of `n`, with zeros in front up to `width`. -/
def padLeft (width n : Nat) : String :=
  let digits := (toString n).toList
  String.ofList (List.replicate (width - digits.length) '0' ++ digits)

/-- A text without the zeros at its end. -/
def dropTrailingZeros (s : String) : String :=
  String.ofList (s.toList.reverse.dropWhile (· == '0')).reverse

/-- `whole` followed by a fraction of `places` digits, zeros at the end left out. -/
def withFraction (whole fraction places : Nat) : String :=
  if fraction = 0 then toString whole
  else toString whole ++ "." ++ dropTrailingZeros (padLeft places fraction)

/-- The text of a duration in its largest fitting unit. -/
def duration (d : Nat) : String :=
  if Time.second ≤ d then withFraction (d / Time.second) (d % Time.second) 9 ++ "s"
  else if Time.millisecond ≤ d then
    withFraction (d / Time.millisecond) (d % Time.millisecond) 6 ++ "ms"
  else if Time.microsecond ≤ d then
    withFraction (d / Time.microsecond) (d % Time.microsecond) 3 ++ "µs"
  else toString d ++ "ns"

end LossRecovery.Text
