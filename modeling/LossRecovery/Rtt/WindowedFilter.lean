/-!
# `LossRecovery.Rtt.WindowedFilter` — the extreme of a sliding window

The filter keeps the best, second best and third best measurement of a window, each taken no earlier
than the one before. A new best makes all earlier ones worthless, so the filter restarts on it. As
time passes, the later choices move up and the latest measurement fills in behind them.

## Contents
- `Extreme`, `Extreme.better`: whether the least or the greatest value is sought.
- `Measurement`, `Choices`, `WindowedFilter` with `update`, `value?`, `time?` and `clear`.
-/

namespace LossRecovery

/-- Which extreme is sought. -/
inductive Extreme where
  | least
  | greatest
deriving DecidableEq, Inhabited

/-- Whether `a` is at least as good as `b`. -/
def Extreme.better (e : Extreme) (a b : Nat) : Bool :=
  match e with
  | least => a ≤ b
  | greatest => b ≤ a

/-- A value and when it was measured. -/
structure Measurement where
  time : Nat
  value : Nat
deriving DecidableEq, Inhabited

/-- The best, second best and third best measurement. -/
structure Choices where
  best : Measurement
  second : Measurement
  third : Measurement
deriving DecidableEq, Inhabited

/-- The extreme of the values measured within a window. -/
structure WindowedFilter where
  extreme : Extreme
  window : Nat
  /-- The choices, once anything was measured. -/
  choices : Option Choices := none
deriving DecidableEq

namespace Choices

/-- A single measurement in every place. -/
def only (m : Measurement) : Choices := ⟨m, m, m⟩

/-- Move the later choices up, and put `m` last. -/
def shift (c : Choices) (m : Measurement) : Choices := ⟨c.second, c.third, m⟩

/-- Replace the later choices that `m` is at least as good as. -/
def improve (e : Extreme) (c : Choices) (m : Measurement) : Choices :=
  if e.better m.value c.second.value then ⟨c.best, m, m⟩
  else if e.better m.value c.third.value then ⟨c.best, c.second, m⟩
  else c

/-- Let choices that left the window go, and renew later choices that equal an earlier one after a
quarter and a half of the window. -/
def age (window : Nat) (c : Choices) (m : Measurement) : Choices :=
  let elapsed := m.time - c.best.time
  if window < elapsed then
    let c := c.shift m
    if window < m.time - c.best.time then c.shift m else c
  else if c.second = c.best ∧ window / 4 < elapsed then ⟨c.best, m, m⟩
  else if c.third = c.second ∧ window / 2 < elapsed then ⟨c.best, c.second, m⟩
  else c

end Choices

namespace WindowedFilter

/-- A filter that has seen nothing. -/
def start (extreme : Extreme) (window : Nat) : WindowedFilter := ⟨extreme, window, none⟩

/-- Feed a measurement, and tell whether it became the best one. Measurements older than the third
choice are ignored. -/
def update (f : WindowedFilter) (time value : Nat) : WindowedFilter × Bool :=
  let m : Measurement := ⟨time, value⟩
  match f.choices with
  | none => ({ f with choices := some (Choices.only m) }, true)
  | some c =>
    if time < c.third.time then (f, false)
    else if f.extreme.better value c.best.value = true ∨ f.window < time - c.third.time then
      ({ f with choices := some (Choices.only m) }, true)
    else ({ f with choices := some ((c.improve f.extreme m).age f.window m) }, false)

/-- The best value of the window. -/
def value? (f : WindowedFilter) : Option Nat := f.choices.map (·.best.value)

/-- When the best value was measured. -/
def time? (f : WindowedFilter) : Option Nat := f.choices.map (·.best.time)

/-- Forget everything. -/
def clear (f : WindowedFilter) : WindowedFilter := { f with choices := none }

end WindowedFilter

end LossRecovery
