import LossRecovery.Phase
import LossRecovery.Time

/-!
# `LossRecovery.Goodput` — measuring the rate of delivery

A window opens at the current count of delivered bytes and closes once enough more were delivered
while the sender had data to send. Each closed window gives one sample; the latest samples are kept
in a ring.

## Contents
- `GoodputEstimator` with `start`, `deliver` and `bandwidth?`.
- `GoodputSample`: a closed window.
-/

namespace LossRecovery

/-- A closed window. -/
structure GoodputSample where
  /-- Bytes per second. -/
  bandwidth : Nat
  /-- The phase the window was opened in. -/
  phase : Phase
  /-- Whether the count of windows has stopped at its maximum. -/
  saturated : Bool
deriving DecidableEq

/-- An open window. -/
structure GoodputWindow where
  /-- The delivered bytes when it was opened. -/
  delivered : Nat
  opened : Nat
  phase : Phase
deriving DecidableEq

/-- How many samples are kept. -/
abbrev goodputRingSize : Nat := 8

/-- The largest count of closed windows. -/
def maxMeasurements : Nat := 255

/-- The rate of delivery over the latest windows. -/
structure GoodputEstimator where
  /-- The latest samples, overwritten in turn. -/
  ring : Vector Nat goodputRingSize
  /-- The place of the next sample. -/
  next : Fin goodputRingSize
  /-- How many windows were closed, as far as it is counted. -/
  measurements : Nat
  window : Option GoodputWindow
  /-- Bytes a window has to cover. -/
  minBytes : Nat
  /-- The RTT blended over closed windows. -/
  smoothedRtt : Option Nat
  /-- The weight of the history in the blended RTT. -/
  decay : Nat
deriving DecidableEq

namespace GoodputEstimator

/-- The estimator before the first delivery. -/
def start (minBytes decay : Nat) : GoodputEstimator where
  ring := Vector.replicate goodputRingSize 0
  next := 0
  measurements := 0
  window := none
  minBytes := max minBytes 1
  smoothedRtt := none
  decay := max decay 1

/-- Open a window at the current count. -/
def reopen (g : GoodputEstimator) (delivered : Nat) (phase : Phase) (now : Nat) :
    GoodputEstimator :=
  { g with window := some ⟨delivered, now, phase⟩ }

/-- Bytes per second, as a 64-bit word. -/
def rate (bytes : Nat) (elapsed : Nat) : Nat := Word.wrap (bytes * Time.second / elapsed)

/-- Close the window with a sample of the given bandwidth. -/
def close (g : GoodputEstimator) (bandwidth : Nat) (rtt : Nat) : GoodputEstimator :=
  { g with
    ring := g.ring.set g.next bandwidth
    next := g.next + 1
    measurements := min (g.measurements + 1) maxMeasurements
    smoothedRtt := match g.smoothedRtt with
      | some blended => some ((blended * (g.decay - 1) + rtt) / g.decay)
      | none => some rtt }

/-- Take in the total of delivered bytes. Deliveries of a sender without data do not measure the
path and restart the window. -/
def deliver (g : GoodputEstimator) (delivered : Nat) (appLimited : Bool) (rtt : Nat)
    (phase : Phase) (now : Nat) : GoodputEstimator × Option GoodputSample :=
  match g.window with
  | none => (g.reopen delivered phase now, none)
  | some w =>
    if appLimited then (g.reopen delivered phase now, none)
    else
      let bytes := delivered - w.delivered
      let elapsed := Time.since now w.opened
      if bytes < g.minBytes ∨ elapsed = 0 then (g, none)
      else
        let bandwidth := rate bytes elapsed
        ((g.close bandwidth rtt).reopen delivered phase now,
          some ⟨bandwidth, w.phase, g.measurements = maxMeasurements⟩)

/-- The highest of the samples kept, none before the first one. -/
def bandwidth? (g : GoodputEstimator) : Option Nat :=
  (g.ring.toList.take g.measurements).max?

end GoodputEstimator

end LossRecovery
