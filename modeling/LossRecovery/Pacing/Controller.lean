import LossRecovery.Journal
import LossRecovery.Pacing.RateTable
import LossRecovery.Pacing.TokenBucket
import LossRecovery.Settings

/-!
# `LossRecovery.Pacing.Controller` — choosing the pacing rate

The rate is a percentage of the bandwidth that depends on the phase, or a fixed rate, cut down to
the greatest rate allowed and to what a hardware pacer supports.

## Contents
- `PacingController` with `start`, `setHardware`, `setFixed`, `percent`.
- `wanted`, `chooseRate`: the rate before and after the limits; `update`: a new rate.
- `schedule`, `spend`: pacing sends at the rate.
-/

namespace LossRecovery

/-- The choice of the pacing rate. -/
structure PacingController where
  slowStartPercent : Nat
  avoidancePercent : Nat
  recoveryPercent : Nat
  probeRttPercent : Nat
  /-- A rate that replaces the computed one. -/
  fixed : Option Nat
  /-- The greatest rate. -/
  maxRate : Nat
  hardware : Option RateTable := none
  /-- Whether the hardware pacer is in use. -/
  engaged : Bool := false
  /-- The rate in bytes per second. -/
  rate : Nat := 0
  bucket : TokenBucket
deriving DecidableEq

/-- The outcome of choosing a rate. -/
structure RateChoice where
  rate : Nat
  /-- Whether the hardware pacer stays in use. -/
  engaged : Bool
  /-- Whether the hardware pacer did not support the rate asked for. -/
  fellBack : Bool
  events : List Event
deriving DecidableEq

namespace PacingController

/-- The controller before the first update. -/
def start (s : Settings) (now : Nat) : PacingController where
  slowStartPercent := s.slowStartPercent
  avoidancePercent := s.avoidancePercent
  recoveryPercent := s.recoveryPercent
  probeRttPercent := s.probeRttPercent
  fixed := s.fixedPacingRate
  maxRate := s.maxPacingRate
  bucket := TokenBucket.start s.pacingGranularity s.initialRtt s.initialWindow s.mss now

/-- Use a hardware pacer, if it supports any rate. -/
def setHardware (c : PacingController) (table : RateTable) : PacingController :=
  { c with hardware := some table, engaged := 0 < table.maximum }

/-- Replace the computed rate, or go back to it; zero is no rate. -/
def setFixed (c : PacingController) (rate : Option Nat) : PacingController :=
  { c with fixed := rate.filter (0 < ·) }

/-- The percentage of the bandwidth used in a phase. -/
def percent (c : PacingController) : Phase → Nat
  | .slowStart => c.slowStartPercent
  | .congestionAvoidance => c.avoidancePercent
  | .recovery => c.recoveryPercent
  | .probeRtt => c.probeRttPercent

/-- The rate before any limit. -/
def wanted (c : PacingController) (phase : Phase) (bandwidth : Nat) : Nat :=
  c.fixed.getD (Word.wrap (bandwidth * c.percent phase / 100))

/-- Limit the rate to what is allowed and supported. -/
def chooseRate (c : PacingController) (phase : Phase) (bandwidth : Nat) : RateChoice :=
  let rate := min (c.wanted phase bandwidth) c.maxRate
  match c.engaged, c.hardware with
  | true, some table =>
    let request := min rate table.maximum
    match table.supported? request with
    | some supported =>
      if supported = request then ⟨supported, true, false, []⟩
      else ⟨supported, true, true, [.hardwareRateReplaced request supported]⟩
    | none => ⟨rate, false, true, [.hardwareRateRejected request]⟩
  | engaged, _ => ⟨rate, engaged, false, []⟩

/-- What there is to tell about an update. -/
def updateEvents (c : PacingController) (phase : Phase) (bandwidth : Nat) : List Event :=
  let choice := c.chooseRate phase bandwidth
  choice.events
    ++ (if choice.rate = c.rate then [] else [.rateChanged phase bandwidth choice.rate])

/-- Compute the rate anew. -/
def update (c : PacingController) (phase : Phase) (bandwidth : Nat) : PacingController :=
  let choice := c.chooseRate phase bandwidth
  { c with rate := choice.rate, engaged := choice.engaged }

/-- Count an update in which the hardware pacer did not support the rate asked for. -/
def countFallback (c : PacingController) (phase : Phase) (bandwidth : Nat) (sink : Sink) : Sink :=
  if (c.chooseRate phase bandwidth).fellBack then sink.add .hwRateFallbacks 1 else sink

/-- When `bytes` may be sent; none if at once. -/
def schedule (c : PacingController) (bytes : Nat) (rtt : Nat) (window : Nat) (now : Nat) :
    PacingController × Option Nat :=
  let scheduled := c.bucket.schedule bytes c.rate rtt window now
  ({ c with bucket := scheduled.1 }, scheduled.2)

/-- Account for bytes sent. -/
def spend (c : PacingController) (bytes : Nat) : PacingController :=
  { c with bucket := c.bucket.spend bytes }

/-- A controller as it is written in messages. -/
def text (c : PacingController) : String :=
  let fixed := match c.fixed with
    | some rate => s!"Some({rate})"
    | none => "None"
  s!"rate={c.rate} fixed={fixed} hw={c.engaged}"

end PacingController

end LossRecovery
