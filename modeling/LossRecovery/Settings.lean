import LossRecovery.Error
import LossRecovery.Time

/-!
# `LossRecovery.Settings` — the parameters of an engine

## Contents
- `Settings`, with the recommended values as defaults.
- `Settings.validate`: the first rule the settings break, if any.
-/

namespace LossRecovery

/-- The parameters of an engine. -/
structure Settings where
  /-- The maximum segment size. -/
  mss : Nat := 1460
  /-- The RTT assumed before the first sample. -/
  initialRtt : Nat := 333 * Time.millisecond
  /-- The retransmission timeout before the first sample. -/
  initialRto : Nat := Time.second
  /-- The least retransmission timeout. -/
  minRto : Nat := 200 * Time.millisecond
  /-- The greatest retransmission timeout, backoff included. -/
  maxRto : Nat := 60 * Time.second
  /-- Whether tail loss probes are sent. -/
  tlpEnabled : Bool := true
  /-- The least probe timeout. -/
  tlpMin : Nat := 10 * Time.millisecond
  /-- Extra time for a delayed ack while a single segment is outstanding. -/
  delayedAckTime : Nat := 200 * Time.millisecond
  /-- Duplicate acks above a record that make it lost. -/
  dupackThreshold : Nat := 3
  /-- The reordering window is the least RTT shifted down by this. -/
  reorderShift : Nat := 2
  /-- How long evidence of reordering lasts. -/
  reorderFade : Nat := 60 * Time.second
  /-- The window of the least and greatest RTT. -/
  minRttWindow : Nat := 10 * Time.second
  /-- Time without a new least RTT before the path is probed. -/
  probeRttInterval : Nat := 10 * Time.second
  /-- How long a probe holds its floor. -/
  probeRttDuration : Nat := 200 * Time.millisecond
  /-- The floor of a probe in segments. -/
  probeRttFloorSegments : Nat := 4
  /-- Segments a goodput sample has to cover. -/
  goodputMinSegments : Nat := 6
  /-- Weight of the history in the RTT blended over goodput samples. -/
  goodputRttDecay : Nat := 8
  /-- Pacing rate in percent of the bandwidth during slow start. -/
  slowStartPercent : Nat := 200
  /-- Pacing rate in percent of the bandwidth during congestion avoidance. -/
  avoidancePercent : Nat := 100
  /-- Pacing rate in percent of the bandwidth during recovery. -/
  recoveryPercent : Nat := 90
  /-- Pacing rate in percent of the bandwidth while the path is probed. -/
  probeRttPercent : Nat := 60
  /-- A pacing rate in bytes per second that replaces the computed one. -/
  fixedPacingRate : Option Nat := none
  /-- The greatest pacing rate in bytes per second. -/
  maxPacingRate : Nat := Word.max64
  /-- The clock granularity of the pacer. -/
  pacingGranularity : Nat := Time.millisecond
  /-- The greatest number of send records. -/
  maxSegments : Nat := 4096
  /-- Ranges remembered by the SACK filter. -/
  sackFilterRanges : Nat := 16
  /-- The initial congestion window in segments. -/
  initialWindowSegments : Nat := 10
  /-- The least congestion window in segments. -/
  minWindowSegments : Nat := 2
deriving DecidableEq

namespace Settings

/-- The initial congestion window in bytes. -/
def initialWindow (s : Settings) : Nat := Word.mul s.initialWindowSegments s.mss

/-- The least congestion window in bytes. -/
def minWindow (s : Settings) : Nat := Word.mul s.minWindowSegments s.mss

/-- The pacing percentages of the four phases. -/
def percents (s : Settings) : List Nat :=
  [s.slowStartPercent, s.avoidancePercent, s.recoveryPercent, s.probeRttPercent]

/-- The first rule that the settings break. -/
def fault? (s : Settings) : Option Misconfiguration :=
  if s.mss = 0 then some .zeroMss
  else if s.maxRto < s.minRto then some .crossedRtoLimits
  else if s.maxSegments < 2 then some .fewSegments
  else if 0 ∈ s.percents then some .zeroPercent
  else if s.probeRttInterval ≤ s.probeRttDuration then some .longProbe
  else if s.goodputRttDecay = 0 then some .zeroDecay
  else if 16 < s.reorderShift then some .largeShift
  else if s.fixedPacingRate = some 0 then some .zeroFixedRate
  else none

/-- Succeeds if the settings fit together. -/
def validate (s : Settings) : Except Error Unit :=
  match s.fault? with
  | some fault => .error (.misconfigured fault)
  | none => .ok ()

end Settings

end LossRecovery
