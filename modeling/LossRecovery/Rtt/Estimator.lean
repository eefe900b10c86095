import LossRecovery.Rtt.WindowedFilter
import LossRecovery.Settings

/-!
# `LossRecovery.Rtt.Estimator` — round trip times and the retransmission timeout

## Contents
- `RttEstimator` with `start`, `update` and the estimates `smoothedRtt`, `minRtt`, `maxRtt`.
- `rto`, `rtoAfter`: the retransmission timeout, and its doubling with every expiration.
- `rtoAfter?`: the timeout where the limits may be contradictory.
-/

namespace LossRecovery

/-- Estimates of the round trip time. -/
structure RttEstimator where
  /-- The latest sample. -/
  latest : Nat
  /-- The moving average of the samples. -/
  smoothed : Option Nat := none
  /-- The mean deviation of the samples. -/
  variation : Nat
  leastFilter : WindowedFilter
  greatestFilter : WindowedFilter
  /-- When the least RTT was last lowered or renewed. -/
  leastStamp : Nat
  /-- How many samples were taken. -/
  samples : Nat := 0
  /-- The origin of the filters' clock. -/
  epoch : Nat
  initialRtt : Nat
  initialRto : Nat
  minRto : Nat
  maxRto : Nat
deriving DecidableEq

namespace RttEstimator

/-- Samples above this are not believed. -/
def maxPlausible : Nat := 120 * Time.second

/-- The least addition to the smoothed RTT in the timeout. -/
def granularity : Nat := Time.millisecond

/-- The estimator before the first sample. Filters count in words of microseconds, and the window is cut
to one. -/
def start (s : Settings) (now : Nat) : RttEstimator where
  latest := s.initialRtt
  variation := s.initialRtt / 2
  leastFilter := WindowedFilter.start .least (Word.wrap (Time.toMicros s.minRttWindow))
  greatestFilter := WindowedFilter.start .greatest (Word.wrap (Time.toMicros s.minRttWindow))
  leastStamp := now
  epoch := now
  initialRtt := s.initialRtt
  initialRto := s.initialRto
  minRto := s.minRto
  maxRto := s.maxRto

/-- Whether a sample was taken. -/
def hasSample (e : RttEstimator) : Bool := e.smoothed.isSome

/-- The smoothed RTT; the initial RTT before any sample. -/
def smoothedRtt (e : RttEstimator) : Nat := e.smoothed.getD e.latest

/-- A filtered RTT, which is kept in microseconds; the initial RTT before any sample. -/
def filtered (e : RttEstimator) (f : WindowedFilter) : Nat :=
  (f.value?.map (· * Time.microsecond)).getD e.initialRtt

/-- The least RTT of the window. -/
def minRtt (e : RttEstimator) : Nat := e.filtered e.leastFilter

/-- The greatest RTT of the window. -/
def maxRtt (e : RttEstimator) : Nat := e.filtered e.greatestFilter

/-- Take the least RTT as renewed. -/
def renewLeast (e : RttEstimator) (now : Nat) : RttEstimator := { e with leastStamp := now }

/-! ## The retransmission timeout -/

/-- The timeout without backoff, within its limits. -/
def rto (e : RttEstimator) : Nat :=
  let plain := match e.smoothed with
    | some smoothed => smoothed + max (4 * e.variation) granularity
    | none => e.initialRto
  min (max plain e.minRto) e.maxRto

/-- The timeout after a number of expirations in a row, each doubling it. -/
def rtoAfter (e : RttEstimator) (backoff : Nat) : Nat :=
  min (e.rto <<< min backoff 16) e.maxRto

/-- The timeout after a number of expirations; none if the lower limit lies above the upper. -/
def rtoAfter? (e : RttEstimator) (backoff : Nat) : Option Nat :=
  if e.minRto ≤ e.maxRto then some (e.rtoAfter backoff) else none

/-! ## Samples -/

/-- Whether a sample is believed. -/
def isPlausible (rtt : Nat) : Bool := 0 < rtt && rtt ≤ maxPlausible

/-- The distance of two durations. -/
def distance (a b : Nat) : Nat := (a - b) + (b - a)

/-- The averages after one more sample. -/
def average (e : RttEstimator) (rtt : Nat) : RttEstimator :=
  match e.smoothed with
  | some smoothed =>
    { e with
      variation := (3 * e.variation + distance smoothed rtt) / 4
      smoothed := some ((7 * smoothed + rtt) / 8) }
  | none => { e with smoothed := some rtt, variation := rtt / 2 }

/-- Take in a sample. A sample that is zero or implausibly large is refused. The filters' clock is cut to
a word; a believed sample is far below that. -/
def update (e : RttEstimator) (rtt : Nat) (now : Nat) : Except Error RttEstimator :=
  if !isPlausible rtt then .error .timingAnomaly
  else
    let time := Word.wrap (Time.toMicros (Time.since now e.epoch))
    let value := max (Time.toMicros rtt) 1
    let least := e.leastFilter.update time value
    let greatest := e.greatestFilter.update time value
    .ok ({ e with
      latest := rtt
      samples := Word.incr32 e.samples
      leastFilter := least.1
      greatestFilter := greatest.1
      leastStamp := if least.2 then now else e.leastStamp }.average rtt)

end RttEstimator

end LossRecovery
