import LossRecovery.Journal

/-!
# `LossRecovery.RecoveryLedger` — bytes in flight, and rate reduction during recovery

The ledger counts the outstanding bytes that have arrived and those sent again into holes. During a
recovery episode it also counts what was delivered and sent, and grants sends in proportion.

## Contents
- `RecoveryLedger` with `pipe`, the estimate of the bytes in flight.
- `enter`, `leave`, `deliver`, `spend`: the course of an episode.
- `allowance`: how many bytes may be sent now; `allowanceEvents` tells about it.
-/

namespace LossRecovery

/-- Byte counts of the outstanding data and of the current recovery episode. -/
structure RecoveryLedger where
  /-- Outstanding bytes known to be SACKed. -/
  sackedBytes : Nat := 0
  /-- Bytes sent again into holes that have not arrived since. -/
  holeBytes : Nat := 0
  /-- Bytes delivered during the episode. -/
  delivered : Nat := 0
  /-- Bytes sent during the episode. -/
  out : Nat := 0
  /-- Bytes outstanding when the episode began. -/
  flight : Nat := 0
  /-- The right edge when the episode began. -/
  point : Nat := 0
  /-- Bytes delivered by the latest ack. -/
  lastDelivered : Nat := 0
  /-- Whether an episode is in progress. -/
  active : Bool := false
deriving DecidableEq, Inhabited

namespace RecoveryLedger

/-- The estimate of the bytes in flight: what is outstanding, less what has arrived, plus what was
sent again into holes. -/
def pipe (l : RecoveryLedger) (una top : Nat) : Nat :=
  Word.add (top - una - l.sackedBytes) l.holeBytes

/-- Begin an episode. -/
def enter (l : RecoveryLedger) (flight top : Nat) : RecoveryLedger :=
  { l with
    active := true
    delivered := 0
    out := 0
    flight := flight
    point := top
    lastDelivered := 0 }

/-- End the episode. -/
def leave (l : RecoveryLedger) : RecoveryLedger :=
  { l with active := false, delivered := 0, out := 0, flight := 0 }

/-- Count bytes delivered by an ack. -/
def deliver (l : RecoveryLedger) (bytes : Nat) : RecoveryLedger :=
  { l with
    lastDelivered := bytes
    delivered := if l.active then Word.add l.delivered bytes else l.delivered }

/-- Count bytes sent. -/
def spend (l : RecoveryLedger) (bytes : Nat) : RecoveryLedger :=
  { l with out := if l.active then Word.add l.out bytes else l.out }

/-- What an episode with a known flight grants: the share of the threshold in the flight while the
pipe is above the threshold, else enough to reach the threshold, at most one segment more than what
was delivered. -/
def grant? (l : RecoveryLedger) (pipe threshold mss : Nat) : Option Nat :=
  if !l.active then none
  else if threshold < pipe then
    if l.flight = 0 then none
    else
      some (min ((l.delivered * threshold + l.flight - 1) / l.flight) Word.max64 - l.out)
  else
    some (min (threshold - pipe) (Word.add (max (l.delivered - l.out) l.lastDelivered) mss))

/-- How many bytes may be sent now. -/
def allowance (l : RecoveryLedger) (pipe threshold mss : Nat) : Nat :=
  (l.grant? pipe threshold mss).getD 0

/-- What there is to tell about an allowance. -/
def allowanceEvents (l : RecoveryLedger) (pipe threshold mss : Nat) : List Event :=
  match l.grant? pipe threshold mss with
  | some allowed => [.allowance pipe threshold l.delivered l.out allowed]
  | none => []

end RecoveryLedger

end LossRecovery
