import LossRecovery.Scoreboard.Basic

/-!
# `LossRecovery.RecentAck` — loss detection by time

Of all delivered records the most recently sent one is remembered. A record sent before it that is
still missing after that record's RTT and some time for reordering is lost.

## Contents
- `Delivery`: what is kept of a record when it arrives.
- `RecentAck` with `update`; `noteReordering`, `noteDuplicate`, `fade`: evidence of reordering.
- `reorderWindow`: the time allowed for reordering.
- `isLost`, `lost`: the records presumed lost.
-/

namespace LossRecovery

/-- What is kept of a record when it arrives. -/
structure Delivery where
  lastSent : Nat
  stop : Nat
  resends : Nat
  /-- The flags before the delivery. -/
  flags : Flags
deriving DecidableEq

/-- The delivery of a record. -/
def Delivery.ofRecord (r : SendRecord) : Delivery := ⟨r.lastSent, r.stop, r.resends, r.flags⟩

/-- The most recently sent delivered record, and the evidence of reordering. -/
structure RecentAck where
  /-- When the record was sent. -/
  sentAt : Option Nat := none
  /-- Where the record stops. -/
  stop : Nat := 0
  /-- The RTT of the record. -/
  rtt : Nat := 0
  /-- When reordering was last seen. -/
  reorderSeen : Option Nat := none
  /-- The factor of the reordering window. -/
  multiplier : Nat := 1
  /-- The right edge when the factor was last raised. -/
  raisedAt : Option Nat := none
deriving DecidableEq, Inhabited

namespace RecentAck

/-- The greatest factor of the reordering window. -/
def maxMultiplier : Nat := 16

/-- Whether the ack of a resent record may be for an earlier send of it. -/
def ambiguous (d : Delivery) (echo : Option Nat) (minRtt : Nat) (now : Nat) : Bool :=
  0 < d.resends && (echo.any (· < d.lastSent) || Time.since now d.lastSent < minRtt)

/-- Whether a delivery is of a later send than the one remembered. -/
def precedes (a : RecentAck) (d : Delivery) : Bool :=
  match a.sentAt with
  | none => true
  | some t => t < d.lastSent || (d.lastSent == t && a.stop < d.stop)

/-- Remember a delivery if it is of a later send. -/
def update (a : RecentAck) (d : Delivery) (echo : Option Nat) (minRtt : Nat)
    (now : Nat) : RecentAck :=
  if ambiguous d echo minRtt now then a
  else if a.precedes d then
    { a with sentAt := some d.lastSent, stop := d.stop, rtt := Time.since now d.lastSent }
  else a

/-! ## Reordering -/

/-- Note that reordering was seen. -/
def noteReordering (a : RecentAck) (now : Nat) : RecentAck :=
  { a with reorderSeen := some now }

/-- Note a duplicate report, which raises the factor once per round trip. -/
def noteDuplicate (a : RecentAck) (una top : Nat) (now : Nat) : RecentAck :=
  if a.raisedAt.all (· < una) then
    { a with
      multiplier := min (a.multiplier + 1) maxMultiplier
      raisedAt := some top
      reorderSeen := some now }
  else { a with reorderSeen := some now }

/-- Forget evidence older than `age`. -/
def fade (a : RecentAck) (age : Nat) (now : Nat) : RecentAck :=
  if a.reorderSeen.any (age < Time.since now ·) then
    { a with reorderSeen := none, multiplier := 1, raisedAt := none }
  else a

/-- The time allowed for reordering: the least RTT shifted down, times the factor, but not more
than the smoothed RTT. -/
def reorderWindow (a : RecentAck) (minRtt smoothed : Nat) (shift : Nat) : Nat :=
  min ((minRtt >>> min shift 16) * a.multiplier) smoothed

/-! ## Losses -/

/-- Whether the remembered record was sent after `r`. -/
def sentAfter (a : RecentAck) (r : SendRecord) : Bool :=
  a.sentAt.any fun t => r.lastSent < t || (r.lastSent == t && r.stop ≤ a.stop)

/-- Whether a record is presumed lost, by duplicate acks or by time. A hole sent again is lost by
time only; records beyond a collapsed window are not judged. -/
def isLost (a : RecentAck) (window : Nat) (dupackThreshold : Nat) (now : Nat)
    (r : SendRecord) : Bool :=
  !r.isDelivered && !r.flags.collapsed &&
    ((!r.hole && dupackThreshold ≤ r.dupacks)
      || (a.sentAfter r && r.lastSent + a.rtt + window ≤ now))

/-- The records presumed lost, least recently sent first. -/
def lost (a : RecentAck) (b : Scoreboard) (window : Nat) (dupackThreshold : Nat)
    (now : Nat) : List SendRecord :=
  b.ordered.filter (a.isLost window dupackThreshold now)

end RecentAck

end LossRecovery
