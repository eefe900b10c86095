import LossRecovery.RecentAck

/-!
# `LossRecovery.Ack.Outcome` — what an ack changed

## Contents
- `AckOutcome`, with `delivered` and `record`, which takes in one delivered record.
- `AckOutcome.usableSend`: the send an RTT may be measured from.
-/

namespace LossRecovery

/-- What an ack changed. -/
structure AckOutcome where
  /-- Whether the left edge moved. -/
  advanced : Bool := false
  /-- Bytes newly below the left edge that were not SACKed before. -/
  cumulative : Nat := 0
  /-- Bytes newly SACKed. -/
  sacked : Nat := 0
  /-- The RTT measured from the latest usable send. -/
  rttSample : Option Nat := none
  /-- The send the sample was measured from. -/
  rttFrom : Option Nat := none
  /-- The most recently sent of the delivered records. -/
  newest : Option Delivery := none
  /-- Whether a delivered record was sent while the sender had no more data. -/
  appLimited : Bool := false
  /-- Whether a tail loss probe was delivered. -/
  probeDelivered : Bool := false
  /-- Whether data passed by a SACK arrived without being sent again. -/
  reordering : Bool := false
  /-- Whether a duplicate report was taken in. -/
  duplicateReport : Bool := false
  /-- Bytes sent again that arrived twice. -/
  spuriousBytes : Nat := 0
  /-- Blocks that made no sense. -/
  malformed : Nat := 0
  /-- Blocks that were known before. -/
  filtered : Nat := 0
  /-- Blocks left out because of the record limit. -/
  refused : Nat := 0
  /-- Cuts made. -/
  splits : Nat := 0
  /-- Joins made. -/
  merged : Nat := 0
  /-- Records newly beyond a collapsed window. -/
  collapsed : Nat := 0
  /-- Whether the ack only repeated the cumulative ack while data was outstanding. -/
  duplicate : Bool := false
deriving DecidableEq, Inhabited

namespace AckOutcome

/-- How many bytes the ack delivered. -/
def delivered (o : AckOutcome) : Nat := o.cumulative + o.sacked

/-- The send an RTT may be measured from: the only send of a record, or the one the echo names. -/
def usableSend (d : Delivery) (echo : Option Nat) (sentAtEcho : Bool) : Option Nat :=
  if d.resends = 0 then some d.lastSent
  else if sentAtEcho then echo
  else none

/-- Whether a delivery is of a later send than the newest so far, or of the same send further up. -/
def isNewer (newest : Option Delivery) (d : Delivery) : Bool :=
  match newest with
  | none => true
  | some n => n.lastSent < d.lastSent || (n.lastSent == d.lastSent && n.stop < d.stop)

/-- Measure the RTT from a usable send, unless a later one was used before. -/
def measure (o : AckOutcome) (sent : Option Nat) (now : Nat) : AckOutcome :=
  match sent with
  | none => o
  | some t =>
    if o.rttFrom.all (· ≤ t) then
      { o with rttFrom := some t, rttSample := some (Time.since now t) }
    else o

/-- Take in a delivered record. -/
def record (o : AckOutcome) (d : Delivery) (echo : Option Nat) (sentAtEcho : Bool)
    (now : Nat) : AckOutcome :=
  let o := { o with
    probeDelivered := o.probeDelivered || d.flags.probe
    appLimited := o.appLimited || d.flags.appLimited
    reordering := o.reordering || (d.flags.sackPassed && d.resends == 0)
    newest := if isNewer o.newest d then some d else o.newest }
  o.measure (usableSend d echo sentAtEcho) now

end AckOutcome

end LossRecovery
