import LossRecovery.Journal
import LossRecovery.Sorting

/-!
# `LossRecovery.Simulation.Link` — the path from sender to receiver

The path is a queue served at a fixed rate, followed by half the propagation delay.

## Contents
- `LinkSettings`, `Packet`, `Link` with `start`.
- `Link.put`: a segment enters the queue, or is dropped.
- `Link.nextArrival`, `Link.takeArrived`: segments leave at the other end.
-/

namespace LossRecovery

/-- The properties of a path. -/
structure LinkSettings where
  /-- The propagation delay of a round trip. -/
  rtt : Nat := 50 * Time.millisecond
  /-- Bytes per second the queue is served at. -/
  rate : Nat := 1250000
  /-- Whether every segment is lost. -/
  losesAll : Bool := false
  /-- Whether every segment is delayed. -/
  delaysAll : Bool := false
  /-- The extra delay of a delayed segment. -/
  extraDelay : Nat := 5 * Time.millisecond
  /-- Bytes the queue takes. -/
  queueLimit : Nat := 256 * 1024
deriving DecidableEq

/-- A segment on its way. -/
structure Packet where
  arrival : Nat
  range : SeqRange
  sent : Nat
deriving DecidableEq

/-- The path from sender to receiver. -/
structure Link where
  settings : LinkSettings
  /-- When the queue will be empty. -/
  busyUntil : Nat
  packets : List Packet := []
  /-- Bytes dropped. -/
  dropped : Nat := 0
deriving DecidableEq

namespace Link

/-- A path without segments. -/
def start (s : LinkSettings) (now : Nat) : Link := ⟨s, now, [], 0⟩

/-- Bytes waiting in the queue. -/
def queued (l : Link) (now : Nat) : Nat :=
  Word.wrap (l.settings.rate * Time.since l.busyUntil now / Time.second)

/-- Whether a segment of `length` bytes is dropped. -/
def drops (l : Link) (length : Nat) (now : Nat) : Bool :=
  l.settings.losesAll || l.settings.queueLimit < l.queued now + length

/-- How long the queue serves a segment. -/
def serving (l : Link) (length : Nat) : Nat :=
  Word.wrap (length * Time.second / max l.settings.rate 1)

/-- Put a segment into the queue, unless it is dropped. -/
def put (l : Link) (range : SeqRange) (now : Nat) : Link × List Event :=
  let length := range.length
  if l.drops length now then
    ({ l with dropped := l.dropped + length }, [.linkDropped range])
  else
    let busyUntil := max l.busyUntil now + l.serving length
    let extra := if l.settings.delaysAll then l.settings.extraDelay else 0
    ({ l with
      busyUntil := busyUntil
      packets := l.packets ++ [⟨busyUntil + l.settings.rtt / 2 + extra, range, now⟩] }, [])

/-- When the next segment arrives. -/
def nextArrival (l : Link) : Option Nat := (l.packets.map (·.arrival)).min?

/-- The segments that have arrived, in the order of their arrival. -/
def takeArrived (l : Link) (now : Nat) : Link × List Packet :=
  ({ l with packets := l.packets.filter (now < ·.arrival) },
    Sorting.sortByKey (·.arrival) (l.packets.filter (·.arrival ≤ now)))

end Link

end LossRecovery
