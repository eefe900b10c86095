import LossRecovery.Time
import LossRecovery.Word
import LossRecovery.Sequence.Range
import LossRecovery.SendRecord.Flags

/-!
# `LossRecovery.SendRecord.Basic` — one sent range and its history

All bytes of a send record were sent together each time, so they share one history: how often and
when they were sent, and what acks have said about them since.

## Contents
- `SendTimes`: the first, second and latest send time of a record.
- `SendRecord`: the record, with `lastSent`, `firstSent`, `wasSentAt`.
- `resend`, `restamp`: recording a send of the whole range.
- `cut`, `carve`: dividing a record at one point, and around a range.
- `canAbsorb`, `absorb`: joining a delivered record with the delivered record above it.
-/

namespace LossRecovery

/-- How many send times a record remembers. -/
def sendTimeSlots : Nat := 3

/-- The remembered send times of a record: the first, the second and the latest of the others. -/
structure SendTimes where
  first : Nat
  second : Option Nat := none
  latest : Option Nat := none
deriving DecidableEq, Inhabited

namespace SendTimes

/-- The remembered times, oldest slot first. -/
def toList (t : SendTimes) : List Nat := t.first :: (t.second.toList ++ t.latest.toList)

/-- The time kept for the send after `resends` earlier ones; sends beyond the second share the last
slot. -/
def slot (t : SendTimes) (resends : Nat) : Option Nat :=
  match resends with
  | 0 => some t.first
  | 1 => t.second
  | _ => t.latest

/-- Remember `now` as the time of the send after `resends` earlier ones. -/
def put (t : SendTimes) (resends : Nat) (now : Nat) : SendTimes :=
  match resends with
  | 0 => { t with first := now }
  | 1 => { t with second := some now }
  | _ => { t with latest := some now }

end SendTimes

/-- A sent range with the history its bytes share. -/
structure SendRecord where
  /-- The first sequence number, by which the record is known. -/
  start : Nat
  /-- One past the last sequence number. -/
  stop : Nat
  /-- How often the range was sent again. -/
  resends : Nat := 0
  /-- Bytes sent again for the range. -/
  resentBytes : Nat := 0
  times : SendTimes
  /-- When the range was selectively acknowledged. -/
  ackedAt : Option Nat := none
  /-- Acks that delivered data above the range while it was missing. -/
  dupacks : Nat := 0
  flags : Flags
  /-- The end of the data the sender had when it sent the range, zero if it had more. -/
  appLimitedMark : Nat := 0
  /-- Whether the range counts as a hole that was sent again. -/
  hole : Bool := false
  /-- Whether the record is part of the sending order. -/
  linked : Bool := false
deriving DecidableEq, Inhabited

namespace SendRecord

/-- The record of a first send of `r`. -/
def ofSend (r : SeqRange) (flags : Flags) (now : Nat) (appLimitedMark : Nat) : SendRecord where
  start := r.start
  stop := r.stop
  times := ⟨now, none, none⟩
  flags := flags
  appLimitedMark := appLimitedMark

/-- The sequence numbers of the record. -/
def range (r : SendRecord) : SeqRange := ⟨r.start, r.stop⟩

/-- How many bytes the record holds. -/
def length (r : SendRecord) : Nat := r.stop - r.start

/-- Whether the record holds no byte. -/
def isEmpty (r : SendRecord) : Bool := r.stop ≤ r.start

/-- Whether `seq` belongs to the record. -/
def contains (r : SendRecord) (seq : Nat) : Bool := r.start ≤ seq && seq < r.stop

/-- Whether the record shares a sequence number with the non-empty range `x`. -/
def overlaps (r : SendRecord) (x : SeqRange) : Bool :=
  r.contains x.start || (x.start < r.start && r.start < x.stop)

/-- Whether `cut` falls strictly inside the record. -/
def straddles (r : SendRecord) (cut : Nat) : Bool := r.start < cut && cut < r.stop

/-- Whether the range is known to have arrived. -/
def isDelivered (r : SendRecord) : Bool := r.flags.acked || r.flags.sacked

/-- How often the range was sent. -/
def sendCount (r : SendRecord) : Nat := Word.incr32 r.resends

/-- The time of the latest send; the first one if the slot was never filled. -/
def lastSent (r : SendRecord) : Nat := (r.times.slot r.resends).getD r.times.first

/-- The time of the first send, while all send times are remembered. -/
def firstSent (r : SendRecord) : Option Nat :=
  if r.flags.overmax then none else some r.times.first

/-- Whether one of the remembered sends happened at `t`. -/
def wasSentAt (r : SendRecord) (t : Nat) : Bool := r.times.toList.contains t

/-! ## Sending again -/

/-- Record that the whole range was sent again at `now`. -/
def resend (r : SendRecord) (now : Nat) : SendRecord :=
  let resends := Word.incr32 r.resends
  { r with
    resends := resends
    resentBytes := Word.add r.resentBytes r.length
    times := r.times.put resends now
    flags := { r.flags with overmax := r.flags.overmax || sendTimeSlots ≤ resends } }

/-- Move the time of the latest send to `now`. -/
def restamp (r : SendRecord) (now : Nat) : SendRecord :=
  { r with times := r.times.put r.resends now }

/-! ## Dividing and joining -/

/-- The two parts below and from `point` on. The lower part keeps the bytes counted as sent again
and the start of the stream, the upper part the end of the stream. -/
def cut (r : SendRecord) (point : Nat) : SendRecord × SendRecord :=
  ({ r with stop := point, flags := { r.flags with fin := false } },
    { r with start := point, resentBytes := 0, flags := { r.flags with syn := false } })

/-- The part of a record inside a range, and what is left of it on either side. -/
structure Carved where
  lower : Option SendRecord
  middle : SendRecord
  upper : Option SendRecord
deriving DecidableEq

/-- Divide a record around the part that lies in `x`. -/
def carve (r : SendRecord) (x : SeqRange) : Carved :=
  let low : Option SendRecord × SendRecord :=
    if r.start < x.start then (some (r.cut x.start).1, (r.cut x.start).2) else (none, r)
  if x.stop < r.stop then
    ⟨low.1, (low.2.cut x.stop).1, some (low.2.cut x.stop).2⟩
  else ⟨low.1, low.2, none⟩

/-- The parts of a divided record, in ascending order. -/
def Carved.parts (c : Carved) : List SendRecord :=
  c.lower.toList ++ c.middle :: c.upper.toList

/-- How many cuts were made. -/
def Carved.cuts (c : Carved) : Nat := c.lower.toList.length + c.upper.toList.length

/-- The later of two ack times, a missing one being the earliest. -/
def laterAck : Option Nat → Option Nat → Option Nat
  | some a, some b => some (max a b)
  | some a, none => some a
  | none, b => b

/-- Whether two neighbours may become one record: both have arrived and neither counts as a hole. -/
def canAbsorb (l r : SendRecord) : Bool :=
  l.isDelivered && r.isDelivered && !l.hole && !r.hole

/-- The record over both ranges, when `r` follows `l`. -/
def absorb (l r : SendRecord) : SendRecord :=
  { l with
    stop := r.stop
    resentBytes := Word.add l.resentBytes r.resentBytes
    dupacks := max l.dupacks r.dupacks
    flags := l.flags.union r.flags
    ackedAt := laterAck l.ackedAt r.ackedAt }

/-- A record as it is written in messages. -/
def text (r : SendRecord) : String :=
  s!"seg={r.range.text} rexmit={r.resends} dupacks={r.dupacks} flags={r.flags.text}"

end SendRecord

end LossRecovery
