import LossRecovery.SendRecord.Basic

/-!
# `LossRecovery.Scoreboard.Basic` — the records of all outstanding data

The records of a scoreboard tile the outstanding sequence numbers: each starts where the one below
stops, the lowest at the left edge, the highest reaching the right edge. A record is known by its
first sequence number. Records that may still need to be sent again are linked into the sending
order, least recently sent first.

## Contents
- `Scoreboard` with its edges, sizes and `empty`.
- `record?`, `containing?`, `overlapping`, `ordered`: looking records up.
- `modify`, `modifyAt`: change records in place; `refine`: divide records, the parts taking the
  place of the whole in the sending order.
- `unlink`, `relink`: leaving the sending order, and joining it as the most recently sent.
-/

namespace LossRecovery

/-- The records of all outstanding data, by sequence and by sending time. -/
structure Scoreboard where
  /-- The records in ascending sequence. -/
  records : List SendRecord
  /-- The starts of the linked records, least recently sent first. -/
  order : List Nat
  /-- The lowest unacknowledged sequence number. -/
  una : Nat
  /-- One past the highest sequence number sent. -/
  top : Nat
  /-- The number of records beyond which no record is divided. -/
  limit : Nat
deriving DecidableEq

namespace Scoreboard

/-- A scoreboard without outstanding data. It always has room for two records. -/
def empty (una limit : Nat) : Scoreboard := ⟨[], [], una, una, max limit 2⟩

/-- How many sequence numbers are outstanding. -/
def outstanding (b : Scoreboard) : Nat := b.top - b.una

/-- How many records there are. -/
def size (b : Scoreboard) : Nat := b.records.length

/-! ## Looking records up -/

/-- The record that starts at `start`. -/
def record? (b : Scoreboard) (start : Nat) : Option SendRecord :=
  b.records.find? (·.start == start)

/-- The record that `seq` belongs to. -/
def containing? (b : Scoreboard) (seq : Nat) : Option SendRecord :=
  b.records.find? (·.contains seq)

/-- The records sharing a sequence number with `x`, in ascending sequence. -/
def overlapping (b : Scoreboard) (x : SeqRange) : List SendRecord :=
  if x.isEmpty then [] else b.records.filter (·.overlaps x)

/-- The linked records, least recently sent first. -/
def ordered (b : Scoreboard) : List SendRecord := b.order.filterMap b.record?

/-- The most recently sent record. -/
def newest? (b : Scoreboard) : Option SendRecord := b.order.getLast?.bind b.record?

/-- The lowest record that has not arrived. -/
def lowestMissing? (b : Scoreboard) : Option SendRecord :=
  b.records.find? fun r => !r.isDelivered

/-- The highest record that has not arrived. -/
def highestMissing? (b : Scoreboard) : Option SendRecord :=
  b.records.reverse.find? fun r => !r.isDelivered

/-- Whether `x` holds a byte that has not arrived. -/
def hasMissing (b : Scoreboard) (x : SeqRange) : Bool :=
  (b.overlapping x).any fun r => !r.isDelivered

/-! ## Changing records -/

/-- Change every record by `f`, which keeps its range and its link. -/
def modify (b : Scoreboard) (f : SendRecord → SendRecord) : Scoreboard :=
  { b with records := b.records.map f }

/-- Replace every record by the records `f` divides it into. The linked parts take the place of the
record in the sending order. -/
def refine (b : Scoreboard) (f : SendRecord → List SendRecord) : Scoreboard :=
  { b with
    records := b.records.flatMap f
    order := b.order.flatMap fun start =>
      match b.record? start with
      | some r => ((f r).filter (·.linked)).map (·.start)
      | none => [start] }

/-- Change the record that starts at `start` by `f`, which keeps its range and its link. -/
def modifyAt (b : Scoreboard) (start : Nat) (f : SendRecord → SendRecord) : Scoreboard :=
  b.modify fun r => if r.start = start then f r else r

/-- Take a record out of the sending order. -/
def unlink (b : Scoreboard) (start : Nat) : Scoreboard :=
  { b.modifyAt start fun r => { r with linked := false } with
    order := b.order.filter (· != start) }

/-- Make a record the most recently sent. -/
def relink (b : Scoreboard) (start : Nat) : Scoreboard :=
  { b.modifyAt start fun r => { r with linked := true } with
    order := b.order.filter (· != start) ++ [start] }

end Scoreboard

end LossRecovery
