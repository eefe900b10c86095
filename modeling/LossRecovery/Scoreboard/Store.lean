import LossRecovery.Planning
import LossRecovery.Scoreboard.Audit
import LossRecovery.Scoreboard.Linked
import LossRecovery.Scoreboard.Narration

/-!
# `LossRecovery.Scoreboard.Store` — what every scoreboard can be asked to do

Scoreboards and linked boards offer the same operations. A scoreboard knows a record by its start, a
linked board by its number; here both are the record's key.

## Contents
- `LinkedBoard.view`, `LinkedBoard.resumePoint`, and the events of a linked board's operations.
- `RecordStore`: the common operations, with instances for `Scoreboard` and `LinkedBoard`.
-/

namespace LossRecovery

/-! ## Linked boards -/

namespace LinkedBoard

/-- The scoreboard with the same records, order and edges. -/
def view (b : LinkedBoard) : Scoreboard :=
  ⟨b.records, b.ordered.map (·.start), b.una, b.top, b.limit⟩

/-- Where sending again goes on after a timeout, given the number of the record to send next and the
start it had when it was chosen. A record that still has that start is sent next wherever it lies.
-/
def resumePoint (b : LinkedBoard) : Option (Nat × Nat) → Nat
  | some (number, start) =>
    if (b.record? number).any (·.start = start) then start else max b.una start
  | none => b.una

/-- What there is to tell about recording new data. -/
def appendEvents (b : LinkedBoard) (range : SeqRange) (flags : Flags) (now : Nat) :
    Except Error LinkedBoard → List Event
  | .ok b' => (b'.record? (b.target range flags now)).toList.map
    (if b.grows range flags now then .recordExtended else .recordInserted)
  | .error (.structural _) => [.sendMisplaced range b.top]
  | .error _ => []

/-- What there is to tell about dividing a record. -/
def splitEvents (b : LinkedBoard) (number : Nat) : Except Error LinkedBoard → List Event
  | .ok b' =>
    match b'.record? number, b'.record? b.fresh with
    | some lower, some upper => [.recordSplit lower upper]
    | _, _ => []
  | .error .exhausted => (b.record? number).toList.map (.splitRefused · b.cells.length)
  | .error _ => []

/-- What there is to tell about joining a record into another one. -/
def mergeEvents (left : Nat) : Except Error LinkedBoard → List Event
  | .ok b' => (b'.record? left).toList.map .recordsMerged
  | .error _ => []

end LinkedBoard

/-! ## The common operations -/

/-- Send records by sequence and by sending time, each of them known by a key. -/
class RecordStore (β : Type) where
  /-- The scoreboard with the same records, order and edges. -/
  view : β → Scoreboard
  /-- The linked records, least recently sent first. -/
  ordered : β → List SendRecord
  /-- The most recently sent record. -/
  newest? : β → Option SendRecord
  /-- How many records are linked. -/
  linkCount : β → Nat
  /-- The record with a key. -/
  record? : β → Nat → Option SendRecord
  /-- The lowest record. -/
  lowest? : β → Option SendRecord
  /-- The highest record. -/
  highest? : β → Option SendRecord
  /-- The record that a sequence number belongs to, with its key. -/
  containing? : β → Nat → Option (Nat × SendRecord)
  /-- The keys of the records sharing a sequence number with a range, in ascending sequence. -/
  overlapping : β → SeqRange → List Nat
  /-- Change the record with a key. -/
  change : β → Nat → (SendRecord → SendRecord) → β
  /-- Take the record with a key out of the sending order. -/
  unlink : β → Nat → β
  /-- Make the record with a key the most recently sent. -/
  relink : β → Nat → β
  /-- Record a send of new data by its range, flags, time and application limit, and tell about
  it. The record that holds the data is returned by its key. -/
  append : β → SeqRange → Flags → Nat → Nat → Except Error (β × Nat) × List Event
  /-- Divide the record with a key at a point, and tell about it. The upper half is returned by its
  key. -/
  split : β → Nat → Nat → Except Error (β × Nat) × List Event
  /-- Join the record with the second key into the one with the first, and tell about it. -/
  merge : β → Nat → Nat → Except Error β × List Event
  /-- Where sending again goes on after a timeout, given the key of the record to send next and the
  start it had when it was chosen. -/
  resumePoint : β → Option (Nat × Nat) → Nat
  /-- Move the left edge up, and tell how many bytes that releases. -/
  trim : β → Nat → Except Error (β × Nat)
  /-- Succeeds if the parts of the store fit together. -/
  audit : β → Except Error Unit

instance : RecordStore Scoreboard where
  view := id
  ordered := Scoreboard.ordered
  newest? := Scoreboard.newest?
  linkCount b := b.order.length
  record? := Scoreboard.record?
  lowest? b := b.records.head?
  highest? b := b.records.getLast?
  containing? b seq := (b.containing? seq).map fun r => (r.start, r)
  overlapping b x := (b.overlapping x).map (·.start)
  change := Scoreboard.modifyAt
  unlink := Scoreboard.unlink
  relink := Scoreboard.relink
  append b range flags now mark :=
    let result := b.append range flags now mark
    (result.map fun b' => (b', (b'.records.getLast?.map (·.start)).getD range.start),
      b.appendEvents range result)
  split b start point :=
    let result := b.split start point
    (result.map (·, point), b.splitEvents start point result)
  merge b left right :=
    let result := b.merge left right
    (result, Scoreboard.mergeEvents left result)
  resumePoint b next := ({ cursor := next.map (·.2) } : Schedule).resumePoint b.una
  trim := Scoreboard.trim
  audit := Scoreboard.audit

instance : RecordStore LinkedBoard where
  view := LinkedBoard.view
  ordered := LinkedBoard.ordered
  newest? := LinkedBoard.newest?
  linkCount := LinkedBoard.count
  record? := LinkedBoard.record?
  lowest? := LinkedBoard.lowest?
  highest? := LinkedBoard.highest?
  containing? := LinkedBoard.containing?
  overlapping := LinkedBoard.overlapping
  change := LinkedBoard.change
  unlink := LinkedBoard.unlink
  relink := LinkedBoard.relink
  append b range flags now mark :=
    let result := b.append range flags now mark
    (result.map (·, b.target range flags now), b.appendEvents range flags now result)
  split b number point :=
    let result := b.split number point
    (result.map (·, b.fresh), b.splitEvents number result)
  merge b left right :=
    let result := b.merge left right
    (result, LinkedBoard.mergeEvents left result)
  resumePoint := LinkedBoard.resumePoint
  trim := LinkedBoard.trim
  audit := LinkedBoard.audit

end LossRecovery
