import LossRecovery.Journal
import LossRecovery.Scoreboard.Edit

/-!
# `LossRecovery.Scoreboard.Narration` — what there is to tell about operations on the scoreboard

The operations themselves are silent. What there is to tell follows from the scoreboard before an
operation and its result.

## Contents
- `appendEvents`, `splitEvents`, `joinEvents`, `mergeEvents`: one function per operation.
- `SendRecord.carveEvents`: the cuts that carve a range out of a record.
-/

namespace LossRecovery

/-- What there is to tell about carving `x` out of a record: each cut with its two halves. -/
def SendRecord.carveEvents (r : SendRecord) (x : SeqRange) : List Event :=
  let carved := r.carve x
  (carved.lower.map fun lower => Event.recordSplit lower (r.cut x.start).2).toList
    ++ (carved.upper.map fun upper => Event.recordSplit carved.middle upper).toList

namespace Scoreboard

/-- What there is to tell about recording new data. -/
def appendEvents (b : Scoreboard) (range : SeqRange) : Except Error Scoreboard → List Event
  | .ok b' =>
    match b'.records.getLast? with
    | some last =>
      if b'.size = b.size then [.recordExtended last] else [.recordInserted last]
    | none => []
  | .error (.structural _) => [.sendMisplaced range b.top]
  | .error _ => []

/-- What there is to tell about dividing the record that starts at `start`. -/
def splitEvents (b : Scoreboard) (start point : Nat) : Except Error Scoreboard → List Event
  | .ok b' =>
    match b'.record? start, b'.record? point with
    | some lower, some upper => [.recordSplit lower upper]
    | _, _ => []
  | .error .exhausted => (b.record? start).toList.map (.splitRefused · b.size)
  | .error _ => []

/-- What there is to tell about joining neighbours. -/
def joinEvents (joins : List Join) : List Event := joins.map fun j => .recordsMerged j.joined

/-- What there is to tell about joining a record into the one that starts at `left`. -/
def mergeEvents (left : Nat) : Except Error Scoreboard → List Event
  | .ok b' => (b'.record? left).toList.map .recordsMerged
  | .error _ => []

end Scoreboard

end LossRecovery
