import LossRecovery.Action
import LossRecovery.Scoreboard.Basic
import LossRecovery.Sorting
import LossRecovery.Stage

/-!
# `LossRecovery.Planning` — what to send again, and when

## Contents
- `Schedule`: the stage of loss recovery with what belongs to it, with `arm`, `cancel` and
  `resumePoint`.
- `planResends`: sending lost records again within a budget.
- `tailProbe`: what a tail loss probe sends again.
- `goBackN`: what is to be sent again after a timeout.
-/

namespace LossRecovery

/-- The stage of loss recovery, with what belongs to it. -/
structure Schedule where
  stage : Stage := .steady
  /-- Retransmission timeouts in a row. -/
  backoff : Nat := 0
  /-- The right edge when the retransmission timer fired. -/
  rtoPoint : Nat := 0
  /-- When the retransmission timer fired. -/
  firedAt : Option Nat := none
  /-- Window and threshold before the first timeout of a series. -/
  undo : Option (Nat × Nat) := none
  /-- Where the outstanding tail loss probe ends. -/
  probeEnd : Option Nat := none
  /-- The start of the record to send again next after a timeout. -/
  cursor : Option Nat := none
  timers : TimerTable := {}
deriving DecidableEq, Inhabited

namespace Schedule

/-- Arm a timer in place of the other one, and tell the sender. -/
def arm (s : Schedule) (timer : Timer) (duration : Nat) (now : Nat) : Schedule × Action :=
  let timers := (s.timers.stop timer.other).set timer (now + duration)
  ({ s with timers := timers }, .arm timer duration timers.generation)

/-- Cancel the timers, and tell the sender if one was armed. -/
def cancel (s : Schedule) : Schedule × Option Action :=
  match s.timers.nextTimeout with
  | none => (s, none)
  | some _ => ({ s with timers := s.timers.stopAll }, some .cancel)

/-- Where sending again goes on after a timeout, the left edge being `una`. -/
def resumePoint (s : Schedule) (una : Nat) : Nat := max una (s.cursor.getD una)

end Schedule

/-! ## Sending again -/

/-- Send ranges in their order until the budget is spent. -/
def spendBudget (mss : Nat) (left : Nat) : List SeqRange → Actions
  | [] => []
  | r :: rest =>
    if left = 0 then []
    else
      let length := min r.length left
      .send ⟨r.start, r.start + length⟩ (segments length mss) .retransmit
        :: spendBudget mss (left - length) rest

/-- Send the records of a list that have not arrived, in ascending sequence, within a budget. -/
def planResends (lost : List SendRecord) (budget mss : Nat) : Actions :=
  let ranges := (lost.filter fun r => !r.isDelivered).map (·.range)
  spendBudget mss budget (Sorting.sortByKey (·.start) ranges)

/-- What a tail loss probe sends again: the last segment of the highest missing record. -/
def tailProbe (b : Scoreboard) (mss : Nat) : Option SeqRange :=
  b.highestMissing?.map fun r => ⟨max (r.stop - mss) r.start, r.stop⟩

/-- Whether a record is to be sent again after a timeout: it is missing, lies within the receive
window, and was not sent since. -/
def awaitsResend (firedAt : Nat) (r : SendRecord) : Bool :=
  !r.isDelivered && !r.flags.collapsed && r.lastSent < firedAt

/-- The records below `point` to be sent again after a timeout, from `start` on. -/
def goBackN (b : Scoreboard) (start point : Nat) (firedAt : Nat) : List SendRecord :=
  (b.overlapping ⟨start, point⟩).filter (awaitsResend firedAt)

end LossRecovery
