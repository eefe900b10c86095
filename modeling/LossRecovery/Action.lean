import LossRecovery.Number.Total
import LossRecovery.Sequence.Range
import LossRecovery.Timers

/-!
# `LossRecovery.Action` — what the sender has to do

## Contents
- `SendKind`, `Action`: sending a range, arming a timer, cancelling the timers.
- `Actions`: the actions of one call in the order to carry them out, with `sends`, `sendBytes` and
  `timer?`.
- `segments`: how many segments a number of bytes takes.
-/

namespace LossRecovery

/-- Why a range is to be sent. -/
inductive SendKind where
  /-- Data presumed lost. -/
  | retransmit
  /-- A tail loss probe sending the highest missing data again. -/
  | tailProbe
  /-- A tail loss probe carrying new data. -/
  | newDataProbe
deriving DecidableEq, Inhabited

/-- The name of a kind of send in messages. -/
def SendKind.title : SendKind → String
  | retransmit => "Retransmit"
  | tailProbe => "TailProbe"
  | newDataProbe => "NewDataProbe"

/-- Something the sender has to do. -/
inductive Action where
  /-- Send the range, which takes the given number of segments. -/
  | send (range : SeqRange) (segments : Nat) (kind : SendKind)
  /-- Arm the timer to fire after the duration with the generation. -/
  | arm (timer : Timer) (duration : Nat) (generation : Nat)
  /-- Cancel any armed timer. -/
  | cancel
deriving DecidableEq

/-- The actions of one call, in the order to carry them out. -/
abbrev Actions := List Action

namespace Action

/-- The range and kind of a send. -/
def send? : Action → Option (SeqRange × SendKind)
  | send range _ kind => some (range, kind)
  | _ => none

/-- Whether the action concerns a timer. -/
def isTimer : Action → Bool
  | send .. => false
  | _ => true

end Action

namespace Actions

/-- The ranges to send, with their kind. -/
def sends (as : Actions) : List (SeqRange × SendKind) := as.filterMap Action.send?

/-- How many bytes there are to send. -/
def sendBytes (as : Actions) : Nat := Number.total (as.sends.map (·.1.length))

/-- The last action that concerns a timer. -/
def timer? (as : Actions) : Option Action := as.reverse.find? Action.isTimer

end Actions

/-- How many segments `length` bytes take. -/
def segments (length mss : Nat) : Nat :=
  min ((length + max mss 1 - 1) / max mss 1) Word.max32

end LossRecovery
