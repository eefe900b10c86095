import LossRecovery.Error
import LossRecovery.Time

/-!
# `LossRecovery.Congestion.Law` — laws of the congestion window

The engine owns no congestion window. It tells a law what happens and asks it for the window and
the slow start threshold.

## Contents
- `CongestionSignal`: what the engine tells.
- `CongestionLaw`: what a law has to provide.
- `LawKind`: the laws that come with the library, by name.
-/

namespace LossRecovery

/-- Turning points of loss recovery. -/
inductive CongestionSignal where
  /-- Fast recovery began; the law sets the threshold it leads to. -/
  | fastRecovery
  /-- Fast recovery is complete. -/
  | recoveryExit
  /-- The retransmission timer expired. -/
  | retransmissionTimeout
deriving DecidableEq, Inhabited

/-- The name of a signal in messages. -/
def CongestionSignal.title : CongestionSignal → String
  | fastRecovery => "FastRecovery"
  | recoveryExit => "RecoveryExit"
  | retransmissionTimeout => "RetransmissionTimeout"

/-- A law of the congestion window with states of type `κ`. -/
class CongestionLaw (κ : Type) where
  /-- The congestion window in bytes. -/
  window : κ → Nat
  /-- The slow start threshold in bytes. -/
  threshold : κ → Nat
  /-- Overwrite the window. -/
  setWindow : κ → Nat → κ
  /-- Overwrite the threshold. -/
  setThreshold : κ → Nat → κ
  /-- Take in bytes delivered outside of recovery. -/
  onAck : κ → Nat → Nat → κ
  /-- Take in a signal, together with the bytes in flight. -/
  onSignal : κ → CongestionSignal → Nat → Nat → κ
  /-- Whether the window is in slow start. -/
  inSlowStart : κ → Bool := fun law => window law < threshold law

/-- The laws that come with the library. -/
inductive LawKind where
  /-- A window that changes on congestion signals only. -/
  | fixed
deriving DecidableEq, Inhabited

/-- The name of a law in messages. -/
def LawKind.title : LawKind → String
  | fixed => "Fixed"

/-- The law a name stands for, in any case of its ASCII letters. -/
def LawKind.parse (s : String) : Except Error LawKind :=
  match s.map Char.toLower with
  | "fixed" => .ok .fixed
  | _ => .error (.misconfigured .unknownLaw)

end LossRecovery
