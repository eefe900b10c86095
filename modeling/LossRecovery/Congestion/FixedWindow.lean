import LossRecovery.Congestion.Law
import LossRecovery.Settings

/-!
# `LossRecovery.Congestion.FixedWindow` — a window that changes on congestion signals only

## Contents
- `FixedWindow` with `start`, `ofSettings`, `signal`, and its `CongestionLaw` instance.
-/

namespace LossRecovery

/-- A congestion window that does not grow. -/
structure FixedWindow where
  window : Nat
  threshold : Nat
  /-- The least window in bytes. -/
  minWindow : Nat
  mss : Nat
  /-- Bytes delivered outside of recovery. -/
  delivered : Nat := 0
  /-- Recovery episodes. -/
  recoveries : Nat := 0
  /-- Retransmission timeouts. -/
  timeouts : Nat := 0
deriving DecidableEq

namespace FixedWindow

/-- The law before any signal: its threshold is out of reach. -/
def start (window minWindow mss : Nat) : FixedWindow where
  window := window
  threshold := Word.max64
  minWindow := minWindow
  mss := mss

/-- The law with the windows of the settings. -/
def ofSettings (s : Settings) : FixedWindow := start s.initialWindow s.minWindow s.mss

/-- Overwrite the window, which never falls below a segment. -/
def setWindow (w : FixedWindow) (window : Nat) : FixedWindow :=
  { w with window := max window w.mss }

/-- Overwrite the threshold. -/
def setThreshold (w : FixedWindow) (threshold : Nat) : FixedWindow :=
  { w with threshold := threshold }

/-- Count delivered bytes. -/
def acked (w : FixedWindow) (bytes : Nat) : FixedWindow :=
  { w with delivered := Word.add w.delivered bytes }

/-- Recovery halves the threshold, and the window follows when recovery is complete. A timeout
leaves a single segment, and half of what was in flight as the threshold. -/
def signal (w : FixedWindow) (s : CongestionSignal) (pipe : Nat) : FixedWindow :=
  match s with
  | .fastRecovery =>
    { w with threshold := max (w.window / 2) w.minWindow, recoveries := Word.add w.recoveries 1 }
  | .recoveryExit => { w with window := max w.threshold w.minWindow }
  | .retransmissionTimeout =>
    { w with
      threshold := max (pipe / 2) w.minWindow
      window := w.mss
      timeouts := Word.add w.timeouts 1 }

/-- The name of the law. -/
def name (_ : FixedWindow) : String := "FIXED"

/-- The law as it is written in messages. -/
def text (_ : FixedWindow) : String := "congestion controller."

instance : CongestionLaw FixedWindow where
  window := FixedWindow.window
  threshold := FixedWindow.threshold
  setWindow := setWindow
  setThreshold := setThreshold
  onAck w bytes _ := w.acked bytes
  onSignal w s pipe _ := w.signal s pipe

end FixedWindow

end LossRecovery
