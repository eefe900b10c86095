import LossRecovery.Engine.Acknowledge

/-!
# `LossRecovery.Engine.Timeout` — firing timers

## Contents
- `probeFor`: what a tail loss probe sends.
- `fireProbe`, `fireTimeout`: the probe timer and the retransmission timer.
- `onTimeout`: a firing as a whole; firings that were overtaken are ignored.
-/

namespace LossRecovery

namespace Engine

variable {κ : Type} [CongestionLaw κ]

/-- What a tail loss probe sends: new data if there is any and the window takes a segment of it,
else the end of the highest missing record. -/
def probeFor (g : Engine κ) (hasData : Bool) : Option (SeqRange × SendKind) :=
  let mss := g.settings.mss
  if hasData ∧ g.board.top + mss ≤ g.windowEdge then
    some (⟨g.board.top, g.board.top + mss⟩, .newDataProbe)
  else (tailProbe g.board mss).map (·, .tailProbe)

/-- Send a tail loss probe and wait for its ack. -/
def startProbe (g : Engine κ) (range : SeqRange) (kind : SendKind) : Engine κ × Actions :=
  let told := g.tell [.probeSent kind range g.pipe]
  ({ told with
    schedule := { g.schedule with stage := .tlpPending, probeEnd := some range.stop }
    stats := { g.stats with tlpProbes := g.stats.tlpProbes + 1 }
    sink := g.sink.add .tlpProbes 1 },
    [.send range (segments range.length g.settings.mss) kind])

/-- The probe timer fired: send a probe and wait for the retransmission timer. -/
def fireProbe (g : Engine κ) (hasData : Bool) (now : Nat) : Engine κ × Actions :=
  if g.board.outstanding = 0 then (g, [])
  else
    let started := match g.probeFor hasData with
      | some (range, kind) => g.startProbe range kind
      | none => (g, [])
    let armed := started.1.arm .rto started.1.rto now
    (armed.1, started.2 ++ [armed.2])

/-- Presume all outstanding data lost. -/
def presumeLost (g : Engine κ) : Engine κ :=
  let g := g.clearHoles
  { g with board := g.board.modify fun r =>
      if r.isDelivered then r else { r with flags := { r.flags with toResend := true } } }

/-- Collapse on a timeout: back off, tell the congestion law, give up recovery and probing, and
presume all data lost. Window and threshold are remembered at the first timeout of a series. -/
def collapse (g : Engine κ) (now : Nat) : Engine κ :=
  let undo :=
    if g.schedule.stage = .rtoPending then g.schedule.undo
    else some (g.congestionWindow, g.threshold)
  let g := g.signal .retransmissionTimeout now
  let g := { g with
    ledger := if g.ledger.active then g.ledger.leave else g.ledger
    probe := g.probe.cancel }.presumeLost
  { g with
    schedule := { g.schedule with
      stage := .rtoPending
      backoff := Word.incr32 g.schedule.backoff
      rtoPoint := g.board.top
      firedAt := some now
      undo := undo
      probeEnd := none
      cursor := none }
    stats := { g.stats with rtoCount := g.stats.rtoCount + 1 }
    sink := g.sink.add .rtoFired 1 }

/-- Send the lowest missing record again, and go on from there later. -/
def resendLowest (g : Engine κ) : Engine κ × Actions :=
  match g.board.lowestMissing? with
  | none => (g, [])
  | some r =>
    ({ g with schedule := { g.schedule with cursor := some r.start } },
      planResends [r] (max g.congestionWindow g.settings.mss) g.settings.mss)

/-- The retransmission timer fired: presume all data lost and start over. -/
def fireTimeout (g : Engine κ) (now : Nat) : Engine κ × Actions :=
  if g.board.outstanding = 0 then (g, [])
  else
    let g := g.collapse now
    let g := g.tell
      [.timeoutFired g.schedule.backoff g.board.una g.board.top g.congestionWindow]
    let resent := g.resendLowest
    let armed := resent.1.arm .rto resent.1.rto now
    (armed.1, resent.2 ++ [armed.2])

/-- Ignore a firing that was overtaken. -/
def noteStaleTimer (g : Engine κ) (timer : Timer) (generation : Nat) : Engine κ :=
  ({ g with stats := { g.stats with staleTimers := g.stats.staleTimers + 1 } }.tell
    [.timerStale timer generation g.schedule.timers.generation]).count .staleTimers 1

/-- Take in a firing. -/
def processTimeout (g : Engine κ) (timer : Timer) (generation : Nat) (hasData : Bool)
    (now : Nat) : Engine κ × Actions :=
  if g.schedule.timers.isCurrent timer generation then
    let g := { g with schedule := { g.schedule with timers := g.schedule.timers.stop timer } }
    match timer with
    | .tlp => g.fireProbe hasData now
    | .rto => g.fireTimeout now
  else (g.noteStaleTimer timer generation, [])

/-- Report the firing of a timer armed with `generation`. `hasData` tells whether the sender has new
data for a probe. -/
def onTimeout (g : Engine κ) (timer : Timer) (generation : Nat) (hasData : Bool) (now : Nat) :
    Engine κ × Except Error Actions :=
  g.guarded fun g =>
    let fired := g.processTimeout timer generation hasData now
    (fired.1, .ok fired.2)

end Engine

end LossRecovery
