import LossRecovery.Ack.Process
import LossRecovery.Congestion.Law
import LossRecovery.Goodput
import LossRecovery.Number.Total
import LossRecovery.Pacing.Controller
import LossRecovery.Planning
import LossRecovery.ProbeRtt
import LossRecovery.Rtt.Estimator
import LossRecovery.Scoreboard.Audit

/-!
# `LossRecovery.Engine.State` — the engine of one connection

The engine does no input or output and reads no clock. The sender reports what it sends, what acks
arrive and which timers fire, and carries out the actions it gets back.

## Contents
- `Stats`: counts over the life of an engine.
- `Engine` with `start`, and what can be asked of it: `phase`, `pipe`, `rto`, `sendQuota`, ….
- `Engine.audit`: checking the scoreboard and the byte counts that go with it.
- `Engine.guarded`: calls fail once the engine is stopped, and errors are counted.
-/

namespace LossRecovery

/-- Counts over the life of an engine. -/
structure Stats where
  acks : Nat := 0
  sentBytes : Nat := 0
  retransmittedBytes : Nat := 0
  deliveredBytes : Nat := 0
  sackedBytes : Nat := 0
  /-- Bytes sent again that arrived twice. -/
  spuriousBytes : Nat := 0
  recoveryEpisodes : Nat := 0
  tlpProbes : Nat := 0
  rtoCount : Nat := 0
  spuriousRto : Nat := 0
  reorderEvents : Nat := 0
  dsackBlocks : Nat := 0
  malformedSackBlocks : Nat := 0
  splitsRefused : Nat := 0
  staleActions : Nat := 0
  staleTimers : Nat := 0
  probeRttCount : Nat := 0
  goodputSamples : Nat := 0
deriving DecidableEq, Inhabited

/-- The engine of one connection, under a congestion law with states of type `κ`. -/
structure Engine (κ : Type) where
  settings : Settings
  board : Scoreboard
  tracker : SackTracker
  ledger : RecoveryLedger
  recent : RecentAck
  rtt : RttEstimator
  goodput : GoodputEstimator
  probe : ProbeRtt
  pacing : PacingController
  law : κ
  schedule : Schedule
  /-- The receive window of the latest ack. -/
  window : Nat
  /-- Bytes delivered so far. -/
  delivered : Nat
  /-- Whether the saturation of the goodput count was reported. -/
  saturationTold : Bool
  stats : Stats
  sink : Sink
  /-- Whether a violation stopped the engine. -/
  isAborted : Bool
  /-- The mark of the connection in messages. -/
  trace : String
  /-- What there is to tell, latest first. -/
  journal : List Event

namespace Engine

variable {κ : Type} [CongestionLaw κ]

/-- An engine whose first byte will have the sequence number `una`. -/
def start (s : Settings) (law : κ) (sink : Sink) (una : Nat) (now : Nat) :
    Except Error (Engine κ) :=
  match s.validate with
  | .error e => .error e
  | .ok () => .ok {
      settings := s
      board := Scoreboard.empty una s.maxSegments
      tracker := SackTracker.start una s.sackFilterRanges
      ledger := {}
      recent := {}
      rtt := RttEstimator.start s now
      goodput := GoodputEstimator.start (Word.mul s.goodputMinSegments s.mss) s.goodputRttDecay
      probe := ⟨s.probeRttInterval, s.probeRttDuration, Word.mul s.probeRttFloorSegments s.mss,
        none⟩
      pacing := PacingController.start s now
      law := law
      schedule := {}
      window := Word.max64
      delivered := 0
      saturationTold := false
      stats := {}
      sink := sink
      isAborted := false
      trace := ""
      journal := [] }

/-- Mark the messages of the engine. -/
def setTrace (g : Engine κ) (trace : String) : Engine κ := { g with trace := trace }

/-- Use a hardware pacer. -/
def setHardware (g : Engine κ) (table : RateTable) : Engine κ :=
  { g with pacing := g.pacing.setHardware table }

/-- Pace at a fixed rate, or go back to the measured one. -/
def setFixedRate (g : Engine κ) (rate : Option Nat) : Engine κ :=
  { g with pacing := g.pacing.setFixed rate }

/-! ## Telling and counting -/

/-- Note what happened, in the given order. -/
def tell (g : Engine κ) (events : List Event) : Engine κ :=
  { g with journal := events.reverse ++ g.journal }

/-- Count events. -/
def count (g : Engine κ) (c : Counter) (n : Nat) : Engine κ := { g with sink := g.sink.add c n }

/-- The messages noted so far, in order. -/
def messages (g : Engine κ) : List Message := g.journal.reverse.map (·.message g.trace)

/-! ## What can be asked -/

/-- What the connection is doing, as far as its sending rate is concerned. -/
def phase (g : Engine κ) : Phase :=
  match g.schedule.stage with
  | .recovering | .rtoPending => .recovery
  | .steady | .tlpPending =>
    if g.probe.isActive then .probeRtt
    else if CongestionLaw.inSlowStart g.law then .slowStart
    else .congestionAvoidance

/-- The estimate of the bytes in flight. After a timeout all that was sent before it is presumed
lost, and only what was sent since counts. -/
def pipe (g : Engine κ) : Nat :=
  match g.schedule.stage with
  | .rtoPending =>
    Word.add g.ledger.holeBytes (g.board.top - max g.schedule.rtoPoint g.board.una)
  | _ => g.ledger.pipe g.board.una g.board.top

/-- The congestion window. -/
def congestionWindow (g : Engine κ) : Nat := CongestionLaw.window g.law

/-- The slow start threshold. -/
def threshold (g : Engine κ) : Nat := CongestionLaw.threshold g.law

/-- The retransmission timeout under the current backoff. -/
def rto (g : Engine κ) : Nat := g.rtt.rtoAfter g.schedule.backoff

/-- The right edge of the receive window. -/
def windowEdge (g : Engine κ) : Nat := Word.add g.board.una g.window

/-- What the stage of loss recovery lets be sent. -/
def stageQuota (g : Engine κ) : Nat :=
  match g.schedule.stage with
  | .recovering => g.ledger.allowance g.pipe g.threshold g.settings.mss
  | _ => g.congestionWindow - g.pipe

/-- How many bytes may be put in flight now. -/
def sendQuota (g : Engine κ) : Nat :=
  if g.isAborted then 0
  else
    let quota := g.stageQuota
    let quota := if g.probe.isActive then min quota (g.probe.floor - g.pipe) else quota
    min quota (g.windowEdge - g.board.top)

/-- What there is to tell about asking for the quota. -/
def quotaEvents (g : Engine κ) : List Event :=
  if g.isAborted then []
  else match g.schedule.stage with
    | .recovering => g.ledger.allowanceEvents g.pipe g.threshold g.settings.mss
    | _ => []

/-- When a burst of `bytes` may be sent; none if at once. -/
def nextSendTime (g : Engine κ) (bytes : Nat) (now : Nat) : Engine κ × Option Nat :=
  let scheduled := g.pacing.schedule bytes g.rtt.smoothedRtt g.congestionWindow now
  ({ g with pacing := scheduled.1 }, scheduled.2)

/-! ## Checking -/

/-- The total length of the records chosen by `p`. -/
def totalLength (p : SendRecord → Bool) (records : List SendRecord) : Nat :=
  Number.total ((records.filter p).map (·.length))

/-- Succeeds if the scoreboard is sound and the byte counts agree with its records. -/
def audit (g : Engine κ) : Except Error Unit := do
  g.board.audit
  let sacked := totalLength (·.flags.sacked) g.board.records
  if sacked ≠ g.ledger.sackedBytes ∨ g.board.outstanding < sacked then
    .error (.structural
      (.sackedMismatch g.ledger.sackedBytes sacked g.board.outstanding))
  else
    let holes := totalLength (·.hole) g.board.records
    if holes ≠ g.ledger.holeBytes then
      .error (.structural (.holeMismatch g.ledger.holeBytes holes))
    else .ok ()

/-- Succeeds with `a` if the engine is sound. -/
def audited {α : Type} (g : Engine κ) (a : α) : Except Error α :=
  match g.audit with
  | .error e => .error e
  | .ok () => .ok a

/-- Count an error; a violation stops the engine. -/
def fail (g : Engine κ) (e : Error) : Engine κ :=
  let g := match e.counter? with
    | some c => g.count c 1
    | none => g
  let g := match e with
    | .malformed _ =>
      { g with stats := { g.stats with malformedSackBlocks := g.stats.malformedSackBlocks + 1 } }
    | _ => g
  if e.isFatal then
    { g with
      isAborted := true
      schedule := { g.schedule with timers := g.schedule.timers.stopAll } }.tell [.engineAborted e]
  else g

/-- Run a call unless the engine is stopped, and count its error if it fails. -/
def guarded {α : Type} (g : Engine κ) (call : Engine κ → Engine κ × Except Error α) :
    Engine κ × Except Error α :=
  if g.isAborted then (g, .error .aborted)
  else
    let result := call g
    match result.2 with
    | .ok a => (result.1, .ok a)
    | .error e => (result.1.fail e, .error e)

/-! ## Timers -/

/-- Arm a timer in place of the other one. -/
def arm (g : Engine κ) (timer : Timer) (duration : Nat) (now : Nat) :
    Engine κ × Action :=
  let armed := g.schedule.arm timer duration now
  ({ g with schedule := armed.1 }, armed.2)

/-- The probe timeout: two round trips, with extra time for a delayed ack while a single segment is
outstanding, but no longer than the retransmission timeout. -/
def probeTimeout (g : Engine κ) : Nat :=
  let plain := max (g.rtt.smoothedRtt * 2) g.settings.tlpMin
  let delayed :=
    if g.board.outstanding ≤ g.settings.mss then plain + g.settings.delayedAckTime else plain
  min delayed g.rto

/-- Arm the timer the stage calls for. -/
def rearm (g : Engine κ) (now : Nat) : Engine κ × Action :=
  if g.schedule.stage = .steady ∧ g.settings.tlpEnabled = true then
    g.arm .tlp g.probeTimeout now
  else g.arm .rto g.rto now

end Engine

end LossRecovery
