import LossRecovery.Engine.State

/-!
# `LossRecovery.Engine.Acknowledge` — arriving acks

## Contents
- `enterRecovery`, `leaveRecovery`: a fast recovery episode.
- `afterTimeout`: the first acks that move the left edge after a timeout, which may prove it
  spurious.
- `settleProbe`, `detectLosses`, `planSends`: the consequences of an ack.
- `checkProbeRtt`, `measureGoodput`, `updateRate`: what is measured along the way.
- `processAck`, `onAck`: an ack as a whole.
-/

namespace LossRecovery

namespace Engine

variable {κ : Type} [CongestionLaw κ]

/-! ## Fast recovery -/

/-- Tell the congestion law about a turning point. -/
def signal (g : Engine κ) (s : CongestionSignal) (now : Nat) : Engine κ :=
  { g with law := CongestionLaw.onSignal g.law s g.pipe now }

/-- Forget which holes were sent again. -/
def clearHoles (g : Engine κ) : Engine κ :=
  { g with
    board := g.board.modify fun r => { r with hole := false }
    ledger := { g.ledger with holeBytes := 0 } }

/-- Begin a recovery episode. -/
def enterRecovery (g : Engine κ) (now : Nat) : Engine κ :=
  let pipe := g.pipe
  let g := g.signal .fastRecovery now
  let g := { g with ledger := g.ledger.enter g.board.outstanding g.board.top }.clearHoles
  { g with
    schedule := { g.schedule with stage := .recovering, probeEnd := none }
    stats := { g.stats with recoveryEpisodes := g.stats.recoveryEpisodes + 1 }
    sink := g.sink.add .recoveryEpisodes 1 }.tell
    [.recoveryEntered g.board.una g.ledger.point pipe g.threshold]

/-- End the recovery episode. -/
def leaveRecovery (g : Engine κ) (now : Nat) : Engine κ :=
  let g := g.signal .recoveryExit now
  { g with
    ledger := g.ledger.leave
    schedule := { g.schedule with stage := .steady } }.tell
    [.recoveryLeft g.board.una g.congestionWindow]

/-- End the recovery episode once all data outstanding at its start is acknowledged. -/
def checkRecoveryEnd (g : Engine κ) (now : Nat) : Engine κ :=
  if g.schedule.stage = .recovering ∧ g.ledger.point ≤ g.board.una then g.leaveRecovery now else g

/-! ## After a timeout -/

/-- Go back to the steady stage after a timeout. -/
def leaveTimeout (g : Engine κ) : Engine κ :=
  { g with
    schedule := { g.schedule with
      stage := .steady
      backoff := 0
      firedAt := none
      cursor := none
      undo := none }
    board := g.board.modify fun r => { r with flags := { r.flags with toResend := false } } }

/-- Whether an ack was triggered by data sent before the timeout. -/
def provesSpurious (g : Engine κ) (ack : Ack) (outcome : AckOutcome) (now : Nat) : Bool :=
  match g.schedule.firedAt, ack.echo, outcome.newest with
  | none, _, _ => false
  | some fired, some echo, _ => echo < fired
  | some fired, none, some d =>
    0 < d.resends && fired ≤ d.lastSent && Time.since now d.lastSent < g.rtt.minRtt / 2
  | some _, none, none => false

/-- Undo a spurious timeout: window and threshold are as before the series. -/
def undoTimeout (g : Engine κ) : Engine κ :=
  let g := match g.schedule.undo with
    | some (window, threshold) =>
      { g with law :=
          CongestionLaw.setWindow (CongestionLaw.setThreshold g.law threshold) window }
    | none => g
  let g := g.leaveTimeout
  { g with
    stats := { g.stats with spuriousRto := g.stats.spuriousRto + 1 }
    sink := g.sink.add .spuriousRto 1 }.tell [.timeoutUndone g.congestionWindow g.threshold]

/-- Leave the timeout behind once all data outstanding at its firing is acknowledged. -/
def checkTimeoutEnd (g : Engine κ) : Engine κ :=
  if g.schedule.rtoPoint ≤ g.board.una then
    (g.tell [.timeoutRecovered g.board.una]).leaveTimeout
  else g

/-- Take in an ack that moved the left edge after a timeout. Only the first one of a series can
prove it spurious. -/
def afterTimeout (g : Engine κ) (ack : Ack) (outcome : AckOutcome) (now : Nat) : Engine κ :=
  if g.schedule.undo.isSome then
    if g.provesSpurious ack outcome now then g.undoTimeout
    else { g with schedule := { g.schedule with undo := none } }.checkTimeoutEnd
  else g.checkTimeoutEnd

/-! ## Taking in the outcome -/

/-- Count what the ack changed. -/
def noteOutcome (g : Engine κ) (o : AckOutcome) : Engine κ :=
  let g := { g with
    stats := { g.stats with
      acks := g.stats.acks + 1
      deliveredBytes := Word.add g.stats.deliveredBytes o.delivered
      sackedBytes := Word.add g.stats.sackedBytes o.sacked
      malformedSackBlocks := g.stats.malformedSackBlocks + o.malformed
      splitsRefused := g.stats.splitsRefused + o.refused
      spuriousBytes := Word.add g.stats.spuriousBytes o.spuriousBytes
      dsackBlocks := g.stats.dsackBlocks + o.duplicateReport.toNat }
    delivered := Word.add g.delivered o.delivered }
  let counts : List (Counter × Nat) :=
    [(.malformedSackBlocks, o.malformed), (.sackBlocksFiltered, o.filtered),
      (.splitsRefused, o.refused), (.segmentsSplit, o.splits), (.segmentsMerged, o.merged),
      (.dsackBlocks, o.duplicateReport.toNat)]
  counts.foldl (fun g c => g.count c.1 c.2) g

/-- Take in an RTT sample. A good sample ends the backoff, unless a timeout is being repaired. -/
def takeSample (g : Engine κ) (sample : Option Nat) (now : Nat) : Engine κ :=
  match sample with
  | none => g
  | some rtt =>
    match g.rtt.update rtt now with
    | .ok estimator =>
      let g := { g with rtt := estimator }
      if g.schedule.stage = .rtoPending then g
      else { g with schedule := { g.schedule with backoff := 0 } }
    | .error e =>
      let g := g.tell [.rttDiscarded rtt]
      match e.counter? with
      | some c => g.count c 1
      | none => g

/-- Note evidence of reordering, and let old evidence fade. -/
def noteReordering (g : Engine κ) (o : AckOutcome) (now : Nat) : Engine κ :=
  let g :=
    if o.reordering then
      { g with
        recent := g.recent.noteReordering now
        stats := { g.stats with reorderEvents := g.stats.reorderEvents + 1 }
        sink := g.sink.add .reorderEvents 1 }
    else g
  { g with recent := g.recent.fade g.settings.reorderFade now }

/-- End the wait for a tail loss probe that was delivered. -/
def settleProbe (g : Engine κ) (o : AckOutcome) : Engine κ :=
  if g.schedule.stage = .tlpPending ∧
      (o.probeDelivered = true ∨ g.schedule.probeEnd.any (· ≤ g.board.una) = true) then
    { g with schedule := { g.schedule with stage := .steady, probeEnd := none } }.tell
      [.probeAcked g.board.una]
  else g

/-- The records presumed lost. After a timeout everything is sent again anyway. -/
def detectLosses (g : Engine κ) (now : Nat) : List SendRecord :=
  match g.schedule.stage with
  | .rtoPending => []
  | _ =>
    let window := g.recent.reorderWindow g.rtt.minRtt g.rtt.smoothedRtt g.settings.reorderShift
    g.recent.lost g.board window g.settings.dupackThreshold now

/-- Begin recovery if losses were found. -/
def respondToLosses (g : Engine κ) (lost : List SendRecord) (now : Nat) : Engine κ :=
  if !lost.isEmpty ∧ (g.schedule.stage = .steady ∨ g.schedule.stage = .tlpPending) then
    g.enterRecovery now
  else g

/-- Count the delivered bytes. A duplicate ack stands for one segment that left the network. -/
def creditDelivery (g : Engine κ) (o : AckOutcome) (now : Nat) : Engine κ :=
  let credit :=
    if o.duplicate ∧ o.delivered = 0 then min g.settings.mss g.board.outstanding
    else o.delivered
  let g := { g with ledger := g.ledger.deliver credit }
  if 0 < o.delivered ∧ g.schedule.stage = .steady then
    { g with law := CongestionLaw.onAck g.law o.delivered now }
  else g

/-! ## Sending again -/

/-- Send the flight again that was outstanding when the timer fired, within the window. -/
def planGoBackN (g : Engine κ) : Engine κ × Actions :=
  match g.schedule.firedAt with
  | none => (g, [])
  | some fired =>
    let pending :=
      goBackN g.board (g.schedule.resumePoint g.board.una) g.schedule.rtoPoint fired
    let g := { g with schedule := { g.schedule with cursor := pending.head?.map (·.start) } }
    (g, planResends pending (g.congestionWindow - g.pipe) g.settings.mss)

/-- What to send again after the ack. -/
def planSends (g : Engine κ) (lost : List SendRecord) : Engine κ × Actions :=
  match g.schedule.stage with
  | .recovering =>
    let budget := g.ledger.allowance g.pipe g.threshold g.settings.mss
    (g.tell (g.ledger.allowanceEvents g.pipe g.threshold g.settings.mss),
      planResends lost budget g.settings.mss)
  | .rtoPending => g.planGoBackN
  | _ => (g, [])

/-! ## Measuring -/

/-- Start, continue or end a probe of the least RTT. Probes start in the steady stage only. -/
def checkProbeRtt (g : Engine κ) (now : Nat) : Engine κ :=
  if g.schedule.stage ≠ .steady ∧ g.probe.isActive = false then g
  else
    let pipe := g.pipe
    let checked := g.probe.check g.rtt.leastStamp g.phase pipe now
    let g := { g with probe := checked.1 }
    match checked.2 with
    | .unchanged => g
    | .entered =>
      { g with
        stats := { g.stats with probeRttCount := g.stats.probeRttCount + 1 }
        sink := g.sink.add .probeRttEntered 1 }.tell [.probeRttEntered g.rtt.minRtt pipe]
    | .left prior =>
      { g with rtt := g.rtt.renewLeast now }.tell [.probeRttLeft prior g.rtt.minRtt]

/-- Take in delivered bytes as a measurement of goodput. -/
def measureGoodput (g : Engine κ) (o : AckOutcome) (now : Nat) : Engine κ :=
  if o.delivered = 0 then g
  else
    let measured := g.goodput.deliver g.delivered o.appLimited g.rtt.smoothedRtt g.phase now
    let g := { g with goodput := measured.1 }
    match measured.2 with
    | none => g
    | some sample =>
      let stats := { g.stats with goodputSamples := g.stats.goodputSamples + 1 }
      let g := { g with stats := stats }.tell [.goodputMeasured sample.bandwidth sample.phase]
      if sample.saturated ∧ g.saturationTold = false then
        { g with saturationTold := true, sink := g.sink.add .counterSaturations 1 }
      else g

/-- The bandwidth to pace at: the measured one, or a window per round trip before any sample. -/
def bandwidth (g : Engine κ) : Nat :=
  g.goodput.bandwidth?.getD
    (Word.wrap (g.congestionWindow * Time.second / max g.rtt.smoothedRtt 1))

/-- Compute the pacing rate anew. -/
def updateRate (g : Engine κ) : Engine κ :=
  let phase := g.phase
  let bandwidth := g.bandwidth
  { g with
    pacing := g.pacing.update phase bandwidth
    sink := g.pacing.countFallback phase bandwidth g.sink }.tell
    (g.pacing.updateEvents phase bandwidth)

/-! ## An ack as a whole -/

/-- Settle the timers: none is needed without outstanding data, and one is armed anew if the ack
delivered data, changed the stage, or left none armed. -/
def settleTimers (g : Engine κ) (prior : Stage) (o : AckOutcome) (now : Nat) :
    Engine κ × Actions :=
  if g.board.outstanding = 0 then
    let cancelled := g.schedule.cancel
    ({ g with schedule := cancelled.1 }, cancelled.2.toList)
  else if 0 < o.delivered ∨ g.schedule.stage ≠ prior ∨ g.schedule.timers.nextTimeout = none then
    let armed := g.rearm now
    (armed.1, [armed.2])
  else (g, [])

/-- What the scoreboard makes of an ack. -/
def passOf (g : Engine κ) (ack : Ack) (now : Nat) : Except Error AckPass :=
  let minRtt := if g.rtt.hasSample then g.rtt.minRtt else 0
  AckPass.process ⟨ack, minRtt, now⟩
    { board := g.board, tracker := g.tracker, ledger := g.ledger, recent := g.recent }

/-- Take over the result of a pass. -/
def adopt (g : Engine κ) (p : AckPass) (ack : Ack) : Engine κ :=
  { g with
    board := p.board
    tracker := p.tracker
    ledger := p.ledger
    recent := p.recent
    journal := p.journal ++ g.journal
    window := ack.window }

/-- Draw the conclusions from an ack up to the credit for what it delivered, and list the records
presumed lost. -/
def conclude (g : Engine κ) (ack : Ack) (o : AckOutcome) (now : Nat) :
    Engine κ × List SendRecord :=
  let g := ((g.noteOutcome o).takeSample o.rttSample now).noteReordering o now
  let g :=
    if g.schedule.stage = .rtoPending ∧ o.advanced = true then g.afterTimeout ack o now else g
  let g := (g.settleProbe o).checkRecoveryEnd now
  let lost := g.detectLosses now
  ((g.respondToLosses lost now).creditDelivery o now, lost)

/-- Act on an ack: plan what to send again, measure, and settle the timers. -/
def respond (g : Engine κ) (prior : Stage) (ack : Ack) (o : AckOutcome) (lost : List SendRecord)
    (now : Nat) : Engine κ × Actions :=
  let planned := g.planSends lost
  let g := ((planned.1.checkProbeRtt now).measureGoodput o now).updateRate
  let settled := g.settleTimers prior o now
  let actions := planned.2 ++ settled.2
  let g := settled.1
  (g.tell [.ackProcessed ack.cumulative o.delivered g.pipe g.schedule.stage actions.length],
    actions)

/-- Take in an ack. -/
def processAck (g : Engine κ) (ack : Ack) (now : Nat) : Engine κ × Except Error Actions :=
  match g.passOf ack now with
  | .error e => (g, .error e)
  | .ok p =>
    let concluded := (g.adopt p ack).conclude ack p.outcome now
    let done := concluded.1.respond g.schedule.stage ack p.outcome concluded.2 now
    (done.1, done.1.audited done.2)

/-- Report an arriving ack. -/
def onAck (g : Engine κ) (ack : Ack) (now : Nat) : Engine κ × Except Error Actions :=
  g.guarded fun g => g.processAck ack now

end Engine

end LossRecovery
