import LossRecovery.Proofs.Calls
import LossRecovery.Proofs.Control
import LossRecovery.Proofs.Terms

/-!
# `LossRecovery.Proofs.Turns` — what the calls of an engine do to loss recovery

An ack is an edge that moves, some turns, and timers that are settled. A send moves the other edge
and may arm a timer. A firing timer enters a stage and arms a timer. Bytes are counted by sends, and
by an ack at one place.

## Contents
- `Engine.control`, `Engine.byteCounts`: what decides about loss recovery; what was counted.
- `Turned g g'`: from `g` to `g'`, loss recovery took turns, and no bytes were counted.
- `turned_weighed`, `turned_judged`, `turned_measured`, `Sound.processAck_turns`: an ack, in parts and
  as a whole.
- `Sound.processSent_parts`, `control_accountSent`: a send, and the timers after it.
- `fireProbe_control`, `processTimeout_fires`: a firing timer.
-/

namespace LossRecovery

/-! ## A pass over an ack -/

namespace AckPass

variable {i : AckInput} {p : AckPass} {x : SeqRange}

/-- What of a pass only the move of the left edge changes: whether the edge moved. The episode of
the ledger stays as it is throughout. -/
def course (p : AckPass) : Bool × RecoveryLedger := (p.outcome.advanced, p.ledger.episode)

theorem course_deliver (i : AckInput) (p : AckPass) (r : SendRecord) :
    (deliver i p r).course = p.course := by
  have hmeasure : ∀ (o : AckOutcome) sent now, (o.measure sent now).advanced = o.advanced := by
    intro o sent now
    unfold AckOutcome.measure
    split
    · rfl
    · split <;> rfl
  unfold course deliver AckOutcome.record
  simp only [hmeasure]

theorem course_releaseRecord (i : AckInput) (p : AckPass) (r : SendRecord) :
    (releaseRecord i p r).course = p.course := by
  unfold releaseRecord
  cases r.flags.sacked with
  | true => rfl
  | false => exact course_deliver i _ r

theorem course_atEdge (i : AckInput) (p : AckPass) (hp : p.outcome.advanced = false) :
    (p.atEdge i).course = (decide (p.board.una < i.ack.cumulative), p.ledger.episode) := by
  unfold atEdge
  split
  · next h =>
    have hwalk := foldl_keep course (g := releaseRecord i)
      (p.board.overlapping ⟨p.board.una, i.ack.cumulative⟩) p (course_releaseRecord i)
    simp only [course, Prod.mk.injEq] at hwalk
    simp [course, advance, h, hwalk.2]
  · next h => simp [course, h, hp]

theorem course_applyBlock (i : AckInput) (p : AckPass) (x : SeqRange) :
    (p.applyBlock i x).course = p.course := by
  rcases applyBlock_cases i p x with ⟨-, he⟩ | ⟨-, -, he⟩ | ⟨-, he⟩ | ⟨-, -, -, he⟩ <;> rw [he]
  · rfl
  · rfl
  · rfl
  · exact foldl_keep course (g := sackRecord i (outstandingPart p.board x)) _ p
      fun a r => course_deliver i _ _

theorem course_checkWindow (i : AckInput) (p : AckPass) : (p.checkWindow i).course = p.course := by
  unfold checkWindow
  dsimp only
  split
  · rfl
  · split <;> rfl

theorem course_countAgainst (p : AckPass) : p.countAgainst.course = p.course := by
  unfold countAgainst countRepeated
  split
  · rfl
  · split
    · split
      · rfl
      · split <;> rfl
    · rfl

theorem course_applyDuplicate (i : AckInput) (p : AckPass) (x : SeqRange) :
    (p.applyDuplicate i x).course = p.course := by
  unfold applyDuplicate
  dsimp only
  split <;> rfl

theorem course_run (i : AckInput) (p : AckPass) : (p.run i).course = (p.atEdge i).course := by
  have hblocks : (((p.beforeBlocks i).applyBlocks i).countAgainst).course = (p.atEdge i).course :=
    calc (((p.beforeBlocks i).applyBlocks i).countAgainst).course
      _ = ((p.beforeBlocks i).applyBlocks i).course := course_countAgainst _
      _ = (p.beforeBlocks i).course :=
          foldl_keep course (g := applyBlock i) _ _ (course_applyBlock i)
      _ = (p.atEdge i).course := course_checkWindow i _
  rw [run_eq, ← hblocks]
  cases i.ack.duplicate with
  | none => rfl
  | some x => exact course_applyDuplicate i _ x

end AckPass

namespace Engine

variable {κ : Type} {g g' g'' : Engine κ} {o : AckOutcome} {ack : Ack} {now : Nat}

/-! ## Control and counts -/

def control (g : Engine κ) : Control where
  settings := g.settings
  schedule := g.schedule
  active := g.ledger.active
  point := g.ledger.point
  probing := g.probe.isActive
  una := g.board.una
  top := g.board.top

/-- Byte counts over the life of an engine, and the bytes that are SACKed now. -/
structure ByteCounts where
  sent : Nat
  retransmitted : Nat
  delivered : Nat
  sacked : Nat

def byteCounts (g : Engine κ) : ByteCounts where
  sent := g.stats.sentBytes
  retransmitted := g.stats.retransmittedBytes
  delivered := g.stats.deliveredBytes
  sacked := g.ledger.sackedBytes

theorem Noted.control (h : Noted g g') : g'.control = g.control :=
  congrArg (fun c : Conduct κ => (⟨c.settings, c.schedule, c.ledger.active, c.ledger.point,
    c.probe.isActive, c.board.una, c.board.top⟩ : Control)) h

theorem Noted.byteCounts (h : Noted g g') : g'.byteCounts = g.byteCounts :=
  congrArg (fun c : Conduct κ =>
    (⟨c.sentBytes, c.retransmittedBytes, c.deliveredBytes, c.ledger.sackedBytes⟩ : ByteCounts)) h

/-- From `g` to `g'`, loss recovery took turns, and no bytes were counted. -/
structure Turned (g g' : Engine κ) : Prop where
  turns : g.control.Turns g'.control
  bytes : g'.byteCounts = g.byteCounts

namespace Turned

theorem of_eq (hc : g'.control = g.control) (hb : g'.byteCounts = g.byteCounts) : Turned g g' := by
  refine ⟨?_, hb⟩
  rw [hc]
  exact .refl

theorem refl (g : Engine κ) : Turned g g := of_eq rfl rfl

theorem one (h : g.control.Turn g'.control) (hb : g'.byteCounts = g.byteCounts) : Turned g g' :=
  ⟨.single h, hb⟩

theorem trans (h : Turned g g') (h' : Turned g' g'') : Turned g g'' :=
  ⟨h.turns.trans h'.turns, h'.bytes.trans h.bytes⟩

end Turned

/-! ## An ack -/

theorem control_noteOutcome (g : Engine κ) (o : AckOutcome) :
    (g.noteOutcome o).control = g.control := by
  unfold noteOutcome
  exact foldl_keep control (g := fun (g : Engine κ) (c : Counter × Nat) => g.count c.1 c.2) _ _
    fun _ _ => rfl

/-- The only place where an ack counts bytes. -/
theorem byteCounts_noteOutcome (g : Engine κ) (o : AckOutcome) : (g.noteOutcome o).byteCounts =
    { g.byteCounts with delivered := Word.add g.byteCounts.delivered o.delivered } := by
  unfold noteOutcome
  exact foldl_keep byteCounts (g := fun (g : Engine κ) (c : Counter × Nat) => g.count c.1 c.2) _ _
    fun _ _ => rfl

theorem turned_takeSample (g : Engine κ) (sample : Option Nat) (now : Nat) :
    Turned g (g.takeSample sample now) := by
  unfold takeSample
  cases sample with
  | none => exact .refl g
  | some rtt =>
    dsimp only
    cases g.rtt.update rtt now with
    | ok estimator =>
      dsimp only
      split
      · exact .of_eq rfl rfl
      · next h => exact .one (.resetBackoff h) rfl
    | error e =>
      dsimp only
      cases e.counter? <;> exact .of_eq rfl rfl

theorem turned_noteReordering (g : Engine κ) (o : AckOutcome) (now : Nat) :
    Turned g (g.noteReordering o now) := by
  unfold noteReordering
  cases o.reordering <;> exact .of_eq rfl rfl

theorem turned_checkTimeoutEnd (h : g.schedule.stage = .rtoPending) :
    Turned g g.checkTimeoutEnd ∧ g.checkTimeoutEnd.control.TimeoutAhead := by
  unfold checkTimeoutEnd
  split
  · refine ⟨.one (.leaveTimeout h) rfl, ?_⟩
    intro hr
    cases hr
  · next hlt => exact ⟨.refl g, fun _ => Nat.lt_of_not_le hlt⟩

/-- A probe whose end was reached is no longer waited for. -/
theorem turned_settleProbe (g : Engine κ) (o : AckOutcome) :
    Turned g (g.settleProbe o) ∧ (g.settleProbe o).control.ProbeAhead := by
  unfold settleProbe
  split
  · next h =>
    refine ⟨.one (.settleProbe h.1) rfl, ?_⟩
    intro hr
    cases hr
  · next h =>
    refine ⟨.refl g, ?_⟩
    intro hr stop hstop
    change g.schedule.probeEnd = some stop at hstop
    apply Nat.lt_of_not_le
    intro hle
    exact h ⟨hr, .inr (by simp [hstop, show stop ≤ g.board.una from hle])⟩

/-- The timer the stage calls for goes with it. -/
theorem control_rearm (g : Engine κ) (now : Nat) : g.control.Rearmed (g.rearm now).1.control := by
  unfold rearm
  split
  · next h => exact ⟨.tlp, _, rfl, fun _ => h.1⟩
  · exact ⟨.rto, _, rfl, fun h => Timer.noConfusion h⟩

theorem byteCounts_rearm (g : Engine κ) (now : Nat) :
    (g.rearm now).1.byteCounts = g.byteCounts := by
  unfold rearm
  split <;> rfl

theorem control_settleTimers (g : Engine κ) (prior : Stage) (o : AckOutcome) (now : Nat) :
    g.control.Settled prior (g.settleTimers prior o now).1.control := by
  unfold settleTimers
  split
  · next hout =>
    refine .inl ⟨Nat.sub_eq_zero_iff_le.mp hout, ?_⟩
    unfold Schedule.cancel
    cases hn : g.schedule.timers.nextTimeout with
    | none => exact ⟨g.schedule.timers, TimerTable.nextTimeout_eq_none.mp hn, rfl⟩
    | some expiry => exact ⟨g.schedule.timers.stopAll, by simp, rfl⟩
  · next hout =>
    have hlt : g.board.una < g.board.top :=
      Nat.lt_of_not_le fun hle => hout (Nat.sub_eq_zero_of_le hle)
    refine .inr ⟨hlt, ?_⟩
    split
    · exact .inl (control_rearm g now)
    · next hstay =>
      simp only [not_or, Decidable.not_not] at hstay
      exact .inr ⟨rfl, hstay.2.1, hstay.2.2⟩

theorem byteCounts_settleTimers (g : Engine κ) (prior : Stage) (o : AckOutcome) (now : Nat) :
    (g.settleTimers prior o now).1.byteCounts = g.byteCounts := by
  unfold settleTimers
  split
  · rfl
  · split
    · exact byteCounts_rearm g now
    · rfl

section Law

variable [CongestionLaw κ]

theorem turned_undoTimeout (h : g.schedule.stage = .rtoPending) : Turned g g.undoTimeout := by
  unfold undoTimeout
  cases g.schedule.undo with
  | none => exact .one (.leaveTimeout h) rfl
  | some w => exact .one (.leaveTimeout h) rfl

/-- An ack that moved the left edge either ends the timeout or leaves its end ahead. -/
theorem turned_afterTimeout (h : g.schedule.stage = .rtoPending) (ack : Ack) (o : AckOutcome)
    (now : Nat) :
    Turned g (g.afterTimeout ack o now) ∧ (g.afterTimeout ack o now).control.TimeoutAhead := by
  unfold afterTimeout
  split
  · split
    · refine ⟨turned_undoTimeout h, ?_⟩
      intro hr
      unfold undoTimeout at hr
      split at hr <;> cases hr
    · have hforget : Turned g { g with schedule := { g.schedule with undo := none } } :=
        .one .forgetUndo rfl
      obtain ⟨ht, ha⟩ := turned_checkTimeoutEnd
        (g := { g with schedule := { g.schedule with undo := none } }) h
      exact ⟨hforget.trans ht, ha⟩
  · exact turned_checkTimeoutEnd h

/-- An episode whose end was reached is over. -/
theorem turned_checkRecoveryEnd (g : Engine κ) (now : Nat) :
    Turned g (g.checkRecoveryEnd now) ∧ (g.checkRecoveryEnd now).control.EpisodeAhead := by
  unfold checkRecoveryEnd
  split
  · next h =>
    refine ⟨.one (.leaveRecovery h.1) rfl, ?_⟩
    intro hr
    cases hr
  · next h =>
    refine ⟨.refl g, ?_⟩
    intro hr
    exact Nat.lt_of_not_le fun hle => h ⟨hr, hle⟩

/-- The repair after a timeout leaves its end ahead, if it was ahead without a move of the left
edge. -/
theorem turned_repair (g : Engine κ) (ack : Ack) (o : AckOutcome) (now : Nat) {repaired : Engine κ}
    (hr : repaired = if g.schedule.stage = .rtoPending ∧ o.advanced = true
      then g.afterTimeout ack o now else g) :
    Turned g repaired ∧
      ((o.advanced = false → g.control.TimeoutAhead) → repaired.control.TimeoutAhead) := by
  subst hr
  split
  · next h =>
    obtain ⟨ht, ha⟩ := turned_afterTimeout h.1 ack o now
    exact ⟨ht, fun _ => ha⟩
  · next h =>
    refine ⟨.refl g, ?_⟩
    intro hahead hstage
    have hadv : o.advanced = false := by
      rw [show g.schedule.stage = .rtoPending from hstage] at h
      simpa using h
    exact hahead hadv hstage

/-- What an ack delivered is weighed: a timeout and a probe that it ends are over, and else their ends
are ahead. -/
theorem turned_weighed (g : Engine κ) (ack : Ack) (o : AckOutcome) (now : Nat) :
    Turned (g.noteOutcome o) (g.weighed ack o now) ∧
      ((o.advanced = false → g.control.TimeoutAhead) →
        (g.weighed ack o now).control.TimeoutAhead) ∧
      (g.weighed ack o now).control.ProbeAhead := by
  have hnoted : Turned (g.noteOutcome o)
      (((g.noteOutcome o).takeSample o.rttSample now).noteReordering o now) :=
    (turned_takeSample _ _ _).trans (turned_noteReordering _ _ _)
  obtain ⟨hrepaired, ht⟩ := turned_repair
    (((g.noteOutcome o).takeSample o.rttSample now).noteReordering o now) ack o now rfl
  have hsettled := fun g : Engine κ => turned_settleProbe g o
  refine ⟨hnoted.trans (hrepaired.trans (hsettled _).1), ?_, (hsettled _).2⟩
  intro hahead
  rw [← control_noteOutcome g o] at hahead
  exact (hsettled _).1.turns.keep Control.Turn.timeoutAhead
    (ht fun hadv => hnoted.turns.keep Control.Turn.timeoutAhead (hahead hadv))

/-- What an ack delivered is judged: what waited for it is over, and what still waits is ahead. -/
theorem turned_judged (g : Engine κ) (ack : Ack) (o : AckOutcome) (now : Nat) :
    Turned (g.noteOutcome o) (g.judged ack o now) ∧
      ((o.advanced = false → g.control.TimeoutAhead) →
        (g.judged ack o now).control.TimeoutAhead) ∧
      (g.judged ack o now).control.EpisodeAhead ∧ (g.judged ack o now).control.ProbeAhead := by
  obtain ⟨hweighed, ht, hp⟩ := turned_weighed g ack o now
  obtain ⟨hended, he⟩ := turned_checkRecoveryEnd (g.weighed ack o now) now
  exact ⟨hweighed.trans hended,
    fun ha => hended.turns.keep Control.Turn.timeoutAhead (ht ha), he,
    hended.turns.keep Control.Turn.probeAhead hp⟩

theorem turned_respondToLosses (g : Engine κ) {lost : List SendRecord} (now : Nat)
    (hlost : lost ≠ [] → g.board.una < g.board.top) : Turned g (g.respondToLosses lost now) := by
  unfold respondToLosses
  split
  · next h => exact .one (.enterRecovery h.2 (hlost (by simpa using h.1))) rfl
  · exact .refl g

theorem turned_creditDelivery (g : Engine κ) (o : AckOutcome) (now : Nat) :
    Turned g (g.creditDelivery o now) := by
  unfold creditDelivery
  dsimp only
  split <;> exact .of_eq rfl rfl

/-- The conclusions from an ack. Recovery begins only while something is missing. -/
theorem Sound.turned_conclude (h : g.Sound) (ack : Ack) (o : AckOutcome) (now : Nat) :
    Turned (g.noteOutcome o) (g.conclude ack o now).1 ∧
      ((o.advanced = false → g.control.TimeoutAhead) →
        (g.conclude ack o now).1.control.TimeoutAhead) ∧
      (g.conclude ack o now).1.control.EpisodeAhead ∧
      (g.conclude ack o now).1.control.ProbeAhead := by
  obtain ⟨hjudged, ht, he, hp⟩ := turned_judged g ack o now
  have hsound := (relabelled_judged g ack o now).sound h
  have hlost : (g.judged ack o now).detectLosses now ≠ [] →
      (g.judged ack o now).board.una < (g.judged ack o now).board.top := by
    intro hne
    obtain ⟨r, hr⟩ := List.exists_mem_of_ne_nil _ hne
    have hb := hsound.board.tiles.bounds (hsound.mem_of_detectLosses hr)
    omega
  rw [conclude_judged]
  have hrest := (turned_respondToLosses (g.judged ack o now) now hlost).trans
    (turned_creditDelivery _ o now)
  exact ⟨hjudged.trans hrest, fun ha => hrest.turns.keep Control.Turn.timeoutAhead (ht ha),
    hrest.turns.keep Control.Turn.episodeAhead he, hrest.turns.keep Control.Turn.probeAhead hp⟩

theorem turned_planSends (g : Engine κ) (lost : List SendRecord) :
    Turned g (g.planSends lost).1 := by
  unfold planSends
  split
  · exact .of_eq rfl rfl
  · next h =>
    unfold planGoBackN
    split
    · exact .refl g
    · exact .one (.moveCursor h _) rfl
  · exact .refl g

theorem turned_checkProbeRtt (g : Engine κ) (now : Nat) : Turned g (g.checkProbeRtt now) := by
  unfold checkProbeRtt
  split
  · exact .refl g
  · next h =>
    have hturn : g.control.schedule.stage = .steady ∨ g.control.probing = true := by
      by_contra hno
      simp only [not_or, Bool.not_eq_true] at hno
      exact h hno
    dsimp only
    split <;> exact .one (.probeRtt hturn _) rfl

theorem turned_measureGoodput (g : Engine κ) (o : AckOutcome) (now : Nat) :
    Turned g (g.measureGoodput o now) := by
  unfold measureGoodput
  split
  · exact .refl g
  · dsimp only
    split
    · exact .of_eq rfl rfl
    · split <;> exact .of_eq rfl rfl

/-- The engine after sends were planned and all was measured, before the timers are settled. -/
def measured (g : Engine κ) (o : AckOutcome) (lost : List SendRecord) (now : Nat) : Engine κ :=
  (((g.planSends lost).1.checkProbeRtt now).measureGoodput o now).updateRate

theorem turned_measured (g : Engine κ) (o : AckOutcome) (lost : List SendRecord) (now : Nat) :
    Turned g (g.measured o lost now) :=
  (((turned_planSends g lost).trans (turned_checkProbeRtt _ now)).trans
    (turned_measureGoodput _ o now)).trans (.of_eq rfl rfl)

theorem told_respond (g : Engine κ) (prior : Stage) (ack : Ack) (o : AckOutcome)
    (lost : List SendRecord) (now : Nat) :
    Told ((g.measured o lost now).settleTimers prior o now).1
      (g.respond prior ack o lost now).1 := told_tell _ _

omit [CongestionLaw κ] in
/-- A pass over an ack tells whether the left edge moved, and leaves the episode as it is. -/
theorem course_acked (g : Engine κ) (ack : Ack) (now : Nat) :
    (g.passState.run (g.ackInput ack now)).outcome.advanced
        = decide (g.board.una < ack.cumulative) ∧
      (g.acked ack now).ledger.episode = g.ledger.episode := by
  have hcourse := (AckPass.course_run (g.ackInput ack now) g.passState).trans
    (AckPass.course_atEdge (g.ackInput ack now) g.passState rfl)
  simp only [AckPass.course, Prod.mk.injEq] at hcourse
  exact hcourse

omit [CongestionLaw κ] in
/-- After the pass the left edge is where the ack put it. -/
theorem Sound.control_acked (h : g.Sound) (hle : ack.cumulative ≤ g.board.top) (now : Nat) :
    (g.acked ack now).control = { g.control with una := max g.board.una ack.cumulative } ∧
      ((g.passState.run (g.ackInput ack now)).outcome.advanced = false →
        max g.board.una ack.cumulative = g.board.una) := by
  obtain ⟨-, hm, -⟩ := h.passState.run (i := g.ackInput ack now) hle
  obtain ⟨-, he⟩ := h.passState.atEdge (i := g.ackInput ack now) hle
  obtain ⟨hadvanced, hepisode⟩ := course_acked g ack now
  constructor
  · have huna : (g.acked ack now).board.una = max g.board.una ack.cumulative := hm.una.trans he.una
    have htop : (g.acked ack now).board.top = g.board.top := hm.top.trans he.top
    have ha : (g.acked ack now).ledger.active = g.ledger.active :=
      (congrArg RecoveryLedger.active hepisode :)
    have hp : (g.acked ack now).ledger.point = g.ledger.point :=
      (congrArg RecoveryLedger.point hepisode :)
    unfold control
    rw [huna, htop, ha, hp]
    rfl
  · intro hf
    rw [hf] at hadvanced
    exact Nat.max_eq_left (Nat.le_of_not_lt (of_decide_eq_false hadvanced.symm))

theorem processAck_eq (hle : ack.cumulative ≤ g.board.top) (now : Nat) :
    (g.processAck ack now).1 =
      let o := (g.passState.run (g.ackInput ack now)).outcome
      let concluded := (g.acked ack now).conclude ack o now
      (concluded.1.respond g.schedule.stage ack o concluded.2 now).1 := by
  have hp : g.passOf ack now = .ok (g.passState.run (g.ackInput ack now)) :=
    AckPass.process_eq_ok hle
  unfold Engine.processAck
  rw [hp]
  rfl

/-- An ack as a whole: the left edge moves, what was delivered is counted, loss recovery takes turns,
and the timers are settled. -/
theorem Sound.processAck_turns (h : g.Sound) (hle : ack.cumulative ≤ g.board.top) (now : Nat) :
    ∃ mid, Turned ((g.acked ack now).noteOutcome (g.passState.run (g.ackInput ack now)).outcome) mid ∧
      (g.control.TimeoutAhead → mid.control.TimeoutAhead) ∧ mid.control.EpisodeAhead ∧
      mid.control.ProbeAhead ∧ mid.control.Settled g.schedule.stage (g.processAck ack now).1.control ∧
      (g.processAck ack now).1.byteCounts = mid.byteCounts := by
  obtain ⟨hcontrol, hstay⟩ := h.control_acked hle now
  obtain ⟨hconcluded, ht, he, hprobe⟩ := (h.acked hle now).turned_conclude ack
    (g.passState.run (g.ackInput ack now)).outcome now
  rw [processAck_eq hle now]
  dsimp only
  generalize (g.passState.run (g.ackInput ack now)).outcome = o at *
  have hmid := turned_measured ((g.acked ack now).conclude ack o now).1 o
    ((g.acked ack now).conclude ack o now).2 now
  have htold := (told_respond ((g.acked ack now).conclude ack o now).1 g.schedule.stage ack o
    ((g.acked ack now).conclude ack o now).2 now).noted
  refine ⟨_, hconcluded.trans hmid, ?_, hmid.turns.keep Control.Turn.episodeAhead he,
    hmid.turns.keep Control.Turn.probeAhead hprobe, ?_, ?_⟩
  · intro hahead
    refine hmid.turns.keep Control.Turn.timeoutAhead (ht fun hadv => ?_)
    rw [hcontrol, hstay hadv]
    exact hahead
  · rw [htold.control]
    exact control_settleTimers _ g.schedule.stage o now
  · rw [htold.byteCounts]
    exact byteCounts_settleTimers _ g.schedule.stage o now

end Law

/-! ## A send -/

section Send

variable {range x : SeqRange} {flags : Flags}

theorem resendWalk_control (x : SeqRange) (fits : Bool) (change : SendRecord → SendRecord)
    (rs : List SendRecord) (g : Engine κ) :
    (rs.foldl (countResent x fits change) g).control = g.control ∧
      (rs.foldl (countResent x fits change) g).byteCounts = g.byteCounts :=
  ⟨foldl_keep control (g := countResent x fits change) rs g fun _ _ => rfl,
    foldl_keep byteCounts (g := countResent x fits change) rs g fun _ _ => rfl⟩

theorem control_board (g : Engine κ) (b : Scoreboard) :
    ({ g with board := b } : Engine κ).control = { g.control with una := b.una, top := b.top } := rfl

theorem resentEngine_control (g : Engine κ) (x : SeqRange) (flags : Flags) (now : Nat) :
    (g.resentEngine x flags now).control = g.control ∧
      (g.resentEngine x flags now).byteCounts = g.byteCounts := by
  unfold resentEngine
  dsimp only
  constructor
  · rw [control_board, (resendWalk_control _ _ _ _ _).1]
    cases g.board.resendFits x <;> rfl
  · refine (resendWalk_control x _ _ _ _).2.trans ?_
    cases g.board.resendFits x <;> rfl

theorem noted_noteStale (g : Engine κ) (range : SeqRange) : Noted g (g.noteStale range) := rfl

theorem countAgain_control (g : Engine κ) (n : Nat) : (g.countAgain n).control = g.control ∧
    (g.countAgain n).byteCounts = { g.byteCounts with
      retransmitted := Word.add g.byteCounts.retransmitted n } := ⟨rfl, rfl⟩

/-- Sending data again counts it, and that is all. -/
theorem resendBelow_control (g : Engine κ) (range : SeqRange) (flags : Flags) (now : Nat) :
    (g.resendBelow range flags now).1.control = g.control ∧
    (g.resendBelow range flags now).1.byteCounts = { g.byteCounts with
      retransmitted := if (g.resendBelow range flags now).2 = 0 then g.byteCounts.retransmitted
        else Word.add g.byteCounts.retransmitted (g.resendBelow range flags now).2 } ∧
    ((g.resendBelow range flags now).2 ≠ 0 → g.board.una < g.board.top) := by
  unfold resendBelow
  split
  · by_cases hx : max range.start g.board.una < min range.stop g.board.top
    · have hlt : g.board.una < g.board.top := by omega
      obtain ⟨hc, hb⟩ := resentEngine_control g
        ⟨max range.start g.board.una, min range.stop g.board.top⟩ flags now
      rw [resendRange_eq g ⟨range.start, min range.stop g.board.top⟩ flags now hx]
      dsimp only
      by_cases hzero : g.resentBytes ⟨max range.start g.board.una, min range.stop g.board.top⟩ = 0
      · have hstale := noted_noteStale (g.resentEngine
          ⟨max range.start g.board.una, min range.stop g.board.top⟩ flags now)
        rw [if_pos hzero, if_pos rfl]
        exact ⟨(hstale _).control.trans hc, (hstale _).byteCounts.trans hb, fun _ => hlt⟩
      · rw [if_neg hzero, if_neg hzero, ← hb]
        exact ⟨(countAgain_control _ _).1.trans hc, (countAgain_control _ _).2, fun _ => hlt⟩
    · have hstale := noted_noteStale g ⟨max range.start g.board.una, min range.stop g.board.top⟩
      rw [resendRange_of_le g ⟨range.start, min range.stop g.board.top⟩ flags now
        (Nat.le_of_not_lt hx)]
      exact ⟨hstale.control, hstale.byteCounts, fun h => absurd rfl h⟩
  · exact ⟨rfl, rfl, fun h => absurd rfl h⟩

/-- New data moves the right edge. -/
theorem appendNew_control (hx : x.start < x.stop) (hs : x.start = g.board.top)
    (hok : (g.appendNew x flags now).2 = .ok ()) :
    ∃ probeEnd, (g.appendNew x flags now).1.control = g.control.extend x.stop probeEnd ∧
      (probeEnd = g.schedule.probeEnd ∨
        (g.schedule.stage = .tlpPending ∧ probeEnd = some x.stop)) ∧
      (g.appendNew x flags now).1.byteCounts = g.byteCounts := by
  unfold appendNew at hok ⊢
  cases ha : g.board.append x flags now (if flags.appLimited then x.stop else 0) with
  | error e =>
    rw [ha] at hok
    cases hok
  | ok b =>
    obtain ⟨huna, htop⟩ := Scoreboard.append_edges hx hs ha
    dsimp only
    split
    · next h =>
      refine ⟨some x.stop, ?_, .inr ⟨h.1, rfl⟩, rfl⟩
      simp [control, Control.extend, tell, huna, htop]
    · refine ⟨g.schedule.probeEnd, ?_, .inl rfl, rfl⟩
      simp [control, Control.extend, tell, huna, htop]

theorem control_accountSent (g : Engine κ) (sent now : Nat) :
    ((g.accountSent sent now).1.control = g.control ∧
      (sent = 0 ∨ (g.schedule.timers.armed? .rto).isSome = true)) ∨
    (sent ≠ 0 ∧ g.control.Rearmed (g.accountSent sent now).1.control) := by
  unfold accountSent
  split
  · next hzero => exact .inl ⟨rfl, .inl hzero⟩
  · next hsome =>
    dsimp only
    split
    · exact .inr ⟨hsome, control_rearm _ now⟩
    · next harmed =>
      refine .inl ⟨rfl, .inr ?_⟩
      rw [not_or, TimerTable.expiry?_eq_none] at harmed
      exact Option.isSome_iff_ne_none.mpr harmed.2

theorem byteCounts_accountSent (g : Engine κ) (sent now : Nat) :
    (g.accountSent sent now).1.byteCounts = { g.byteCounts with
      sent := if sent = 0 then g.byteCounts.sent else Word.add g.byteCounts.sent sent } := by
  unfold accountSent
  split
  · rfl
  · dsimp only
    split
    · exact byteCounts_rearm _ now
    · rfl

/-- A report of a send in its parts: data was sent again, the right edge moved, and all that was sent
is accounted for. New data alone leaves the ledger to the account. -/
theorem Sound.processSent_parts (h : g.Sound) (hx : range.start < range.stop)
    (hs : range.start ≤ g.board.top) (hf : flags.IsFresh) (now : Nat) :
    ∃ (mid : Engine κ) (again : Nat) (probeEnd : Option Nat),
      g.processSent range flags now
        = ((mid.accountSent (again + (max g.board.top range.stop - g.board.top)) now).1,
          .ok (mid.accountSent (again + (max g.board.top range.stop - g.board.top)) now).2) ∧
      mid.control = g.control.extend (max g.board.top range.stop) probeEnd ∧
      mid.terms = g.terms ∧
      (probeEnd = g.schedule.probeEnd ∨ (g.schedule.stage = .tlpPending ∧
        g.board.top < range.stop ∧ probeEnd = some range.stop)) ∧
      mid.byteCounts = { g.byteCounts with
        retransmitted := if again = 0 then g.byteCounts.retransmitted
          else Word.add g.byteCounts.retransmitted again } ∧
      (again ≠ 0 → g.board.una < g.board.top) ∧
      (range.start = g.board.top → again = 0 ∧ mid.ledger = g.ledger) := by
  obtain ⟨hr, hsound, -⟩ := h.resendBelow hx hs flags now
  obtain ⟨hcontrol, hbytes, hlt⟩ := resendBelow_control g range flags now
  have hterms := terms_resendBelow g range flags now
  have hnone : range.start = g.board.top → g.resendBelow range flags now = (g, 0) := by
    intro he
    unfold Engine.resendBelow
    rw [if_neg (Nat.not_lt.mpr (Nat.le_of_eq he.symm))]
  by_cases hstop : range.stop ≤ g.board.top
  · refine ⟨(g.resendBelow range flags now).1, (g.resendBelow range flags now).2,
      g.schedule.probeEnd, ?_, ?_, hterms, .inl rfl, hbytes, hlt, ?_⟩
    · have hdone := (kept_accountSent (g.resendBelow range flags now).1
        (g.resendBelow range flags now).2 now).sound hsound
      rw [processSent_of_le hx hstop, Nat.max_eq_left hstop, Nat.sub_self]
      exact Prod.ext rfl (hdone.audited _)
    · rw [hcontrol, Nat.max_eq_left hstop]
      rfl
    · intro he
      omega
  · have htop : g.board.top < range.stop := Nat.lt_of_not_le hstop
    obtain ⟨hok, -, hnew, -⟩ :=
      hsound.appendNew (x := ⟨g.board.top, range.stop⟩) htop hr.edges.2.symm hf now
    obtain ⟨probeEnd, hextended, hprobe, hkept⟩ := appendNew_control htop hr.edges.2.symm hok
    rw [hcontrol] at hextended
    refine ⟨((g.resendBelow range flags now).1.appendNew ⟨g.board.top, range.stop⟩ flags now).1,
      (g.resendBelow range flags now).2, probeEnd, ?_, ?_,
      (terms_appendNew _ _ flags now).1.trans hterms, ?_, hkept.trans hbytes, hlt, ?_⟩
    · have hdone := (kept_accountSent _ ((g.resendBelow range flags now).2
        + (⟨g.board.top, range.stop⟩ : SeqRange).length) now).sound hnew
      rw [processSent_of_lt hx hs htop hok, Nat.max_eq_right (Nat.le_of_lt htop)]
      exact Prod.ext rfl (hdone.audited _)
    · rw [hextended, Nat.max_eq_right (Nat.le_of_lt htop)]
    · rw [show (g.resendBelow range flags now).1.schedule = g.schedule from
        congrArg Control.schedule hcontrol] at hprobe
      exact hprobe.imp_right fun hnew => ⟨hnew.1, htop, hnew.2⟩
    · intro he
      exact ⟨by rw [hnone he], (terms_appendNew _ _ flags now).2.trans (by rw [hnone he])⟩

end Send

/-! ## A firing timer -/

theorem outstanding_ne_zero (hlt : g.board.una < g.board.top) : g.board.outstanding ≠ 0 :=
  Nat.sub_ne_zero_of_lt hlt

/-- A firing probe timer waits for the end of the probe that it asks for, if there is one. -/
theorem fireProbe_control (hlt : g.board.una < g.board.top) (hasData : Bool) (now : Nat) :
    ∃ d expiry, (g.fireProbe hasData now).1.control = d.arm .rto expiry ∧
      (d = g.control ∨ ∃ x kind, g.probeFor hasData = some (x, kind) ∧
        d = { g.control with schedule := { g.schedule with
          stage := .tlpPending, probeEnd := some x.stop } }) := by
  unfold fireProbe
  rw [if_neg (outstanding_ne_zero hlt)]
  dsimp only
  cases g.probeFor hasData with
  | none => exact ⟨_, _, rfl, .inl rfl⟩
  | some probe => exact ⟨_, _, rfl, .inr ⟨probe.1, probe.2, rfl, rfl⟩⟩

theorem fireProbe_fires (hlt : g.board.una < g.board.top) (hasData : Bool) (now : Nat) :
    ∃ d expiry, Control.Fire g.control .tlp d ∧
      (g.fireProbe hasData now).1.control = d.arm .rto expiry := by
  obtain ⟨d, expiry, hcontrol, rfl | ⟨x, kind, -, rfl⟩⟩ := fireProbe_control hlt hasData now
  · exact ⟨_, _, .nothing, hcontrol⟩
  · exact ⟨_, _, .probe x.stop, hcontrol⟩

theorem byteCounts_fireProbe (g : Engine κ) (hasData : Bool) (now : Nat) :
    (g.fireProbe hasData now).1.byteCounts = g.byteCounts := by
  unfold fireProbe
  split
  · rfl
  · dsimp only
    cases g.probeFor hasData <;> rfl

variable [CongestionLaw κ]

/-- A collapse ends whatever was going on, and waits for all that was sent. -/
theorem collapse_control (g : Engine κ) (now : Nat) :
    ∃ undo, (g.collapse now).control = { g.control with
      active := false
      probing := false
      schedule := { g.schedule with
        stage := .rtoPending
        backoff := Word.incr32 g.schedule.backoff
        rtoPoint := g.board.top
        firedAt := some now
        undo := undo
        probeEnd := none
        cursor := none } } := by
  refine ⟨if g.schedule.stage = .rtoPending then g.schedule.undo
    else some (g.congestionWindow, g.threshold), ?_⟩
  cases hactive : g.ledger.active with
  | true =>
    simp only [collapse, signal, hactive, if_true]
    rfl
  | false =>
    simp only [collapse, signal, hactive, Bool.false_eq_true, if_false]
    simp only [control, presumeLost, clearHoles, hactive]
    rfl

theorem byteCounts_collapse (g : Engine κ) (now : Nat) :
    (g.collapse now).byteCounts = g.byteCounts := by
  unfold collapse byteCounts
  cases hactive : g.ledger.active with
  | true => simp [signal, presumeLost, clearHoles, RecoveryLedger.leave, hactive]
  | false => simp [signal, presumeLost, clearHoles, hactive]

theorem resendLowest_control (g : Engine κ) :
    (∃ cursor, g.resendLowest.1.control
      = { g.control with schedule := { g.schedule with cursor := cursor } }) ∧
    g.resendLowest.1.byteCounts = g.byteCounts := by
  unfold resendLowest
  split
  · exact ⟨⟨g.schedule.cursor, rfl⟩, rfl⟩
  · next r _ => exact ⟨⟨some r.start, rfl⟩, rfl⟩

/-- The engine after all outstanding data was presumed lost. -/
def collapsed (g : Engine κ) (now : Nat) : Engine κ :=
  let g := g.collapse now
  g.tell [.timeoutFired g.schedule.backoff g.board.una g.board.top g.congestionWindow]

theorem fireTimeout_eq (hlt : g.board.una < g.board.top) (now : Nat) :
    g.fireTimeout now =
      let resent := (g.collapsed now).resendLowest
      let armed := resent.1.arm .rto resent.1.rto now
      (armed.1, resent.2 ++ [armed.2]) :=
  if_neg (outstanding_ne_zero hlt)

theorem fireTimeout_fires (hlt : g.board.una < g.board.top) (now : Nat) :
    ∃ d expiry, Control.Fire g.control .rto d ∧
      (g.fireTimeout now).1.control = d.arm .rto expiry := by
  have hpos : 0 < Word.incr32 g.schedule.backoff := by
    unfold Word.incr32 Word.max32
    omega
  obtain ⟨undo, hcollapse⟩ := collapse_control g now
  obtain ⟨⟨cursor, hresend⟩, -⟩ := resendLowest_control (g.collapsed now)
  have hcontrol : (g.collapsed now).control = (g.collapse now).control := rfl
  rw [fireTimeout_eq hlt]
  refine ⟨(g.collapsed now).resendLowest.1.control, _, ?_, rfl⟩
  rw [hresend, show (g.collapsed now).schedule = _ from congrArg Control.schedule hcollapse, hcontrol,
    hcollapse]
  exact .timeout hpos now undo cursor

theorem byteCounts_fireTimeout (g : Engine κ) (now : Nat) :
    (g.fireTimeout now).1.byteCounts = g.byteCounts := by
  by_cases hlt : g.board.una < g.board.top
  · rw [fireTimeout_eq hlt]
    exact (resendLowest_control (g.collapsed now)).2.trans (byteCounts_collapse g now)
  · have hnone : g.board.outstanding = 0 := Nat.sub_eq_zero_of_le (Nat.le_of_not_lt hlt)
    unfold fireTimeout
    rw [if_pos hnone]

/-- The engine after a timer was taken off. -/
def takeOff (g : Engine κ) (timer : Timer) : Engine κ :=
  { g with schedule := { g.schedule with timers := g.schedule.timers.stop timer } }

theorem processTimeout_eq (g : Engine κ) {timer : Timer} {generation : Nat}
    (hc : g.schedule.timers.isCurrent timer generation = true) (hasData : Bool) (now : Nat) :
    g.processTimeout timer generation hasData now =
      match timer with
      | .tlp => (g.takeOff .tlp).fireProbe hasData now
      | .rto => (g.takeOff .rto).fireTimeout now := by
  unfold processTimeout
  rw [if_pos hc]
  cases timer <;> rfl

/-- A timer that fires while data is outstanding enters its stage, and the retransmission timer is
armed. -/
theorem processTimeout_fires (g : Engine κ) {timer : Timer} {generation : Nat}
    (hc : g.schedule.timers.isCurrent timer generation = true) (hlt : g.board.una < g.board.top)
    (hasData : Bool) (now : Nat) :
    ∃ d expiry, Control.Fire (g.takeOff timer).control timer d ∧
      (g.processTimeout timer generation hasData now).1.control = d.arm .rto expiry := by
  rw [processTimeout_eq g hc hasData now]
  cases timer with
  | tlp => exact fireProbe_fires (g := g.takeOff .tlp) hlt hasData now
  | rto => exact fireTimeout_fires (g := g.takeOff .rto) hlt now

/-- A firing timer counts no bytes. -/
theorem byteCounts_processTimeout (g : Engine κ) {timer : Timer} {generation : Nat}
    (hc : g.schedule.timers.isCurrent timer generation = true) (hasData : Bool) (now : Nat) :
    (g.processTimeout timer generation hasData now).1.byteCounts = g.byteCounts := by
  rw [processTimeout_eq g hc hasData now]
  cases timer with
  | tlp => exact byteCounts_fireProbe (g.takeOff .tlp) hasData now
  | rto => exact byteCounts_fireTimeout (g.takeOff .rto) now

end Engine

end LossRecovery
