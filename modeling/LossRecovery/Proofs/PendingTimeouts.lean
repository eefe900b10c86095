import LossRecovery.Proofs.Persistence
import LossRecovery.Proofs.Steering

/-!
# `LossRecovery.Proofs.PendingTimeouts` — what calls make of a timeout that is going on

A timeout begins when the retransmission timer fires while data is outstanding, and in no other way.
As long as it goes on, sends leave it alone, and an ack moves its cursor; only an ack that moves the
left edge gives up what it might undo, or ends it. None of this asks anything of the calls.

## Contents
- `TimeoutState`, `Schedule.timeout`: what belongs to a timeout.
- `Engine.noted`, `conclude_of_pending`: the conclusions from an ack while a timeout goes on.
- `Engine.TimesOut now g g'`: from `g` to `g'`, the retransmission timer fires.
- `timeout_processSent`, `timeout_respond`, `timeout_planSends`, `processTimeout_cases`: sends, acks and
  timers.
-/

namespace LossRecovery

/-- What belongs to a timeout, with the stage, which tells whether one is going on. -/
structure TimeoutState where
  stage : Stage
  backoff : Nat
  point : Nat
  firedAt : Option Nat
  undo : Option (Nat × Nat)
  cursor : Option Nat

def Schedule.timeout (s : Schedule) : TimeoutState :=
  ⟨s.stage, s.backoff, s.rtoPoint, s.firedAt, s.undo, s.cursor⟩

namespace Engine

variable {κ : Type} {g g' : Engine κ} {now : Nat}

/-! ## Sends -/

theorem timeout_accountSent (g : Engine κ) (sent now : Nat) :
    (g.accountSent sent now).1.schedule.timeout = g.schedule.timeout := by
  rcases control_accountSent g sent now with ⟨hsame, -⟩ | ⟨-, timer, expiry, harmed, -⟩
  · exact congrArg (·.schedule.timeout) hsame
  · exact congrArg (·.schedule.timeout) harmed

theorem timeout_appendNew (g : Engine κ) (x : SeqRange) (flags : Flags) (now : Nat) :
    (g.appendNew x flags now).1.schedule.timeout = g.schedule.timeout := by
  unfold appendNew
  dsimp only
  cases g.board.append x flags now (if flags.appLimited then x.stop else 0) with
  | error e => rfl
  | ok board =>
    dsimp only
    split <;> rfl

/-- Sends leave a timeout alone, whether they are taken in or not. -/
theorem timeout_processSent (g : Engine κ) (x : SeqRange) (flags : Flags) (now : Nat) :
    (g.processSent x flags now).1.schedule.timeout = g.schedule.timeout := by
  refine keep_processSent (P := fun h => h.schedule.timeout = g.schedule.timeout) ?_ ?_ ?_ rfl
  · intro h range hsame
    exact (congrArg (·.schedule.timeout) (control_resendRange h range flags now)).trans hsame
  · intro h range hsame
    exact (timeout_appendNew h range flags now).trans hsame
  · intro h sent hsame
    exact (timeout_accountSent h sent now).trans hsame

theorem timeout_fail (g : Engine κ) (e : Error) :
    (g.fail e).schedule.timeout = g.schedule.timeout := by
  unfold fail
  cases e <;> rfl

/-! ## Acks -/

/-- The engine after it took note of what an ack delivered. -/
def noted (g : Engine κ) (o : AckOutcome) (now : Nat) : Engine κ :=
  ((g.noteOutcome o).takeSample o.rttSample now).noteReordering o now

theorem standing_noted (g : Engine κ) (o : AckOutcome) (now : Nat) :
    (g.noted o now).standing = g.standing :=
  ((standing_noteReordering _ o now).trans (standing_takeSample _ o.rttSample now)).trans
    (standing_noteOutcome g o)

/-- While a timeout goes on, an RTT sample does not touch the backoff. -/
theorem schedule_noted (hr : g.schedule.stage = .rtoPending) (o : AckOutcome) (now : Nat) :
    (g.noted o now).schedule = g.schedule := by
  have hcounted : (g.noteOutcome o).schedule = g.schedule :=
    congrArg Control.schedule (control_noteOutcome g o)
  have hsampled : ((g.noteOutcome o).takeSample o.rttSample now).schedule
      = (g.noteOutcome o).schedule := by
    unfold takeSample
    cases o.rttSample with
    | none => rfl
    | some rtt =>
      dsimp only
      cases (g.noteOutcome o).rtt.update rtt now with
      | ok estimator =>
        dsimp only
        rw [if_pos (by rw [hcounted]; exact hr)]
      | error e =>
        dsimp only
        cases e.counter? <;> rfl
  unfold noted noteReordering
  rw [← hcounted, ← hsampled]
  cases o.reordering <;> rfl

variable [CongestionLaw κ]

/-- An ack that moved the left edge ends a timeout, or leaves all of it but what might be undone. -/
theorem timeout_afterTimeout (g : Engine κ) (ack : Ack) (o : AckOutcome) (now : Nat) :
    (g.afterTimeout ack o now).schedule.stage = .steady ∨
      (g.afterTimeout ack o now).schedule.timeout
        = { g.schedule.timeout with undo := none } := by
  have hend : ∀ h : Engine κ, h.checkTimeoutEnd.schedule.stage = .steady ∨ h.checkTimeoutEnd = h := by
    intro h
    unfold checkTimeoutEnd
    split
    · exact .inl rfl
    · exact .inr rfl
  unfold afterTimeout
  split
  · split
    · refine .inl ?_
      unfold undoTimeout
      split <;> rfl
    · refine (hend _).imp id fun hsame => ?_
      rw [hsame]
      rfl
  · next hnone =>
    refine (hend _).imp id fun hsame => ?_
    rw [hsame]
    unfold Schedule.timeout
    rw [show g.schedule.undo = none by simpa using hnone]

/-- While a timeout goes on, no probe is settled and no recovery ends. If the ack ends the timeout, it
may begin recovery right away. -/
theorem conclude_of_pending (hr : g.schedule.stage = .rtoPending) (ack : Ack) (o : AckOutcome)
    (now : Nat) :
    let repaired := if o.advanced then (g.noted o now).afterTimeout ack o now else g.noted o now
    (g.conclude ack o now).1
      = (repaired.respondToLosses (repaired.detectLosses now) now).creditDelivery o now := by
  have hnoted : (g.noted o now).schedule.stage = .rtoPending :=
    (congrArg Schedule.stage (schedule_noted hr o now)).trans hr
  -- Neither of these stages waits for a probe or for the end of an episode.
  have hquiet : ∀ h : Engine κ, h.schedule.stage = .rtoPending ∨ h.schedule.stage = .steady →
      (h.settleProbe o).checkRecoveryEnd now = h := by
    intro h hs
    have hprobe : h.settleProbe o = h := if_neg (by rcases hs with hs | hs <;> simp [hs])
    rw [hprobe]
    exact if_neg (by rcases hs with hs | hs <;> simp [hs])
  rw [conclude_judged]
  unfold judged
  dsimp only
  rw [show ((g.noteOutcome o).takeSample o.rttSample now).noteReordering o now = g.noted o now from rfl]
  cases ha : o.advanced with
  | false => simp only [hnoted, hquiet, true_or, Bool.false_eq_true, and_false, if_false]
  | true =>
    have hs : ((g.noted o now).afterTimeout ack o now).schedule.stage = .rtoPending ∨
        ((g.noted o now).afterTimeout ack o now).schedule.stage = .steady :=
      (timeout_afterTimeout (g.noted o now) ack o now).symm.imp_left fun h =>
        (congrArg TimeoutState.stage h).trans hnoted
    simp only [hnoted, hquiet _ hs, and_self, if_true]

theorem schedule_creditDelivery (g : Engine κ) (o : AckOutcome) (now : Nat) :
    (g.creditDelivery o now).schedule = g.schedule := by
  unfold creditDelivery
  dsimp only
  split <;> rfl

theorem respondToLosses_cases (g : Engine κ) (lost : List SendRecord) (now : Nat) :
    g.respondToLosses lost now = g ∨ (g.respondToLosses lost now).schedule.stage = .recovering := by
  unfold respondToLosses
  split
  · exact .inr rfl
  · exact .inl rfl

/-- No conclusion from an ack begins a timeout. -/
theorem stage_conclude_ne (hr : g.schedule.stage ≠ .rtoPending) (ack : Ack) (o : AckOutcome)
    (now : Nat) : (g.conclude ack o now).1.schedule.stage ≠ .rtoPending := by
  have hjudged : (g.judged ack o now).schedule.stage ≠ .rtoPending := by
    refine (turned_judged g ack o now).1.turns.keep
      (P := fun c => c.schedule.stage ≠ .rtoPending) (fun turn hc => ?_) ?_
    · cases turn with
      | leaveTimeout | settleProbe | leaveRecovery | enterRecovery => exact Stage.noConfusion
      | _ => exact hc
    · rw [control_noteOutcome]
      exact hr
  rw [conclude_judged]
  dsimp only
  rw [schedule_creditDelivery]
  rcases respondToLosses_cases (g.judged ack o now) ((g.judged ack o now).detectLosses now) now with
    hsame | hbegun
  · rwa [hsame]
  · rw [hbegun]
    exact Stage.noConfusion

/-- A timeout that goes on after the conclusions from an ack went on before, and is the same one. -/
theorem timeout_conclude {ack : Ack} {o : AckOutcome}
    (hr : (g.conclude ack o now).1.schedule.stage = .rtoPending) :
    g.schedule.stage = .rtoPending ∧
      ∃ undo, (g.conclude ack o now).1.schedule.timeout = { g.schedule.timeout with undo := undo } := by
  have hbefore : g.schedule.stage = .rtoPending := by
    by_contra hne
    exact stage_conclude_ne hne ack o now hr
  refine ⟨hbefore, ?_⟩
  have hnoted := congrArg Schedule.timeout (schedule_noted hbefore o now)
  rw [conclude_of_pending hbefore] at hr ⊢
  rw [schedule_creditDelivery] at hr ⊢
  generalize hrepaired : (if o.advanced then (g.noted o now).afterTimeout ack o now
    else g.noted o now) = repaired at hr ⊢
  rcases respondToLosses_cases repaired (repaired.detectLosses now) now with hsame | hbegun
  · rw [hsame] at hr ⊢
    cases ha : o.advanced with
    | false =>
      rw [← hrepaired, ha, if_neg Bool.false_ne_true]
      exact ⟨_, hnoted⟩
    | true =>
      rw [ha, if_pos rfl] at hrepaired
      rcases timeout_afterTimeout (g.noted o now) ack o now with hended | hkept
      · rw [hrepaired, hr] at hended
        cases hended
      · rw [← hrepaired, hkept, hnoted]
        exact ⟨_, rfl⟩
  · rw [hbegun] at hr
    cases hr

/-- An ack that does not move the left edge leaves a timeout alone, and tells the law nothing. -/
theorem conclude_still (hr : g.schedule.stage = .rtoPending) (ack : Ack) {o : AckOutcome}
    (hstay : o.advanced = false) (now : Nat) :
    (g.conclude ack o now).1.schedule = g.schedule ∧ (g.conclude ack o now).1.law = g.law := by
  have hschedule := schedule_noted hr o now
  have hlaw : (g.noted o now).law = g.law := congrArg (·.steering.law) (standing_noted g o now)
  have hstage : (g.noted o now).schedule.stage = .rtoPending := by rw [hschedule, hr]
  have hlost : (g.noted o now).detectLosses now = [] := by
    unfold detectLosses
    rw [hstage]
  have hnone : (g.noted o now).respondToLosses [] now = g.noted o now := if_neg (by simp)
  rw [conclude_of_pending hr]
  simp only [hstay, Bool.false_eq_true, if_false, hlost, hnone]
  refine ⟨(schedule_creditDelivery _ o now).trans hschedule, ?_⟩
  unfold creditDelivery
  dsimp only
  rw [if_neg (by simp [hstage])]
  exact hlaw

/-! ## What an ack makes be sent -/

theorem schedule_measured (g : Engine κ) (o : AckOutcome) (lost : List SendRecord) (now : Nat) :
    (g.measured o lost now).schedule = (g.planSends lost).1.schedule := by
  have hchecked : ∀ h : Engine κ, (h.checkProbeRtt now).schedule = h.schedule := by
    intro h
    unfold checkProbeRtt
    split
    · rfl
    · dsimp only
      split <;> rfl
  have hmeasured : ∀ h : Engine κ, (h.measureGoodput o now).schedule = h.schedule := by
    intro h
    unfold measureGoodput
    split
    · rfl
    · dsimp only
      split
      · rfl
      · split <;> rfl
  exact (hmeasured _).trans (hchecked _)

omit [CongestionLaw κ] in
theorem timeout_settleTimers (g : Engine κ) (prior : Stage) (o : AckOutcome) (now : Nat) :
    (g.settleTimers prior o now).1.schedule.timeout = g.schedule.timeout := by
  rcases control_settleTimers g prior o now with
    ⟨-, timers, -, hoff⟩ | ⟨-, ⟨timer, expiry, harmed, -⟩ | ⟨hsame, -⟩⟩
  · exact congrArg (·.schedule.timeout) hoff
  · exact congrArg (·.schedule.timeout) harmed
  · exact congrArg (·.schedule.timeout) hsame

/-- Planning to send moves the cursor at most. -/
theorem cursor_planSends (g : Engine κ) (lost : List SendRecord) :
    ∃ cursor, (g.planSends lost).1.schedule.timeout = { g.schedule.timeout with cursor := cursor } := by
  unfold planSends
  split
  · exact ⟨_, rfl⟩
  · unfold planGoBackN
    split <;> exact ⟨_, rfl⟩
  · exact ⟨_, rfl⟩

/-- During a timeout, the cursor moves to the first record that is to be sent again. -/
theorem timeout_planSends {fired : Nat} (hr : g.schedule.stage = .rtoPending)
    (hf : g.schedule.firedAt = some fired) (lost : List SendRecord) :
    (g.planSends lost).1.schedule.timeout = { g.schedule.timeout with
      cursor := (goBackN g.board (g.schedule.resumePoint g.board.una) g.schedule.rtoPoint
        fired).head?.map (·.start) } := by
  unfold Schedule.timeout
  simp only [planSends, hr, planGoBackN, hf]

/-- Acting on an ack changes of a timeout what planning to send changes. -/
theorem timeout_respond (g : Engine κ) (prior : Stage) (ack : Ack) (o : AckOutcome)
    (lost : List SendRecord) (now : Nat) :
    (g.respond prior ack o lost now).1.schedule.timeout = (g.planSends lost).1.schedule.timeout := by
  have htold := (told_respond g prior ack o lost now).noted.schedule
  rw [htold, timeout_settleTimers, schedule_measured]

/-- Acting on an ack moves the cursor at most. -/
theorem cursor_respond (g : Engine κ) (prior : Stage) (ack : Ack) (o : AckOutcome)
    (lost : List SendRecord) (now : Nat) :
    ∃ cursor, (g.respond prior ack o lost now).1.schedule.timeout
      = { g.schedule.timeout with cursor := cursor } := by
  obtain ⟨cursor, hplanned⟩ := cursor_planSends g lost
  exact ⟨cursor, (timeout_respond g prior ack o lost now).trans hplanned⟩

theorem stage_respond (g : Engine κ) (prior : Stage) (ack : Ack) (o : AckOutcome)
    (lost : List SendRecord) (now : Nat) :
    (g.respond prior ack o lost now).1.schedule.stage = g.schedule.stage :=
  congrArg (·.steering.stage) (standing_respond g prior ack o lost now)

theorem backoff_respond (g : Engine κ) (prior : Stage) (ack : Ack) (o : AckOutcome)
    (lost : List SendRecord) (now : Nat) :
    (g.respond prior ack o lost now).1.schedule.backoff = g.schedule.backoff := by
  obtain ⟨cursor, hsame⟩ := cursor_respond g prior ack o lost now
  exact congrArg TimeoutState.backoff hsame

theorem board_respond (g : Engine κ) (prior : Stage) (ack : Ack) (o : AckOutcome)
    (lost : List SendRecord) (now : Nat) : (g.respond prior ack o lost now).1.board = g.board := by
  have htold := (told_respond g prior ack o lost now).footing
  exact footing_board (htold.trans ((footing_settleTimers _ prior o now).trans
    (footing_measured g o lost now)))

/-- No ack begins a timeout, whether it is taken in or not. -/
theorem stage_processAck_ne (hr : g.schedule.stage ≠ .rtoPending) (ack : Ack) (now : Nat) :
    (g.processAck ack now).1.schedule.stage ≠ .rtoPending := by
  unfold processAck
  cases g.passOf ack now with
  | error e => exact hr
  | ok p =>
    dsimp only
    have hconcluded := stage_conclude_ne (g := g.adopt p ack) hr ack p.outcome now
    rw [stage_respond]
    exact hconcluded

/-! ## Timers -/

/-- The retransmission timer fires at the instant `now`, while data is outstanding. -/
inductive TimesOut (now : Nat) (g : Engine κ) : Engine κ → Prop
  | fire (generation : Nat) (hasData : Bool) (runs : g.isAborted = false)
      (current : g.schedule.timers.isCurrent .rto generation = true)
      (outstanding : g.board.una < g.board.top) :
      TimesOut now g (g.onTimeout .rto generation hasData now).1

theorem TimesOut.of_processTimeout {generation : Nat} (hasData : Bool) (runs : g.isAborted = false)
    (current : g.schedule.timers.isCurrent .rto generation = true)
    (outstanding : g.board.una < g.board.top) :
    TimesOut now g (g.processTimeout .rto generation hasData now).1 := by
  have hfired : TimesOut now g (g.onTimeout .rto generation hasData now).1 :=
    .fire generation hasData runs current outstanding
  rwa [onTimeout_eq runs] at hfired

/-- What a timeout begins with: all outstanding data waits for it. What it might undo is what the first
one of its series found. -/
theorem TimesOut.timeout (h : TimesOut now g g') :
    g'.schedule.timeout = {
      stage := .rtoPending
      backoff := Word.incr32 g.schedule.backoff
      point := g.board.top
      firedAt := some now
      undo := if g.schedule.stage = .rtoPending then g.schedule.undo
        else some (g.congestionWindow, g.threshold)
      cursor := (g'.board.lowestMissing?).map (·.start) } := by
  obtain ⟨generation, hasData, runs, current, outstanding⟩ := h
  rw [onTimeout_eq runs, processTimeout_eq g current hasData now]
  dsimp only
  rw [fireTimeout_eq (g := g.takeOff .rto) outstanding]
  show ((g.takeOff .rto).collapsed now).resendLowest.1.schedule.timeout
    = ⟨.rtoPending, Word.incr32 g.schedule.backoff, g.board.top, some now, _,
        (((g.takeOff .rto).collapsed now).resendLowest.1.board.lowestMissing?).map (·.start)⟩
  unfold resendLowest
  split
  · next hnone =>
    rw [hnone]
    rfl
  · next r hfound =>
    rw [hfound]
    rfl

/-- Each timeout is counted. -/
theorem TimesOut.counted (h : TimesOut now g g') : g'.stats.rtoCount = g.stats.rtoCount + 1 := by
  obtain ⟨generation, hasData, runs, current, outstanding⟩ := h
  rw [onTimeout_eq runs, processTimeout_eq g current hasData now]
  dsimp only
  rw [fireTimeout_eq (g := g.takeOff .rto) outstanding]
  show ((g.takeOff .rto).collapsed now).resendLowest.1.stats.rtoCount = _
  unfold resendLowest
  split <;> rfl

/-- A timer that fires enters a probe, begins a timeout, or leaves a timeout alone. -/
theorem processTimeout_cases (g : Engine κ) (timer : Timer) (generation : Nat) (hasData : Bool)
    (now : Nat) :
    (timer = .rto ∧ g.schedule.timers.isCurrent .rto generation = true ∧
      g.board.una < g.board.top) ∨
    (timer = .tlp ∧ g.schedule.timers.isCurrent .tlp generation = true ∧
      (g.processTimeout timer generation hasData now).1.schedule.stage = .tlpPending) ∨
    (g.processTimeout timer generation hasData now).1.schedule.timeout = g.schedule.timeout := by
  cases hc : g.schedule.timers.isCurrent timer generation with
  | false =>
    simp only [processTimeout, hc, Bool.false_eq_true, if_false]
    exact .inr (.inr rfl)
  | true =>
    rw [processTimeout_eq g hc hasData now]
    by_cases hlt : g.board.una < g.board.top
    · cases timer with
      | rto => exact .inl ⟨rfl, hc, hlt⟩
      | tlp =>
        refine .inr ?_
        obtain ⟨d, expiry, hcontrol, rfl | ⟨x, kind, -, rfl⟩⟩ :=
          fireProbe_control (g := g.takeOff .tlp) hlt hasData now
        · exact .inr (congrArg (·.schedule.timeout) hcontrol)
        · exact .inl ⟨rfl, hc, congrArg (·.schedule.stage) hcontrol⟩
    · have hnone : g.board.outstanding = 0 := Nat.sub_eq_zero_of_le (Nat.le_of_not_lt hlt)
      refine .inr (.inr ?_)
      cases timer with
      | tlp =>
        dsimp only
        unfold fireProbe
        rw [if_pos (by exact hnone)]
        rfl
      | rto =>
        dsimp only
        unfold fireTimeout
        rw [if_pos (by exact hnone)]
        rfl

end Engine

end LossRecovery
