import LossRecovery.Proofs.Refusals
import LossRecovery.Proofs.Stages

/-!
# `LossRecovery.Proofs.Requests` — what calls answer with

The answer to a call begins with what is to be sent and ends with what is to be done about the
timers. What is to be sent is planned in the middle of a call; whatever happens after that leaves
alone what the plan went by, so that it can be judged by the engine the call leaves behind.

## Contents
- `TimerTable.Handed t t' as`: what `as` tells about a change of the timers from `t` to `t'`;
  `Actions.SendsOnly`: nothing is told about them.
- `guarded_ok`, `Running.send_taken`, `Running.ack_taken`, `fire_taken`: calls that succeed.
- `Engine.Footing`: what plans to send go by, and that measuring and settling the timers keep it.
- `Engine.concluded`, `Sound.processAck_answer`: the answer to an ack.
- `Sound.processSent_answer`, `processTimeout_answer`: the answers to a send and to a firing timer.
-/

namespace LossRecovery

/-! ## Timer actions -/

namespace TimerTable

/-- What the timer actions `as` tell about a change of the timers from `t` to `t'`: nothing if none
was made, and else the timer that is armed now, or that none is any more. -/
inductive Handed (t : TimerTable) : TimerTable → Actions → Prop
  | same : Handed t t []
  | armed (timer : Timer) (expiry duration : Nat) :
      Handed t ((t.stop timer.other).set timer expiry)
        [.arm timer duration ((t.stop timer.other).set timer expiry).generation]
  | cancelled (h : t.nextTimeout ≠ none) : Handed t t.stopAll [.cancel]

variable {t t' : TimerTable} {as : Actions}

theorem Handed.isTimer (h : Handed t t' as) : ∀ a ∈ as, a.isTimer = true := by
  cases h <;> simp [Action.isTimer]

theorem Handed.eq_of_nil (h : Handed t t' []) : t' = t := by
  cases h
  rfl

end TimerTable

/-! ## Sends -/

namespace Actions

/-- Nothing is asked about the timers. -/
def SendsOnly (as : Actions) : Prop := ∀ a ∈ as, a.isTimer = false

theorem sendsOnly_nil : SendsOnly [] := by simp [SendsOnly]

theorem sendsOnly_spendBudget (mss left : Nat) (rs : List SeqRange) :
    SendsOnly (spendBudget mss left rs) := by
  induction rs generalizing left with
  | nil => exact sendsOnly_nil
  | cons r rest ih =>
    unfold spendBudget
    split
    · exact sendsOnly_nil
    · intro a ha
      rcases List.mem_cons.mp ha with rfl | ha
      · rfl
      · exact ih _ a ha

theorem sendsOnly_planResends (lost : List SendRecord) (budget mss : Nat) :
    SendsOnly (planResends lost budget mss) := sendsOnly_spendBudget _ _ _

/-- An answer tells about the timers what comes after its sends. -/
theorem timer?_append {sends timing : Actions} (ho : sends.SendsOnly)
    (ht : ∀ a ∈ timing, a.isTimer = true) : timer? (sends ++ timing) = none ↔ timing = [] := by
  simp only [timer?, List.find?_eq_none, List.mem_reverse, List.mem_append]
  constructor
  · intro h
    by_contra hne
    obtain ⟨a, ha⟩ := List.exists_mem_of_ne_nil _ hne
    exact h a (.inr ha) (ht a ha)
  · rintro rfl a (ha | ha)
    · simp [ho a ha]
    · cases ha

end Actions

namespace Engine

variable {κ : Type} {g g' : Engine κ} {ack : Ack} {o : AckOutcome} {now : Nat} {actions : Actions}

theorem Noted.schedule (h : Noted g g') : g'.schedule = g.schedule := congrArg Conduct.schedule h

/-! ## Calls that succeed -/

/-- A call that succeeds was made to an engine that was not stopped. -/
theorem guarded_ok {α : Type} {call : Engine κ → Engine κ × Except Error α} {a : α}
    (h : (g.guarded call).2 = .ok a) :
    g.isAborted = false ∧ call g = ((g.guarded call).1, .ok a) := by
  cases ha : g.isAborted with
  | true =>
    rw [guarded_of_aborted ha] at h
    cases h
  | false =>
    refine ⟨rfl, ?_⟩
    rw [guarded_eq ha] at h ⊢
    cases hres : (call g).2 with
    | error e =>
      rw [hres] at h
      cases h
    | ok b =>
      rw [hres] at h
      injection h with h
      subst h
      exact Prod.ext rfl hres

theorem Running.send_taken (h : g.Running) {x : SeqRange} {flags : Flags} (hf : flags.IsFresh)
    (hok : (g.onPacketSent x flags now).2 = .ok actions) : x.start < x.stop ∧
      x.start ≤ g.board.top ∧
      g.processSent x flags now = ((g.onPacketSent x flags now).1, .ok actions) := by
  rcases h.send_ends x hf now with ⟨-, ⟨c, hc⟩, -⟩ | ⟨-, -, ⟨c, hc⟩, -⟩ | ⟨hx, hs, -⟩
  · cases hc.symm.trans hok
  · cases hc.symm.trans hok
  · exact ⟨hx, hs, (guarded_ok hok).2⟩

theorem Running.ack_taken [CongestionLaw κ] (h : g.Running)
    (hok : (g.onAck ack now).2 = .ok actions) : ack.cumulative ≤ g.board.top ∧
      g.processAck ack now = ((g.onAck ack now).1, .ok actions) := by
  rcases h.ack_ends ack now with ⟨-, ⟨c, hc⟩, -⟩ | ⟨hle, -⟩
  · cases hc.symm.trans hok
  · exact ⟨hle, (guarded_ok hok).2⟩

theorem fire_taken [CongestionLaw κ] {timer : Timer} {generation : Nat} {hasData : Bool}
    (hok : (g.onTimeout timer generation hasData now).2 = .ok actions) :
    g.processTimeout timer generation hasData now
      = ((g.onTimeout timer generation hasData now).1, actions) := by
  have htaken := (guarded_ok hok).2
  rw [Prod.mk.injEq, Except.ok.injEq] at htaken
  exact Prod.ext htaken.1 htaken.2

/-! ## What plans go by -/

/-- What plans to send go by. -/
structure Footing (κ : Type) where
  settings : Settings
  board : Scoreboard
  ledger : RecoveryLedger
  law : κ
  stage : Stage
  rtoPoint : Nat
  window : Nat

def footing (g : Engine κ) : Footing κ where
  settings := g.settings
  board := g.board
  ledger := g.ledger
  law := g.law
  stage := g.schedule.stage
  rtoPoint := g.schedule.rtoPoint
  window := g.window

section Footing

variable (h : g'.footing = g.footing)
include h

theorem footing_settings : g'.settings = g.settings := congrArg Footing.settings h
theorem footing_board : g'.board = g.board := congrArg Footing.board h
theorem footing_ledger : g'.ledger = g.ledger := congrArg Footing.ledger h
theorem footing_law : g'.law = g.law := congrArg Footing.law h
theorem footing_stage : g'.schedule.stage = g.schedule.stage := congrArg Footing.stage h
theorem footing_window : g'.window = g.window := congrArg Footing.window h

theorem footing_pipe : g'.pipe = g.pipe := by
  have hpoint : g'.schedule.rtoPoint = g.schedule.rtoPoint := congrArg Footing.rtoPoint h
  simp only [pipe, footing_stage h, footing_ledger h, footing_board h, hpoint]

end Footing

theorem footing_rearm (g : Engine κ) (now : Nat) : (g.rearm now).1.footing = g.footing := by
  unfold rearm
  split <;> rfl

theorem footing_settleTimers (g : Engine κ) (prior : Stage) (o : AckOutcome) (now : Nat) :
    (g.settleTimers prior o now).1.footing = g.footing := by
  unfold settleTimers
  split
  · unfold Schedule.cancel
    split <;> rfl
  · split
    · exact footing_rearm g now
    · rfl

theorem Told.footing (h : Told g g') : g'.footing = g.footing := by
  obtain ⟨told, rfl⟩ := h
  rfl

/-! ## The timers after a call -/

theorem handed_rearm {t : TimerTable} (g : Engine κ) (ht : g.schedule.timers = t) (now : Nat) :
    t.Handed (g.rearm now).1.schedule.timers [(g.rearm now).2] := by
  subst ht
  unfold rearm
  split
  · exact .armed .tlp _ _
  · exact .armed .rto _ _

theorem handed_settleTimers (g : Engine κ) (prior : Stage) (o : AckOutcome) (now : Nat) :
    g.schedule.timers.Handed (g.settleTimers prior o now).1.schedule.timers
      (g.settleTimers prior o now).2 := by
  unfold settleTimers
  split
  · unfold Schedule.cancel
    cases hn : g.schedule.timers.nextTimeout with
    | none => exact .same
    | some expiry => exact .cancelled (by simp [hn])
  · split
    · exact handed_rearm g rfl now
    · exact .same

theorem handed_accountSent (g : Engine κ) (sent now : Nat) :
    g.schedule.timers.Handed (g.accountSent sent now).1.schedule.timers
      (g.accountSent sent now).2 := by
  unfold accountSent
  split
  · exact .same
  · dsimp only
    split
    · apply handed_rearm
      rfl
    · exact .same

/-! ## A send -/

/-- A report of a send asks for nothing to be sent. It leaves the stage as it was. -/
theorem Sound.processSent_answer (h : g.Sound) {x : SeqRange} {flags : Flags}
    (hx : x.start < x.stop) (hs : x.start ≤ g.board.top) (hf : flags.IsFresh) (now : Nat) :
    ∃ timing, (g.processSent x flags now).2 = .ok timing ∧
      (g.processSent x flags now).1.schedule.stage = g.schedule.stage ∧
      g.schedule.timers.Handed (g.processSent x flags now).1.schedule.timers timing := by
  obtain ⟨mid, again, probeEnd, heq, hcontrol, -⟩ := h.processSent_parts hx hs hf now
  have hschedule : mid.schedule = (g.control.extend _ probeEnd).schedule :=
    congrArg Control.schedule hcontrol
  have hstage : (mid.accountSent (again + (max g.board.top x.stop - g.board.top)) now).1.schedule.stage
      = mid.schedule.stage := by
    unfold accountSent
    split
    · rfl
    · dsimp only
      split
      · exact congrArg Footing.stage (footing_rearm _ now)
      · rfl
  have hhanded := handed_accountSent mid (again + (max g.board.top x.stop - g.board.top)) now
  rw [heq]
  refine ⟨_, rfl, ?_, ?_⟩
  · rw [hstage, hschedule]
    rfl
  · rwa [show mid.schedule.timers = g.schedule.timers by rw [hschedule]; rfl] at hhanded

variable [CongestionLaw κ]

/-! ## An ack -/

theorem footing_checkProbeRtt (g : Engine κ) (now : Nat) :
    (g.checkProbeRtt now).footing = g.footing := by
  unfold checkProbeRtt
  split
  · rfl
  · dsimp only
    split <;> rfl

theorem footing_measureGoodput (g : Engine κ) (o : AckOutcome) (now : Nat) :
    (g.measureGoodput o now).footing = g.footing := by
  unfold measureGoodput
  split
  · rfl
  · dsimp only
    split
    · rfl
    · split <;> rfl

theorem footing_planSends (g : Engine κ) (lost : List SendRecord) :
    (g.planSends lost).1.footing = g.footing := by
  unfold planSends
  split
  · rfl
  · unfold planGoBackN
    split <;> rfl
  · rfl

theorem footing_measured (g : Engine κ) (o : AckOutcome) (lost : List SendRecord) (now : Nat) :
    (g.measured o lost now).footing = g.footing :=
  calc (g.measured o lost now).footing
    _ = ((g.planSends lost).1.checkProbeRtt now).footing := footing_measureGoodput _ o now
    _ = (g.planSends lost).1.footing := footing_checkProbeRtt _ now
    _ = g.footing := footing_planSends g lost

/-- Sends are planned for after an ack only while losses are repaired. -/
theorem planSends_repairs (g : Engine κ) {lost : List SendRecord}
    (h : (g.planSends lost).2 ≠ []) :
    g.schedule.stage = .recovering ∨ g.schedule.stage = .rtoPending := by
  unfold planSends at h
  split at h
  · next hr => exact .inl hr
  · next hr => exact .inr hr
  · exact absurd rfl h

/-- What a pass over an ack found out. -/
def outcomeOf (g : Engine κ) (ack : Ack) (now : Nat) : AckOutcome :=
  (g.passState.run (g.ackInput ack now)).outcome

/-- The engine after the conclusions from an ack, and the records presumed lost. -/
def concluded (g : Engine κ) (ack : Ack) (now : Nat) : Engine κ × List SendRecord :=
  (g.acked ack now).conclude ack (g.outcomeOf ack now) now

theorem Sound.processAck_responds (h : g.Sound) (hle : ack.cumulative ≤ g.board.top) (now : Nat) :
    g.processAck ack now =
      let done := (g.concluded ack now).1.respond g.schedule.stage ack (g.outcomeOf ack now)
        (g.concluded ack now).2 now
      (done.1, .ok done.2) := by
  have hp : g.passOf ack now = .ok (g.passState.run (g.ackInput ack now)) :=
    AckPass.process_eq_ok hle
  have hsound := (h.processAck hle now).1.sound (h.acked hle now)
  rw [processAck_eq hle now] at hsound
  unfold Engine.processAck
  rw [hp]
  exact Prod.ext rfl (hsound.audited _)

/-- The answer to an ack is what the plan asks for, and what settling the timers asks for. The plan
fits the engine that the ack leaves behind. -/
theorem Sound.processAck_answer (h : g.Sound) (hle : ack.cumulative ≤ g.board.top) (now : Nat) :
    ∃ timing, (g.processAck ack now).2
        = .ok (((g.concluded ack now).1.planSends (g.concluded ack now).2).2 ++ timing) ∧
      (g.processAck ack now).1.footing = (g.concluded ack now).1.footing ∧
      g.schedule.timers.Handed (g.processAck ack now).1.schedule.timers timing := by
  obtain ⟨hcontrol, -⟩ := h.control_acked hle now
  obtain ⟨hconcluded, -, -⟩ := (h.acked hle now).turned_conclude ack (g.outcomeOf ack now) now
  have htold := told_respond (g.concluded ack now).1 g.schedule.stage ack (g.outcomeOf ack now)
    (g.concluded ack now).2 now
  have hmeasured := turned_measured (g.concluded ack now).1 (g.outcomeOf ack now)
    (g.concluded ack now).2 now
  have hfooting := footing_measured (g.concluded ack now).1 (g.outcomeOf ack now)
    (g.concluded ack now).2 now
  -- Neither the pass nor the turns that follow touch the timers.
  have htimers := (hconcluded.trans hmeasured).turns.frame.timers
  rw [control_noteOutcome, hcontrol] at htimers
  rw [h.processAck_responds hle now]
  generalize hm : (g.concluded ack now).1.measured (g.outcomeOf ack now) (g.concluded ack now).2 now
    = measured at *
  have hsettled := handed_settleTimers measured g.schedule.stage (g.outcomeOf ack now) now
  refine ⟨(measured.settleTimers g.schedule.stage (g.outcomeOf ack now) now).2, ?_, ?_, ?_⟩
  · rw [← hm]
    rfl
  · exact htold.footing.trans ((footing_settleTimers _ _ _ now).trans hfooting)
  · have hsame := congrArg (fun c : Control => c.schedule.timers) htold.noted.control
    have hbefore : measured.schedule.timers = g.schedule.timers := htimers
    rw [hbefore] at hsettled
    exact hsame ▸ hsettled

/-! ## A firing timer -/

theorem sendsOnly_planSends (g : Engine κ) (lost : List SendRecord) :
    (g.planSends lost).2.SendsOnly := by
  unfold planSends
  split
  · exact Actions.sendsOnly_planResends _ _ _
  · unfold planGoBackN
    split
    · exact Actions.sendsOnly_nil
    · exact Actions.sendsOnly_planResends _ _ _
  · exact Actions.sendsOnly_nil

omit [CongestionLaw κ] in
/-- The answer to a probe timer is the probe, if there is one, and a timer to arm. -/
theorem fireProbe_answer (hlt : g.board.una < g.board.top) (hasData : Bool) (now : Nat) :
    ∃ sends timing, (g.fireProbe hasData now).2 = sends ++ timing ∧ sends.SendsOnly ∧
      (sends ≠ [] → (g.fireProbe hasData now).1.schedule.stage ≠ .steady) ∧
      (∃ duration generation, timing = [.arm .rto duration generation]) ∧
      g.schedule.timers.Handed (g.fireProbe hasData now).1.schedule.timers timing := by
  unfold fireProbe
  rw [if_neg (outstanding_ne_zero hlt)]
  dsimp only
  cases g.probeFor hasData with
  | none =>
    exact ⟨[], _, rfl, Actions.sendsOnly_nil, fun h => absurd rfl h, ⟨_, _, rfl⟩, .armed .rto _ _⟩
  | some probe =>
    refine ⟨_, _, rfl, ?_, ?_, ⟨_, _, rfl⟩, .armed .rto _ _⟩
    · simp [startProbe, Actions.SendsOnly, Action.isTimer]
    · intro _ h
      cases h

/-- The answer to the retransmission timer is what to send again, and a timer to arm. -/
theorem fireTimeout_answer (hlt : g.board.una < g.board.top) (now : Nat) :
    ∃ sends timing, (g.fireTimeout now).2 = sends ++ timing ∧ sends.SendsOnly ∧
      (sends ≠ [] → (g.fireTimeout now).1.schedule.stage ≠ .steady) ∧
      (∃ duration generation, timing = [.arm .rto duration generation]) ∧
      g.schedule.timers.Handed (g.fireTimeout now).1.schedule.timers timing := by
  have hstage : (g.collapsed now).resendLowest.1.schedule.stage = .rtoPending ∧
      (g.collapsed now).resendLowest.1.schedule.timers = g.schedule.timers := by
    unfold resendLowest
    split <;> exact ⟨rfl, rfl⟩
  rw [fireTimeout_eq hlt]
  refine ⟨_, _, rfl, ?_, ?_, ⟨_, _, rfl⟩, ?_⟩
  · unfold resendLowest
    split
    · exact Actions.sendsOnly_nil
    · exact Actions.sendsOnly_planResends _ _ _
  · intro _ h
    cases hstage.1.symm.trans h
  · rw [← hstage.2]
    exact .armed .rto _ _

/-- The answer to a timer that fires while data is outstanding. -/
theorem processTimeout_answer (g : Engine κ) {timer : Timer} {generation : Nat}
    (hc : g.schedule.timers.isCurrent timer generation = true) (hlt : g.board.una < g.board.top)
    (hasData : Bool) (now : Nat) :
    ∃ sends timing, (g.processTimeout timer generation hasData now).2 = sends ++ timing ∧
      sends.SendsOnly ∧
      (sends ≠ [] → (g.processTimeout timer generation hasData now).1.schedule.stage ≠ .steady) ∧
      (∃ duration generation, timing = [.arm .rto duration generation]) ∧
      (g.schedule.timers.stop timer).Handed
        (g.processTimeout timer generation hasData now).1.schedule.timers timing := by
  rw [processTimeout_eq g hc hasData now]
  cases timer with
  | tlp => exact fireProbe_answer (g := g.takeOff .tlp) hlt hasData now
  | rto => exact fireTimeout_answer (g := g.takeOff .rto) hlt now

end Engine

end LossRecovery
