import LossRecovery.Proofs.Conclusions
import LossRecovery.Proofs.Runs

/-!
# `LossRecovery.Proofs.Gauges` — what an engine has measured

Round trip times, goodput, the most recent delivery and the probing of the least RTT are measured on acks.
Sends read these gauges and leave them alone, and a firing timer ends a probe at most. Of the steps of an
ack, each touches one gauge.

## Contents
- `Engine.Gauges`, `Engine.gauges`: the gauges, with the settings they go by.
- `gauges_processSent`, `gauges_sendRange`, `gauges_processTimeout`: sends and timers.
- `gauges_conclude`: the conclusions from an ack take a sample and judge the reordering;
  `gauges_measured`, `gauges_respond`: what is done after them.
-/

namespace LossRecovery

/-- The most recent delivery, after an ack was looked through for reordering. -/
def RecentAck.watched (a : RecentAck) (s : Settings) (o : AckOutcome) (now : Nat) : RecentAck :=
  (if o.reordering then a.noteReordering now else a).fade s.reorderFade now

namespace Engine

variable {κ : Type} {g : Engine κ}

/-- What is measured, with the settings it goes by. -/
structure Gauges where
  settings : Settings
  rtt : RttEstimator
  goodput : GoodputEstimator
  recent : RecentAck
  probe : ProbeRtt

def gauges (g : Engine κ) : Gauges where
  settings := g.settings
  rtt := g.rtt
  goodput := g.goodput
  recent := g.recent
  probe := g.probe

/-! ## Sends -/

theorem gauges_resendRange (g : Engine κ) (x : SeqRange) (flags : Flags) (now : Nat) :
    (g.resendRange x flags now).1.gauges = g.gauges := by
  have hresent : ∀ y, (g.resentEngine y flags now).gauges = g.gauges := by
    intro y
    unfold resentEngine
    refine (foldl_keep gauges (g := countResent y (g.board.resendFits y) _) _ _
      fun _ _ => rfl).trans ?_
    split <;> rfl
  by_cases hx : max x.start g.board.una < x.stop
  · rw [resendRange_eq g x flags now hx]
    dsimp only
    split <;> exact hresent _
  · rw [resendRange_of_le g x flags now (Nat.le_of_not_lt hx)]
    rfl

theorem gauges_resendBelow (g : Engine κ) (x : SeqRange) (flags : Flags) (now : Nat) :
    (g.resendBelow x flags now).1.gauges = g.gauges := by
  unfold resendBelow
  split
  · exact gauges_resendRange g _ flags now
  · rfl

theorem gauges_appendNew (g : Engine κ) (x : SeqRange) (flags : Flags) (now : Nat) :
    (g.appendNew x flags now).1.gauges = g.gauges := by
  unfold appendNew
  dsimp only
  cases g.board.append x flags now (if flags.appLimited then x.stop else 0) with
  | error e => rfl
  | ok board =>
    dsimp only
    split <;> rfl

theorem gauges_rearm (g : Engine κ) (now : Nat) : (g.rearm now).1.gauges = g.gauges := by
  unfold rearm
  split <;> rfl

theorem gauges_accountSent (g : Engine κ) (sent now : Nat) :
    (g.accountSent sent now).1.gauges = g.gauges := by
  unfold accountSent
  split
  · rfl
  · dsimp only
    split
    · exact gauges_rearm _ now
    · rfl

/-- Sends measure nothing. -/
theorem gauges_processSent (g : Engine κ) (x : SeqRange) (flags : Flags) (now : Nat) :
    (g.processSent x flags now).1.gauges = g.gauges := by
  refine keep_processSent (P := fun h => h.gauges = g.gauges) ?_ ?_ ?_ rfl
  · intro h range hsame
    exact (gauges_resendRange h range flags now).trans hsame
  · intro h range hsame
    exact (gauges_appendNew h range flags now).trans hsame
  · intro h sent hsame
    exact (gauges_accountSent h sent now).trans hsame

theorem gauges_sendRange {σ : Type} (host : Host σ) (g : Engine κ) (w : σ) (range : SeqRange)
    (kind : SendKind) (now : Nat) : (g.sendRange host w range kind now).1.gauges = g.gauges := by
  have hcarried := carried_sendRange host g w range kind now
  generalize g.sendRange host w range kind now = done at hcarried ⊢
  cases hcarried with
  | dropped => rfl
  | failed m => rfl
  | nothing => rfl
  | refused n pos report =>
    exact (congrArg (fun d => d.1.gauges) report).symm.trans (gauges_processSent _ _ _ _)
  | taken n pos report =>
    exact (congrArg (fun d => d.1.gauges) report).symm.trans (gauges_processSent _ _ _ _)

/-! ## Acks -/

variable (ack : Ack) (o : AckOutcome) (now : Nat)

theorem gauges_noteOutcome (g : Engine κ) : (g.noteOutcome o).gauges = g.gauges := by
  unfold noteOutcome
  exact foldl_keep gauges (g := fun (g : Engine κ) (c : Counter × Nat) => g.count c.1 c.2) _ _
    fun _ _ => rfl

theorem gauges_takeSample (g : Engine κ) (sample : Option Nat) : (g.takeSample sample now).gauges
    = { g.gauges with rtt := g.rtt.taken sample now } := by
  unfold takeSample RttEstimator.taken
  cases sample with
  | none => rfl
  | some rtt =>
    dsimp only
    cases g.rtt.update rtt now with
    | ok estimator =>
      dsimp only
      split <;> rfl
    | error e =>
      dsimp only
      cases e.counter? <;> rfl

theorem gauges_noteReordering (g : Engine κ) : (g.noteReordering o now).gauges
    = { g.gauges with recent := g.recent.watched g.settings o now } := by
  unfold noteReordering RecentAck.watched
  cases o.reordering <;> rfl

theorem gauges_settleProbe (g : Engine κ) : (g.settleProbe o).gauges = g.gauges := by
  unfold settleProbe
  split <;> rfl

theorem gauges_settleTimers (g : Engine κ) (prior : Stage) :
    (g.settleTimers prior o now).1.gauges = g.gauges := by
  unfold settleTimers
  split
  · rfl
  · split
    · exact gauges_rearm g now
    · rfl

variable [CongestionLaw κ]

theorem gauges_afterTimeout (g : Engine κ) : (g.afterTimeout ack o now).gauges = g.gauges := by
  have hend : ∀ g : Engine κ, g.checkTimeoutEnd.gauges = g.gauges := by
    intro g
    unfold checkTimeoutEnd
    split <;> rfl
  unfold afterTimeout
  split
  · split
    · unfold undoTimeout
      cases g.schedule.undo <;> rfl
    · exact hend _
  · exact hend g

theorem gauges_checkRecoveryEnd (g : Engine κ) : (g.checkRecoveryEnd now).gauges = g.gauges := by
  unfold checkRecoveryEnd
  split <;> rfl

theorem gauges_respondToLosses (g : Engine κ) (lost : List SendRecord) :
    (g.respondToLosses lost now).gauges = g.gauges := by
  unfold respondToLosses
  split <;> rfl

theorem gauges_creditDelivery (g : Engine κ) : (g.creditDelivery o now).gauges = g.gauges := by
  unfold creditDelivery
  dsimp only
  split <;> rfl

/-- Before losses are looked for, a sample is taken and reordering is watched. -/
theorem gauges_judged (g : Engine κ) : (g.judged ack o now).gauges
    = { g.gauges with
        rtt := g.rtt.taken o.rttSample now
        recent := g.recent.watched g.settings o now } := by
  have hrtt : (g.noteOutcome o).rtt = g.rtt := congrArg Gauges.rtt (gauges_noteOutcome o g)
  have hsampled : ((g.noteOutcome o).takeSample o.rttSample now).gauges
      = { g.gauges with rtt := g.rtt.taken o.rttSample now } := by
    rw [gauges_takeSample, gauges_noteOutcome, hrtt]
  unfold judged
  dsimp only
  rw [gauges_checkRecoveryEnd, gauges_settleProbe]
  generalize (g.noteOutcome o).takeSample o.rttSample now = sampled at hsampled ⊢
  have hrecent : sampled.recent = g.recent := congrArg Gauges.recent hsampled
  have hsettings : sampled.settings = g.settings := congrArg Gauges.settings hsampled
  have hwatched := gauges_noteReordering o now sampled
  rw [hsampled, hrecent, hsettings] at hwatched
  split
  · rw [gauges_afterTimeout, hwatched]
  · exact hwatched

/-- The conclusions from an ack measure nothing else. -/
theorem gauges_conclude (g : Engine κ) :
    (g.conclude ack o now).1.gauges = (g.judged ack o now).gauges := by
  rw [conclude_judged, gauges_creditDelivery, gauges_respondToLosses]

theorem gauges_planSends (g : Engine κ) (lost : List SendRecord) :
    (g.planSends lost).1.gauges = g.gauges := by
  unfold planSends
  split
  · rfl
  · unfold planGoBackN
    split <;> rfl
  · rfl

/-- A probe of the least RTT that ends renews it. -/
theorem gauges_checkProbeRtt (g : Engine κ) : (g.checkProbeRtt now).gauges = { g.gauges with
    rtt := (g.checkProbeRtt now).rtt
    probe := (g.checkProbeRtt now).probe } := by
  unfold checkProbeRtt
  split
  · rfl
  · dsimp only
    split <;> rfl

theorem gauges_measureGoodput (g : Engine κ) : (g.measureGoodput o now).gauges = { g.gauges with
    goodput := (g.measureGoodput o now).goodput } := by
  unfold measureGoodput
  split
  · rfl
  · dsimp only
    split
    · rfl
    · split <;> rfl

/-- Acting on an ack, the probe is looked after and goodput is measured. -/
theorem gauges_measured (g : Engine κ) (lost : List SendRecord) : (g.measured o lost now).gauges
    = (((g.planSends lost).1.checkProbeRtt now).measureGoodput o now).gauges := rfl

theorem gauges_respond (g : Engine κ) (prior : Stage) (lost : List SendRecord) :
    (g.respond prior ack o lost now).1.gauges = (g.measured o lost now).gauges := by
  obtain ⟨told, htold⟩ := told_respond g prior ack o lost now
  rw [htold]
  exact gauges_settleTimers o now (g.measured o lost now) prior

/-! ## Timers -/

/-- A firing timer ends a probe at most. -/
theorem gauges_processTimeout (g : Engine κ) (timer : Timer) (generation : Nat) (hasData : Bool) :
    (g.processTimeout timer generation hasData now).1.gauges = g.gauges ∨
    (g.processTimeout timer generation hasData now).1.gauges
      = { g.gauges with probe := g.probe.cancel } := by
  unfold processTimeout
  split
  · cases timer with
    | tlp =>
      refine .inl ?_
      dsimp only
      unfold fireProbe
      split
      · rfl
      · dsimp only
        split <;> rfl
    | rto =>
      dsimp only
      unfold fireTimeout
      split
      · exact .inl rfl
      · refine .inr ?_
        dsimp only
        unfold resendLowest
        split <;> rfl
  · exact .inl rfl

end Engine

end LossRecovery
