import LossRecovery.Proofs.Runs

/-!
# `LossRecovery.Proofs.Steering` — how the congestion law is steered

The engine tells the congestion law about turning points, credits it with delivered bytes, and gives
back what a spurious timeout took. Which of these may come next is decided by the stage alone, in
every run, whatever calls were made.

## Contents
- `Steering`, `Engine.steering`: the stage, the law, and what an undo would give back;
  `Engine.Standing`: the same with how often a timeout was undone and an episode was begun.
- `Steering.Turn`, `Steering.Turns`: one turn, and any number of them.
- `Control.ProbeTimed`: the probe timer is armed in the steady stage only.
- `steered_processAck`, `steered_processTimeout`: the turns of an ack and of a firing timer.
- `Run.steered`, `Run.probeTimed`: a run takes turns, and keeps to this.
-/

namespace LossRecovery

/-! ## Turns -/

/-- What decides how the congestion law goes on, and the law itself. -/
structure Steering (κ : Type) where
  stage : Stage
  law : κ
  /-- Window and threshold before the first timeout of a series. -/
  undo : Option (Nat × Nat)

namespace Steering

variable {κ : Type} [CongestionLaw κ]

/-- One turn of the steering. Each signal has stages of its own from which it is given. -/
inductive Turn (d : Steering κ) : Steering κ → Prop
  | credit (h : d.stage = .steady) (bytes now : Nat) :
      Turn d { d with law := CongestionLaw.onAck d.law bytes now }
  | enterRecovery (h : d.stage = .steady ∨ d.stage = .tlpPending) (pipe now : Nat) :
      Turn d { d with
        stage := .recovering
        law := CongestionLaw.onSignal d.law .fastRecovery pipe now }
  | leaveRecovery (h : d.stage = .recovering) (pipe now : Nat) :
      Turn d { d with
        stage := .steady
        law := CongestionLaw.onSignal d.law .recoveryExit pipe now }
  | collapse (pipe now : Nat) :
      Turn d {
        stage := .rtoPending
        law := CongestionLaw.onSignal d.law .retransmissionTimeout pipe now
        undo := if d.stage = .rtoPending then d.undo
          else some (CongestionLaw.window d.law, CongestionLaw.threshold d.law) }
  | giveBack (h : d.stage = .rtoPending) {window threshold : Nat}
      (hu : d.undo = some (window, threshold)) :
      Turn d {
        stage := .steady
        law := CongestionLaw.setWindow (CongestionLaw.setThreshold d.law threshold) window
        undo := none }
  | forgetUndo (h : d.stage = .rtoPending) : Turn d { d with undo := none }
  | leaveTimeout (h : d.stage = .rtoPending) : Turn d { d with stage := .steady, undo := none }
  | probe (h : d.stage = .steady) : Turn d { d with stage := .tlpPending }
  | settleProbe (h : d.stage = .tlpPending) : Turn d { d with stage := .steady }

/-- Any number of turns. -/
def Turns : Steering κ → Steering κ → Prop := Relation.ReflTransGen Turn

/-- What every turn keeps, any number of turns keeps. -/
theorem Turns.keep {P : Steering κ → Prop} {d d' : Steering κ}
    (hP : ∀ {d d'}, Turn d d' → P d → P d') (h : Turns d d') (hd : P d) : P d' := by
  induction h with
  | refl => exact hd
  | tail _ turn ih => exact hP turn ih

end Steering

/-! ## The probe timer -/

namespace Control

variable {c c' : Control} {prior : Stage}

/-- The probe timer is armed in the steady stage only. -/
def ProbeTimed (c : Control) : Prop :=
  (c.schedule.timers.armed? .tlp).isSome = true → c.schedule.stage = .steady

theorem Rearmed.probeTimed (h : Rearmed c c') : c'.ProbeTimed := by
  obtain ⟨timer, expiry, rfl, hsteady⟩ := h
  intro harmed
  exact hsteady ((TimerTable.only_set c.schedule.timers timer expiry).eq harmed).symm

theorem Settled.probeTimed (h : Settled prior c c')
    (hsame : c.schedule.stage = prior → c.ProbeTimed) : c'.ProbeTimed := by
  rcases h with ⟨-, timers, hoff, rfl⟩ | ⟨-, hrearmed | ⟨rfl, hprior, -⟩⟩
  · intro harmed
    simp [hoff] at harmed
  · exact hrearmed.probeTimed
  · exact hsame hprior

end Control

namespace Engine

variable {κ : Type} {g g' g₀ : Engine κ} {now : Nat}

def steering (g : Engine κ) : Steering κ := ⟨g.schedule.stage, g.law, g.schedule.undo⟩

/-- The steering, together with how often a timeout was undone and an episode was begun. -/
structure Standing (κ : Type) where
  steering : Steering κ
  undos : Nat
  episodes : Nat

def standing (g : Engine κ) : Standing κ where
  steering := g.steering
  undos := g.stats.spuriousRto
  episodes := g.stats.recoveryEpisodes

/-! ## Sends -/

theorem standing_accountSent (g : Engine κ) (sent now : Nat) :
    (g.accountSent sent now).1.standing = g.standing := by
  unfold accountSent
  split
  · rfl
  · dsimp only
    split
    · unfold rearm
      split <;> rfl
    · rfl

theorem probeTimed_accountSent (h : g.control.ProbeTimed) (sent now : Nat) :
    (g.accountSent sent now).1.control.ProbeTimed := by
  rcases control_accountSent g sent now with ⟨hsame, -⟩ | ⟨-, hrearmed⟩
  · rwa [hsame]
  · exact hrearmed.probeTimed

/-- New data may move the end of a probe, which is no part of the steering. -/
theorem standing_appendNew (g : Engine κ) (x : SeqRange) (flags : Flags) (now : Nat) :
    (g.appendNew x flags now).1.standing = g.standing := by
  unfold appendNew
  dsimp only
  cases g.board.append x flags now (if flags.appLimited then x.stop else 0) with
  | error e => rfl
  | ok board =>
    dsimp only
    split <;> rfl

theorem control_resendRange (g : Engine κ) (x : SeqRange) (flags : Flags) (now : Nat) :
    (g.resendRange x flags now).1.control = g.control := by
  by_cases hx : max x.start g.board.una < x.stop
  · have hresent := (resentEngine_control g ⟨max x.start g.board.una, x.stop⟩ flags now).1
    rw [resendRange_eq g x flags now hx]
    dsimp only
    split <;> exact hresent
  · rw [resendRange_of_le g x flags now (Nat.le_of_not_lt hx)]
    rfl

theorem standing_resentEngine (g : Engine κ) (x : SeqRange) (flags : Flags) (now : Nat) :
    (g.resentEngine x flags now).standing = g.standing := by
  unfold resentEngine
  refine (foldl_keep standing (g := countResent x (g.board.resendFits x) _) _ _
    fun _ _ => rfl).trans ?_
  split <;> rfl

theorem standing_resendRange (g : Engine κ) (x : SeqRange) (flags : Flags) (now : Nat) :
    (g.resendRange x flags now).1.standing = g.standing := by
  by_cases hx : max x.start g.board.una < x.stop
  · have hresent := standing_resentEngine g ⟨max x.start g.board.una, x.stop⟩ flags now
    rw [resendRange_eq g x flags now hx]
    dsimp only
    split <;> exact hresent
  · rw [resendRange_of_le g x flags now (Nat.le_of_not_lt hx)]
    rfl

/-- Sends leave the steering alone, whether they are taken in or not. -/
theorem standing_processSent (g : Engine κ) (x : SeqRange) (flags : Flags) (now : Nat) :
    (g.processSent x flags now).1.standing = g.standing := by
  refine keep_processSent (P := fun h => h.standing = g.standing) ?_ ?_ ?_ rfl
  · intro h range hsame
    exact (standing_resendRange h range flags now).trans hsame
  · intro h range hsame
    exact (standing_appendNew h range flags now).trans hsame
  · intro h sent hsame
    exact (standing_accountSent h sent now).trans hsame

theorem probeTimed_processSent (h : g.control.ProbeTimed) (x : SeqRange) (flags : Flags) (now : Nat) :
    (g.processSent x flags now).1.control.ProbeTimed := by
  refine keep_processSent (P := fun g => g.control.ProbeTimed) ?_ ?_ ?_ h
  · intro g range h
    rw [control_resendRange]
    exact h
  · intro g range h harmed
    rw [show (g.appendNew range flags now).1.control.schedule.timers = _ from
      timers_appendNew g range flags now] at harmed
    have hstage := congrArg (·.steering.stage) (standing_appendNew g range flags now)
    exact hstage.trans (h harmed)
  · intro g sent h
    exact probeTimed_accountSent h sent now

/-! ## Taking notes -/

theorem standing_noteOutcome (g : Engine κ) (o : AckOutcome) :
    (g.noteOutcome o).standing = g.standing := by
  unfold noteOutcome
  exact foldl_keep standing (g := fun (g : Engine κ) (c : Counter × Nat) => g.count c.1 c.2) _ _
    fun _ _ => rfl

theorem standing_takeSample (g : Engine κ) (sample : Option Nat) (now : Nat) :
    (g.takeSample sample now).standing = g.standing := by
  unfold takeSample
  cases sample with
  | none => rfl
  | some rtt =>
    dsimp only
    cases g.rtt.update rtt now with
    | ok estimator =>
      dsimp only
      split <;> rfl
    | error e =>
      dsimp only
      cases e.counter? <;> rfl

theorem standing_noteReordering (g : Engine κ) (o : AckOutcome) (now : Nat) :
    (g.noteReordering o now).standing = g.standing := by
  unfold noteReordering
  cases o.reordering <;> rfl

theorem standing_settleTimers (g : Engine κ) (prior : Stage) (o : AckOutcome) (now : Nat) :
    (g.settleTimers prior o now).1.standing = g.standing := by
  unfold settleTimers
  split
  · unfold Schedule.cancel
    split <;> rfl
  · split
    · unfold rearm
      split <;> rfl
    · rfl

theorem standing_fail (g : Engine κ) (e : Error) : (g.fail e).standing = g.standing := by
  unfold fail
  cases e <;> rfl

theorem probeTimed_fail (h : g.control.ProbeTimed) {e : Error} : (g.fail e).control.ProbeTimed := by
  cases hf : e.isFatal with
  | false => rwa [(noted_fail g hf).control]
  | true =>
    intro harmed
    have hstopped : (g.fail e).schedule.timers = g.schedule.timers.stopAll := by
      unfold fail
      cases e <;> first | rfl | cases hf
    rw [show (g.fail e).control.schedule.timers = _ from hstopped] at harmed
    simp at harmed

variable [CongestionLaw κ]

/-! ## Acks -/

/-- From `g` to `g'`, the steering took turns. -/
def Steered (g g' : Engine κ) : Prop := g.steering.Turns g'.steering

namespace Steered

theorem of_eq (h : g'.steering = g.steering) : Steered g g' := by
  unfold Steered
  rw [h]
  exact .refl

theorem of_standing (h : g'.standing = g.standing) : Steered g g' :=
  of_eq (congrArg Standing.steering h)

theorem one (h : g.steering.Turn g'.steering) : Steered g g' := .single h

theorem trans {g'' : Engine κ} (h : Steered g g') (h' : Steered g' g'') : Steered g g'' :=
  Relation.ReflTransGen.trans h h'

end Steered

theorem steered_undoTimeout (h : g.schedule.stage = .rtoPending) : Steered g g.undoTimeout := by
  unfold undoTimeout
  cases hu : g.schedule.undo with
  | none => exact .one (.leaveTimeout h)
  | some saved => exact .one (.giveBack h hu)

theorem steered_checkTimeoutEnd (h : g.schedule.stage = .rtoPending) :
    Steered g g.checkTimeoutEnd := by
  unfold checkTimeoutEnd
  split
  · exact .one (.leaveTimeout h)
  · exact .of_eq rfl

theorem steered_afterTimeout (h : g.schedule.stage = .rtoPending) (ack : Ack) (o : AckOutcome)
    (now : Nat) : Steered g (g.afterTimeout ack o now) := by
  unfold afterTimeout
  split
  · split
    · exact steered_undoTimeout h
    · have hforget : Steered g { g with schedule := { g.schedule with undo := none } } :=
        .one (.forgetUndo h)
      apply hforget.trans
      apply steered_checkTimeoutEnd
      exact h
  · exact steered_checkTimeoutEnd h

theorem steered_settleProbe (g : Engine κ) (o : AckOutcome) : Steered g (g.settleProbe o) := by
  unfold settleProbe
  split
  · next h => exact .one (.settleProbe h.1)
  · exact .of_eq rfl

theorem steered_checkRecoveryEnd (g : Engine κ) (now : Nat) :
    Steered g (g.checkRecoveryEnd now) := by
  unfold checkRecoveryEnd
  split
  · next h => exact .one (.leaveRecovery h.1 g.pipe now)
  · exact .of_eq rfl

theorem steered_judged (g : Engine κ) (ack : Ack) (o : AckOutcome) (now : Nat) :
    Steered g (g.judged ack o now) := by
  have hnoted : Steered g (((g.noteOutcome o).takeSample o.rttSample now).noteReordering o now) := by
    apply Steered.of_standing
    rw [standing_noteReordering, standing_takeSample, standing_noteOutcome]
  have hrepaired : ∀ g : Engine κ, Steered g
      (if g.schedule.stage = .rtoPending ∧ o.advanced = true then g.afterTimeout ack o now
        else g) := by
    intro g
    split
    · next h => exact steered_afterTimeout h.1 ack o now
    · exact .of_eq rfl
  exact ((hnoted.trans (hrepaired _)).trans (steered_settleProbe _ o)).trans
    (steered_checkRecoveryEnd _ now)

theorem steered_respondToLosses (g : Engine κ) (lost : List SendRecord) (now : Nat) :
    Steered g (g.respondToLosses lost now) := by
  unfold respondToLosses
  split
  · next h => exact .one (.enterRecovery h.2 g.pipe now)
  · exact .of_eq rfl

theorem steered_creditDelivery (g : Engine κ) (o : AckOutcome) (now : Nat) :
    Steered g (g.creditDelivery o now) := by
  unfold creditDelivery
  dsimp only
  split
  · next h => exact .one (.credit h.2 o.delivered now)
  · exact .of_eq rfl

theorem steered_conclude (g : Engine κ) (ack : Ack) (o : AckOutcome) (now : Nat) :
    Steered g (g.conclude ack o now).1 := by
  rw [conclude_judged]
  exact ((steered_judged g ack o now).trans (steered_respondToLosses _ _ now)).trans
    (steered_creditDelivery _ o now)

theorem standing_planSends (g : Engine κ) (lost : List SendRecord) :
    (g.planSends lost).1.standing = g.standing := by
  unfold planSends
  split
  · rfl
  · unfold planGoBackN
    split <;> rfl
  · rfl

theorem standing_checkProbeRtt (g : Engine κ) (now : Nat) :
    (g.checkProbeRtt now).standing = g.standing := by
  unfold checkProbeRtt
  split
  · rfl
  · dsimp only
    split <;> rfl

theorem standing_measureGoodput (g : Engine κ) (o : AckOutcome) (now : Nat) :
    (g.measureGoodput o now).standing = g.standing := by
  unfold measureGoodput
  split
  · rfl
  · dsimp only
    split
    · rfl
    · split <;> rfl

/-- What is done after the conclusions from an ack leaves the steering alone. -/
theorem standing_respond (g : Engine κ) (prior : Stage) (ack : Ack) (o : AckOutcome)
    (lost : List SendRecord) (now : Nat) :
    (g.respond prior ack o lost now).1.standing = g.standing := by
  obtain ⟨told, htold⟩ := told_respond g prior ack o lost now
  rw [htold]
  calc ((g.measured o lost now).settleTimers prior o now).1.standing
    _ = (g.measured o lost now).standing := standing_settleTimers _ prior o now
    _ = ((g.planSends lost).1.checkProbeRtt now).standing := standing_measureGoodput _ o now
    _ = (g.planSends lost).1.standing := standing_checkProbeRtt _ now
    _ = g.standing := standing_planSends g lost

/-- An ack steers the law in turns, whether it is taken in or not. Where it leaves the timers alone,
the stage is the one that they were armed in. -/
theorem steered_processAck (h : g.control.ProbeTimed) (ack : Ack) (now : Nat) :
    Steered g (g.processAck ack now).1 ∧ (g.processAck ack now).1.control.ProbeTimed := by
  unfold processAck
  cases hp : g.passOf ack now with
  | error e => exact ⟨.of_eq rfl, h⟩
  | ok p =>
    dsimp only
    have hadopted : Steered g (g.adopt p ack) := .of_eq rfl
    have hconcluded := hadopted.trans (steered_conclude (g.adopt p ack) ack p.outcome now)
    have htimers := timers_conclude (g.adopt p ack) ack p.outcome now
    generalize (g.adopt p ack).conclude ack p.outcome now = concluded at hconcluded htimers ⊢
    have hmeasured := (turned_measured concluded.1 p.outcome concluded.2 now).turns.frame.timers
    have htold := (told_respond concluded.1 g.schedule.stage ack p.outcome concluded.2 now).noted
    constructor
    · exact hconcluded.trans (.of_standing (standing_respond _ _ _ _ _ _))
    · rw [htold.control]
      apply (control_settleTimers (concluded.1.measured p.outcome concluded.2 now)
        g.schedule.stage p.outcome now).probeTimed
      intro hprior harmed
      rw [hmeasured.trans htimers] at harmed
      exact hprior.trans (h harmed)

/-! ## Firing timers -/

theorem steered_collapse (g : Engine κ) (now : Nat) : Steered g (g.collapse now) :=
  .one (.collapse g.pipe now)

theorem standing_resendLowest (g : Engine κ) : g.resendLowest.1.standing = g.standing := by
  unfold resendLowest
  split <;> rfl

/-- A firing timer takes one turn at most. The retransmission timer is armed after it. -/
theorem steered_processTimeout (h : g.control.ProbeTimed) (timer : Timer) (generation : Nat)
    (hasData : Bool) (now : Nat) :
    Steered g (g.processTimeout timer generation hasData now).1 ∧
      (g.processTimeout timer generation hasData now).1.control.ProbeTimed := by
  have harmed : ∀ (g : Engine κ) duration, (g.arm .rto duration now).1.control.ProbeTimed := by
    intro g duration
    exact Control.Rearmed.probeTimed (c := g.control) ⟨.rto, _, rfl, fun hr => Timer.noConfusion hr⟩
  cases hc : g.schedule.timers.isCurrent timer generation with
  | false =>
    simp only [processTimeout, hc, Bool.false_eq_true, if_false]
    exact ⟨.of_eq rfl, h⟩
  | true =>
    obtain ⟨a, ha, -⟩ := TimerTable.isCurrent_iff.mp hc
    -- A timer that was taken off leaves the other one as it was.
    have hoff : (g.takeOff timer).control.ProbeTimed := by
      intro hsome
      change ((g.schedule.timers.stop timer).armed? .tlp).isSome = true at hsome
      cases timer with
      | tlp => simp at hsome
      | rto =>
        rw [show Timer.tlp = Timer.rto.other from rfl, TimerTable.armed?_stop_other] at hsome
        exact h hsome
    rw [processTimeout_eq g hc hasData now]
    cases timer with
    | tlp =>
      dsimp only
      unfold fireProbe
      split
      · exact ⟨.of_eq rfl, hoff⟩
      · refine ⟨?_, harmed _ _⟩
        cases (g.takeOff .tlp).probeFor hasData with
        | none => exact .of_eq rfl
        | some probe => exact .one (.probe (h (by simp [control, ha])))
    | rto =>
      dsimp only
      unfold fireTimeout
      split
      · exact ⟨.of_eq rfl, hoff⟩
      · refine ⟨?_, harmed _ _⟩
        have hcollapsed : Steered g ((g.takeOff .rto).collapse now) :=
          steered_collapse (g.takeOff .rto) now
        exact hcollapsed.trans (.of_standing (standing_resendLowest ((g.takeOff .rto).collapsed now)))

/-! ## Runs -/

/-- Whatever is called, the steering takes turns. -/
theorem lasting_steered (g₀ : Engine κ) :
    Lasting fun g => Steered g₀ g ∧ g.control.ProbeTimed where
  aside _ _ _ h := h
  stale _ h := h
  sent x flags now h :=
    ⟨h.1.trans (.of_standing (standing_processSent _ x flags now)),
      probeTimed_processSent h.2 x flags now⟩
  acked ack now h :=
    have hacked := steered_processAck h.2 ack now
    ⟨h.1.trans hacked.1, hacked.2⟩
  fired timer generation hasData now h :=
    have hfired := steered_processTimeout h.2 timer generation hasData now
    ⟨h.1.trans hfired.1, hfired.2⟩
  failed _ h := ⟨h.1.trans (.of_standing (standing_fail _ _)), probeTimed_fail h.2⟩

section FromStart

variable {settings : Settings} {law : κ} {sink : Sink} {first : Nat}
  (started : start settings law sink first now = .ok g₀) (h : Run g₀ g)

include started h

/-- In every run, from a fresh engine, the law is steered in turns. -/
theorem Run.steered_timed : Steered g₀ g ∧ g.control.ProbeTimed := by
  refine (lasting_steered g₀).run h ⟨.of_eq rfl, ?_⟩
  obtain ⟨-, rfl⟩ := start_eq_ok_iff.mp started
  intro harmed
  cases harmed

theorem Run.steered : Steered g₀ g := (h.steered_timed started).1

theorem Run.probeTimed : g.control.ProbeTimed := (h.steered_timed started).2

end FromStart

end Engine

end LossRecovery
