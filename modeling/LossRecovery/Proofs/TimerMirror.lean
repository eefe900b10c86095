import LossRecovery.Proofs.Handover

/-!
# `LossRecovery.Proofs.TimerMirror` — timers followed from outside

A sender need not look into the engine to know which timer is armed. It keeps a mirror: a timer and
its generation, taken from the last timer action of each answer, and wiped when that timer fires. The
sends of this module may carry any flags, so that nothing is known about the scoreboard, and an audit
may stop the engine. Until one does, the mirror shows what is armed.

## Contents
- `Actions.mirror`, `mirrored`: the mirror after an answer, and after any result of a call.
- `TimerTable.Reported`: what the result of a call tells about a change of the timers.
- `FailsFatally`, `failsFatally_audit`: an audit that fails stops the engine.
- `reported_processSent`, `reported_processAck`, `reported_processTimeout`: the calls.
- `Engine.Mirrored`: engines that calls lead to, with the mirror; `Mirrored.matches`: what it shows.
-/

namespace LossRecovery

/-! ## The mirror -/

/-- What a mirror of the timers shows after the actions of an answer. -/
def Actions.mirror (as : Actions) (held : Option (Timer × Nat)) : Option (Timer × Nat) :=
  match as.timer? with
  | some (.arm timer _ generation) => some (timer, generation)
  | some .cancel => none
  | _ => held

/-- What a mirror shows after a call that ended with a result; an error tells it nothing. -/
def mirrored (held : Option (Timer × Nat)) : Except Error Actions → Option (Timer × Nat)
  | .ok as => as.mirror held
  | .error _ => held

namespace Actions

variable {sends : Actions} {held : Option (Timer × Nat)} {a : Action}

theorem timer?_concat (ha : a.isTimer = true) : timer? (sends ++ [a]) = some a := by
  simp [timer?, ha]

theorem mirror_sendsOnly (ho : sends.SendsOnly) : sends.mirror held = held := by
  have hnone : timer? (sends ++ []) = none := (timer?_append ho (by simp)).mpr rfl
  rw [List.append_nil] at hnone
  unfold mirror
  rw [hnone]

end Actions

namespace TimerTable

variable {t t' : TimerTable} {timer : Timer} {generation : Nat} {held : Option (Timer × Nat)}
  {result : Except Error Actions}

/-- What the result of a call tells about a change of the timers from `t` to `t'`: an answer tells it
after its sends, and an error tells that there was none, or that the engine is stopped. -/
inductive Reported (t t' : TimerTable) : Except Error Actions → Prop
  | answered {sends timing : Actions} (ho : sends.SendsOnly) (handed : t.Handed t' timing) :
      Reported t t' (.ok (sends ++ timing))
  | failed {e : Error} (kept : e.isFatal = false → t' = t) : Reported t t' (.error e)

theorem Reported.of_handed {timing : Actions} (handed : t.Handed t' timing) :
    t.Reported t' (.ok timing) := .answered Actions.sendsOnly_nil handed

/-- The mirror follows the timers through a call that does not stop the engine. -/
theorem Reported.followed (h : t.Reported t' result) (hm : t.Matches held)
    (hr : ∀ e, result = .error e → e.isFatal = false) : t'.Matches (mirrored held result) := by
  cases h with
  | answered ho handed =>
    cases handed with
    | same =>
      rw [List.append_nil]
      show t.Matches (Actions.mirror _ held)
      rwa [Actions.mirror_sendsOnly ho]
    | armed timer expiry duration =>
      rw [mirrored, Actions.mirror, Actions.timer?_concat (by rfl)]
      exact matches_rearmed t timer expiry
    | cancelled _ =>
      rw [mirrored, Actions.mirror, Actions.timer?_concat (by rfl)]
      exact matches_none (by simp)
  | failed kept =>
    rw [kept (hr _ rfl)]
    exact hm

/-- A timer that fired was the only one armed, so that none is after it was taken off. -/
theorem Matches.stop (h : t.Matches held) (hc : t.isCurrent timer generation = true) :
    (t.stop timer).Matches none := by
  have hheld := (h timer generation).mp hc
  apply matches_none
  intro other
  by_cases hsame : other = timer
  · rw [hsame]
    exact armed?_stop
  · have hother : other = timer.other := by
      cases other <;> cases timer <;> simp_all [Timer.other]
    rw [hother, armed?_stop_other, Option.eq_none_iff_forall_ne_some]
    intro a ha
    have hboth := (h timer.other a.generation).mp (isCurrent_iff.mpr ⟨a, ha, rfl⟩)
    rw [hheld, Option.some.injEq, Prod.mk.injEq] at hboth
    exact hsame (hother.trans hboth.1.symm)

end TimerTable

/-! ## Audits -/

/-- A result that is an error only because of a violation. -/
def FailsFatally {α : Type} (result : Except Error α) : Prop :=
  ∀ e, result = .error e → e.isFatal = true

namespace FailsFatally

variable {α β : Type} {first second : Except Error α}

theorem ok (a : α) : FailsFatally (.ok a : Except Error α) := by
  intro e h
  cases h

theorem violation (c : Violation) : FailsFatally (.error (.structural c) : Except Error α) := by
  intro e h
  injection h with h
  rw [← h]
  rfl

theorem ite {c : Prop} {_ : Decidable c} (h : FailsFatally first) (h' : FailsFatally second) :
    FailsFatally (if c then first else second) := by
  split
  · exact h
  · exact h'

theorem bind {f : α → Except Error β} (h : FailsFatally first) (hf : ∀ a, FailsFatally (f a)) :
    FailsFatally (first >>= f) := by
  cases first with
  | ok a => exact hf a
  | error e' =>
    intro e he
    injection he with he
    exact h e (congrArg _ he)

end FailsFatally

namespace Scoreboard

theorem failsFatally_tilingEnd (expected : Nat) (rs : List SendRecord) :
    FailsFatally (tilingEnd expected rs) := by
  induction rs generalizing expected with
  | nil => exact .ok _
  | cons r rest ih => exact .ite (.violation _) (ih _)

theorem failsFatally_auditOrder (b : Scoreboard) : FailsFatally b.auditOrder := by
  unfold auditOrder
  split
  · exact .violation _
  · exact .ite (.violation _) (.ok _)

theorem failsFatally_audit (b : Scoreboard) : FailsFatally b.audit := by
  have htiling : FailsFatally b.auditTiling :=
    .bind (failsFatally_tilingEnd _ _) fun _ => .ite (.violation _) (.ok _)
  exact htiling.bind fun _ => b.failsFatally_auditOrder

end Scoreboard

namespace Engine

variable {κ : Type} {g : Engine κ} {t : TimerTable} {held : Option (Timer × Nat)}

/-- What an audit finds is a violation. -/
theorem failsFatally_audit (g : Engine κ) : FailsFatally g.audit :=
  g.board.failsFatally_audit.bind fun _ => .ite (.violation _) (.ite (.violation _) (.ok _))

theorem reported_audited {sends timing : Actions} (ho : sends.SendsOnly)
    (handed : t.Handed g.schedule.timers timing) :
    t.Reported g.schedule.timers (g.audited (sends ++ timing)) := by
  unfold audited
  cases ha : g.audit with
  | ok u => exact .answered ho handed
  | error e =>
    refine .failed fun hf => ?_
    rw [g.failsFatally_audit e ha] at hf
    cases hf

/-! ## The calls -/

theorem timers_appendNew (g : Engine κ) (x : SeqRange) (flags : Flags) (now : Nat) :
    (g.appendNew x flags now).1.schedule.timers = g.schedule.timers := by
  unfold appendNew
  dsimp only
  cases g.board.append x flags now (if flags.appLimited then x.stop else 0) with
  | error e => rfl
  | ok board =>
    dsimp only
    split <;> rfl

/-- A report of a send tells about the timers, whatever its flags are. -/
theorem reported_processSent (g : Engine κ) (range : SeqRange) (flags : Flags) (now : Nat) :
    g.schedule.timers.Reported (g.processSent range flags now).1.schedule.timers
      (g.processSent range flags now).2 := by
  have hbelow : (g.resendBelow range flags now).1.schedule.timers = g.schedule.timers :=
    congrArg (fun c : Control => c.schedule.timers) (resendBelow_control g range flags now).1
  have haudited : ∀ mid : Engine κ, mid.schedule.timers = g.schedule.timers → ∀ sent,
      g.schedule.timers.Reported (mid.accountSent sent now).1.schedule.timers
        ((mid.accountSent sent now).1.audited (mid.accountSent sent now).2) := by
    intro mid hmid sent
    have hhanded := handed_accountSent mid sent now
    rw [hmid] at hhanded
    exact reported_audited Actions.sendsOnly_nil hhanded
  by_cases hx : range.start < range.stop
  · by_cases hstop : range.stop ≤ g.board.top
    · rw [processSent_of_le hx hstop]
      exact haudited _ hbelow _
    · unfold processSent
      rw [if_neg (by rw [SeqRange.isEmpty_iff]; omega)]
      dsimp only
      rw [if_neg hstop]
      have happended := (timers_appendNew (g.resendBelow range flags now).1
        ⟨max range.start g.board.top, range.stop⟩ flags now).trans hbelow
      unfold resendBelow at happended
      generalize Engine.appendNew _ _ _ _ = appended at happended ⊢
      cases hres : appended.2 with
      | error e => exact .failed fun _ => happended
      | ok u => exact haudited _ happended _
  · rw [processSent_of_empty g (Nat.le_of_not_lt hx)]
    exact .failed fun _ => rfl

variable [CongestionLaw κ]

theorem timers_conclude (g : Engine κ) (ack : Ack) (o : AckOutcome) (now : Nat) :
    (g.conclude ack o now).1.schedule.timers = g.schedule.timers := by
  have hjudged := (turned_judged g ack o now).1.turns.frame.timers
  rw [control_noteOutcome] at hjudged
  have hbegun : ∀ (h : Engine κ) lost,
      (h.respondToLosses lost now).schedule.timers = h.schedule.timers := by
    intro h lost
    unfold respondToLosses
    split <;> rfl
  rw [conclude_judged]
  exact ((turned_creditDelivery _ o now).turns.frame.timers.trans (hbegun _ _)).trans hjudged

/-- An ack tells about the timers after what it asks to send again. -/
theorem reported_processAck (g : Engine κ) (ack : Ack) (now : Nat) :
    g.schedule.timers.Reported (g.processAck ack now).1.schedule.timers
      (g.processAck ack now).2 := by
  unfold processAck
  cases hp : g.passOf ack now with
  | error e => exact .failed fun _ => rfl
  | ok p =>
    have hconcluded := timers_conclude (g.adopt p ack) ack p.outcome now
    dsimp only
    generalize (g.adopt p ack).conclude ack p.outcome now = concluded at hconcluded ⊢
    have hmeasured := (turned_measured concluded.1 p.outcome concluded.2 now).turns.frame.timers
    have hsettled := handed_settleTimers (concluded.1.measured p.outcome concluded.2 now)
      g.schedule.stage p.outcome now
    rw [show (concluded.1.measured p.outcome concluded.2 now).schedule.timers = g.schedule.timers
      from hmeasured.trans hconcluded] at hsettled
    exact reported_audited (sendsOnly_planSends concluded.1 concluded.2) hsettled

/-- A firing that is current takes its timer off, and tells what is armed instead. Any other one
leaves the timers alone. -/
theorem reported_processTimeout (g : Engine κ) (timer : Timer) (generation : Nat) (hasData : Bool)
    (now : Nat) :
    TimerTable.Reported
      (if g.schedule.timers.isCurrent timer generation then g.schedule.timers.stop timer
        else g.schedule.timers)
      (g.processTimeout timer generation hasData now).1.schedule.timers
      (.ok (g.processTimeout timer generation hasData now).2) := by
  cases hc : g.schedule.timers.isCurrent timer generation with
  | false =>
    simp only [processTimeout, hc, Bool.false_eq_true, if_false]
    exact .of_handed .same
  | true =>
    rw [if_pos rfl]
    by_cases hlt : g.board.una < g.board.top
    · obtain ⟨sends, timing, hanswer, ho, -, -, hhanded⟩ :=
        processTimeout_answer g hc hlt hasData now
      rw [hanswer]
      exact .answered ho hhanded
    · have hnone : ∀ timer, (g.takeOff timer).board.outstanding = 0 := fun _ =>
        Nat.sub_eq_zero_of_le (Nat.le_of_not_lt hlt)
      rw [processTimeout_eq g hc hasData now]
      cases timer with
      | tlp =>
        simp only [fireProbe, hnone, if_true]
        exact .of_handed .same
      | rto =>
        simp only [fireTimeout, hnone, if_true]
        exact .of_handed .same

/-! ## Runs -/

/-- The engines that calls lead to from a fresh one whose first sequence number is `first`, each with
what a mirror shows that was kept along. A sender that reports the firing of what it holds wipes its
mirror first; firings that the mirror does not show may be reported too. -/
inductive Mirrored (first : Nat) : Engine κ → Option (Timer × Nat) → Prop
  | start {settings : Settings} {law : κ} {sink : Sink} {now : Nat} {g : Engine κ}
      (started : start settings law sink first now = .ok g) : Mirrored first g none
  | send {g : Engine κ} {held : Option (Timer × Nat)} (before : Mirrored first g held)
      (range : SeqRange) (flags : Flags) (now : Nat) :
      Mirrored first (g.onPacketSent range flags now).1
        (mirrored held (g.onPacketSent range flags now).2)
  | ack {g : Engine κ} {held : Option (Timer × Nat)} (before : Mirrored first g held) (a : Ack)
      (now : Nat) : Mirrored first (g.onAck a now).1 (mirrored held (g.onAck a now).2)
  | fire {g : Engine κ} {held : Option (Timer × Nat)} (before : Mirrored first g held)
      (timer : Timer) (generation : Nat) (hasData : Bool) (now : Nat) :
      Mirrored first (g.onTimeout timer generation hasData now).1
        (mirrored (if held = some (timer, generation) then none else held)
          (g.onTimeout timer generation hasData now).2)
  | nextSendTime {g : Engine κ} {held : Option (Timer × Nat)} (before : Mirrored first g held)
      (bytes now : Nat) : Mirrored first (g.nextSendTime bytes now).1 held
  | setFixedRate {g : Engine κ} {held : Option (Timer × Nat)} (before : Mirrored first g held)
      (rate : Option Nat) : Mirrored first (g.setFixedRate rate) held
  | setHardware {g : Engine κ} {held : Option (Timer × Nat)} (before : Mirrored first g held)
      (table : RateTable) : Mirrored first (g.setHardware table) held
  | setTrace {g : Engine κ} {held : Option (Timer × Nat)} (before : Mirrored first g held)
      (trace : String) : Mirrored first (g.setTrace trace) held

omit [CongestionLaw κ] in
/-- A call that left the engine running tells about the timers what its work does, and its error, if it
ended with one, is no violation. -/
theorem reported_guarded {call : Engine κ → Engine κ × Except Error Actions}
    (hr : t.Reported (call g).1.schedule.timers (call g).2) (hb : g.isAborted = false)
    (ha : (g.guarded call).1.isAborted = false) :
    t.Reported (g.guarded call).1.schedule.timers (g.guarded call).2 ∧
      ∀ e, (g.guarded call).2 = .error e → e.isFatal = false := by
  rw [guarded_eq hb] at ha ⊢
  cases hres : (call g).2 with
  | ok as =>
    simp only [hres] at hr ⊢
    exact ⟨hr, by simp⟩
  | error e =>
    simp only [hres] at ha hr ⊢
    have hf := isFatal_of_fail ha
    rw [show ((call g).1.fail e).schedule = (call g).1.schedule from (noted_fail _ hf).schedule]
    refine ⟨hr, ?_⟩
    intro e' he
    injection he with he
    exact he ▸ hf

omit [CongestionLaw κ] in
/-- A mirror that showed the timers shows them after a call that left the engine running. -/
theorem matches_guarded {call : Engine κ → Engine κ × Except Error Actions}
    (hr : t.Reported (call g).1.schedule.timers (call g).2) (hm : t.Matches held)
    (hb : g.isAborted = false) (ha : (g.guarded call).1.isAborted = false) :
    (g.guarded call).1.schedule.timers.Matches (mirrored held (g.guarded call).2) := by
  obtain ⟨hreported, herror⟩ := reported_guarded hr hb ha
  exact hreported.followed hm herror

omit [CongestionLaw κ] in
theorem isAborted_of_guarded {α : Type} {call : Engine κ → Engine κ × Except Error α}
    (ha : (g.guarded call).1.isAborted = false) : g.isAborted = false := by
  cases hb : g.isAborted with
  | false => rfl
  | true =>
    rw [guarded_of_aborted hb] at ha
    exact hb.symm.trans ha

/-- As long as the engine is not stopped, a mirror shows exactly the timer and the generation that
are armed, and shows none if none is. -/
theorem Mirrored.matches {first : Nat} (h : Mirrored first g held) (ha : g.isAborted = false) :
    g.schedule.timers.Matches held := by
  induction h with
  | start started =>
    unfold Engine.start at started
    split at started
    · cases started
    · injection started with started
      rw [← started]
      exact TimerTable.matches_none fun timer => by cases timer <;> rfl
  | send before range flags now ih =>
    have hb := isAborted_of_guarded ha
    exact matches_guarded (reported_processSent _ range flags now) (ih hb) hb ha
  | ack before a now ih =>
    have hb := isAborted_of_guarded ha
    exact matches_guarded (reported_processAck _ a now) (ih hb) hb ha
  | @fire g held before timer generation hasData now ih =>
    have hb := isAborted_of_guarded ha
    have hshown := (ih hb) timer generation
    have hfired := reported_processTimeout g timer generation hasData now
    cases hc : g.schedule.timers.isCurrent timer generation with
    | true =>
      rw [if_pos hc] at hfired
      rw [if_pos (hshown.mp hc)]
      exact matches_guarded hfired ((ih hb).stop hc) hb ha
    | false =>
      rw [if_neg (by rw [hc]; exact Bool.false_ne_true)] at hfired
      rw [if_neg fun hheld => by rw [hshown.mpr hheld] at hc; cases hc]
      exact matches_guarded hfired (ih hb) hb ha
  | nextSendTime _ bytes now ih => exact ih ha
  | setFixedRate _ rate ih => exact ih ha
  | setHardware _ table ih => exact ih ha
  | setTrace _ trace ih => exact ih ha

/-- A send arms the probe timer, an ack arms it anew, the overtaken firing changes nothing, and the
other one leaves the retransmission timer armed in its place. -/
theorem matches_after_stale_firing : ∃ g : Engine FixedWindow,
    (Mirrored 0 g (some (.rto, 4)) ∧ g.isAborted = false ∧ g.stats.staleTimers = 1) ∧
    g.schedule.timers.Matches (some (.rto, 4)) := by
  have started : Engine.start {} (FixedWindow.ofSettings {}) .discard 0 0 = .ok _ := rfl
  have sent := (Mirrored.start started).send ⟨0, 2920⟩ {} 0
  have acked := sent.ack { cumulative := 1460 } 40
  have stale := acked.fire .tlp 1 true 60
  have fired := stale.fire .tlp 2 true 90
  exact ⟨_, ⟨fired, rfl, by decide +kernel⟩, Mirrored.matches fired rfl⟩

end Engine

end LossRecovery
