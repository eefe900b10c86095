import LossRecovery.Proofs.Restorations

/-!
# `LossRecovery.Proofs.IdleTimers` — no timer waits for nothing

A firing timer has something to repair. This does not depend on how the calls are made: a send that is
counted leaves data outstanding, an ack of all data cancels what is armed, and a timer that fires is
armed anew in the same call.

## Contents
- `Control.Attended`: a timer is armed only while data is outstanding.
- `edges_appendNew`: where new data leaves the edges.
- `attended_processSent`, `attended_processAck`, `attended_processTimeout`, `attended_fail`: the parts of
  calls keep it; `lasting_attended`, `attended_start`: so it holds in every run.
-/

namespace LossRecovery

/-! ## Armed timers -/

namespace Control

/-- A timer is armed only while data is outstanding. -/
structure Attended (c : Control) : Prop where
  le : c.una ≤ c.top
  outstanding : ∀ timer, (c.schedule.timers.armed? timer).isSome = true → c.una < c.top

variable {c c' : Control} {prior : Stage}

theorem Attended.of_lt (h : c.una < c.top) : c.Attended := ⟨Nat.le_of_lt h, fun _ _ => h⟩

theorem Rearmed.edges (h : Rearmed c c') : c'.una = c.una ∧ c'.top = c.top := by
  obtain ⟨timer, expiry, rfl, -⟩ := h
  exact ⟨rfl, rfl⟩

theorem Rearmed.attended (h : Rearmed c c') (hlt : c.una < c.top) : c'.Attended := by
  apply Attended.of_lt
  rw [h.edges.1, h.edges.2]
  exact hlt

/-- Settling the timers leaves none without outstanding data. -/
theorem Settled.attended (h : Settled prior c c') (hle : c.una ≤ c.top) : c'.Attended := by
  rcases h with ⟨-, timers, hoff, rfl⟩ | ⟨hlt, hrearmed | ⟨rfl, -⟩⟩
  · refine ⟨hle, ?_⟩
    intro timer harmed
    simp [hoff] at harmed
  · exact hrearmed.attended hlt
  · exact .of_lt hlt

end Control

namespace Engine

variable {κ : Type} {g : Engine κ} {now : Nat}

/-! ## Sends -/

/-- New data moves the right edge on, if it is taken in. -/
theorem edges_appendNew (g : Engine κ) (x : SeqRange) (flags : Flags) (now : Nat) :
    ((g.appendNew x flags now).2 = .ok () ∧
      (g.appendNew x flags now).1.board.una = g.board.una ∧
      g.board.top < (g.appendNew x flags now).1.board.top) ∨
    ((∃ e, (g.appendNew x flags now).2 = .error e) ∧
      (g.appendNew x flags now).1.control = g.control) := by
  unfold appendNew
  cases ha : g.board.append x flags now (if flags.appLimited then x.stop else 0) with
  | error e => exact .inr ⟨⟨e, rfl⟩, rfl⟩
  | ok board =>
    have hfits : x.start < x.stop ∧ x.start = g.board.top := by
      unfold Scoreboard.append at ha
      split at ha
      · cases ha
      · next hx =>
        split at ha
        · cases ha
        · next hs =>
          rw [SeqRange.isEmpty_iff] at hx
          exact ⟨Nat.lt_of_not_le hx, Decidable.not_not.mp hs⟩
    obtain ⟨hx, hs⟩ := hfits
    obtain ⟨huna, htop⟩ := Scoreboard.append_edges hx hs ha
    have htop : g.board.top < board.top := by omega
    dsimp only
    split <;> exact .inl ⟨rfl, huna, htop⟩

theorem attended_accountSent (h : g.control.Attended) {sent : Nat}
    (hsent : sent ≠ 0 → g.board.una < g.board.top) (now : Nat) :
    (g.accountSent sent now).1.control.Attended := by
  rcases control_accountSent g sent now with ⟨hsame, -⟩ | ⟨hsome, hrearmed⟩
  · rw [hsame]
    exact h
  · exact hrearmed.attended (hsent hsome)

/-- What a report counts is outstanding, whatever its flags are. -/
theorem attended_processSent (h : g.control.Attended) (range : SeqRange) (flags : Flags) (now : Nat) :
    (g.processSent range flags now).1.control.Attended := by
  obtain ⟨hcontrol, -, hresent⟩ := resendBelow_control g range flags now
  have hbelow : (g.resendBelow range flags now).1.control.Attended := by
    rw [hcontrol]
    exact h
  have huna : (g.resendBelow range flags now).1.board.una = g.board.una :=
    congrArg Control.una hcontrol
  have htop : (g.resendBelow range flags now).1.board.top = g.board.top :=
    congrArg Control.top hcontrol
  by_cases hx : range.start < range.stop
  · by_cases hstop : range.stop ≤ g.board.top
    · rw [processSent_of_le hx hstop]
      apply attended_accountSent hbelow
      rw [huna, htop]
      exact hresent
    · unfold processSent
      rw [if_neg (by rw [SeqRange.isEmpty_iff]; omega)]
      dsimp only
      rw [if_neg hstop]
      have hedges := edges_appendNew (g.resendBelow range flags now).1
        ⟨max range.start g.board.top, range.stop⟩ flags now
      have hle : (g.resendBelow range flags now).1.board.una
          ≤ (g.resendBelow range flags now).1.board.top := hbelow.le
      unfold resendBelow at hedges hbelow hle
      generalize Engine.appendNew _ _ _ _ = appended at hedges ⊢
      rcases hedges with ⟨hok, huna', htop'⟩ | ⟨⟨e, he⟩, hsame⟩
      · rw [hok]
        have hlt : appended.1.board.una < appended.1.board.top := by omega
        exact attended_accountSent (.of_lt hlt) (fun _ => hlt) now
      · rw [he]
        dsimp only
        rw [hsame]
        exact hbelow
  · rw [processSent_of_empty g (Nat.le_of_not_lt hx)]
    exact h

/-- An error leaves the timers alone, or stops them. -/
theorem attended_fail (h : g.control.Attended) (e : Error) : (g.fail e).control.Attended := by
  cases hf : e.isFatal with
  | false =>
    rw [(noted_fail g hf).control]
    exact h
  | true =>
    have hstopped : (g.fail e).schedule.timers = g.schedule.timers.stopAll := by
      unfold fail
      cases e <;> first | rfl | cases hf
    constructor
    · show (g.fail e).board.una ≤ (g.fail e).board.top
      rw [board_fail g e]
      exact h.le
    · intro timer harmed
      rw [show (g.fail e).control.schedule.timers = _ from hstopped] at harmed
      simp at harmed

variable [CongestionLaw κ]

/-! ## Acks and timers -/

/-- An ack settles the timers at the end. -/
theorem attended_processAck (h : g.control.Attended) (ack : Ack) (now : Nat) :
    (g.processAck ack now).1.control.Attended := by
  by_cases hbeyond : ack.cumulative ≤ g.board.top
  · have hedges := edges_processAck hbeyond now
    have hle : g.board.una ≤ g.board.top := h.le
    rw [processAck_eq hbeyond now] at hedges ⊢
    dsimp only at hedges ⊢
    generalize (g.acked ack now).conclude ack _ now = concluded at hedges ⊢
    generalize (g.passState.run (g.ackInput ack now)).outcome = o at hedges ⊢
    rw [board_respond] at hedges
    have hwithin : concluded.1.board.una ≤ concluded.1.board.top := by
      obtain ⟨huna, htop⟩ := Prod.mk.inj hedges
      rw [huna, htop]
      split <;> omega
    have hframe := (turned_measured concluded.1 o concluded.2 now).turns.frame
    rw [(told_respond concluded.1 g.schedule.stage ack o concluded.2 now).noted.control]
    apply (control_settleTimers (concluded.1.measured o concluded.2 now) g.schedule.stage o now).attended
    rw [hframe.una, hframe.top]
    exact hwithin
  · rw [processAck_of_beyond (Nat.lt_of_not_le hbeyond)]
    exact h

/-- A timer that fires finds data outstanding, and leaves it so. -/
theorem attended_processTimeout (h : g.control.Attended) (timer : Timer) (generation : Nat)
    (hasData : Bool) (now : Nat) :
    (g.processTimeout timer generation hasData now).1.control.Attended := by
  cases hc : g.schedule.timers.isCurrent timer generation with
  | false =>
    simp only [processTimeout, hc, Bool.false_eq_true, if_false]
    exact h
  | true =>
    obtain ⟨a, harmed, -⟩ := TimerTable.isCurrent_iff.mp hc
    have hlt : g.board.una < g.board.top := h.outstanding timer (Option.isSome_of_eq_some harmed)
    obtain ⟨huna, htop⟩ := (relabelled_processTimeout g timer generation hasData now).edges
    apply Control.Attended.of_lt
    show (Engine.board _).una < (Engine.board _).top
    rw [huna, htop]
    exact hlt

/-! ## Runs -/

theorem lasting_attended : Lasting fun g : Engine κ => g.control.Attended where
  aside _ _ _ h := h
  stale _ h := h
  sent x flags now h := attended_processSent h x flags now
  acked ack now h := attended_processAck h ack now
  fired timer generation hasData now h := attended_processTimeout h timer generation hasData now
  failed _ h := attended_fail h _

omit [CongestionLaw κ] in
theorem attended_start {settings : Settings} {law : κ} {sink : Sink} {first : Nat}
    (started : start settings law sink first now = .ok g) : g.control.Attended := by
  obtain ⟨hboard, -⟩ := start_board started
  have hedges : g.board.una = g.board.top := by
    rw [hboard]
    rfl
  refine ⟨Nat.le_of_eq hedges, ?_⟩
  intro timer harmed
  have hidle : g.schedule.timers.armed? timer = none := (atRest_start started).timed.idle hedges timer
  rw [show g.control.schedule.timers.armed? timer = none from hidle] at harmed
  cases harmed

end Engine

end LossRecovery
