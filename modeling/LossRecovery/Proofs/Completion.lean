import LossRecovery.Congestion.FixedWindow
import LossRecovery.Proofs.Transfers

/-!
# `LossRecovery.Proofs.Completion` — every transfer ends

The loops of a transfer are stated here with no bound on how often they go round. Each segment that is
sent moves the right edge up, towards the end of the data, and each round of the event loop moves the
time on. So both loops end, and since no call fails on the way, there is a report in the end.

## Contents
- `SendLoop`, `EventLoop`: the two loops, round by round, and what each round gains.
- `SendLoop.sendNewData_eq`, `EventLoop.proceed_eq`, `EventLoop.run_eq`: these are the loops that run.
- `Consistent.sendLoop`, `Consistent.eventLoop`: both loops end, and take the moves of a course.
- `Engine.Reachable.transfer_ends`: every transfer ends with a report.
-/

namespace LossRecovery

namespace Transfer

variable {κ : Type} [CongestionLaw κ] {t : Transfer κ} {stop deadline : Nat}

/-! ## The loops -/

/-- Sending new data at one instant, until no more segment may be sent before `until?`, if ever. -/
inductive SendLoop (stop now : Nat) : Transfer κ → Transfer κ → Option Nat → Prop
  | wait {t t' : Transfer κ} {until? : Option Nat} (tried : t.trySend stop now = .wait t' until?) :
      SendLoop stop now t t' until?
  | sent {t t' u : Transfer κ} {until? : Option Nat} (tried : t.trySend stop now = .sent t')
      (up : t.engine.board.top < t'.engine.board.top) (within : t'.engine.board.top ≤ stop)
      (rest : SendLoop stop now t' u until?) : SendLoop stop now t u until?

/-- Going from instant to instant, from `now` on, until the deadline has come, all data is
acknowledged, or nothing is under way any more. -/
inductive EventLoop (stop deadline : Nat) : Transfer κ → Nat → Transfer κ → Nat → Prop
  | ended {t : Transfer κ} {now : Nat} (cause : deadline ≤ now ∨ stop ≤ t.engine.board.una) :
      EventLoop stop deadline t now t now
  | stalled {t t' : Transfer κ} {now : Nat} {nextSend : Option Nat} (early : now < deadline)
      (unfinished : t.engine.board.una < stop) (sending : SendLoop stop now t t' nextSend)
      (idle : t'.nextInstant nextSend = none) :
      EventLoop stop deadline t now (t'.tell [.simulationStalled t'.engine.text]) now
  | next {t t' u v : Transfer κ} {now instant next later : Nat} {nextSend : Option Nat}
      (early : now < deadline) (unfinished : t.engine.board.una < stop)
      (sending : SendLoop stop now t t' nextSend) (due : t'.nextInstant nextSend = some instant)
      (reached : next = max instant (now + Time.microsecond)) (on : now < next)
      (stepped : t'.step stop next = (u, .ok ())) (rest : EventLoop stop deadline u next v later) :
      EventLoop stop deadline t now v later

/-- The guard of the send loop never ends it. -/
theorem SendLoop.sendNewData_eq {now : Nat} {t' : Transfer κ} {until? : Option Nat}
    (h : SendLoop stop now t t' until?) : t.sendNewData stop now = (t', .ok until?) := by
  induction h with
  | wait tried => rw [sendNewData, tried]
  | sent tried up within _ ih =>
    rw [sendNewData, tried]
    dsimp only
    rw [if_pos ⟨up, Nat.lt_of_lt_of_le up within⟩, ih]

theorem EventLoop.proceed_eq {now later : Nat} {final : Transfer κ}
    (h : EventLoop stop deadline t now final later) :
    proceed stop deadline t now = ((final, later), .ok ()) := by
  induction h with
  | ended cause => rw [proceed, if_neg (by omega)]
  | stalled early unfinished sending idle =>
    rw [proceed, if_pos ⟨early, unfinished⟩]
    simp only [sending.sendNewData_eq, idle]
  | next early unfinished sending due reached _ stepped _ ih =>
    subst reached
    rw [proceed, if_pos ⟨early, unfinished⟩]
    simp only [sending.sendNewData_eq, due, stepped]
    exact ih

/-- A transfer whose event loop ends ends with a report. -/
theorem EventLoop.run_eq {now bytes duration later : Nat} {final : Transfer κ}
    (h : EventLoop (t.engine.board.una + bytes) (now + duration) t now final later) :
    t.run bytes duration now = (final, .ok {
      elapsed := Time.since later now
      delivered := final.engine.board.una - t.engine.board.una
      dropped := final.link.dropped
      snapshot := final.engine.snapshot }) := by
  simp only [run, h.proceed_eq]

namespace Consistent

/-- The send loop ends, since every segment moves the right edge up, and not beyond the end. -/
theorem sendLoop (h : t.Consistent) (stop now : Nat) :
    ∃ put t' until?, SendLoop stop now t t' until? ∧ Course stop t put t' := by
  induction hleft : stop - t.engine.board.top using Nat.strong_induction_on generalizing t with
  | _ left ih =>
    rcases h.trySend stop now with ⟨t', until?, htried, course⟩ | ⟨t', s, htried, course, hup, hle⟩
    · exact ⟨[], t', until?, .wait htried, course⟩
    · obtain ⟨put, u, until?, rest, onward⟩ :=
        ih (stop - t'.engine.board.top) (by omega) (course.consistent h) rfl
      exact ⟨_, u, until?, .sent htried hup hle rest, course.trans onward⟩

/-- The event loop ends, since every round moves the time on. -/
theorem eventLoop (h : t.Consistent) (stop deadline now : Nat) :
    ∃ put final later, EventLoop stop deadline t now final later ∧ Course stop t put final := by
  induction hleft : deadline - now using Nat.strong_induction_on generalizing t now with
  | _ left ih =>
    by_cases hopen : now < deadline ∧ t.engine.board.una < stop
    · obtain ⟨put, t', nextSend, sending, course⟩ := h.sendLoop stop now
      have hsending := course.consistent h
      cases hdue : t'.nextInstant nextSend with
      | none =>
        exact ⟨put ++ [], _, now, .stalled hopen.1 hopen.2 sending hdue,
          course.tail (.noted (Engine.told_tell _ _).noted)⟩
      | some instant =>
        obtain ⟨more, done, onward, hstepped⟩ :=
          hsending.step stop (max instant (now + Time.microsecond))
        have hon : now < max instant (now + Time.microsecond) :=
          Nat.lt_of_lt_of_le (Nat.lt_add_of_pos_right (by decide)) (Nat.le_max_right _ _)
        obtain ⟨rest, final, later, loop, course'⟩ :=
          ih (deadline - max instant (now + Time.microsecond)) (by omega)
            (onward.consistent hsending) _ rfl
        exact ⟨_, final, later, .next hopen.1 hopen.2 sending hdue rfl hon (Prod.ext rfl hstepped)
          loop, (course.trans onward).trans course'⟩
    · exact ⟨[], t, now, .ended (by omega), .refl⟩

/-- A transfer starts from an engine that works on, with nothing on its way. -/
theorem start {g : Engine κ} {first : Nat} (h : g.Reachable first) (ha : g.isAborted = false)
    (link : LinkSettings) (mss now : Nat) : (Transfer.start g link mss now).Consistent := by
  have hrun := h.running_of ha
  refine ⟨⟨hrun, h.atRest ha⟩, fun p hp => absurd hp List.not_mem_nil, ?_,
    fun a ha => absurd ha List.not_mem_nil⟩
  intro seq hs
  rcases hs with hbelow | ⟨b, hb, -⟩
  · exact Nat.lt_of_lt_of_le hbelow hrun.sound.board.le
  · cases hb

end Consistent

end Transfer

open Transfer (EventLoop)

variable {κ : Type} [CongestionLaw κ] {g : Engine κ} {first : Nat}

/-- A transfer ends with a report, whatever the engine it starts from, the path, the number of bytes
and the time it is given: no call fails, every segment of new data moves the right edge up towards the
end of the data, and every round moves the time on. -/
theorem Engine.Reachable.transfer_ends (h : g.Reachable first) (ha : g.isAborted = false)
    (link : LinkSettings) (mss bytes duration now : Nat) :
    ∃ final later,
      EventLoop (g.board.una + bytes) (now + duration) (Transfer.start g link mss now) now
        final later ∧
      (Transfer.start g link mss now).run bytes duration now = (final, .ok {
        elapsed := Time.since later now
        delivered := final.engine.board.una - g.board.una
        dropped := final.link.dropped
        snapshot := final.engine.snapshot }) := by
  obtain ⟨put, final, later, loop, -⟩ :=
    (Transfer.Consistent.start h ha link mss now).eventLoop (g.board.una + bytes) (now + duration)
      now
  exact ⟨final, later, loop, loop.run_eq⟩

/-- Ten million bytes over a path that loses every segment: there is a report after a minute. -/
theorem transfer_ends_without_delivery : ∃ g : Engine FixedWindow, g.Reachable 0 ∧
    ∃ final later report,
      EventLoop 10000000 60000000000 (Transfer.start g { losesAll := true } 1460 0) 0 final later ∧
      (Transfer.start g { losesAll := true } 1460 0).run 10000000 60000000000 0
        = (final, .ok report) := by
  have started : Engine.start {} (FixedWindow.ofSettings {}) .discard 0 0 = .ok _ := rfl
  obtain ⟨final, later, loop, hdone⟩ := Engine.Reachable.transfer_ends (.start started) rfl
    { losesAll := true } 1460 10000000 60000000000 0
  exact ⟨_, .start started, final, later, _, loop, hdone⟩

end LossRecovery
