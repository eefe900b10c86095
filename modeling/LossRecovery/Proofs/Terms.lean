import LossRecovery.Proofs.SendSteps

/-!
# `LossRecovery.Proofs.Terms` — the terms that sends leave alone

How much may be sent depends on the edges, on the bytes sent again into holes, and on terms that an
ack or a timeout sets. A report of a send changes nothing about the terms but the bytes that were sent
during a recovery episode.

## Contents
- `RecoveryLedger.episode`: what a ledger keeps of an episode.
- `Engine.Terms`, `Engine.terms`, `Terms.spend`: the terms, and what a send changes about them.
- `terms_resendBelow`, `terms_appendNew`, `terms_accountSent`: the parts of a report;
  `terms_processSent`: a report as a whole.
-/

namespace LossRecovery

/-- What a ledger keeps of an episode: all but the counts that belong to the outstanding records. -/
def RecoveryLedger.episode (l : RecoveryLedger) : RecoveryLedger :=
  { l with sackedBytes := 0, holeBytes := 0 }

namespace Engine

variable {κ : Type} {g : Engine κ} {x : SeqRange} {flags : Flags} {now : Nat}

/-- What decides, beside the edges and the holes, how much may be sent; and the tracker, which sends
do not concern either. -/
structure Terms (κ : Type) where
  settings : Settings
  tracker : SackTracker
  law : κ
  stage : Stage
  rtoPoint : Nat
  window : Nat
  probe : ProbeRtt
  sackedBytes : Nat
  episode : RecoveryLedger

def terms (g : Engine κ) : Terms κ where
  settings := g.settings
  tracker := g.tracker
  law := g.law
  stage := g.schedule.stage
  rtoPoint := g.schedule.rtoPoint
  window := g.window
  probe := g.probe
  sackedBytes := g.ledger.sackedBytes
  episode := g.ledger.episode

/-- The terms after bytes were sent. -/
def Terms.spend (t : Terms κ) (bytes : Nat) : Terms κ :=
  { t with episode := if bytes = 0 then t.episode else t.episode.spend bytes }

theorem terms_rearm (g : Engine κ) (now : Nat) : (g.rearm now).1.terms = g.terms := by
  unfold rearm
  split <;> rfl

theorem terms_resentEngine (g : Engine κ) (x : SeqRange) (flags : Flags) (now : Nat) :
    (g.resentEngine x flags now).terms = g.terms := by
  have hwalk : ∀ fits change (rs : List SendRecord) (g : Engine κ),
      (rs.foldl (countResent x fits change) g).terms = g.terms := fun fits change rs g =>
    foldl_keep terms (g := countResent x fits change) rs g fun _ _ => rfl
  refine (hwalk _ _ _ _).trans ?_
  split <;> rfl

theorem terms_resendRange (g : Engine κ) (x : SeqRange) (flags : Flags) (now : Nat) :
    (g.resendRange x flags now).1.terms = g.terms := by
  by_cases hx : max x.start g.board.una < x.stop
  · rw [resendRange_eq g x flags now hx]
    dsimp only
    split <;> exact terms_resentEngine g _ flags now
  · rw [resendRange_of_le g x flags now (Nat.le_of_not_lt hx)]
    rfl

theorem terms_resendBelow (g : Engine κ) (x : SeqRange) (flags : Flags) (now : Nat) :
    (g.resendBelow x flags now).1.terms = g.terms := by
  unfold resendBelow
  split
  · exact terms_resendRange g _ flags now
  · rfl

/-- New data changes neither the terms nor the ledger. -/
theorem terms_appendNew (g : Engine κ) (x : SeqRange) (flags : Flags) (now : Nat) :
    (g.appendNew x flags now).1.terms = g.terms ∧
      (g.appendNew x flags now).1.ledger = g.ledger := by
  unfold appendNew
  generalize g.board.append x flags now _ = result
  cases result with
  | error e => exact ⟨rfl, rfl⟩
  | ok b =>
    dsimp only
    split <;> exact ⟨rfl, rfl⟩

theorem terms_accountSent (g : Engine κ) (sent now : Nat) :
    (g.accountSent sent now).1.terms = g.terms.spend sent := by
  unfold accountSent
  split
  · next hzero => simp [Terms.spend, hzero]
  · next hsome =>
    simp only [Terms.spend, hsome, if_false]
    split
    · exact terms_rearm _ now
    · rfl

/-- A report changes the terms by the bytes that it counts, whether it is taken in or not. -/
theorem terms_processSent (g : Engine κ) (x : SeqRange) (flags : Flags) (now : Nat) :
    ∃ sent, (g.processSent x flags now).1.terms = g.terms.spend sent := by
  have hresent : (if x.start < g.board.top then
      g.resendRange ⟨x.start, min x.stop g.board.top⟩ flags now else (g, 0)).1.terms = g.terms := by
    split
    · exact terms_resendRange g _ flags now
    · rfl
  unfold processSent
  split
  · exact ⟨0, rfl⟩
  · dsimp only
    split
    · exact ⟨_, by rw [terms_accountSent, hresent]⟩
    · have hnew := (terms_appendNew _ ⟨max x.start g.board.top, x.stop⟩ flags now).1.trans hresent
      split
      · exact ⟨0, hnew⟩
      · exact ⟨_, by rw [terms_accountSent, hnew]⟩

theorem settings_processSent (g : Engine κ) (x : SeqRange) (flags : Flags) (now : Nat) :
    (g.processSent x flags now).1.settings = g.settings := by
  obtain ⟨sent, hterms⟩ := terms_processSent g x flags now
  exact congrArg Terms.settings hterms

end Engine

end LossRecovery
