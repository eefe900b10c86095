import LossRecovery.Proofs.Calls

/-!
# `LossRecovery.Proofs.Refusals` — which calls fail, and what is left of the engine then

A report of a send or an ack fails for reasons that can be told beforehand from its numbers and the
right edge. What is refused was counted and told, and nothing else. Here a call takes in all records of a
range or of an ack in one step; that it may as well take in one after another, and still does not fail
halfway, is told by the walks.

## Contents
- `IsMalformed`, `IsViolation`, `Succeeds`: how a call ends.
- `countMalformed`, `StoppedFrom`: the engine after malformed input and after a violation.
- `Running.send_ends`, `ack_ends`, `fire_ends`, `dispatch_ends`: each call of an engine that runs.
-/

namespace LossRecovery

namespace Engine

variable {κ : Type} {g g' : Engine κ} {now : Nat}

/-! ## How a call ends -/

section Ends

variable {α : Type}

/-- The call was refused for what it was given. -/
def IsMalformed (r : Except Error α) : Prop := ∃ cause, r = .error (.malformed cause)

/-- The call would have broken the scoreboard. -/
def IsViolation (r : Except Error α) : Prop := ∃ cause, r = .error (.structural cause)

def Succeeds (r : Except Error α) : Prop := ∃ a, r = .ok a

/-- A call ends in one way only. -/
theorem ends_ok (a : α) : ¬ IsMalformed (.ok a : Except Error α) ∧
    ¬ IsViolation (.ok a : Except Error α) ∧ Succeeds (.ok a : Except Error α) := by
  simp [IsMalformed, IsViolation, Succeeds]

theorem ends_malformed (c : Malformation) : IsMalformed (.error (.malformed c) : Except Error α) ∧
    ¬ IsViolation (.error (.malformed c) : Except Error α) ∧
    ¬ Succeeds (.error (.malformed c) : Except Error α) := by
  simp [IsMalformed, IsViolation, Succeeds]

theorem ends_violation (c : Violation) : ¬ IsMalformed (.error (.structural c) : Except Error α) ∧
    IsViolation (.error (.structural c) : Except Error α) ∧
    ¬ Succeeds (.error (.structural c) : Except Error α) := by
  simp [IsMalformed, IsViolation, Succeeds]

end Ends

/-! ## What is left of an engine -/

/-- The engine after malformed input: it was counted. -/
def countMalformed (g : Engine κ) : Engine κ :=
  { g with
    stats := { g.stats with malformedSackBlocks := g.stats.malformedSackBlocks + 1 }
    sink := g.sink.add .malformedSackBlocks 1 }

/-- `g'` is `g` after a violation: it was counted and told, both timers are off, and the engine is
stopped. -/
def StoppedFrom (g g' : Engine κ) : Prop :=
  ∃ told, g' = { g with
    isAborted := true
    schedule := { g.schedule with timers := g.schedule.timers.stopAll }
    sink := g.sink.add .structuralViolations 1
    journal := told ++ g.journal }

theorem Told.stop (h : Told g g') (c : Violation) : StoppedFrom g (g'.fail (.structural c)) := by
  obtain ⟨told, rfl⟩ := h
  exact ⟨[.engineAborted (.structural c)] ++ told, by
    simp [fail, Error.counter?, Error.isFatal, tell, count]⟩

theorem StoppedFrom.isAborted (h : StoppedFrom g g') : g'.isAborted = true := by
  obtain ⟨told, rfl⟩ := h
  rfl

theorem StoppedFrom.armed? (h : StoppedFrom g g') (timer : Timer) :
    g'.schedule.timers.armed? timer = none := by
  obtain ⟨told, rfl⟩ := h
  simp

variable [CongestionLaw κ]

/-! ## The calls of an engine that runs -/

namespace Running

omit [CongestionLaw κ] in
/-- A send is malformed if it is empty or reversed, and a violation if it leaves a gap. -/
theorem send_ends (h : g.Running) (range : SeqRange) {flags : Flags} (hf : flags.IsFresh)
    (now : Nat) :
    (range.stop ≤ range.start ∧ IsMalformed (g.onPacketSent range flags now).2 ∧
      (g.onPacketSent range flags now).1 = g.countMalformed) ∨
    (range.start < range.stop ∧ g.board.top < range.start ∧
      IsViolation (g.onPacketSent range flags now).2 ∧
      StoppedFrom g (g.onPacketSent range flags now).1) ∨
    (range.start < range.stop ∧ range.start ≤ g.board.top ∧
      Succeeds (g.onPacketSent range flags now).2) := by
  unfold onPacketSent
  rw [guarded_eq h.isAborted]
  by_cases hx : range.start < range.stop
  · by_cases hs : range.start ≤ g.board.top
    · obtain ⟨⟨actions, hok⟩, -⟩ := h.sound.processSent hx hs hf now
      rw [hok]
      exact .inr (.inr ⟨hx, hs, actions, rfl⟩)
    · rw [processSent_of_beyond g hx (Nat.lt_of_not_le hs)]
      exact .inr (.inl ⟨hx, Nat.lt_of_not_le hs, ⟨_, rfl⟩, (told_tell g _).stop _⟩)
  · rw [processSent_of_empty g (Nat.le_of_not_lt hx)]
    exact .inl ⟨Nat.le_of_not_lt hx, ⟨_, rfl⟩, rfl⟩

/-- An ack is malformed if it covers data that was never sent. -/
theorem ack_ends (h : g.Running) (ack : Ack) (now : Nat) :
    (g.board.top < ack.cumulative ∧ IsMalformed (g.onAck ack now).2 ∧
      (g.onAck ack now).1 = g.countMalformed) ∨
    (ack.cumulative ≤ g.board.top ∧ Succeeds (g.onAck ack now).2) := by
  by_cases hle : ack.cumulative ≤ g.board.top
  · obtain ⟨-, actions, hok, -⟩ := h.onAck hle now
    exact .inr ⟨hle, actions, hok⟩
  · unfold Engine.onAck
    rw [guarded_eq h.isAborted, processAck_of_beyond (Nat.lt_of_not_le hle)]
    exact .inl ⟨Nat.lt_of_not_le hle, ⟨_, rfl⟩, rfl⟩

/-- An ack that is refused is counted, and that is all. -/
theorem ack_refused (h : g.Running) {ack : Ack} {e : Error} (failed : (g.onAck ack now).2 = .error e) :
    (g.onAck ack now).1 = g.countMalformed := by
  rcases h.ack_ends ack now with ⟨-, -, hcounted⟩ | ⟨-, actions, hok⟩
  · exact hcounted
  · cases hok.symm.trans failed

theorem fire_ends (h : g.Running) (timer : Timer) (generation : Nat) (hasData : Bool) (now : Nat) :
    Succeeds (g.onTimeout timer generation hasData now).2 := by
  rw [onTimeout_eq h.isAborted]
  exact ⟨_, rfl⟩

/-- Carrying out actions fails at the host, or at a send that leaves a gap. The actions before that
send were carried out, and nothing of it was. -/
theorem dispatch_ends (h : g.Running) {σ : Type} (host : Host σ) (w : σ) (actions : Actions)
    (now : Nat) :
    Succeeds (g.dispatch host w actions now).2 ∨
    (∃ m, (g.dispatch host w actions now).2 = .error (.transmitFailed m)) ∨
    (IsViolation (g.dispatch host w actions now).2 ∧ ∃ done rest, actions = done ++ rest ∧
      StoppedFrom (g.dispatchAll host now w 0 done).1 (g.dispatch host w actions now).1.1) := by
  have hall := Sustains.dispatchAll host now maintained_true.aside.sends isFresh_flags ⟨h, trivial⟩ w 0
    actions
  unfold Engine.dispatch
  rw [if_neg (by simp [h.isAborted])]
  dsimp only
  cases hres : (g.dispatchAll host now w 0 actions).2.2 with
  | ok total => exact .inl ⟨total, rfl⟩
  | error e =>
    rw [hres] at hall
    rcases hall with ⟨-, he⟩ | ⟨c, done, rest, hc, hsplit, ht, -⟩
    · obtain ⟨m, rfl⟩ := he e rfl
      exact .inr (.inl ⟨m, rfl⟩)
    · injection hc with hc
      subst hc
      exact .inr (.inr ⟨⟨c, rfl⟩, done, rest, hsplit, ht.stop c⟩)

end Running

end Engine

end LossRecovery
