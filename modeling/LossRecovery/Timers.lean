import LossRecovery.Time
import LossRecovery.Word

/-!
# `LossRecovery.Timers` — the two timers of a connection

Arming a timer, and cancelling an armed one, hands out a new generation. A firing reports the
generation it was armed with, so a firing overtaken by a later change is told apart.

## Contents
- `Timer`: retransmission and tail loss probe.
- `TimerTable` with `set`, `stop`, `stopAll`, `isCurrent` and `nextTimeout`, and what each leaves
  armed.
-/

namespace LossRecovery

/-- The timers of a connection. -/
inductive Timer where
  /-- When to send the lowest missing data again. -/
  | rto
  /-- When to send a tail loss probe. -/
  | tlp
deriving DecidableEq, Inhabited

namespace Timer

/-- The other timer. -/
def other : Timer → Timer
  | rto => tlp
  | tlp => rto

/-- The name of a timer in messages. -/
def title : Timer → String
  | rto => "Rto"
  | tlp => "Tlp"

end Timer

/-- An armed timer. -/
structure Armed where
  expiry : Nat
  generation : Nat
deriving DecidableEq

/-- What is armed, and the latest generation handed out. -/
structure TimerTable where
  rto : Option Armed := none
  tlp : Option Armed := none
  generation : Nat := 0
deriving DecidableEq, Inhabited

namespace TimerTable

/-- What is armed on a timer. -/
def armed? (t : TimerTable) : Timer → Option Armed
  | .rto => t.rto
  | .tlp => t.tlp

/-- Replace what is armed on a timer. -/
def put (t : TimerTable) (timer : Timer) (armed : Option Armed) : TimerTable :=
  match timer with
  | .rto => { t with rto := armed }
  | .tlp => { t with tlp := armed }

/-- When a timer expires. -/
def expiry? (t : TimerTable) (timer : Timer) : Option Nat := (t.armed? timer).map (·.expiry)

/-- The generation after the latest one. -/
def nextGeneration (t : TimerTable) : Nat := Word.wrap (t.generation + 1)

/-- Arm a timer under a new generation. -/
def set (t : TimerTable) (timer : Timer) (expiry : Nat) : TimerTable :=
  { t.put timer (some ⟨expiry, t.nextGeneration⟩) with generation := t.nextGeneration }

/-- Cancel a timer; a new generation starts if it was armed. -/
def stop (t : TimerTable) (timer : Timer) : TimerTable :=
  match t.armed? timer with
  | some _ => { t.put timer none with generation := t.nextGeneration }
  | none => t

/-- Cancel both timers and start a new generation. -/
def stopAll (t : TimerTable) : TimerTable := ⟨none, none, t.nextGeneration⟩

/-- Whether a firing of `timer` with `generation` belongs to what is armed. -/
def isCurrent (t : TimerTable) (timer : Timer) (generation : Nat) : Bool :=
  match t.armed? timer with
  | some a => a.generation == generation
  | none => false

/-- When the first timer expires. -/
def nextTimeout (t : TimerTable) : Option Nat :=
  match t.expiry? .rto, t.expiry? .tlp with
  | some a, some b => some (min a b)
  | some a, none => some a
  | none, b => b

/-! ## Laws -/

variable {t : TimerTable} {timer : Timer} {expiry generation : Nat}

@[simp] theorem armed?_set :
    (t.set timer expiry).armed? timer = some ⟨expiry, t.nextGeneration⟩ := by
  cases timer <;> rfl

@[simp] theorem armed?_set_other : (t.set timer expiry).armed? timer.other = t.armed? timer.other := by
  cases timer <;> rfl

@[simp] theorem armed?_stop : (t.stop timer).armed? timer = none := by
  unfold stop
  cases h : t.armed? timer with
  | none => exact h
  | some a => cases timer <;> rfl

@[simp] theorem armed?_stop_other : (t.stop timer).armed? timer.other = t.armed? timer.other := by
  unfold stop
  cases h : t.armed? timer with
  | none => rfl
  | some a => cases timer <;> rfl

@[simp] theorem armed?_stopAll : t.stopAll.armed? timer = none := by
  cases timer <;> rfl

theorem expiry?_eq_none : t.expiry? timer = none ↔ t.armed? timer = none := by
  simp [expiry?]

theorem nextTimeout_eq_none : t.nextTimeout = none ↔ ∀ timer, t.armed? timer = none := by
  constructor
  · intro h timer
    unfold nextTimeout at h
    split at h
    · cases h
    · cases h
    · next hr =>
      cases timer with
      | rto => exact expiry?_eq_none.mp hr
      | tlp => exact expiry?_eq_none.mp h
  · intro h
    simp [nextTimeout, expiry?, h]

theorem isCurrent_iff :
    t.isCurrent timer generation = true ↔ ∃ a, t.armed? timer = some a ∧ a.generation = generation := by
  unfold isCurrent
  cases h : t.armed? timer with
  | none => simp
  | some a => simp

end TimerTable

end LossRecovery
