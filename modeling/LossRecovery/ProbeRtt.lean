import LossRecovery.Phase
import LossRecovery.Time

/-!
# `LossRecovery.ProbeRtt` — draining the path to renew the least RTT

When the least RTT has not been renewed for long, the data in flight is held down to a small floor
for a while, so that a sample without queueing is taken.

## Contents
- `ProbeRtt` with `check`, `cancel` and `isActive`; `ProbeStep`: what a check brought about.
-/

namespace LossRecovery

/-- A probe in progress. -/
structure Probing where
  /-- The phase to go back to. -/
  prior : Phase
  /-- When the probe ends, once the floor was reached. -/
  done : Option Nat
deriving DecidableEq

/-- The probing of the least RTT. -/
structure ProbeRtt where
  /-- Time without a new least RTT before probing. -/
  interval : Nat
  /-- How long the floor is held. -/
  duration : Nat
  /-- The most bytes in flight while probing. -/
  floor : Nat
  probing : Option Probing := none
deriving DecidableEq

/-- What a check brought about. -/
inductive ProbeStep where
  | unchanged
  | entered
  | left (prior : Phase)
deriving DecidableEq

namespace ProbeRtt

/-- Whether a probe is in progress. -/
def isActive (p : ProbeRtt) : Bool := p.probing.isSome

/-- Start a probe, note that the floor was reached, or end the probe. -/
def check (p : ProbeRtt) (stamp : Nat) (phase : Phase) (pipe : Nat) (now : Nat) :
    ProbeRtt × ProbeStep :=
  match p.probing with
  | none =>
    if p.interval < Time.since now stamp then
      ({ p with probing := some ⟨phase, none⟩ }, .entered)
    else (p, .unchanged)
  | some ⟨prior, none⟩ =>
    if pipe ≤ p.floor then
      ({ p with probing := some ⟨prior, some (now + p.duration)⟩ }, .unchanged)
    else (p, .unchanged)
  | some ⟨prior, some done⟩ =>
    if done ≤ now then ({ p with probing := none }, .left prior) else (p, .unchanged)

/-- Give up a probe. -/
def cancel (p : ProbeRtt) : ProbeRtt := { p with probing := none }

end ProbeRtt

end LossRecovery
