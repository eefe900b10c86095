/-!
# `LossRecovery.Time` — instants and durations

The engine reads no clock: every call is told the current instant. An instant is the number of
nanoseconds after an arbitrary origin, a duration a number of nanoseconds. Both are plain natural
numbers, so that the laws of arithmetic apply to them as they are. A machine has a longest duration and a
last instant, and gives up a call that goes beyond, say to a timer that expires too late, or to a probe
timeout that allows for acks delayed too long. `Proofs.Figures` lists these sums for each call that can
fail.

## Contents
- `microsecond`, `millisecond`, `second`: the units in nanoseconds.
- `since`: the time from one instant to a later one.
- `toMicros`: the whole microseconds of a duration.
-/

namespace LossRecovery.Time

/-- Nanoseconds of a microsecond. -/
def microsecond : Nat := 1000

/-- Nanoseconds of a millisecond. -/
def millisecond : Nat := 1000000

/-- Nanoseconds of a second. -/
def second : Nat := 1000000000

/-- The time from `earlier` to `now`, zero if `earlier` lies ahead. -/
def since (now earlier : Nat) : Nat := now - earlier

/-- Whole microseconds of a duration. -/
def toMicros (d : Nat) : Nat := d / microsecond

end LossRecovery.Time
