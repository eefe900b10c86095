/-!
# `LossRecovery.Word` — machine-word arithmetic on natural numbers

All quantities of the engine are natural numbers. Where a 64-bit or 32-bit counter stops at its
largest value, or where a scaled product or a clock is cut down to 64 bits, the operation is named here.

Plain sums and products of words are left as they are: the segments of a send, the range of a probe above
the right edge, the bytes that actions add up to. A machine that checks them gives up a call whose result
is too large, and the engine that would come back is not one it reaches. `Proofs.Figures` lists them for
each call that can fail, and `Proofs.Headroom` tells when all of them fit. Counters of events, which grow by
one at a time, are taken not to run out.

## Contents
- `max64`, `max32`: the largest word of each width.
- `add`, `mul`: addition and multiplication that stop at `max64`.
- `wrap`, `wrap32`: the low 64 or 32 bits of a number.
- `incr32`: counting that stops at `max32`.
-/

namespace LossRecovery.Word

/-- The largest 64-bit word. -/
def max64 : Nat := 0xffffffffffffffff

/-- The largest 32-bit word. -/
def max32 : Nat := 0xffffffff

/-- Addition that stops at the largest 64-bit word. -/
def add (a b : Nat) : Nat := min (a + b) max64

/-- Multiplication that stops at the largest 64-bit word. -/
def mul (a b : Nat) : Nat := min (a * b) max64

/-- The low 64 bits of a number. -/
def wrap (n : Nat) : Nat := n % 0x10000000000000000

/-- The low 32 bits of a number. -/
def wrap32 (n : Nat) : Nat := n % 0x100000000

/-- Counting one more, stopping at the largest 32-bit word. -/
def incr32 (n : Nat) : Nat := min (n + 1) max32

/-! ## Laws -/

theorem add_le (a b : Nat) : add a b ≤ max64 := Nat.min_le_right _ _

theorem add_eq {a b : Nat} (h : a + b ≤ max64) : add a b = a + b := Nat.min_eq_left h

theorem wrap_le (n : Nat) : wrap n ≤ n := Nat.mod_le _ _

theorem wrap_le_max64 (n : Nat) : wrap n ≤ max64 := by
  unfold wrap max64
  omega

theorem wrap_eq {n : Nat} (h : n ≤ max64) : wrap n = n := by
  unfold wrap
  unfold max64 at h
  omega

end LossRecovery.Word
