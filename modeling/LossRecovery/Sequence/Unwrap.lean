import LossRecovery.Word

/-!
# `LossRecovery.Sequence.Unwrap` — from 32-bit wire numbers to 64-bit sequence numbers

A wire number names one sequence number in every block of 2^32. The one meant is the one nearest to
what the reader expects.

## Contents
- `epoch`: the size of a block.
- `unwrap`: the candidate in the block of the expected number, or its neighbour one block away.
-/

namespace LossRecovery.Sequence

/-- The number of 32-bit wire numbers. -/
def epoch : Nat := 0x100000000

/-- The sequence number a wire number stands for, given the number the reader expects. -/
def unwrap (wire expected : Nat) : Nat :=
  let candidate := expected - expected % epoch + wire
  if Word.add candidate (epoch / 2) ≤ expected ∧ candidate < Word.max64 - epoch then
    candidate + epoch
  else if candidate > Word.add expected (epoch / 2) ∧ candidate ≥ epoch then
    candidate - epoch
  else candidate

end LossRecovery.Sequence
