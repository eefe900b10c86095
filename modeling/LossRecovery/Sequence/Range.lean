/-!
# `LossRecovery.Sequence.Range` — half-open ranges of sequence numbers

## Contents
- `SeqRange`: the numbers from `start` up to, but not including, `stop`. A range whose stop does not
  lie above its start is empty; ranges reported by a peer may well be empty or reversed.
- `isEmpty`, `length`, `contains`, `within`, `hull`, `text`.
-/

namespace LossRecovery

/-- The sequence numbers from `start` up to, but not including, `stop`. -/
structure SeqRange where
  start : Nat
  stop : Nat
deriving DecidableEq, Inhabited

namespace SeqRange

/-- Whether no number lies in the range. -/
def isEmpty (r : SeqRange) : Bool := r.stop ≤ r.start

/-- How many numbers lie in the range. -/
def length (r : SeqRange) : Nat := r.stop - r.start

/-- Whether `seq` lies in the range. -/
def contains (r : SeqRange) (seq : Nat) : Bool := r.start ≤ seq && seq < r.stop

/-- Whether both ends of `r` lie between the ends of `outer`. -/
def within (r outer : SeqRange) : Bool := outer.start ≤ r.start && r.stop ≤ outer.stop

/-- The smallest range reaching over both ranges. -/
def hull (a b : SeqRange) : SeqRange := ⟨min a.start b.start, max a.stop b.stop⟩

/-- A range as it is written in messages. -/
def text (r : SeqRange) : String := s!"{r.start}..{r.stop}"

/-! ## Laws -/

theorem contains_iff {r : SeqRange} {seq : Nat} :
    r.contains seq = true ↔ r.start ≤ seq ∧ seq < r.stop := by
  simp [contains]

theorem isEmpty_iff {r : SeqRange} : r.isEmpty = true ↔ r.stop ≤ r.start := by
  simp [isEmpty]

end SeqRange

end LossRecovery
