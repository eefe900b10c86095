import LossRecovery.Number.Total
import LossRecovery.Sequence.Range

/-!
# `LossRecovery.Sequence.RangeSet` — a bounded set of sequence numbers

A set of sequence numbers kept as an ascending list of ranges that neither overlap nor touch. When
one more range would not fit, the lowest range held is given up for it.

## Contents
- `RangeSet` with `empty`, `insert`, `removeBelow`, `clear`.
- `covers`: whether one range of the set reaches over a given range.
- `minimum`, `maximum`, `size`, `covered`: views of the contents.
-/

namespace LossRecovery

/-- Ascending ranges that neither overlap nor touch, bounded in number. -/
structure RangeSet where
  ranges : List SeqRange
  capacity : Nat
deriving DecidableEq

namespace RangeSet

/-- The set of no numbers. -/
def empty (capacity : Nat) : RangeSet := ⟨[], capacity⟩

/-- Whether a single range of the set reaches over `r`; an empty range is always covered. -/
def covers (s : RangeSet) (r : SeqRange) : Bool := r.isEmpty || s.ranges.any r.within

/-- Add the numbers of `r`. The ranges it overlaps or touches are joined with it; if the others
already fill the set, the lowest of them is given up. -/
def insert (s : RangeSet) (r : SeqRange) : RangeSet :=
  if s.covers r then s
  else
    let below := s.ranges.takeWhile (·.stop < r.start)
    let rest := s.ranges.dropWhile (·.stop < r.start)
    let joined := (rest.takeWhile (·.start ≤ r.stop)).foldl SeqRange.hull r
    let above := rest.dropWhile (·.start ≤ r.stop)
    if below.length + above.length < s.capacity then
      { s with ranges := below ++ joined :: above }
    else match below, above with
      | _ :: below', above => { s with ranges := below' ++ joined :: above }
      | [], _ :: above' => { s with ranges := joined :: above' }
      | [], [] => { s with ranges := [joined] }

/-- Remove all numbers below `seq`. -/
def removeBelow (s : RangeSet) (seq : Nat) : RangeSet :=
  { s with ranges := (s.ranges.filter (seq < ·.stop)).map fun r => ⟨max seq r.start, r.stop⟩ }

/-- Remove all numbers. -/
def clear (s : RangeSet) : RangeSet := { s with ranges := [] }

/-- The least number of the set. -/
def minimum (s : RangeSet) : Option Nat := s.ranges.head?.map (·.start)

/-- The greatest number of the set. -/
def maximum (s : RangeSet) : Option Nat := s.ranges.getLast?.map (·.stop - 1)

/-- How many ranges the set is made of. -/
def size (s : RangeSet) : Nat := s.ranges.length

/-- How many numbers the set holds. -/
def covered (s : RangeSet) : Nat := Number.total (s.ranges.map SeqRange.length)

end RangeSet

end LossRecovery
