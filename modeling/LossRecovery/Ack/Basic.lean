import LossRecovery.Sequence.Range
import LossRecovery.Time
import LossRecovery.Word

/-!
# `LossRecovery.Ack.Basic` — inbound acknowledgements

## Contents
- `Ack`: the cumulative ack with its selective blocks, duplicate report, window and time echo.
- `Ack.ofWire`: reading blocks as a receiver sends them.
-/

namespace LossRecovery

/-- An inbound acknowledgement. -/
structure Ack where
  /-- The next sequence number the receiver expects. -/
  cumulative : Nat
  /-- Blocks received above the cumulative ack. -/
  blocks : List SeqRange := []
  /-- A block received twice. -/
  duplicate : Option SeqRange := none
  /-- How many bytes the receiver takes beyond the cumulative ack. -/
  window : Nat := Word.max64
  /-- When the segment that triggered the ack was sent. -/
  echo : Option Nat := none
deriving DecidableEq

namespace Ack

/-- Whether the first block on the wire reports a duplicate: it lies below the cumulative ack, or
inside the block after it. -/
def reportsDuplicate (cumulative : Nat) (first : SeqRange) (rest : List SeqRange) : Bool :=
  first.stop ≤ cumulative || rest.head?.any first.within

/-- The ack with the given blocks on the wire. -/
def ofWire (cumulative : Nat) (blocks : List SeqRange) (window : Nat) : Ack :=
  match blocks with
  | [] => { cumulative := cumulative, window := window }
  | first :: rest =>
    if reportsDuplicate cumulative first rest then
      { cumulative := cumulative, blocks := rest, duplicate := some first, window := window }
    else { cumulative := cumulative, blocks := blocks, window := window }

end Ack

end LossRecovery
