import LossRecovery.Ack.Basic

/-!
# `LossRecovery.Simulation.Receiver` — the receiving end

## Contents
- `Receiver` with `start`, `accept` and `onSegment`, which answers every segment with an ack.
-/

namespace LossRecovery

/-- The receiving end of a connection. -/
structure Receiver where
  /-- Ranges received above the cumulative ack, the latest first. -/
  blocks : List SeqRange
  /-- The next sequence number expected. -/
  cumulative : Nat
deriving DecidableEq

namespace Receiver

/-- How many blocks an ack reports, a duplicate report aside. -/
def reported : Nat := 3

/-- The receiver before the first segment. -/
def start (isn : Nat) : Receiver := ⟨[], isn⟩

/-- Whether all of a segment was received before. -/
def isDuplicate (r : Receiver) (x : SeqRange) : Bool :=
  x.stop ≤ r.cumulative || r.blocks.any x.within

/-- Whether two ranges overlap or touch. -/
def touches (a b : SeqRange) : Bool := a.start ≤ b.stop && b.start ≤ a.stop

/-- Join `x` with the blocks it overlaps or touches, growing on the way, and keep the others. -/
def absorb (x : SeqRange) : List SeqRange → SeqRange × List SeqRange
  | [] => (x, [])
  | b :: rest =>
    if touches b x then absorb (x.hull b) rest
    else
      let absorbed := absorb x rest
      (absorbed.1, b :: absorbed.2)

/-- Move the cumulative ack over the first block that starts at or below it. -/
def advance (r : Receiver) : Receiver :=
  match r.blocks.find? (·.start ≤ r.cumulative) with
  | none => r
  | some b =>
    { blocks := r.blocks.eraseP (·.start ≤ r.cumulative), cumulative := max r.cumulative b.stop }

/-- Take in a segment. -/
def accept (r : Receiver) (x : SeqRange) : Receiver :=
  if r.isDuplicate x then r
  else
    let absorbed := absorb x r.blocks
    { r with blocks := absorbed.1 :: absorbed.2 }.advance

/-- The blocks of the ack for a segment that was just taken in. -/
def wireBlocks (r : Receiver) (x : SeqRange) (duplicate : Bool) : List SeqRange :=
  if duplicate then x :: r.blocks.take reported else r.blocks.take reported

/-- Take in a segment, and answer with an ack that echoes when it was sent. -/
def onSegment (r : Receiver) (x : SeqRange) (sent : Nat) : Receiver × Ack :=
  let accepted := r.accept x
  let blocks := accepted.wireBlocks x (r.isDuplicate x)
  (accepted, { Ack.ofWire accepted.cumulative blocks Word.max64 with echo := some sent })

end Receiver

end LossRecovery
