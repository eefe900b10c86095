import LossRecovery.Ack.Basic
import LossRecovery.Ack.Outcome
import LossRecovery.Number.Total
import LossRecovery.RecoveryLedger
import LossRecovery.Scoreboard.Narration
import LossRecovery.Sequence.RangeSet
import LossRecovery.Sorting

/-!
# `LossRecovery.Ack.Process` — applying an ack to the scoreboard

An ack releases what lies below its cumulative ack, marks the records in its blocks, and counts the
ack against the records that are passed over. Blocks that make no sense are left out, as are blocks
whose cuts would not fit under the record limit.

## Contents
- `SackTracker`: what is remembered between acks.
- `AckPass`: the state of one pass, with the steps `advance`, `checkWindow`, `applyBlock`,
  `countAgainst` and `applyDuplicate`.
- `AckPass.process`: all steps in order.
-/

namespace LossRecovery

/-- What is remembered between acks. -/
structure SackTracker where
  /-- Ranges above the left edge recorded as SACKed. -/
  filter : RangeSet
  /-- The highest number known to have arrived, plus one. -/
  highest : Nat
  /-- Whether records are flagged as beyond a collapsed window. -/
  collapsed : Bool := false
  /-- The window of the latest ack. -/
  window : Nat := Word.max64
deriving DecidableEq

/-- The tracker before the first ack. The filter remembers at least one range. -/
def SackTracker.start (una filterRanges : Nat) : SackTracker where
  filter := RangeSet.empty (max filterRanges 1)
  highest := una

/-- What an ack is judged by: the ack itself, the least RTT, and the time of its arrival. -/
structure AckInput where
  ack : Ack
  minRtt : Nat
  now : Nat
deriving DecidableEq

/-- The state of one pass over an ack. -/
structure AckPass where
  board : Scoreboard
  tracker : SackTracker
  ledger : RecoveryLedger
  recent : RecentAck
  outcome : AckOutcome := {}
  /-- What there is to tell, latest first. -/
  journal : List Event := []
deriving DecidableEq

namespace AckPass

/-- Note what happened, in the given order. -/
def tell (p : AckPass) (events : List Event) : AckPass :=
  { p with journal := events.reverse ++ p.journal }

/-- Take in the delivery of a record, given as it was before. -/
def deliver (i : AckInput) (p : AckPass) (r : SendRecord) : AckPass :=
  let d := Delivery.ofRecord r
  { p with
    recent := p.recent.update d i.ack.echo i.minRtt i.now
    outcome := p.outcome.record d i.ack.echo (i.ack.echo.any r.wasSentAt) i.now }

/-! ## The cumulative ack -/

/-- Account for the part of a record below the new left edge. -/
def releaseRecord (i : AckInput) (p : AckPass) (r : SendRecord) : AckPass :=
  let covered := min r.stop i.ack.cumulative - r.start
  let holeBytes := if r.hole then p.ledger.holeBytes - covered else p.ledger.holeBytes
  if r.flags.sacked then
    { p with ledger := { p.ledger with
        holeBytes := holeBytes, sackedBytes := p.ledger.sackedBytes - covered } }
  else
    { p with
      ledger := { p.ledger with holeBytes := holeBytes }
      outcome := { p.outcome with cumulative := p.outcome.cumulative + covered } }.deliver i r

/-- Move the left edge up to the cumulative ack. -/
def advance (i : AckInput) (p : AckPass) : AckPass :=
  let edge := i.ack.cumulative
  let p := (p.board.overlapping ⟨p.board.una, edge⟩).foldl (releaseRecord i) p
  { p with
    board := p.board.release edge
    tracker := { p.tracker with
      filter := p.tracker.filter.removeBelow edge
      highest := max p.tracker.highest edge }
    outcome := { p.outcome with advanced := true } }

/-- Whether the ack does nothing but repeat the cumulative ack while data is outstanding. -/
def isDuplicate (i : AckInput) (p : AckPass) : Bool :=
  !p.outcome.advanced && i.ack.cumulative == p.board.una && i.ack.blocks.isEmpty
    && i.ack.duplicate.isNone && i.ack.window == p.tracker.window && 0 < p.board.outstanding

/-- Note whether the ack is a duplicate, and remember its window. -/
def noteDuplicateAck (i : AckInput) (p : AckPass) : AckPass :=
  { p with
    outcome := { p.outcome with duplicate := p.isDuplicate i }
    tracker := { p.tracker with window := i.ack.window } }

/-! ## The receive window -/

/-- Flag the records beyond the receive window, or clear the flags once it reaches over all data. -/
def checkWindow (i : AckInput) (p : AckPass) : AckPass :=
  let edge := Word.add p.board.una i.ack.window
  if edge < p.board.top then
    let newly := p.board.records.countP fun r => edge ≤ r.start && !r.flags.collapsed
    { p with
      board := p.board.modify fun r =>
        if edge ≤ r.start then { r with flags := { r.flags with collapsed := true } } else r
      outcome := { p.outcome with collapsed := p.outcome.collapsed + newly }
      tracker := { p.tracker with collapsed := true } }.tell
      (if p.tracker.collapsed then [] else [.windowCollapsed edge p.board.top])
  else if p.tracker.collapsed then
    { p with
      board := p.board.modify fun r => { r with flags := { r.flags with collapsed := false } }
      tracker := { p.tracker with collapsed := false } }
  else p

/-! ## Blocks -/

/-- A record that a block has delivered. -/
def sackedRecord (now : Nat) (r : SendRecord) : SendRecord :=
  { r with
    flags := { r.flags with sacked := true }
    ackedAt := some now
    hole := false
    linked := false }

/-- Account for the part of a missing record inside a block. -/
def sackRecord (i : AckInput) (block : SeqRange) (p : AckPass) (r : SendRecord) : AckPass :=
  let carved := r.carve block
  let part := carved.middle
  { p with
    tracker := { p.tracker with highest := max p.tracker.highest part.stop }
    ledger := { p.ledger with
      holeBytes := if part.hole then p.ledger.holeBytes - part.length else p.ledger.holeBytes
      sackedBytes := p.ledger.sackedBytes + part.length }
    outcome := { p.outcome with
      sacked := p.outcome.sacked + part.length
      splits := p.outcome.splits + carved.cuts } }.deliver i part
    |>.tell (r.carveEvents block ++ [Event.recordSacked (sackedRecord i.now part)])

/-- Join the records that have arrived in and around a block. -/
def joinAround (p : AckPass) (block : SeqRange) : AckPass :=
  let result := p.board.coalesce ⟨block.start - 1, block.stop + 1⟩
  { p with
    board := result.1
    outcome := { p.outcome with merged := p.outcome.merged + result.2.length } }.tell
    (Scoreboard.joinEvents result.2)

/-- Mark the missing bytes of a block as SACKed. -/
def markBlock (i : AckInput) (p : AckPass) (block : SeqRange) : AckPass :=
  let missing := (p.board.overlapping block).filter fun r => !r.isDelivered
  let marked := missing.foldl (sackRecord i block) p
  { marked with board := p.board.carveMissing block (sackedRecord i.now) }.joinAround block

/-- Whether a block makes sense for the outstanding data. -/
def isProper (b : Scoreboard) (block : SeqRange) : Bool :=
  block.start < block.stop && block.stop ≤ b.top && b.una < block.stop

/-- Apply one block, unless it makes no sense, is known, or does not fit. -/
def applyBlock (i : AckInput) (p : AckPass) (block : SeqRange) : AckPass :=
  if !isProper p.board block then
    { p with outcome := { p.outcome with malformed := p.outcome.malformed + 1 } }.tell
      [.blockMalformed block p.board.una p.board.top]
  else
    let block : SeqRange := ⟨max block.start p.board.una, block.stop⟩
    if p.tracker.filter.covers block then
      { p with outcome := { p.outcome with filtered := p.outcome.filtered + 1 } }
    else if !p.board.cutsFit block then
      { p with outcome := { p.outcome with refused := p.outcome.refused + 1 } }.tell
        [.blockRefused block p.board.size]
    else
      let p := p.markBlock i block
      { p with tracker := { p.tracker with filter := p.tracker.filter.insert block } }

/-- Apply all blocks in ascending order of their starts. -/
def applyBlocks (i : AckInput) (p : AckPass) : AckPass :=
  (Sorting.sortByKey (·.start) i.ack.blocks).foldl (applyBlock i) p

/-! ## Duplicate acks -/

/-- Whether acks are counted against a record: it is missing and was not sent again as a hole. -/
def countable (r : SendRecord) : Bool := !r.isDelivered && !r.hole

/-- Count an ack against a record. -/
def countDupack (r : SendRecord) : SendRecord := { r with dupacks := Word.incr32 r.dupacks }

/-- Count an ack that delivered data against every record below the highest delivered number. -/
def countPassed (p : AckPass) : AckPass :=
  { p with board := p.board.modify fun r =>
      if countable r && r.start < p.tracker.highest then
        { countDupack r with flags := { r.flags with sackPassed := true } }
      else r }

/-- Count a duplicate ack against the lowest record. -/
def countRepeated (p : AckPass) : AckPass :=
  match p.board.records with
  | [] => p
  | head :: rest =>
    if countable head then
      { p with board := { p.board with records := countDupack head :: rest } }.tell
        [.duplicateAck (countDupack head).dupacks head.range]
    else p

/-- Count the ack against the records it passes over. -/
def countAgainst (p : AckPass) : AckPass :=
  if 0 < p.outcome.sacked then p.countPassed
  else if p.outcome.duplicate then p.countRepeated
  else p

/-! ## Duplicate reports -/

/-- How many bytes of a record lie in `x`, if it was sent again. -/
def resentOverlap (x : SeqRange) (r : SendRecord) : Nat :=
  if 0 < r.resends then min r.stop x.stop - max r.start x.start else 0

/-- Take in a report of data received twice. -/
def applyDuplicate (i : AckInput) (p : AckPass) (x : SeqRange) : AckPass :=
  if x.isEmpty || p.board.top < x.stop then
    { p with outcome := { p.outcome with malformed := p.outcome.malformed + 1 } }.tell
      [.dsackMalformed x]
  else
    let una := p.board.una
    let above : SeqRange := ⟨max x.start una, x.stop⟩
    let below := min x.stop una - x.start
    let within := Number.total ((p.board.overlapping above).map (resentOverlap x))
    let recent := p.recent.noteDuplicate una p.board.top i.now
    let spurious := p.outcome.spuriousBytes + below + within
    { p with
      board := p.board.modify fun r =>
        if !above.isEmpty && r.overlaps above then
          { r with flags := { r.flags with duplicated := true } }
        else r
      recent := recent
      outcome := { p.outcome with duplicateReport := true, spuriousBytes := spurious } }.tell
      [.dsackApplied x spurious recent.multiplier]

/-! ## The whole ack -/

/-- The steps of a pass over an ack that lies within the data sent. -/
def run (i : AckInput) (p : AckPass) : AckPass :=
  let p := if p.board.una < i.ack.cumulative then p.advance i else p
  let p := (((p.noteDuplicateAck i).checkWindow i).applyBlocks i).countAgainst
  match i.ack.duplicate with
  | some x => p.applyDuplicate i x
  | none => p

/-- Apply an ack. It is refused as a whole if it acknowledges data that was never sent. -/
def process (i : AckInput) (p : AckPass) : Except Error AckPass :=
  if p.board.top < i.ack.cumulative then
    .error (.malformed (.ackBeyond i.ack.cumulative p.board.top))
  else .ok (p.run i)

end AckPass

end LossRecovery
