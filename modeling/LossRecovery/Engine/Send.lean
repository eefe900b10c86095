import LossRecovery.Engine.State

/-!
# `LossRecovery.Engine.Send` — reports of what was sent

The part of a sent range below the right edge was sent again, the rest is new data.

## Contents
- `noteStale`: an action came too late.
- `resendRange`: accounting for data sent again.
- `appendNew`: recording new data.
- `processSent`, `onPacketSent`: a report as a whole.
-/

namespace LossRecovery

namespace Engine

variable {κ : Type} [CongestionLaw κ]

/-- Note that an action came too late: its data has arrived meanwhile. -/
def noteStale (g : Engine κ) (range : SeqRange) : Engine κ :=
  ({ g with stats := { g.stats with staleActions := g.stats.staleActions + 1 } }.tell
    [.actionStale range g.board.una]).count .staleActions 1

/-! ## Data sent again -/

/-- A record that was sent again. -/
def resentRecord (flags : Flags) (afterTimeout : Bool) (now : Nat) (r : SendRecord) :
    SendRecord :=
  let r := r.resend now
  { r with
    dupacks := 0
    flags := { r.flags with
      probe := flags.probe
      toResend := r.flags.toResend || afterTimeout }
    hole := true
    linked := true }

/-- The part of a record that a resend of `range` stands for: all of it if cuts do not fit. -/
def resentPart (range : SeqRange) (fits : Bool) (r : SendRecord) : SendRecord :=
  if fits then (r.carve range).middle else r

/-- The scoreboard after the missing records of `range` were sent again. They are the most recently
sent ones now. -/
def resendOnBoard (b : Scoreboard) (range : SeqRange) (fits : Bool)
    (change : SendRecord → SendRecord) : Scoreboard :=
  let starts := ((b.overlapping range).filter fun r => !r.isDelivered).map
    fun r => (resentPart range fits r).start
  let changed :=
    if fits then b.carveMissing range change
    else b.modify fun r => if r.overlaps range && !r.isDelivered then change r else r
  { changed with order := changed.order.filter (fun s => !starts.contains s) ++ starts }

/-- Account for a missing record sent again, given as it was before. -/
def countResent (range : SeqRange) (fits : Bool) (change : SendRecord → SendRecord)
    (g : Engine κ) (r : SendRecord) : Engine κ :=
  let part := resentPart range fits r
  let cuts := if fits then (r.carve range).cuts else 0
  let events := if fits then r.carveEvents range else []
  { g with
    ledger := { g.ledger with
      holeBytes := if part.hole then g.ledger.holeBytes else g.ledger.holeBytes + part.length }
    sink := Nat.repeat (fun s => s.add .segmentsSplit 1) cuts g.sink }.tell
    (events ++ [Event.recordResent (change part)])

/-- Note that data sent again is accounted for by whole records, since cuts do not fit. -/
def noteWhole (g : Engine κ) (range : SeqRange) : Engine κ :=
  ({ g with stats := { g.stats with splitsRefused := g.stats.splitsRefused + 1 } }.tell
    [.resentWhole range g.board.size]).count .splitsRefused 1

/-- Account for data sent again, and tell how many bytes were counted. -/
def resendRange (g : Engine κ) (range : SeqRange) (flags : Flags) (now : Nat) :
    Engine κ × Nat :=
  let range : SeqRange := ⟨max range.start g.board.una, range.stop⟩
  if range.isEmpty then (g.noteStale range, 0)
  else
    let fits : Bool := g.board.size + g.board.cutsNeeded range ≤ g.board.limit
    let g := if fits then g else g.noteWhole range
    let change := resentRecord flags (g.schedule.stage == .rtoPending) now
    let missing := (g.board.overlapping range).filter fun r => !r.isDelivered
    let total := Number.total (missing.map fun r => (resentPart range fits r).length)
    let counted := missing.foldl (countResent range fits change) g
    let g := { counted with board := resendOnBoard g.board range fits change }
    if total = 0 then (g.noteStale range, 0)
    else
      ({ g with stats := { g.stats with
          retransmittedBytes := Word.add g.stats.retransmittedBytes total } }.count
        .retransmittedBytes total, total)

/-! ## New data -/

/-- Record new data. A tail loss probe is outstanding up to the end of the data it carries. -/
def appendNew (g : Engine κ) (range : SeqRange) (flags : Flags) (now : Nat) :
    Engine κ × Except Error Unit :=
  let result := g.board.append range flags now (if flags.appLimited then range.stop else 0)
  let g := g.tell (g.board.appendEvents range result)
  match result with
  | .error e => (g, .error e)
  | .ok board =>
    let g := { g with board := board }
    if g.schedule.stage = .tlpPending ∧ flags.probe = true then
      ({ g with schedule := { g.schedule with probeEnd := some range.stop } }, .ok ())
    else (g, .ok ())

/-! ## A report as a whole -/

/-- Account for the bytes of a send, and arm a timer if the stage calls for it. -/
def accountSent (g : Engine κ) (sent : Nat) (now : Nat) : Engine κ × Actions :=
  if sent = 0 then (g, [])
  else
    let g := { g with
      ledger := g.ledger.spend sent
      pacing := g.pacing.spend sent
      stats := { g.stats with sentBytes := Word.add g.stats.sentBytes sent } }
    if (g.schedule.stage = .steady ∧ g.settings.tlpEnabled = true)
        ∨ g.schedule.timers.expiry? .rto = none then
      let armed := g.rearm now
      (armed.1, [armed.2])
    else (g, [])

/-- Take in the report of a send. -/
def processSent (g : Engine κ) (range : SeqRange) (flags : Flags) (now : Nat) :
    Engine κ × Except Error Actions :=
  if range.isEmpty then (g, .error (.malformed (.emptySend range)))
  else
    let top := g.board.top
    let resent :=
      if range.start < top then g.resendRange ⟨range.start, min range.stop top⟩ flags now
      else (g, 0)
    if range.stop ≤ top then
      let done := resent.1.accountSent resent.2 now
      (done.1, done.1.audited done.2)
    else
      let fresh : SeqRange := ⟨max range.start top, range.stop⟩
      let appended := resent.1.appendNew fresh flags now
      match appended.2 with
      | .error e => (appended.1, .error e)
      | .ok () =>
        let done := appended.1.accountSent (resent.2 + fresh.length) now
        (done.1, done.1.audited done.2)

/-- Report that `range` was sent. New data has to start at the right edge. -/
def onPacketSent (g : Engine κ) (range : SeqRange) (flags : Flags) (now : Nat) :
    Engine κ × Except Error Actions :=
  g.guarded fun g => g.processSent range flags now

end Engine

end LossRecovery
