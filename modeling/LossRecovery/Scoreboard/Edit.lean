import LossRecovery.Error
import LossRecovery.Scoreboard.Basic

/-!
# `LossRecovery.Scoreboard.Edit` — operations on the scoreboard

Each operation either succeeds or leaves the scoreboard alone.

## Contents
- `append`: record a send of new data.
- `split`, `merge`: divide a record, and join two neighbours that have arrived.
- `coalesce`: join all neighbours of an interval that have arrived.
- `cutsNeeded`, `carveMissing`: cut the missing records that reach over the ends of a range.
- `release`, `trim`: release what lies below a new left edge.
-/

namespace LossRecovery

namespace Scoreboard

/-! ## New data -/

/-- Whether a send of `range` goes on with the burst that ended in `last`: same instant, same flags,
never sent again, and no end of stream. -/
def continuesBurst (last : SendRecord) (range : SeqRange) (flags : Flags) (now : Nat) : Bool :=
  last.stop == range.start && last.resends == 0 && last.flags == flags && !flags.fin
    && last.lastSent == now && last.linked

/-- Record a send of new data, which starts at the right edge. The highest record grows if the send
goes on with its burst. -/
def append (b : Scoreboard) (range : SeqRange) (flags : Flags) (now : Nat)
    (appLimitedMark : Nat) : Except Error Scoreboard :=
  if range.isEmpty then .error (.malformed (.emptySend range))
  else if range.start ≠ b.top then .error (.structural (.misplacedSend range b.top))
  else
    let fresh : Scoreboard :=
      { b with
        records := b.records
          ++ [{ SendRecord.ofSend range flags now appLimitedMark with linked := true }]
        order := b.order ++ [range.start]
        top := range.stop }
    match b.records.getLast? with
    | some last =>
      if continuesBurst last range flags now then
        .ok { b with
          records := b.records.dropLast ++ [{ last.restamp now with stop := range.stop }]
          top := range.stop }
      else .ok fresh
    | none => .ok fresh

/-! ## Dividing and joining -/

/-- Divide the record that starts at `start` at `point`, which becomes the start of the upper half.
Nothing is divided once the record limit is reached. -/
def split (b : Scoreboard) (start point : Nat) : Except Error Scoreboard :=
  match b.record? start with
  | none => .error (.structural (.splitUnknown start))
  | some r =>
    if !r.straddles point then .error (.structural (.splitOutside r point))
    else if b.limit ≤ b.size then .error .exhausted
    else .ok (b.refine fun x =>
      if x.start = start then [(x.cut point).1, (x.cut point).2] else [x])

/-- Drop `right` and put `joined` in the place of the record with its start. -/
def replacePair (b : Scoreboard) (joined : SendRecord) (right : Nat) : Scoreboard :=
  { b with
    records := (b.records.filter (·.start != right)).map fun x =>
      if x.start = joined.start then joined else x
    order := b.order.filter (· != right) }

/-- Join two neighbours. There is nothing to do unless both have arrived and neither is a hole. -/
def merge (b : Scoreboard) (left right : Nat) : Except Error Scoreboard :=
  match b.record? left, b.record? right with
  | some l, some r =>
    if l.stop ≠ r.start then .error (.structural (.mergeApart l r))
    else if l.canAbsorb r then .ok (b.replacePair (l.absorb r) right)
    else .error .done
  | _, _ => .error (.structural (.mergeUnknown left right))

/-- A join of two neighbours: the record over both, and the start of the one that vanished. -/
structure Join where
  joined : SendRecord
  vanished : Nat
deriving DecidableEq

/-- Walk up from `l`, joining neighbours near the interval that may be joined. -/
def coalesceFrom (near : SendRecord → Bool) (l : SendRecord) :
    List SendRecord → List SendRecord × List Join
  | [] => ([l], [])
  | r :: rest =>
    if near l && near r && l.canAbsorb r then
      let walked := coalesceFrom near (l.absorb r) rest
      (walked.1, ⟨l.absorb r, r.start⟩ :: walked.2)
    else
      let walked := coalesceFrom near r rest
      (l :: walked.1, walked.2)

/-- Join neighbours of a list of records that are near an interval and may be joined. -/
def coalesceRecords (near : SendRecord → Bool) : List SendRecord → List SendRecord × List Join
  | [] => ([], [])
  | l :: rest => coalesceFrom near l rest

/-- Join all neighbours overlapping `x` that may be joined, and tell which were. -/
def coalesce (b : Scoreboard) (x : SeqRange) : Scoreboard × List Join :=
  let walked := coalesceRecords (·.overlaps x) b.records
  let vanished := walked.2.map (·.vanished)
  ({ b with records := walked.1, order := b.order.filter fun s => !vanished.contains s },
    walked.2)

/-! ## Carving -/

/-- How many cuts it takes until no missing record reaches over an end of `x`. -/
def cutsNeeded (b : Scoreboard) (x : SeqRange) : Nat :=
  let hit := b.overlapping x
  let missingOver (r : SendRecord) (point : Nat) : Bool := !r.isDelivered && r.straddles point
  (hit.head?.any (missingOver · x.start)).toNat + (hit.getLast?.any (missingOver · x.stop)).toNat

/-- Whether the cuts an operation on `x` needs fit under the record limit. -/
def cutsFit (b : Scoreboard) (x : SeqRange) : Bool :=
  b.cutsNeeded x == 0 || b.size + b.cutsNeeded x ≤ b.limit

/-- Carve the part inside `x` out of every missing record, and change that part by `f`. -/
def carveMissing (b : Scoreboard) (x : SeqRange) (f : SendRecord → SendRecord) : Scoreboard :=
  b.refine fun r =>
    if r.overlaps x && !r.isDelivered then
      let carved := r.carve x
      { carved with middle := f carved.middle }.parts
    else [r]

/-! ## Releasing data -/

/-- The records without what lies below `edge`; a record reaching over it starts there. -/
def dropBelow (edge : Nat) : List SendRecord → List SendRecord
  | [] => []
  | r :: rest =>
    if edge ≤ r.start then r :: rest
    else if r.stop ≤ edge then dropBelow edge rest
    else { r with start := edge } :: rest

/-- The scoreboard with its left edge moved up to `edge`, without what lies below. -/
def release (b : Scoreboard) (edge : Nat) : Scoreboard :=
  let reaching := (b.records.find? (·.straddles edge)).map (·.start)
  { b with
    records := dropBelow edge b.records
    order := b.order.filterMap fun s =>
      if edge ≤ s then some s else if reaching = some s then some edge else none
    una := edge }

/-- Move the left edge up to `edge`, releasing what lies below, and tell how many bytes that is. -/
def trim (b : Scoreboard) (edge : Nat) : Except Error (Scoreboard × Nat) :=
  if edge ≤ b.una then .ok (b, 0)
  else if b.top < edge then .error (.malformed (.edgeBeyond edge b.top))
  else .ok (b.release edge, edge - b.una)

end Scoreboard

end LossRecovery
