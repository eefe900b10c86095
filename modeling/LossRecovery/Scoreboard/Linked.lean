import LossRecovery.Error
import LossRecovery.Scoreboard.Basic

/-!
# `LossRecovery.Scoreboard.Linked` — a scoreboard whose parts may disagree

A `Scoreboard` holds every fact once, so most damage cannot even be written down. A linked board
keeps the same facts with redundancy: an index files the records by start, each record names its
neighbours in the sending order, and a counter says how many are linked. A record that is changed
without telling the other parts leaves a damaged board, which the audit finds.

Records are known by the number they got when they were made, which is given out again once they are
dropped. Operations follow the index and the links as they stand, whether they fit together or not.

## Contents
- `Linked`, `LinkedBoard` with `empty`.
- `record?`, `records`, `containing?`, `overlapping`, `lowest?`, `highest?`: looking records up.
- `change`: overwrite a record behind the back of the index and the links.
- `unlink`, `relink`, `linkAfter`, `ordered`: the sending order.
- `append`, `split`, `merge`, `trim`: the operations of a scoreboard.
- `audit`: the check that index, records, links and counter fit together.
-/

namespace LossRecovery

/-- A record with its neighbours in the sending order. -/
structure Linked where
  record : SendRecord
  /-- The number of the record sent next. -/
  newer : Option Nat := none
  /-- The number of the record sent before. -/
  older : Option Nat := none
deriving DecidableEq

/-- A scoreboard with an index and links of its own. -/
structure LinkedBoard where
  /-- The records in use by number. -/
  cells : List (Nat × Linked) := []
  /-- The numbers of the records by start, ascending. -/
  index : List (Nat × Nat) := []
  /-- The number of the least recently sent record. -/
  oldest : Option Nat := none
  /-- The number of the most recently sent record. -/
  newest : Option Nat := none
  /-- How many records are linked. -/
  count : Nat := 0
  /-- The numbers of dropped records, the last dropped first. -/
  vacant : List Nat := []
  /-- The lowest unacknowledged sequence number. -/
  una : Nat
  /-- One past the highest sequence number sent. -/
  top : Nat
  /-- The number of records beyond which no record is divided. -/
  limit : Nat
deriving DecidableEq

namespace LinkedBoard

/-- A board without outstanding data. It always has room for two records. -/
def empty (una limit : Nat) : LinkedBoard := { una := una, top := una, limit := max limit 2 }

/-! ## Looking records up -/

/-- The record with a number, and its neighbours. -/
def cell? (b : LinkedBoard) (number : Nat) : Option Linked := b.cells.lookup number

/-- The record with a number. -/
def record? (b : LinkedBoard) (number : Nat) : Option SendRecord :=
  (b.cell? number).map (·.record)

/-- The records in the order of the index. -/
def records (b : LinkedBoard) : List SendRecord := b.index.filterMap fun entry => b.record? entry.2

/-- The record that the index files last at or below `seq`, if `seq` belongs to it. -/
def containing? (b : LinkedBoard) (seq : Nat) : Option (Nat × SendRecord) :=
  match (b.index.takeWhile (·.1 ≤ seq)).getLast? with
  | none => none
  | some entry => ((b.record? entry.2).filter (·.contains seq)).map (entry.2, ·)

/-- The numbers of the record that the first sequence number of `x` belongs to, and of those filed
further up in `x`. -/
def overlapping (b : LinkedBoard) (x : SeqRange) : List Nat :=
  if x.isEmpty then []
  else
    ((b.containing? x.start).map (·.1)).toList
      ++ (b.index.filter fun entry => x.start < entry.1 && entry.1 < x.stop).map (·.2)

/-- The record that the index files first. -/
def lowest? (b : LinkedBoard) : Option SendRecord := b.index.head?.bind fun e => b.record? e.2

/-- The record that the index files last. -/
def highest? (b : LinkedBoard) : Option SendRecord := b.index.getLast?.bind fun e => b.record? e.2

/-! ## Changing records -/

/-- Change a record with its links. -/
def changeCell (b : LinkedBoard) (number : Nat) (f : Linked → Linked) : LinkedBoard :=
  { b with cells := b.cells.map fun c => if c.1 = number then (c.1, f c.2) else c }

/-- Change a record, of which neither the index nor the links are told. -/
def change (b : LinkedBoard) (number : Nat) (f : SendRecord → SendRecord) : LinkedBoard :=
  b.changeCell number fun c => { c with record := f c.record }

/-- Set the newer neighbour of a record, or the oldest record if there is none. -/
def setNewer (b : LinkedBoard) (number? newer : Option Nat) : LinkedBoard :=
  match number? with
  | some number => b.changeCell number fun c => { c with newer := newer }
  | none => { b with oldest := newer }

/-- Set the older neighbour of a record, or the newest record if there is none. -/
def setOlder (b : LinkedBoard) (number? older : Option Nat) : LinkedBoard :=
  match number? with
  | some number => b.changeCell number fun c => { c with older := older }
  | none => { b with newest := older }

/-! ## The sending order -/

/-- Take a record out of the sending order, if it is linked. -/
def unlink (b : LinkedBoard) (number : Nat) : LinkedBoard :=
  match b.cell? number with
  | none => b
  | some c =>
    if !c.record.linked then b
    else
      let b := b.changeCell number fun c => ⟨{ c.record with linked := false }, none, none⟩
      let b := (b.setOlder c.newer c.older).setNewer c.older c.newer
      { b with count := b.count - 1 }

/-- Link a record between two neighbours, a missing one being an end of the sending order. -/
def linkBetween (b : LinkedBoard) (number : Nat) (older newer : Option Nat) : LinkedBoard :=
  let b := b.changeCell number fun c => ⟨{ c.record with linked := true }, newer, older⟩
  let b := (b.setOlder newer (some number)).setNewer older (some number)
  { b with count := b.count + 1 }

/-- Make a record the most recently sent. -/
def relink (b : LinkedBoard) (number : Nat) : LinkedBoard :=
  let b := b.unlink number
  b.linkBetween number b.newest none

/-- Link a record right after another one. -/
def linkAfter (b : LinkedBoard) (anchor number : Nat) : LinkedBoard :=
  b.linkBetween number (some anchor) ((b.cell? anchor).bind (·.newer))

/-- Follow the links to newer records, for at most the given number of records. -/
def walk (b : LinkedBoard) : Nat → Option Nat → List SendRecord
  | steps + 1, some number =>
    match b.cell? number with
    | some c => c.record :: b.walk steps c.newer
    | none => []
  | _, _ => []

/-- The linked records, least recently sent first, as many as the counter says. -/
def ordered (b : LinkedBoard) : List SendRecord := b.walk b.count b.oldest

/-- The most recently sent record. -/
def newest? (b : LinkedBoard) : Option SendRecord := b.newest.bind b.record?

/-! ## Making and dropping records -/

/-- File a number under a start, in place of the number that was filed there. -/
def insertEntry (start number : Nat) : List (Nat × Nat) → List (Nat × Nat)
  | [] => [(start, number)]
  | entry :: rest =>
    if start < entry.1 then (start, number) :: entry :: rest
    else if start = entry.1 then (start, number) :: rest
    else entry :: insertEntry start number rest

/-- Remove what is filed under a start. -/
def withoutEntry (b : LinkedBoard) (start : Nat) : LinkedBoard :=
  { b with index := b.index.filter (·.1 != start) }

/-- The number that the next record gets: the one dropped last, or one that was never in use. -/
def fresh (b : LinkedBoard) : Nat := b.vacant.head?.getD b.cells.length

/-- Make a record that is not linked yet. -/
def insert (b : LinkedBoard) (r : SendRecord) : LinkedBoard :=
  { b with
    cells := b.cells ++ [(b.fresh, ⟨{ r with linked := false }, none, none⟩)]
    index := insertEntry r.start b.fresh b.index
    vacant := b.vacant.tail }

/-- Drop a record together with its link and what is filed under its start. -/
def drop (b : LinkedBoard) (number : Nat) : LinkedBoard :=
  match b.record? number with
  | none => b
  | some r =>
    let b := (b.unlink number).withoutEntry r.start
    { b with cells := b.cells.filter (·.1 != number), vacant := number :: b.vacant }

/-! ## The operations of a scoreboard -/

/-- Whether the highest record goes on with a send of new data, so that it grows. -/
def grows (b : LinkedBoard) (range : SeqRange) (flags : Flags) (now : Nat) : Bool :=
  b.highest?.any fun last =>
    last.stop == range.start && last.resends == 0 && last.flags == flags && !flags.fin
      && last.lastSent == now && last.linked

/-- The number of the record that a send of new data grows or makes. -/
def target (b : LinkedBoard) (range : SeqRange) (flags : Flags) (now : Nat) : Nat :=
  if b.grows range flags now then (b.index.getLast?.map (·.2)).getD b.fresh else b.fresh

/-- Record a send of new data, which starts at the right edge. -/
def append (b : LinkedBoard) (range : SeqRange) (flags : Flags) (now : Nat)
    (appLimitedMark : Nat) : Except Error LinkedBoard :=
  if range.isEmpty then .error (.malformed (.emptySend range))
  else if range.start ≠ b.top then .error (.structural (.misplacedSend range b.top))
  else
    let number := b.target range flags now
    let b :=
      if b.grows range flags now then
        b.change number fun r => { r.restamp now with stop := range.stop }
      else (b.insert (SendRecord.ofSend range flags now appLimitedMark)).relink number
    .ok { b with top := range.stop }

/-- Divide a record at `point`. A linked record's upper half is linked right after it. -/
def split (b : LinkedBoard) (number point : Nat) : Except Error LinkedBoard :=
  match b.record? number with
  | none => .error (.structural (.splitUnknown number))
  | some r =>
    if !r.straddles point then .error (.structural (.splitOutside r point))
    else if b.limit ≤ b.cells.length then .error .exhausted
    else
      let divided := (b.change number fun _ => (r.cut point).1).insert (r.cut point).2
      .ok (if r.linked then divided.linkAfter number b.fresh else divided)

/-- Join two neighbours. There is nothing to do unless both have arrived and neither is a hole. -/
def merge (b : LinkedBoard) (left right : Nat) : Except Error LinkedBoard :=
  match b.record? left, b.record? right with
  | some l, some r =>
    if l.stop ≠ r.start then .error (.structural (.mergeApart l r))
    else if l.canAbsorb r then .ok ((b.drop right).change left fun l => l.absorb r)
    else .error .done
  | _, _ => .error (.structural (.mergeUnknown left right))

/-- Release what the entries of an index hold below `edge`, the lowest entry first. -/
def releaseBelow (edge : Nat) (b : LinkedBoard) : List (Nat × Nat) → LinkedBoard
  | [] => b
  | entry :: rest =>
    if edge ≤ entry.1 then b
    else if (b.record? entry.2).all (·.stop ≤ edge) then
      releaseBelow edge (b.drop entry.2) rest
    else
      let b := (b.withoutEntry entry.1).change entry.2 fun r => { r with start := edge }
      { b with index := insertEntry edge entry.2 b.index }

/-- Move the left edge up to `edge`, releasing what lies below, and tell how many bytes that is. -/
def trim (b : LinkedBoard) (edge : Nat) : Except Error (LinkedBoard × Nat) :=
  if edge ≤ b.una then .ok (b, 0)
  else if b.top < edge then .error (.malformed (.edgeBeyond edge b.top))
  else .ok ({ b.releaseBelow edge b.index with una := edge }, edge - b.una)

/-! ## Checking -/

/-- Walk the index up from `expected`, returning where the records end. Each record has to start
where it is filed, right where the one below stops. -/
def tilingEnd (b : LinkedBoard) (expected : Nat) : List (Nat × Nat) → Except Error Nat
  | [] => .ok expected
  | entry :: rest =>
    match b.record? entry.2 with
    | none => .error (.structural (.strayEntry entry.2))
    | some r =>
      if r.start ≠ entry.1 ∨ entry.1 ≠ expected ∨ r.isEmpty = true then
        .error (.structural (.misplacedRecord expected r))
      else b.tilingEnd r.stop rest

/-- Succeeds if the records, as they are filed, tile the outstanding data. -/
def auditIndex (b : LinkedBoard) : Except Error Unit := do
  if b.index.length ≠ b.cells.length then
    .error (.structural (.indexMismatch b.index.length b.cells.length))
  let stop ← b.tilingEnd b.una b.index
  if stop ≠ b.top then .error (.structural (.unreachedEdge stop b.top)) else .ok ()

/-- Follow the links from a record on, `previous` being the one before. Tells how many records there
are and which comes last, or the first one that is not linked back. -/
def walkEnd (b : LinkedBoard) : Nat → Option Nat → Option Nat → Except Error (Nat × Option Nat)
  | steps + 1, previous, some number =>
    match b.cell? number with
    | none => .ok (0, previous)
    | some c =>
      if !c.record.linked || c.older != previous then
        .error (.structural (.brokenOrder c.record))
      else do
        let walked ← b.walkEnd steps (some number) c.newer
        .ok (walked.1 + 1, walked.2)
  | _, previous, _ => .ok (0, previous)

/-- Succeeds if the links run through every linked record, up to the newest, and the counter agrees
with them. -/
def auditOrder (b : LinkedBoard) : Except Error Unit := do
  let walked ← b.walkEnd (b.cells.length + 1) none b.oldest
  let linked := b.records.countP (·.linked)
  if walked.1 ≠ linked ∨ walked.1 ≠ b.count ∨ walked.2 ≠ b.newest then
    .error (.structural (.orderMismatch walked.1 linked b.count))
  else .ok ()

/-- Succeeds if all parts fit together. -/
def audit (b : LinkedBoard) : Except Error Unit := do
  b.auditIndex
  b.auditOrder

end LinkedBoard

end LossRecovery
