/-!
# `LossRecovery.SendRecord.Flags` — what is known about a sent range

## Contents
- `Flags`: eleven independent marks of a sent range.
- `union`, `without`: setting and clearing marks.
- `names`: the marks in ascending bit order, with their names in messages.
- `ofBits`, `toBits`, `text`: flags as a bit set and as text.
-/

namespace LossRecovery

/-- The marks of a sent range. -/
structure Flags where
  /-- Covered by the cumulative ack. -/
  acked : Bool := false
  /-- Covered by a SACK block. -/
  sacked : Bool := false
  /-- Outstanding when the retransmission timer fired, or resent since. -/
  toResend : Bool := false
  /-- A SACK block above the range arrived while it was unacked. -/
  sackPassed : Bool := false
  /-- Carries the end of the stream. -/
  fin : Bool := false
  /-- Carries the start of the stream. -/
  syn : Bool := false
  /-- Last sent as a tail loss probe. -/
  probe : Bool := false
  /-- Sent while the sender had no more data. -/
  appLimited : Bool := false
  /-- Lies beyond a collapsed receive window. -/
  collapsed : Bool := false
  /-- Reported as received twice. -/
  duplicated : Bool := false
  /-- Sent more often than send times are remembered. -/
  overmax : Bool := false
deriving DecidableEq, Inhabited

namespace Flags

/-- No mark at all. -/
def empty : Flags := {}

/-- The marks of either. -/
def union (a b : Flags) : Flags where
  acked := a.acked || b.acked
  sacked := a.sacked || b.sacked
  toResend := a.toResend || b.toResend
  sackPassed := a.sackPassed || b.sackPassed
  fin := a.fin || b.fin
  syn := a.syn || b.syn
  probe := a.probe || b.probe
  appLimited := a.appLimited || b.appLimited
  collapsed := a.collapsed || b.collapsed
  duplicated := a.duplicated || b.duplicated
  overmax := a.overmax || b.overmax

/-- The marks of `a` that `b` does not have. -/
def without (a b : Flags) : Flags where
  acked := a.acked && !b.acked
  sacked := a.sacked && !b.sacked
  toResend := a.toResend && !b.toResend
  sackPassed := a.sackPassed && !b.sackPassed
  fin := a.fin && !b.fin
  syn := a.syn && !b.syn
  probe := a.probe && !b.probe
  appLimited := a.appLimited && !b.appLimited
  collapsed := a.collapsed && !b.collapsed
  duplicated := a.duplicated && !b.duplicated
  overmax := a.overmax && !b.overmax

/-- The marks in ascending bit order, each with its name in messages. -/
def names (f : Flags) : List (Bool × String) :=
  [(f.acked, "Acked"), (f.sacked, "Sacked"), (f.toResend, "ToRext"),
    (f.sackPassed, "WasSackpass"), (f.fin, "HasFin"), (f.syn, "HasSyn"), (f.probe, "Tlp"),
    (f.appLimited, "AppLimited"), (f.collapsed, "RwndCollapsed"),
    (f.duplicated, "SentWithDsack"), (f.overmax, "Overmax")]

/-- The flags as a number, the first mark being the lowest bit. -/
def toBits (f : Flags) : Nat :=
  f.names.foldr (fun m bits => m.1.toNat + 2 * bits) 0

/-- The flags named by the lowest eleven bits of a number. -/
def ofBits (n : Nat) : Flags where
  acked := n.testBit 0
  sacked := n.testBit 1
  toResend := n.testBit 2
  sackPassed := n.testBit 3
  fin := n.testBit 4
  syn := n.testBit 5
  probe := n.testBit 6
  appLimited := n.testBit 7
  collapsed := n.testBit 8
  duplicated := n.testBit 9
  overmax := n.testBit 10

/-- The flags as messages show them: the bits in binary, then the names of the marks. -/
def text (f : Flags) : String :=
  let bits := "BitFlags<SegmentFlags>(0b" ++ String.ofList (Nat.toDigits 2 f.toBits)
  match (f.names.filter (·.1)).map (·.2) with
  | [] => bits ++ ")"
  | marks => bits ++ ", " ++ String.intercalate " | " marks ++ ")"

end Flags

end LossRecovery
