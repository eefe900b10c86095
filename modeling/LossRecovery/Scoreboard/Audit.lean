import LossRecovery.Scoreboard.Edit

/-!
# `LossRecovery.Scoreboard.Audit` — checking the structure of a scoreboard

## Contents
- `auditTiling`: the records tile the outstanding data.
- `auditOrder`: the sending order holds every linked record exactly once, and no other.
- `audit`: both, the first breach found being reported.
-/

namespace LossRecovery

namespace Scoreboard

/-- Walk the records up from `expected`, returning where they end. -/
def tilingEnd (expected : Nat) : List SendRecord → Except Error Nat
  | [] => .ok expected
  | r :: rest =>
    if r.start ≠ expected ∨ r.isEmpty = true then
      .error (.structural (.misplacedRecord expected r))
    else tilingEnd r.stop rest

/-- Succeeds if the records tile the outstanding data. -/
def auditTiling (b : Scoreboard) : Except Error Unit := do
  let stop ← tilingEnd b.una b.records
  if stop ≠ b.top then .error (.structural (.unreachedEdge stop b.top)) else .ok ()

/-- The first record of a sending order that is not linked or was met before. -/
def firstMisordered (seen : List Nat) : List SendRecord → Option SendRecord
  | [] => none
  | r :: rest =>
    if !r.linked || seen.contains r.start then some r
    else firstMisordered (r.start :: seen) rest

/-- Succeeds if the sending order holds every linked record exactly once, and no other. -/
def auditOrder (b : Scoreboard) : Except Error Unit :=
  match firstMisordered [] b.ordered with
  | some r => .error (.structural (.brokenOrder r))
  | none =>
    let walked := b.ordered.length
    let linked := b.records.countP (·.linked)
    if walked ≠ linked ∨ walked ≠ b.order.length then
      .error (.structural (.orderMismatch walked linked b.order.length))
    else .ok ()

/-- Succeeds if the records tile the outstanding data and the sending order fits them. -/
def audit (b : Scoreboard) : Except Error Unit := do
  b.auditTiling
  b.auditOrder

end Scoreboard

end LossRecovery
