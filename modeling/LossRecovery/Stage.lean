/-!
# `LossRecovery.Stage` — the stages of loss recovery

## Contents
- `Stage` with its written `name` and its `title` in messages.
-/

namespace LossRecovery

/-- What the connection is doing about losses. -/
inductive Stage where
  /-- No loss is suspected. -/
  | steady
  /-- Losses are repaired under proportional rate reduction. -/
  | recovering
  /-- A tail loss probe is outstanding. -/
  | tlpPending
  /-- The retransmission timer fired and the flight is sent again. -/
  | rtoPending
deriving DecidableEq, Inhabited

namespace Stage

/-- The written name of a stage. -/
def name : Stage → String
  | steady => "open"
  | recovering => "recovering"
  | tlpPending => "tlp_pending"
  | rtoPending => "rto_pending"

/-- The name of a stage in messages. -/
def title : Stage → String
  | steady => "Open"
  | recovering => "Recovering"
  | tlpPending => "TlpPending"
  | rtoPending => "RtoPending"

end Stage

end LossRecovery
