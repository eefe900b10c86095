import LossRecovery.Error

/-!
# `LossRecovery.Phase` — congestion phases

## Contents
- `Phase` with its written `name` and its `title` in messages.
- `Phase.parse`: the phase a name stands for, in any case of its ASCII letters.
-/

namespace LossRecovery

/-- What the connection is doing, as far as its sending rate is concerned. -/
inductive Phase where
  | slowStart
  | congestionAvoidance
  | recovery
  | probeRtt
deriving DecidableEq, Inhabited

namespace Phase

/-- The written name of a phase. -/
def name : Phase → String
  | slowStart => "slow_start"
  | congestionAvoidance => "congestion_avoidance"
  | recovery => "recovery"
  | probeRtt => "probe_rtt"

/-- The name of a phase in messages. -/
def title : Phase → String
  | slowStart => "SlowStart"
  | congestionAvoidance => "CongestionAvoidance"
  | recovery => "Recovery"
  | probeRtt => "ProbeRtt"

/-- The phase a name stands for. -/
def parse (s : String) : Except Error Phase :=
  match s.map Char.toLower with
  | "slow_start" | "ss" => .ok slowStart
  | "congestion_avoidance" | "ca" => .ok congestionAvoidance
  | "recovery" => .ok recovery
  | "probe_rtt" => .ok probeRtt
  | _ => .error (.misconfigured (.unknownPhase s))

end Phase

end LossRecovery
