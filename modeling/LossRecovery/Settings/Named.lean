import LossRecovery.Settings
import LossRecovery.Word

/-!
# `LossRecovery.Settings.Named` — settings read and changed by name

A configuration that is written down names its settings. Every parameter of an engine is listed here
once, with its name, in the order of the fields of `Settings`.

## Contents
- `SettingValue`, `Setting`: a named parameter with the ways to read and to write it.
- `Settings.all`: the parameters, with `Settings.values` and `Settings.put?` over them.
-/

namespace LossRecovery

/-- The value of a setting. -/
inductive SettingValue where
  | number (n : Nat)
  | flag (b : Bool)
  /-- Nothing is set. -/
  | absent
deriving DecidableEq, Inhabited

/-- A parameter with its name. -/
structure Setting where
  name : String
  read : Settings → SettingValue
  /-- Nothing if the value is of another kind. -/
  write : SettingValue → Settings → Option Settings

namespace Setting

/-- A parameter that holds a number. -/
def number (name : String) (read : Settings → Nat) (write : Nat → Settings → Settings) :
    Setting where
  name := name
  read s := .number (read s)
  write
    | .number n, s => some (write n s)
    | _, _ => none

/-- A parameter that holds the low 32 bits of a number. -/
def narrow (name : String) (read : Settings → Nat) (write : Nat → Settings → Settings) : Setting :=
  number name read fun n => write (Word.wrap32 n)

/-- A parameter that is on or off. -/
def flag (name : String) (read : Settings → Bool) (write : Bool → Settings → Settings) :
    Setting where
  name := name
  read s := .flag (read s)
  write
    | .flag b, s => some (write b s)
    | _, _ => none

/-- A parameter that holds a number or is absent. -/
def optional (name : String) (read : Settings → Option Nat)
    (write : Option Nat → Settings → Settings) : Setting where
  name := name
  read s := ((read s).map SettingValue.number).getD .absent
  write
    | .number n, s => some (write (some n) s)
    | .absent, s => some (write none s)
    | .flag _, _ => none

end Setting

namespace Settings

open Setting (number narrow flag optional)

/-- The parameters in the order of the fields. -/
def all : List Setting := [
  number "mss" mss fun n s => { s with mss := n },
  number "initial_rtt" initialRtt fun n s => { s with initialRtt := n },
  number "initial_rto" initialRto fun n s => { s with initialRto := n },
  number "min_rto" minRto fun n s => { s with minRto := n },
  number "max_rto" maxRto fun n s => { s with maxRto := n },
  flag "tlp_enabled" tlpEnabled fun b s => { s with tlpEnabled := b },
  number "tlp_min" tlpMin fun n s => { s with tlpMin := n },
  number "delayed_ack_time" delayedAckTime fun n s => { s with delayedAckTime := n },
  narrow "dupack_thresh" dupackThreshold fun n s => { s with dupackThreshold := n },
  narrow "reorder_shift" reorderShift fun n s => { s with reorderShift := n },
  number "reorder_fade" reorderFade fun n s => { s with reorderFade := n },
  number "min_rtt_window" minRttWindow fun n s => { s with minRttWindow := n },
  number "probe_rtt_interval" probeRttInterval fun n s => { s with probeRttInterval := n },
  number "probe_rtt_duration" probeRttDuration fun n s => { s with probeRttDuration := n },
  number "probe_rtt_floor_segments" probeRttFloorSegments
    fun n s => { s with probeRttFloorSegments := n },
  number "goodput_min_segments" goodputMinSegments fun n s => { s with goodputMinSegments := n },
  narrow "goodput_rtt_decay" goodputRttDecay fun n s => { s with goodputRttDecay := n },
  number "pacing_ss_percent" slowStartPercent fun n s => { s with slowStartPercent := n },
  number "pacing_ca_percent" avoidancePercent fun n s => { s with avoidancePercent := n },
  number "pacing_recovery_percent" recoveryPercent fun n s => { s with recoveryPercent := n },
  number "pacing_probe_rtt_percent" probeRttPercent fun n s => { s with probeRttPercent := n },
  optional "fixed_pacing_rate" fixedPacingRate fun r s => { s with fixedPacingRate := r },
  number "max_pacing_rate" maxPacingRate fun n s => { s with maxPacingRate := n },
  number "pacing_granularity" pacingGranularity fun n s => { s with pacingGranularity := n },
  number "max_segments" maxSegments fun n s => { s with maxSegments := n },
  number "sack_filter_ranges" sackFilterRanges fun n s => { s with sackFilterRanges := n },
  number "initial_congestion_window" initialWindowSegments
    fun n s => { s with initialWindowSegments := n },
  number "min_congestion_window" minWindowSegments fun n s => { s with minWindowSegments := n }]

/-- The values of all parameters. -/
def values (s : Settings) : List SettingValue := all.map (·.read s)

/-- The settings with the named parameter changed; nothing if no parameter has the name or the value
is of another kind. -/
def put? (s : Settings) (name : String) (value : SettingValue) : Option Settings :=
  (all.find? (·.name = name)).bind fun setting => setting.write value s

end Settings

end LossRecovery
