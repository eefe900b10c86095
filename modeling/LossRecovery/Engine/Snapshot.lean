import LossRecovery.Engine.State
import LossRecovery.Text.Json

/-!
# `LossRecovery.Engine.Snapshot` — what can be seen of an engine

## Contents
- `Snapshot`, `Engine.snapshot`.
- `Snapshot.toJson`, `Stats.toJson`: snapshot and statistics as JSON.
- `Engine.text`: an engine as it is written in messages.
-/

namespace LossRecovery

/-- What can be seen of an engine. -/
structure Snapshot where
  una : Nat
  top : Nat
  sackedBytes : Nat
  holeBytes : Nat
  pipe : Nat
  minRtt : Nat
  smoothedRtt : Nat
  phase : Phase
  stage : Stage
  pacingRate : Nat
  congestionWindow : Nat
  threshold : Nat
  records : Nat
  backoff : Nat
  isAborted : Bool
deriving DecidableEq

namespace Snapshot

open Text

/-- A duration as whole seconds and the nanoseconds left over. -/
def durationJson (d : Nat) : JsonValue :=
  .object [("secs", .number (d / Time.second)), ("nanos", .number (d % Time.second))]

/-- A snapshot as JSON. -/
def toJson (s : Snapshot) : JsonValue :=
  .object [
    ("snd_una", .number s.una),
    ("snd_max", .number s.top),
    ("sacked_bytes", .number s.sackedBytes),
    ("holes_retransmitted_bytes", .number s.holeBytes),
    ("pipe", .number s.pipe),
    ("min_rtt", durationJson s.minRtt),
    ("smoothed_rtt", durationJson s.smoothedRtt),
    ("phase", .string s.phase.name),
    ("state", .string s.stage.name),
    ("pacing_rate", .number s.pacingRate),
    ("congestion_window", .number s.congestionWindow),
    ("slow_start_threshold", .number s.threshold),
    ("segments", .number s.records),
    ("rto_backoff", .number s.backoff),
    ("aborted", .bool s.isAborted)]

end Snapshot

/-- The statistics as JSON. -/
def Stats.toJson (s : Stats) : Text.JsonValue :=
  .object [
    ("acks", .number s.acks),
    ("sent_bytes", .number s.sentBytes),
    ("retransmitted_bytes", .number s.retransmittedBytes),
    ("delivered_bytes", .number s.deliveredBytes),
    ("sacked_bytes", .number s.sackedBytes),
    ("spurious_retransmitted_bytes", .number s.spuriousBytes),
    ("recovery_episodes", .number s.recoveryEpisodes),
    ("tlp_probes", .number s.tlpProbes),
    ("rto_count", .number s.rtoCount),
    ("spurious_rto", .number s.spuriousRto),
    ("reorder_events", .number s.reorderEvents),
    ("dsack_blocks", .number s.dsackBlocks),
    ("malformed_sack_blocks", .number s.malformedSackBlocks),
    ("splits_refused", .number s.splitsRefused),
    ("stale_actions", .number s.staleActions),
    ("stale_timers", .number s.staleTimers),
    ("probe_rtt_count", .number s.probeRttCount),
    ("goodput_samples", .number s.goodputSamples)]

namespace Engine

variable {κ : Type} [CongestionLaw κ]

/-- What can be seen of the engine now. -/
def snapshot (g : Engine κ) : Snapshot where
  una := g.board.una
  top := g.board.top
  sackedBytes := g.ledger.sackedBytes
  holeBytes := g.ledger.holeBytes
  pipe := g.pipe
  minRtt := g.rtt.minRtt
  smoothedRtt := g.rtt.smoothedRtt
  phase := g.phase
  stage := g.schedule.stage
  pacingRate := g.pacing.rate
  congestionWindow := g.congestionWindow
  threshold := g.threshold
  records := g.board.size
  backoff := g.schedule.backoff
  isAborted := g.isAborted

/-- An engine as it is written in messages. -/
def text (g : Engine κ) : String :=
  s!"snd_una={g.board.una} snd_max={g.board.top} pipe={g.pipe} "
    ++ s!"state={g.schedule.stage.title} cwnd={g.congestionWindow} pacing={g.pacing.text}"

end Engine

end LossRecovery
