import LossRecovery.Word

/-!
# `LossRecovery.Metrics` — event counters

## Contents
- `Counter`: the events that are counted, in the order they are reported in, with their `name`s.
- `Tally`: one number per counter, with `get`, `add` and `toList`.
- `Sink`: where an engine reports to: a tally, or nowhere.
-/

namespace LossRecovery

/-- The events that are counted. -/
inductive Counter where
  | segmentsSplit
  | segmentsMerged
  | splitsRefused
  | malformedSackBlocks
  | sackBlocksFiltered
  | dsackBlocks
  | staleActions
  | staleTimers
  | timingAnomalies
  | counterSaturations
  | reorderEvents
  | recoveryEpisodes
  | tlpProbes
  | rtoFired
  | spuriousRto
  | probeRttEntered
  | hwRateFallbacks
  | retransmittedBytes
  | transmitFailures
  | structuralViolations
deriving DecidableEq, Inhabited

namespace Counter

/-- All counters in the order of their indices. -/
def all : List Counter :=
  [segmentsSplit, segmentsMerged, splitsRefused, malformedSackBlocks, sackBlocksFiltered,
    dsackBlocks, staleActions, staleTimers, timingAnomalies, counterSaturations, reorderEvents,
    recoveryEpisodes, tlpProbes, rtoFired, spuriousRto, probeRttEntered, hwRateFallbacks,
    retransmittedBytes, transmitFailures, structuralViolations]

/-- The place of a counter in a report. -/
def index : Counter → Fin 20
  | segmentsSplit => 0
  | segmentsMerged => 1
  | splitsRefused => 2
  | malformedSackBlocks => 3
  | sackBlocksFiltered => 4
  | dsackBlocks => 5
  | staleActions => 6
  | staleTimers => 7
  | timingAnomalies => 8
  | counterSaturations => 9
  | reorderEvents => 10
  | recoveryEpisodes => 11
  | tlpProbes => 12
  | rtoFired => 13
  | spuriousRto => 14
  | probeRttEntered => 15
  | hwRateFallbacks => 16
  | retransmittedBytes => 17
  | transmitFailures => 18
  | structuralViolations => 19

/-- The name of a counter in a report. -/
def name : Counter → String
  | segmentsSplit => "segments_split"
  | segmentsMerged => "segments_merged"
  | splitsRefused => "splits_refused"
  | malformedSackBlocks => "malformed_sack_blocks"
  | sackBlocksFiltered => "sack_blocks_filtered"
  | dsackBlocks => "dsack_blocks"
  | staleActions => "stale_actions"
  | staleTimers => "stale_timers"
  | timingAnomalies => "timing_anomalies"
  | counterSaturations => "counter_saturations"
  | reorderEvents => "reorder_events"
  | recoveryEpisodes => "recovery_episodes"
  | tlpProbes => "tlp_probes"
  | rtoFired => "rto_fired"
  | spuriousRto => "spurious_rto"
  | probeRttEntered => "probe_rtt_entered"
  | hwRateFallbacks => "hw_rate_fallbacks"
  | retransmittedBytes => "retransmitted_bytes"
  | transmitFailures => "transmit_failures"
  | structuralViolations => "structural_violations"

/-- The counter of a given name. -/
def ofName? (s : String) : Option Counter := all.find? (·.name == s)

theorem index_injective {c d : Counter} (h : c.index = d.index) : c = d := by
  revert h
  cases c <;> cases d <;> decide

end Counter

/-- One number per counter. -/
structure Tally where
  values : Vector Nat 20
deriving DecidableEq

namespace Tally

/-- All counters at zero. -/
def zero : Tally := ⟨Vector.replicate 20 0⟩

/-- The value of a counter. -/
def get (t : Tally) (c : Counter) : Nat := t.values[c.index]

/-- Count `n` more events, stopping at the largest word. -/
def add (t : Tally) (c : Counter) (n : Nat) : Tally :=
  ⟨t.values.set c.index (Word.add (t.get c) n)⟩

/-- All counters with their values, in reporting order. -/
def toList (t : Tally) : List (Counter × Nat) := Counter.all.map fun c => (c, t.get c)

theorem get_zero (c : Counter) : zero.get c = 0 := by
  cases c <;> rfl

theorem get_add_self (t : Tally) (c : Counter) (n : Nat) :
    (t.add c n).get c = Word.add (t.get c) n := by
  simp [add, get]

theorem get_add_of_ne (t : Tally) {c d : Counter} (n : Nat) (h : d ≠ c) :
    (t.add c n).get d = t.get d := by
  have hne : (c.index : Nat) ≠ d.index := fun he =>
    h (Counter.index_injective (Fin.ext he.symm))
  simp [add, get, hne]

end Tally

/-- Where events are counted: in a tally, or not at all. -/
inductive Sink where
  | discard
  | tally (t : Tally)
deriving DecidableEq

namespace Sink

/-- A fresh tally. -/
def fresh : Sink := .tally Tally.zero

/-- Count `n` more events. -/
def add (s : Sink) (c : Counter) (n : Nat) : Sink :=
  match s with
  | discard => discard
  | tally t => tally (t.add c n)

/-- The value of a counter, where values are kept. -/
def get? (s : Sink) (c : Counter) : Option Nat :=
  match s with
  | discard => none
  | tally t => some (t.get c)

/-- All counters with their values; zeros where none are kept. -/
def toList : Sink → List (Counter × Nat)
  | discard => Tally.zero.toList
  | tally t => t.toList

/-- A sink as it is written in messages. -/
def text (_ : Sink) : String := "metrics sink."

end Sink

end LossRecovery
