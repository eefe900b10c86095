import LossRecovery.Metrics
import LossRecovery.Text.Quoted
import LossRecovery.SendRecord.Basic

/-!
# `LossRecovery.Error` — what can go wrong

An error is a kind with a cause. The wording of every cause stands here and nowhere else.

## Contents
- `Malformation`, `Violation`, `Misconfiguration`: causes, each with its `message`; `Handling`: what a
  record is looked up for.
- `Error` with `kind`, `message?`, `text`, `counter?` and `isFatal`.
- `Error.ofReport?`: an error known by its kind and wording only.
-/

namespace LossRecovery

/-- Input that a peer or a caller got wrong. -/
inductive Malformation where
  /-- A send of no bytes. -/
  | emptySend (range : SeqRange)
  /-- A left edge beyond the data sent. -/
  | edgeBeyond (edge top : Nat)
  /-- A cumulative ack beyond the data sent. -/
  | ackBeyond (ack top : Nat)
  /-- Known by its wording only. -/
  | reported (message : String)
deriving DecidableEq

/-- What a record is looked up for in the course of a call. -/
inductive Handling where
  /-- It was sent again. -/
  | resending
  /-- It lies below a new left edge. -/
  | releasing
  /-- A block covers it. -/
  | marking
deriving DecidableEq

/-- A breach of the structure of the scoreboard. -/
inductive Violation where
  /-- New data that does not start at the right edge. -/
  | misplacedSend (range : SeqRange) (top : Nat)
  /-- A split of a record that is not there. -/
  | splitUnknown (start : Nat)
  /-- A split at a point that is not strictly inside the record. -/
  | splitOutside (record : SendRecord) (point : Nat)
  /-- A merge of records that are not there. -/
  | mergeUnknown (left right : Nat)
  /-- A merge of records that do not touch. -/
  | mergeApart (left right : SendRecord)
  /-- A record that is gone when its turn comes. -/
  | recordVanished (handling : Handling) (start : Nat)
  /-- A record that is empty or does not start where the one below stops. -/
  | misplacedRecord (expected : Nat) (found : SendRecord)
  /-- Records that do not reach the right edge. -/
  | unreachedEdge (stop top : Nat)
  /-- An index that does not file every record in use. -/
  | indexMismatch (filed live : Nat)
  /-- An index that files a record no longer in use. -/
  | strayEntry (number : Nat)
  /-- A record of the sending order that is not linked, or comes twice. -/
  | brokenOrder (record : SendRecord)
  /-- A sending order that does not hold every linked record. -/
  | orderMismatch (walked linked counted : Nat)
  /-- A count of SACKed bytes that disagrees with the records. -/
  | sackedMismatch (counted held outstanding : Nat)
  /-- A count of bytes sent again into holes that disagrees with the records. -/
  | holeMismatch (counted held : Nat)
  /-- Known by its wording only. -/
  | reported (message : String)
deriving DecidableEq

/-- A setting the engine cannot work with. -/
inductive Misconfiguration where
  | zeroMss
  | crossedRtoLimits
  | fewSegments
  | zeroPercent
  | longProbe
  | zeroDecay
  | largeShift
  | zeroFixedRate
  | unknownPhase (name : String)
  | unknownLaw
  /-- Known by its wording only. -/
  | reported (message : String)
deriving DecidableEq

/-- The wording of a malformation. -/
def Malformation.message : Malformation → String
  | emptySend r => s!"empty send {r.text}"
  | edgeBeyond edge top => s!"ack {edge} beyond snd_max {top}"
  | ackBeyond ack top => s!"cumulative ack {ack} beyond snd_max {top}"
  | reported message => message

/-- The wording of a violation. -/
def Violation.message : Violation → String
  | misplacedSend r top => s!"send {r.text} does not extend snd_max {top}"
  | splitUnknown start => s!"split of freed record {start}"
  | splitOutside r point => s!"split of {r.text} at {point}"
  | mergeUnknown l r => s!"merge of freed records {l} {r}"
  | mergeApart l r => s!"merge of non adjacent {l.text} {r.text}"
  | recordVanished .resending start => s!"retransmitted record {start} vanished"
  | recordVanished .releasing start => s!"indexed record {start} vanished"
  | recordVanished .marking start => s!"split record {start} vanished"
  | misplacedRecord expected r => s!"expected record at {expected} found {r.text}"
  | unreachedEdge stop top => s!"records end at {stop} but snd_max is {top}"
  | indexMismatch filed live => s!"{filed} indexed records but {live} live records"
  | strayEntry number => s!"index points to freed record {number}"
  | brokenOrder r => s!"time-ordered view broken at {r.text}"
  | orderMismatch walked linked counted =>
    s!"time-ordered view has {walked} records, {linked} flagged, {counted} counted"
  | sackedMismatch counted held outstanding =>
    s!"sacked bytes {counted} but records hold {held} of {outstanding}"
  | holeMismatch counted held =>
    s!"retransmitted hole bytes {counted} but records hold {held}"
  | reported message => message

/-- The wording of a misconfiguration. -/
def Misconfiguration.message : Misconfiguration → String
  | zeroMss => "mss is zero"
  | crossedRtoLimits => "min_rto above max_rto"
  | fewSegments => "max_segments below 2"
  | zeroPercent => "zero pacing percent"
  | longProbe => "probe_rtt_duration not below probe_rtt_interval"
  | zeroDecay => "goodput_rtt_decay is zero"
  | largeShift => "reorder_shift above 16"
  | zeroFixedRate => "fixed pacing rate is zero"
  | unknownPhase name => s!"unknown phase {name}"
  | unknownLaw => "unknown"
  | reported message => message

/-- What can go wrong in a call. -/
inductive Error where
  /-- There is nothing to do. -/
  | done
  /-- The scoreboard cannot be trusted any more. -/
  | structural (cause : Violation)
  /-- The target of an action has vanished. -/
  | staleAction
  /-- Input that makes no sense. -/
  | malformed (cause : Malformation)
  /-- A bounded counter reached its maximum. -/
  | saturated
  /-- An RTT sample that is zero or implausibly large. -/
  | timingAnomaly
  /-- The record limit was reached; nothing was changed. -/
  | exhausted
  /-- The engine was stopped by an earlier violation. -/
  | aborted
  /-- Settings that do not fit together. -/
  | misconfigured (cause : Misconfiguration)
  /-- The transmit primitive failed. -/
  | transmitFailed (message : String)
deriving DecidableEq

namespace Error

/-- The name of the kind of error. -/
def kind : Error → String
  | done => "Done"
  | structural _ => "StructuralViolation"
  | staleAction => "StaleAction"
  | malformed _ => "MalformedInput"
  | saturated => "CounterSaturation"
  | timingAnomaly => "TimingAnomaly"
  | exhausted => "ResourceExhausted"
  | aborted => "EngineAborted"
  | misconfigured _ => "InvalidConfig"
  | transmitFailed _ => "TransmitFailed"

/-- The wording of the cause, for the kinds that have one. -/
def message? : Error → Option String
  | structural cause => some cause.message
  | malformed cause => some cause.message
  | misconfigured cause => some cause.message
  | transmitFailed message => some message
  | _ => none

/-- An error as it is shown: its kind, and the quoted cause if there is one. -/
def text (e : Error) : String :=
  match e.message? with
  | some message => e.kind ++ "(" ++ Text.quoted message ++ ")"
  | none => e.kind

/-- The counter that counts the error. -/
def counter? : Error → Option Counter
  | structural _ => some .structuralViolations
  | staleAction => some .staleActions
  | malformed _ => some .malformedSackBlocks
  | saturated => some .counterSaturations
  | timingAnomaly => some .timingAnomalies
  | exhausted => some .splitsRefused
  | transmitFailed _ => some .transmitFailures
  | done | aborted | misconfigured _ => none

/-- Whether the error leaves the engine unusable. -/
def isFatal : Error → Bool
  | structural _ | aborted => true
  | _ => false

/-- The error of a given kind, known by its wording only. -/
def ofReport? (kind message : String) : Option Error :=
  [done, structural (.reported message), staleAction, malformed (.reported message), saturated,
    timingAnomaly, exhausted, aborted, misconfigured (.reported message),
    transmitFailed message].find? (·.kind == kind)

end Error

end LossRecovery
