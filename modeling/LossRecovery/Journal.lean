import LossRecovery.Action
import LossRecovery.Phase
import LossRecovery.Stage
import LossRecovery.Text.Duration

/-!
# `LossRecovery.Journal` — what is worth telling about a run

Every notable step of the engine is an event. Events are plain values; their wording, and how
important they are, stands here.

## Contents
- `Level`: how important a message is.
- `Event`: the notable steps.
- `Message`, `Event.message`: an event in words, marked with the trace id of its connection.
-/

namespace LossRecovery

/-- How important a message is. -/
inductive Level where
  | error
  | warn
  | info
  | debug
  | trace
deriving DecidableEq, Inhabited

namespace Level

/-- The written name of a level. -/
def name : Level → String
  | error => "error"
  | warn => "warn"
  | info => "info"
  | debug => "debug"
  | trace => "trace"

/-- How much is told: a level tells everything of a lower rank. -/
def rank : Level → Nat
  | error => 1
  | warn => 2
  | info => 3
  | debug => 4
  | trace => 5

end Level

/-- The notable steps of a run. -/
inductive Event where
  -- The scoreboard
  | sendMisplaced (range : SeqRange) (top : Nat)
  | recordExtended (record : SendRecord)
  | recordInserted (record : SendRecord)
  | splitRefused (record : SendRecord) (records : Nat)
  | recordSplit (lower upper : SendRecord)
  | recordsMerged (joined : SendRecord)
  -- Acks
  | blockMalformed (block : SeqRange) (una top : Nat)
  | blockRefused (block : SeqRange) (records : Nat)
  | windowCollapsed (edge top : Nat)
  | recordSacked (record : SendRecord)
  | duplicateAck (dupacks : Nat) (range : SeqRange)
  | dsackMalformed (block : SeqRange)
  | dsackApplied (block : SeqRange) (spurious multiplier : Nat)
  -- Rate reduction and pacing
  | allowance (pipe threshold delivered out allowed : Nat)
  | hardwareRateReplaced (request supported : Nat)
  | hardwareRateRejected (request : Nat)
  | rateChanged (phase : Phase) (bandwidth rate : Nat)
  -- The engine
  | timerStale (timer : Timer) (generation current : Nat)
  | engineAborted (error : Error)
  | actionStale (range : SeqRange) (una : Nat)
  | resentWhole (range : SeqRange) (records : Nat)
  | recordResent (record : SendRecord)
  | rttDiscarded (sample : Nat)
  | probeAcked (una : Nat)
  | ackProcessed (ack delivered pipe : Nat) (stage : Stage) (actions : Nat)
  | recoveryEntered (una point pipe threshold : Nat)
  | recoveryLeft (una window : Nat)
  | timeoutRecovered (una : Nat)
  | timeoutUndone (window threshold : Nat)
  | probeSent (kind : SendKind) (range : SeqRange) (pipe : Nat)
  | timeoutFired (backoff una top window : Nat)
  | probeRttEntered (minRtt : Nat) (pipe : Nat)
  | probeRttLeft (phase : Phase) (minRtt : Nat)
  | goodputMeasured (bandwidth : Nat) (phase : Phase)
  -- The simulated path
  | linkDropped (range : SeqRange)
  | simulationStalled (engine : String)
deriving DecidableEq

/-- A message and how important it is. -/
structure Message where
  level : Level
  text : String
deriving DecidableEq

namespace Event

/-- Whether an event is told by a scoreboard itself, not by what works on it. -/
def isOfScoreboard : Event → Bool
  | sendMisplaced .. | recordExtended .. | recordInserted .. | splitRefused .. | recordSplit ..
  | recordsMerged .. => true
  | _ => false

/-- An event in words, marked with the trace id of its connection. -/
def message (trace : String) : Event → Message
  | sendMisplaced range top =>
    ⟨.warn, s!"{trace} send {range.text} does not start at snd_max {top}"⟩
  | recordExtended r => ⟨.trace, s!"{trace} EXTEND {r.text}"⟩
  | recordInserted r => ⟨.trace, s!"{trace} INSERT {r.text}"⟩
  | splitRefused r records =>
    ⟨.debug, s!"{trace} split of {r.text} refused, {records} records"⟩
  | recordSplit lower upper => ⟨.trace, s!"{trace} SPLIT {lower.text} | {upper.text}"⟩
  | recordsMerged joined => ⟨.trace, s!"{trace} MERGE {joined.text}"⟩
  | blockMalformed block una top =>
    ⟨.debug, s!"{trace} malformed sack block {block.text} snd_una={una} snd_max={top}"⟩
  | blockRefused block records =>
    ⟨.debug, s!"{trace} sack block {block.text} refused, {records} records"⟩
  | windowCollapsed edge top =>
    ⟨.debug, s!"{trace} receive window collapsed at {edge} snd_max={top}"⟩
  | recordSacked r => ⟨.trace, s!"{trace} SACKED {r.text}"⟩
  | duplicateAck dupacks range => ⟨.trace, s!"{trace} dupack {dupacks} on {range.text}"⟩
  | dsackMalformed block => ⟨.debug, s!"{trace} malformed dsack block {block.text}"⟩
  | dsackApplied block spurious multiplier =>
    ⟨.debug, s!"{trace} DSACK {block.text} spurious={spurious} reo_wnd_mult={multiplier}"⟩
  | allowance pipe threshold delivered out allowed =>
    ⟨.trace, s!"prr pipe={pipe} ssthresh={threshold} delivered={delivered} out={out} "
      ++ s!"sndcnt={allowed}"⟩
  | hardwareRateReplaced request supported =>
    ⟨.trace, s!"{trace} hardware rate {request} replaced by {supported}"⟩
  | hardwareRateRejected request =>
    ⟨.warn, s!"{trace} hardware pacing rejected rate {request}, disengaged"⟩
  | rateChanged phase bandwidth rate =>
    ⟨.trace, s!"{trace} PACING phase={phase.title} bw={bandwidth} rate={rate}"⟩
  | timerStale timer generation current =>
    ⟨.trace, s!"{trace} stale {timer.title} timer generation {generation} current {current}"⟩
  | engineAborted error => ⟨.error, s!"{trace} engine aborted: {error.text}"⟩
  | actionStale range una => ⟨.trace, s!"{trace} stale action {range.text} snd_una={una}"⟩
  | resentWhole range records =>
    ⟨.debug, s!"{trace} retransmission {range.text} accounted on whole records, "
      ++ s!"{records} records"⟩
  | recordResent r => ⟨.trace, s!"{trace} REXMIT {r.text}"⟩
  | rttDiscarded sample => ⟨.debug, s!"{trace} rtt sample {Text.duration sample} discarded"⟩
  | probeAcked una => ⟨.debug, s!"{trace} TLP acked snd_una={una}"⟩
  | ackProcessed ack delivered pipe stage actions =>
    ⟨.trace, s!"{trace} ACK cum={ack} delivered={delivered} pipe={pipe} state={stage.title} "
      ++ s!"actions={actions}"⟩
  | recoveryEntered una point pipe threshold =>
    ⟨.debug, s!"{trace} RECOVERY enter snd_una={una} recovery_point={point} pipe={pipe} "
      ++ s!"ssthresh={threshold}"⟩
  | recoveryLeft una window => ⟨.debug, s!"{trace} RECOVERY exit snd_una={una} cwnd={window}"⟩
  | timeoutRecovered una => ⟨.debug, s!"{trace} RTO recovered snd_una={una}"⟩
  | timeoutUndone window threshold =>
    ⟨.debug, s!"{trace} spurious RTO undone cwnd={window} ssthresh={threshold}"⟩
  | probeSent kind range pipe =>
    ⟨.debug, s!"{trace} TLP {kind.title} {range.text} pipe={pipe}"⟩
  | timeoutFired backoff una top window =>
    ⟨.debug, s!"{trace} RTO fired backoff={backoff} snd_una={una} snd_max={top} cwnd={window}"⟩
  | probeRttEntered minRtt pipe =>
    ⟨.debug, s!"{trace} PROBE_RTT enter min_rtt={Text.duration minRtt} pipe={pipe}"⟩
  | probeRttLeft phase minRtt =>
    ⟨.debug, s!"{trace} PROBE_RTT exit to {phase.title} min_rtt={Text.duration minRtt}"⟩
  | goodputMeasured bandwidth phase =>
    ⟨.trace, s!"{trace} GOODPUT {bandwidth} B/s phase={phase.title}"⟩
  | linkDropped range => ⟨.trace, s!"link drop {range.text}"⟩
  | simulationStalled engine => ⟨.warn, s!"simulation stalled at {engine}"⟩

end Event

end LossRecovery
