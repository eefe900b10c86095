import LossRecovery.Engine.Dispatch
import LossRecovery.Engine.Snapshot
import LossRecovery.Engine.Timeout
import LossRecovery.Simulation.Link
import LossRecovery.Simulation.Receiver

/-!
# `LossRecovery.Simulation.Transfer` — a bulk transfer over a simulated path

A sender with a given number of bytes drives the engine over a link. Time moves from event to
event: the pacer lets the next segment go, a segment arrives, an ack arrives, or a timer fires.

## Contents
- `Transfer`: engine, link, receiver, and what is under way, with `start`.
- `sendNewData`: sending as long as window and pacer allow.
- `step`: what happens at one instant.
- `run`: the whole transfer, up to a deadline; `Report`: its outcome.
-/

namespace LossRecovery

/-- A timer armed at the sender. -/
structure ArmedTimer where
  timer : Timer
  expiry : Nat
  generation : Nat
deriving DecidableEq

/-- A transfer under way. -/
structure Transfer (κ : Type) where
  engine : Engine κ
  link : Link
  receiver : Receiver
  armed : Option ArmedTimer
  /-- Acks on their way to the sender, with their arrival. -/
  acks : List (Nat × Ack)
  /-- How long an ack takes. -/
  ackDelay : Nat
  /-- The most bytes of a new segment. -/
  mss : Nat

/-- The outcome of a transfer. -/
structure Report where
  elapsed : Nat
  /-- Bytes acknowledged. -/
  delivered : Nat
  /-- Bytes the link dropped. -/
  dropped : Nat
  snapshot : Snapshot
deriving DecidableEq

/-- The earliest of the instants that are given. -/
def earliest (instants : List (Option Nat)) : Option Nat := (instants.filterMap id).min?

namespace Transfer

variable {κ : Type} [CongestionLaw κ]

/-- A transfer before the first segment. -/
def start (engine : Engine κ) (link : LinkSettings) (mss : Nat) (now : Nat) : Transfer κ where
  engine := engine
  link := Link.start link now
  receiver := Receiver.start engine.board.una
  armed := none
  acks := []
  ackDelay := link.rtt / 2
  mss := mss

/-- Note what happened. -/
def tell (t : Transfer κ) (events : List Event) : Transfer κ :=
  { t with engine := t.engine.tell events }

/-- The link and the armed timer as a host of the engine, at a given instant. -/
def host (now : Nat) : Host (Link × Option ArmedTimer) where
  transmit := fun (link, armed) range _ =>
    let sent := link.put range now
    ⟨.ok range.length, (sent.1, armed), sent.2⟩
  arm := fun (link, _) timer duration generation =>
    (link, some ⟨timer, now + duration, generation⟩)
  cancel := fun (link, _) => (link, none)

/-- Carry out the actions of a call. -/
def dispatch (t : Transfer κ) (actions : Actions) (now : Nat) :
    Transfer κ × Except Error Unit :=
  let done := t.engine.dispatch (host now) (t.link, t.armed) actions now
  let t := { t with engine := done.1.1, link := done.1.2.1, armed := done.1.2.2 }
  match done.2 with
  | .ok _ => (t, .ok ())
  | .error e => (t, .error e)

/-- Carry out the actions of a call that may have failed. -/
def follow (t : Transfer κ) (result : Engine κ × Except Error Actions) (now : Nat) :
    Transfer κ × Except Error Unit :=
  let t := { t with engine := result.1 }
  match result.2 with
  | .ok actions => t.dispatch actions now
  | .error e => (t, .error e)

/-! ## New data -/

/-- What came of trying to send a segment. -/
inductive SendStep (κ : Type) where
  /-- No segment may be sent before the instant, if any. -/
  | wait (transfer : Transfer κ) (until? : Option Nat)
  /-- A segment was sent. -/
  | sent (transfer : Transfer κ)
  /-- A call failed. -/
  | failed (transfer : Transfer κ) (error : Error)

/-- Report a new segment, and put it on the link. -/
def sendSegment (t : Transfer κ) (range : SeqRange) (isLast : Bool) (now : Nat) :
    SendStep κ :=
  let flags := if isLast then { Flags.empty with appLimited := true } else Flags.empty
  let reported := t.engine.onPacketSent range flags now
  match reported.2 with
  | .error e => .failed { t with engine := reported.1 } e
  | .ok actions =>
    let entered := t.link.put range now
    let t := { t with engine := reported.1, link := entered.1 }.tell entered.2
    let done := t.dispatch actions now
    match done.2 with
    | .error e => .failed done.1 e
    | .ok () => .sent done.1

/-- Send the next segment of the data up to `stop`, if window and pacer allow. -/
def trySend (t : Transfer κ) (stop : Nat) (now : Nat) : SendStep κ :=
  let seq := t.engine.board.top
  let length := min t.mss (stop - seq)
  if length = 0 then .wait t none
  else
    let quota := t.engine.sendQuota
    let t := t.tell t.engine.quotaEvents
    if quota < length then .wait t none
    else
      let scheduled := t.engine.nextSendTime length now
      let t := { t with engine := scheduled.1 }
      match scheduled.2 with
      | some later => .wait t (some later)
      | none => t.sendSegment ⟨seq, seq + length⟩ (seq + length == stop) now

/-- Send new data as long as window and pacer allow, and tell when the pacer lets the next segment
go. Every segment moves the right edge up. -/
def sendNewData (t : Transfer κ) (stop : Nat) (now : Nat) :
    Transfer κ × Except Error (Option Nat) :=
  match t.trySend stop now with
  | .wait t' until? => (t', .ok until?)
  | .failed t' e => (t', .error e)
  | .sent t' =>
    if t.engine.board.top < t'.engine.board.top ∧ t.engine.board.top < stop then
      sendNewData t' stop now
    else (t', .ok none)
termination_by stop - t.engine.board.top

/-! ## One instant -/

/-- Let segments arrive at the receiver, whose acks set out for the sender. -/
def receive (t : Transfer κ) (now : Nat) : Transfer κ :=
  let taken := t.link.takeArrived now
  taken.2.foldl (fun t p =>
    let answered := t.receiver.onSegment p.range p.sent
    { t with receiver := answered.1, acks := t.acks ++ [(now + t.ackDelay, answered.2)] })
    { t with link := taken.1 }

/-- Report acks one after the other, until all data up to `stop` is acknowledged. -/
def reportAcks (stop : Nat) (now : Nat) (t : Transfer κ) :
    List (Nat × Ack) → Transfer κ × Except Error Unit
  | [] => (t, .ok ())
  | due :: rest =>
    let done := t.follow (t.engine.onAck due.2 now) now
    match done.2 with
    | .error e => (done.1, .error e)
    | .ok () =>
      if stop ≤ done.1.engine.board.una then (done.1, .ok ())
      else reportAcks stop now done.1 rest

/-- Report the acks that have arrived, in the order of their arrival. -/
def processAcks (t : Transfer κ) (stop : Nat) (now : Nat) : Transfer κ × Except Error Unit :=
  let due := Sorting.sortByKey (·.1) (t.acks.filter (·.1 ≤ now))
  reportAcks stop now { t with acks := t.acks.filter (now < ·.1) } due

/-- Report the firing of the armed timer, if it is due. -/
def processTimer (t : Transfer κ) (stop : Nat) (now : Nat) : Transfer κ × Except Error Unit :=
  match t.armed with
  | none => (t, .ok ())
  | some armed =>
    if now < armed.expiry then (t, .ok ())
    else
      let hasData : Bool := t.engine.board.top < stop
      { t with armed := none }.follow
        (t.engine.onTimeout armed.timer armed.generation hasData now) now

/-- What happens at one instant: segments arrive, then acks, then the timer fires. -/
def step (t : Transfer κ) (stop : Nat) (now : Nat) : Transfer κ × Except Error Unit :=
  let acked := (t.receive now).processAcks stop now
  match acked.2 with
  | .error e => (acked.1, .error e)
  | .ok () => acked.1.processTimer stop now

/-! ## The whole transfer -/

/-- When the next thing happens, given when the pacer lets the next segment go. -/
def nextInstant (t : Transfer κ) (nextSend : Option Nat) : Option Nat :=
  earliest [nextSend, t.link.nextArrival, (t.acks.map (·.1)).min?, t.armed.map (·.expiry)]

/-- Go from instant to instant until all data up to `stop` is acknowledged, the deadline is reached,
or nothing is under way any more. Time moves on by a microsecond at least. -/
def proceed (stop deadline : Nat) (t : Transfer κ) (now : Nat) :
    (Transfer κ × Nat) × Except Error Unit :=
  if now < deadline ∧ t.engine.board.una < stop then
    let sent := t.sendNewData stop now
    match sent.2 with
    | .error e => ((sent.1, now), .error e)
    | .ok nextSend =>
      match sent.1.nextInstant nextSend with
      | none => ((sent.1.tell [.simulationStalled sent.1.engine.text], now), .ok ())
      | some instant =>
        let next := max instant (now + Time.microsecond)
        let stepped := sent.1.step stop next
        match stepped.2 with
        | .error e => ((stepped.1, next), .error e)
        | .ok () => proceed stop deadline stepped.1 next
  else ((t, now), .ok ())
termination_by deadline - now
decreasing_by
  have later : now < max instant (now + Time.microsecond) :=
    Nat.lt_of_lt_of_le (Nat.lt_add_of_pos_right (by decide)) (Nat.le_max_right _ _)
  omega

/-- Transfer `bytes`, giving up when `duration` has passed. -/
def run (t : Transfer κ) (bytes : Nat) (duration : Nat) (now : Nat) :
    Transfer κ × Except Error Report :=
  let isn := t.engine.board.una
  let done := proceed (isn + bytes) (now + duration) t now
  let t := done.1.1
  match done.2 with
  | .error e => (t, .error e)
  | .ok () => (t, .ok {
      elapsed := Time.since done.1.2 now
      delivered := t.engine.board.una - isn
      dropped := t.link.dropped
      snapshot := t.engine.snapshot })

end Transfer

end LossRecovery
