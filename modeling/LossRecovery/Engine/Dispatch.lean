import LossRecovery.Engine.Send

/-!
# `LossRecovery.Engine.Dispatch` — carrying out actions

Actions are carried out through the primitives of a host. An action may have been overtaken by the
time it is carried out: sends whose data has arrived are dropped, and timer actions that a later one
replaced are left out.

## Contents
- `Host`: sending a range, arming a timer, cancelling the timers.
- `applyTimer`, `sendRange`: carrying out one action.
- `dispatchAll`, `dispatch`: carrying out the actions of a call.
-/

namespace LossRecovery

/-- What a transmit primitive answers: the bytes sent from the start of the range or an error, the
changed host, and what the host has to tell. -/
structure Transmission (σ : Type) where
  result : Except Error Nat
  host : σ
  events : List Event := []

/-- The primitives that carry out actions, on hosts of type `σ`. -/
structure Host (σ : Type) where
  transmit : σ → SeqRange → Flags → Transmission σ
  arm : σ → Timer → Nat → Nat → σ
  cancel : σ → σ

/-- The flags a kind of send is marked with. -/
def SendKind.flags : SendKind → Flags
  | retransmit => Flags.empty
  | tailProbe | newDataProbe => { Flags.empty with probe := true }

/-- A transmit error as the engine reports it. -/
def Error.asTransmitFailure : Error → Error
  | transmitFailed message => transmitFailed message
  | e => transmitFailed e.text

namespace Engine

variable {κ σ : Type} [CongestionLaw κ]

/-- Hand a timer action to the host, unless a later one replaced it. -/
def applyTimer (host : Host σ) (g : Engine κ) (w : σ) (action : Action) : σ :=
  match action with
  | .arm timer duration generation =>
    if g.schedule.timers.isCurrent timer generation then host.arm w timer duration generation
    else w
  | .cancel => if g.schedule.timers.nextTimeout = none then host.cancel w else w
  | .send .. => w

/-- Whether a send still makes sense: it is new data, or some of it is missing. -/
def stillWanted (g : Engine κ) (range : SeqRange) (kind : SendKind) : Bool :=
  kind == .newDataProbe || g.board.hasMissing ⟨max range.start g.board.una, range.stop⟩

/-- Carry out a send, and tell how many bytes went out. -/
def sendRange (host : Host σ) (g : Engine κ) (w : σ) (range : SeqRange) (kind : SendKind)
    (now : Nat) : Engine κ × σ × Except Error Nat :=
  if !g.stillWanted range kind then (g.noteStale range, w, .ok 0)
  else
    let transmission := host.transmit w range kind.flags
    let g := g.tell transmission.events
    match transmission.result with
    | .error e => (g, transmission.host, .error e.asTransmitFailure)
    | .ok count =>
      let sent := min count range.length
      if sent = 0 then (g, transmission.host, .ok 0)
      else
        let processed := g.processSent ⟨range.start, range.start + sent⟩ kind.flags now
        match processed.2 with
        | .error e => (processed.1, transmission.host, .error e)
        | .ok follow =>
          (processed.1, follow.foldl (applyTimer host processed.1) transmission.host, .ok sent)

/-- Carry out actions in order, and tell how many bytes went out. -/
def dispatchAll (host : Host σ) (now : Nat) (g : Engine κ) (w : σ) (total : Nat) :
    Actions → Engine κ × σ × Except Error Nat
  | [] => (g, w, .ok total)
  | .send range _ kind :: rest =>
    let sent := g.sendRange host w range kind now
    match sent.2.2 with
    | .error e => (sent.1, sent.2.1, .error e)
    | .ok bytes => dispatchAll host now sent.1 sent.2.1 (total + bytes) rest
  | action :: rest => dispatchAll host now g (applyTimer host g w action) total rest

/-- Carry out the actions of a call. -/
def dispatch (host : Host σ) (g : Engine κ) (w : σ) (actions : Actions) (now : Nat) :
    (Engine κ × σ) × Except Error Nat :=
  if g.isAborted then ((g, w), .error .aborted)
  else
    let done := dispatchAll host now g w 0 actions
    match done.2.2 with
    | .ok total => ((done.1, done.2.1), .ok total)
    | .error e => ((done.1.fail e, done.2.1), .error e)

end Engine

end LossRecovery
