import LossRecovery.Proofs.Turns

/-!
# `LossRecovery.Proofs.Figures` — what a call works out, and whether a machine can

The engine counts in natural numbers, which never run out. A machine counts in words, tells durations by
64-bit seconds, and knows a last instant. Most of what a call works out fits because what it is made of
does: lengths of records and sums of them stay below the right edge, and the rest stops at the largest
word by itself. What is left is listed here for each call, as far as the call comes. A machine that cannot
hold a figure gives the call up, and no engine comes back.

Where one figure goes into the next and is no larger, only the last one is listed. Counters that grow by
one at a time are not.

## Contents
- `Figure`, `Machine`, `Machine.Holds`, `Machine.answer`: figures, and what a machine makes of them.
- `RttEstimator.rtoFigures`, `sampleFigures`, `RecentAck.lossFigures`, `ProbeRtt.checkFigures`,
  `GoodputEstimator.deliverFigures`, `planFigures`: the figures of the parts.
- `Engine.rearmFigures`, `sentFigures`, `ackFigures`, `timeoutFigures`, `dispatchFigures`: those of the
  calls.
- `sentFigures_of_refused`, `ackFigures_of_beyond`: a call that is refused works nothing out.
-/

namespace LossRecovery

/-! ## Figures and machines -/

/-- What is worked out with words, durations and instants. -/
inductive Figure where
  /-- A sequence number, or a number of bytes. -/
  | word (n : Nat)
  /-- The length of a range that someone else gave. -/
  | length (x : SeqRange)
  | duration (d : Nat)
  | instant (t : Nat)
deriving DecidableEq

/-- A machine with 64-bit words. -/
structure Machine where
  /-- The last instant it can tell. -/
  last : Nat

namespace Machine

/-- The longest duration: the seconds are a word. -/
def longest : Nat := (Word.max64 + 1) * Time.second - 1

/-- Whether a machine can hold a figure. -/
def holds (m : Machine) : Figure → Bool
  | .word n => n ≤ Word.max64
  | .length x => x.start ≤ x.stop
  | .duration d => d ≤ longest
  | .instant t => t ≤ m.last

/-- A machine can hold all of the figures. -/
def Holds (m : Machine) (figures : List Figure) : Prop := ∀ f ∈ figures, m.holds f = true

instance (m : Machine) (figures : List Figure) : Decidable (m.Holds figures) :=
  inferInstanceAs (Decidable (∀ f ∈ figures, m.holds f = true))

/-- What comes back from a call that works out the figures. -/
def answer {α : Type} (m : Machine) (figures : List Figure) (a : α) : Option α :=
  if m.Holds figures then some a else none

variable {m : Machine} {α : Type} {a : α} {f : Figure} {figures others : List Figure}

/-- A call comes back if and only if the machine holds what it works out. -/
theorem answer_eq_some : m.answer figures a = some a ↔ m.Holds figures := by
  unfold answer
  split <;> simp [*]

theorem answer_eq_none : m.answer figures a = none ↔ ¬ m.Holds figures := by
  unfold answer
  split <;> simp [*]

theorem eq_of_answer {b : α} (h : m.answer figures a = some b) : b = a := by
  unfold answer at h
  split at h
  · exact (Option.some.inj h).symm
  · cases h

@[simp] theorem holds_nil : m.Holds [] := fun _ h => absurd h List.not_mem_nil

@[simp] theorem holds_cons : m.Holds (f :: figures) ↔ m.holds f = true ∧ m.Holds figures :=
  List.forall_mem_cons

@[simp] theorem holds_append : m.Holds (figures ++ others) ↔ m.Holds figures ∧ m.Holds others :=
  List.forall_mem_append

end Machine

/-! ## The figures of the parts -/

/-- The timeout without backoff is worked out from samples; doubling it stops at its upper limit. -/
def RttEstimator.rtoFigures (e : RttEstimator) : List Figure :=
  match e.smoothed with
  | some smoothed => [.duration (smoothed + max (4 * e.variation) granularity)]
  | none => []

/-- A sample that is believed goes into the averages. -/
def RttEstimator.sampleFigures (e : RttEstimator) (sample : Option Nat) : List Figure :=
  match sample, e.smoothed with
  | some rtt, some smoothed =>
    if isPlausible rtt then
      [.duration (3 * e.variation + distance smoothed rtt), .duration (7 * smoothed + rtt)]
    else []
  | _, _ => []

/-- The time allowed for reordering, before it is cut to the smoothed RTT, and for each record that may be
lost by time the instant from which on it is. -/
def RecentAck.lossFigures (a : RecentAck) (b : Scoreboard) (minRtt smoothed shift : Nat) : List Figure :=
  .duration ((minRtt >>> min shift 16) * a.multiplier) ::
    (b.ordered.filter fun r => !r.isDelivered && !r.flags.collapsed && a.sentAfter r).map fun r =>
      .instant (r.lastSent + a.rtt + a.reorderWindow minRtt smoothed shift)

/-- A probe of the least RTT that reached the floor is held for its duration. -/
def ProbeRtt.checkFigures (p : ProbeRtt) (pipe now : Nat) : List Figure :=
  match p.probing with
  | some ⟨_, none⟩ => if pipe ≤ p.floor then [.instant (now + p.duration)] else []
  | _ => []

/-- A window that is closed goes into the blended RTT. -/
def GoodputEstimator.deliverFigures (g : GoodputEstimator) (delivered : Nat) (appLimited : Bool)
    (rtt now : Nat) : List Figure :=
  match g.window, g.smoothedRtt with
  | some w, some blended =>
    if appLimited ∨ delivered - w.delivered < g.minBytes ∨ Time.since now w.opened = 0 then []
    else [.duration (blended * (g.decay - 1) + rtt)]
  | _, _ => []

/-- The segments of a send are counted from its bytes, rounded up. -/
def segmentFigure (x : SeqRange) (mss : Nat) : Figure := .word (x.length + max mss 1)

/-- The segments of all sends that are planned. -/
def planFigures (planned : Actions) (mss : Nat) : List Figure :=
  planned.sends.map fun send => segmentFigure send.1 mss

namespace Engine

variable {κ : Type} {g : Engine κ} {range : SeqRange} {flags : Flags} {ack : Ack} {now : Nat}

/-! ## Timers -/

/-- The probe timeout is worked out before it is cut to the retransmission timeout. -/
def probeTimeoutFigures (g : Engine κ) : List Figure :=
  let plain := max (g.rtt.smoothedRtt * 2) g.settings.tlpMin
  .duration (if g.board.outstanding ≤ g.settings.mss then plain + g.settings.delayedAckTime else plain)
    :: g.rtt.rtoFigures

/-- The retransmission timer is armed. -/
def rtoFigures (g : Engine κ) (now : Nat) : List Figure :=
  g.rtt.rtoFigures ++ [.instant (now + g.rto)]

/-- A timer is armed as the stage calls for it. -/
def rearmFigures (g : Engine κ) (now : Nat) : List Figure :=
  if g.schedule.stage = .steady ∧ g.settings.tlpEnabled = true then
    g.probeTimeoutFigures ++ [.instant (now + g.probeTimeout)]
  else g.rtoFigures now

/-! ## Sends -/

/-- The bytes of a send are accounted for. -/
def accountFigures (g : Engine κ) (sent now : Nat) : List Figure :=
  if sent = 0 then []
  else if (g.schedule.stage = .steady ∧ g.settings.tlpEnabled = true)
      ∨ g.schedule.timers.expiry? .rto = none then g.rearmFigures now
  else []

/-- The report of a send is taken in. -/
def reportFigures (g : Engine κ) (range : SeqRange) (flags : Flags) (now : Nat) : List Figure :=
  if range.isEmpty then []
  else
    let resent := g.resendBelow range flags now
    if range.stop ≤ g.board.top then resent.1.accountFigures resent.2 now
    else
      let fresh : SeqRange := ⟨max range.start g.board.top, range.stop⟩
      let appended := resent.1.appendNew fresh flags now
      match appended.2 with
      | .error _ => []
      | .ok () => appended.1.accountFigures (resent.2 + fresh.length) now

/-- A send is reported. -/
def sentFigures (g : Engine κ) (range : SeqRange) (flags : Flags) (now : Nat) : List Figure :=
  if g.isAborted then [] else g.reportFigures range flags now

/-! ## Acks -/

/-- Losses are looked for. -/
def lossFigures (g : Engine κ) : List Figure :=
  match g.schedule.stage with
  | .rtoPending => []
  | _ => g.recent.lossFigures g.board g.rtt.minRtt g.rtt.smoothedRtt g.settings.reorderShift

/-- A probe of the least RTT is looked after. -/
def probeFigures (g : Engine κ) (now : Nat) : List Figure :=
  if g.schedule.stage ≠ .steady ∧ g.probe.isActive = false then []
  else g.probe.checkFigures g.pipe now

variable [CongestionLaw κ]

/-- What was delivered is measured. -/
def goodputFigures (g : Engine κ) (o : AckOutcome) (now : Nat) : List Figure :=
  if o.delivered = 0 then []
  else g.goodput.deliverFigures g.delivered o.appLimited g.rtt.smoothedRtt now

/-- The timers are settled. -/
def settleFigures (g : Engine κ) (prior : Stage) (o : AckOutcome) (now : Nat) : List Figure :=
  if g.board.outstanding = 0 then []
  else if 0 < o.delivered ∨ g.schedule.stage ≠ prior ∨ g.schedule.timers.nextTimeout = none then
    g.rearmFigures now
  else []

/-- An ack is acted on. -/
def respondFigures (g : Engine κ) (prior : Stage) (o : AckOutcome) (lost : List SendRecord)
    (now : Nat) : List Figure :=
  let planned := g.planSends lost
  planFigures planned.2 g.settings.mss ++ planned.1.probeFigures now
    ++ (planned.1.checkProbeRtt now).goodputFigures o now
    ++ (g.measured o lost now).settleFigures prior o now

/-- An ack is reported. -/
def ackFigures (g : Engine κ) (ack : Ack) (now : Nat) : List Figure :=
  if g.isAborted then []
  else match g.passOf ack now with
    | .error _ => []
    | .ok p =>
      let adopted := g.adopt p ack
      let concluded := adopted.conclude ack p.outcome now
      g.rtt.sampleFigures p.outcome.rttSample ++ (adopted.judged ack p.outcome now).lossFigures
        ++ concluded.1.respondFigures g.schedule.stage p.outcome concluded.2 now

/-! ## Timers that fire -/

/-- The probe timer fired: new data goes up to a segment above the right edge, if there is any. -/
def fireProbeFigures (g : Engine κ) (hasData : Bool) (now : Nat) : List Figure :=
  if g.board.outstanding = 0 then []
  else
    (if hasData then [.word (g.board.top + g.settings.mss)] else [])
      ++ (g.probeFor hasData).toList.map (fun probe => segmentFigure probe.1 g.settings.mss)
      ++ g.rtoFigures now

/-- The retransmission timer fired. -/
def fireTimeoutFigures (g : Engine κ) (now : Nat) : List Figure :=
  if g.board.outstanding = 0 then []
  else
    let collapsed := g.collapse now
    planFigures collapsed.resendLowest.2 g.settings.mss ++ collapsed.rtoFigures now

/-- The firing of a timer is reported. -/
def timeoutFigures (g : Engine κ) (timer : Timer) (generation : Nat) (hasData : Bool) (now : Nat) :
    List Figure :=
  if g.isAborted ∨ g.schedule.timers.isCurrent timer generation = false then []
  else match timer with
    | .tlp => g.fireProbeFigures hasData now
    | .rto => g.fireTimeoutFigures now

/-! ## Actions that are carried out -/

section Dispatch

variable {σ : Type} (host : Host σ)

/-- A send is carried out. -/
def carryFigures (g : Engine κ) (w : σ) (range : SeqRange) (kind : SendKind) (now : Nat) :
    List Figure :=
  if !g.stillWanted range kind then []
  else
    let transmission := host.transmit w range kind.flags
    match transmission.result with
    | .error _ => []
    | .ok count =>
      let sent := min count range.length
      .length range :: if sent = 0 then []
        else (g.tell transmission.events).reportFigures ⟨range.start, range.start + sent⟩ kind.flags now

/-- Actions are carried out in order, and the bytes that went out are added up. -/
def carryAllFigures (now : Nat) (g : Engine κ) (w : σ) (total : Nat) : Actions → List Figure
  | [] => []
  | .send range _ kind :: rest =>
    let sent := g.sendRange host w range kind now
    g.carryFigures host w range kind now ++ match sent.2.2 with
      | .error _ => []
      | .ok bytes => .word (total + bytes) :: carryAllFigures now sent.1 sent.2.1 (total + bytes) rest
  | action :: rest => carryAllFigures now g (applyTimer host g w action) total rest

/-- The actions of a call are carried out. -/
def dispatchFigures (g : Engine κ) (w : σ) (actions : Actions) (now : Nat) : List Figure :=
  if g.isAborted then [] else g.carryAllFigures host now w 0 actions

end Dispatch

/-! ## Refused calls -/

omit [CongestionLaw κ] in
/-- A send that is refused is refused before anything is worked out. -/
theorem sentFigures_of_refused (h : range.stop ≤ range.start ∨ g.board.top < range.start) :
    g.sentFigures range flags now = [] := by
  unfold sentFigures reportFigures
  split
  · rfl
  · by_cases hx : range.stop ≤ range.start
    · rw [if_pos (SeqRange.isEmpty_iff.mpr hx)]
    · have hlt : g.board.top < range.start := h.resolve_left hx
      rw [if_neg (by rwa [SeqRange.isEmpty_iff]), if_neg (by omega)]
      have hbelow : g.resendBelow range flags now = (g, 0) := if_neg (by omega)
      have hfresh : (⟨max range.start g.board.top, range.stop⟩ : SeqRange) = range := by
        simp [Nat.max_eq_left (Nat.le_of_lt hlt)]
      have hgap : ∀ mark, g.board.append range flags now mark
          = .error (.structural (.misplacedSend range g.board.top)) := by
        intro mark
        simp [Scoreboard.append, SeqRange.isEmpty_iff, hx, Nat.ne_of_gt hlt]
      simp only [hbelow, hfresh, appendNew, hgap]

/-- An ack of data that was never sent is refused before anything is worked out. -/
theorem ackFigures_of_beyond (h : g.board.top < ack.cumulative) : g.ackFigures ack now = [] := by
  have hp : g.passOf ack now = .error (.malformed (.ackBeyond ack.cumulative g.board.top)) := if_pos h
  unfold ackFigures
  rw [hp]
  split <;> rfl

end Engine

end LossRecovery
