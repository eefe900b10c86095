import LossRecovery.Proofs.LossByTime
import LossRecovery.Proofs.Persistence

/-!
# `LossRecovery.Proofs.SendLogs` — calls of any kind, with a log of the sends

The sender of a session keeps two rules. Here it may report any range as sent and have any actions
carried out. A send that leaves a gap stops the engine before anything changes, so what the sends
that are taken in, the passes over acks and relabelling keep holds for as long as the engine runs.

## Contents
- `Engine.Logs now g sent g'`: a call made at the instant `now`, and the sends it takes in.
- `Engine.Logged first last sends g`: the engines that calls lead to, with all sends taken in and
  the latest instant.
- `Logs.preserved`, `Logged.preserved`: what is preserved holds of an engine and its log.
- `Logged.recorded`: the records tell of the sends in the log.
- `Sending.reports`, `Logged.transmissions_eq`: a byte that has not arrived was carried by every
  send whose range holds it.
-/

namespace LossRecovery

open Sending (transmissions)

namespace Engine

variable {κ : Type} [CongestionLaw κ] {g g' : Engine κ} {sent sends : List Sending}
  {first last now : Nat}

/-- One call of any kind, made at the instant `now`, and the sends that it takes in, latest first. A
sender that reports sends sets no marks of delivery. -/
inductive Logs (now : Nat) (g : Engine κ) : List Sending → Engine κ → Prop
  | send (range : SeqRange) (flags : Flags) (fresh : flags.IsFresh) :
      Logs now g ((Session.asked (g.onPacketSent range flags now).2).map
        fun _ => ⟨g.board, range, now⟩) (g.onPacketSent range flags now).1
  | dispatch {σ : Type} (host : Host σ) (w : σ) (actions : Actions) :
      Logs now g (if g.isAborted then [] else g.dispatchSends host now w actions)
        (g.dispatch host w actions now).1.1
  | ack (a : Ack) : Logs now g [] (g.onAck a now).1
  | fire (timer : Timer) (generation : Nat) (hasData : Bool) :
      Logs now g [] (g.onTimeout timer generation hasData now).1
  | nextSendTime (bytes : Nat) : Logs now g [] (g.nextSendTime bytes now).1
  | setFixedRate (rate : Option Nat) : Logs now g [] (g.setFixedRate rate)
  | setHardware (table : RateTable) : Logs now g [] (g.setHardware table)
  | setTrace (trace : String) : Logs now g [] (g.setTrace trace)

/-- The engines that calls lead to from a fresh one whose first sequence number is `first`, as long
as no call is made before an earlier one, with the instant of the latest call and all sends taken
in, latest first. -/
inductive Logged (first : Nat) : Nat → List Sending → Engine κ → Prop
  | start {settings : Settings} {law : κ} {sink : Sink} {now : Nat} {g : Engine κ}
      (started : start settings law sink first now = .ok g) : Logged first 0 [] g
  | step {last now : Nat} {sent sends : List Sending} {g g' : Engine κ}
      (before : Logged first last sends g) (later : last ≤ now) (call : Logs now g sent g') :
      Logged first now (sent ++ sends) g'

/-! ## Calls and their instants -/

theorem Logs.step (call : Logs now g sent g') : Step g g' := by
  cases call with
  | send range flags fresh => exact .send range flags now fresh
  | dispatch host w actions => exact .dispatch host w actions now
  | ack a => exact .ack a now
  | fire timer generation hasData => exact .fire timer generation hasData now
  | nextSendTime bytes => exact .nextSendTime bytes now
  | setFixedRate rate => exact .setFixedRate rate
  | setHardware table => exact .setHardware table
  | setTrace trace => exact .setTrace trace

theorem Logs.now_eq (call : Logs now g sent g') : ∀ e ∈ sent, e.now = now := by
  cases call with
  | send range flags fresh =>
    intro e he
    obtain ⟨_, -, rfl⟩ := List.mem_map.mp he
    rfl
  | dispatch host w actions =>
    intro e he
    split at he
    · simp at he
    · exact now_of_dispatchSends host now g w actions e he
  | _ => simp

/-- No send was made after the latest call. -/
theorem Logged.now_le (h : Logged first last sends g) : ∀ e ∈ sends, e.now ≤ last := by
  induction h with
  | start => simp
  | step before later call ih =>
    intro e he
    rcases List.mem_append.mp he with he | he
    · exact Nat.le_of_eq (call.now_eq e he)
    · exact Nat.le_trans (ih e he) later

/-! ## What is preserved -/

section Preserved

variable {P : Engine κ → List Sending → Prop}

section Dispatch

variable {σ : Type} (host : Host σ) (now : Nat)

omit [CongestionLaw κ] in
/-- A send that is carried out keeps what is preserved, unless it leaves a gap. -/
theorem Running.sendRange_preserves (hP : Preserved P) (h : g.Running) (hp : P g sends) (w : σ)
    (range : SeqRange) (kind : SendKind) :
    (Continued P g (g.sendingOf range now (g.sendRange host w range kind now).2.2 ++ sends)
        (g.sendRange host w range kind now).1 ∧
      ∀ e, (g.sendRange host w range kind now).2.2 = .error e → e.isFatal = false) ∨
    ∃ e, (g.sendRange host w range kind now).2.2 = .error e ∧ e.isFatal = true := by
  by_cases hs : range.start ≤ g.board.top
  · exact .inl (h.sendRange host now hP hp w kind hs)
  · have hk : Kept g (g.tell (host.transmit w range kind.flags).events) := rfl
    have htold := (Continued.refl h hp).relabel hP (.of_kept hk)
    have hcarried := carried_sendRange host g w range kind now
    generalize g.sendRange host w range kind now = done at hcarried ⊢
    cases hcarried with
    | dropped =>
      exact .inl ⟨(Continued.refl h hp).relabel hP (.of_kept (kept_noteStale g range)), by simp⟩
    | failed m =>
      refine .inl ⟨htold, ?_⟩
      intro e he
      injection he with he
      exact he ▸ rfl
    | nothing => exact .inl ⟨htold, by simp⟩
    | refused n pos report =>
      rw [processSent_of_beyond (g.tell (host.transmit w range kind.flags).events)
        (start_lt_part range pos) (Nat.lt_of_not_le hs)] at report
      cases report
      exact .inr ⟨_, rfl, rfl⟩
    | taken n pos report =>
      rw [processSent_of_beyond (g.tell (host.transmit w range kind.flags).events)
        (start_lt_part range pos) (Nat.lt_of_not_le hs)] at report
      cases report

omit [CongestionLaw κ] in
theorem Running.dispatchAll_preserves (hP : Preserved P) (h : g.Running) (hp : P g sends) (w : σ)
    (total : Nat) (actions : Actions) :
    (Continued P g (g.dispatchSends host now w actions ++ sends)
        (g.dispatchAll host now w total actions).1 ∧
      ∀ e, (g.dispatchAll host now w total actions).2.2 = .error e → e.isFatal = false) ∨
    ∃ e, (g.dispatchAll host now w total actions).2.2 = .error e ∧ e.isFatal = true := by
  -- Along the actions; the first error ends the walk.
  induction actions generalizing g w total sends with
  | nil => exact .inl ⟨.refl h hp, by simp [Engine.dispatchAll]⟩
  | cons action rest ih =>
    cases action with
    | send range n kind =>
      have hone := h.sendRange_preserves host now hP hp w range kind
      unfold Engine.dispatchAll dispatchSends
      dsimp only
      cases hres : (g.sendRange host w range kind now).2.2 with
      | error e =>
        rw [hres] at hone
        rcases hone with ⟨hc, he⟩ | ⟨e', he', hfatal⟩
        · refine .inl ⟨hc, ?_⟩
          intro e' he'
          injection he' with he'
          exact he' ▸ he e rfl
        · injection he' with he'
          exact .inr ⟨e, rfl, he' ▸ hfatal⟩
      | ok bytes =>
        rw [hres] at hone
        rcases hone with ⟨hc, -⟩ | ⟨e', he', -⟩
        · rcases ih hc.running hc.property (g.sendRange host w range kind now).2.1
            (total + bytes) with ⟨hc', he'⟩ | hgap
          · rw [List.append_assoc]
            exact .inl ⟨hc.trans hc', he'⟩
          · exact .inr hgap
        · cases he'
    | arm timer duration generation => exact ih h hp _ total
    | cancel => exact ih h hp _ total

omit [CongestionLaw κ] in
theorem Running.dispatch_preserves (hP : Preserved P) (h : g.Running) (hp : P g sends) (w : σ)
    (actions : Actions) (ha : (g.dispatch host w actions now).1.1.isAborted = false) :
    Continued P g (g.dispatchSends host now w actions ++ sends)
      (g.dispatch host w actions now).1.1 := by
  have hall := h.dispatchAll_preserves host now hP hp w 0 actions
  unfold Engine.dispatch at ha ⊢
  rw [if_neg (by simp [h.isAborted])] at ha ⊢
  dsimp only at ha ⊢
  rcases hall with ⟨hc, he⟩ | ⟨e, he, hfatal⟩
  · split
    · exact hc
    · next e hres => exact hc.relabel hP (.of_kept (kept_fail _ (he e hres)))
  · -- A gap would have stopped the engine.
    rw [he] at ha
    dsimp only at ha
    rw [isAborted_fail _ hfatal] at ha
    cases ha

end Dispatch

omit [CongestionLaw κ] in
theorem Running.send_preserves (hP : Preserved P) (h : g.Running) (hp : P g sends) (range : SeqRange)
    {flags : Flags} (hf : flags.IsFresh) (ha : (g.onPacketSent range flags now).1.isAborted = false) :
    Continued P g ((Session.asked (g.onPacketSent range flags now).2).map
      (fun _ => (⟨g.board, range, now⟩ : Sending)) ++ sends) (g.onPacketSent range flags now).1 := by
  rcases h.send_ends range hf now with ⟨-, ⟨c, hc⟩, hcounted⟩ | ⟨-, -, -, hstopped⟩ | ⟨-, hs, -⟩
  · rw [hc, hcounted]
    have hn : Noted g g.countMalformed := rfl
    exact (Continued.refl h hp).relabel hP (.of_kept hn.kept)
  · rw [hstopped.isAborted] at ha
    cases ha
  · exact (h.send hP hp hs hf now).1

/-- A call that does not stop a running engine keeps what is preserved. -/
theorem Logs.preserved (hP : Preserved P) (call : Logs now g sent g') (ha : g'.isAborted = false)
    (h : g.Running) (hp : P g sends) : Continued P g (sent ++ sends) g' := by
  have noted : ∀ {g'}, Noted g g' → Continued P g sends g' := fun hn =>
    (Continued.refl h hp).relabel hP (.of_kept hn.kept)
  cases call with
  | send range flags fresh => exact h.send_preserves hP hp range fresh ha
  | dispatch host w actions =>
    rw [if_neg (by simp [h.isAborted])]
    exact h.dispatch_preserves host now hP hp w actions ha
  | ack a => exact (h.ack hP hp a now).1
  | fire timer generation hasData => exact (h.fire hP hp timer generation hasData now).1
  | nextSendTime bytes => exact noted rfl
  | setFixedRate rate => exact noted rfl
  | setHardware table => exact noted rfl
  | setTrace trace => exact noted rfl

/-- What is preserved, and holds at the start, holds of every engine that calls lead to and its log,
unless they stopped it. -/
theorem Logged.preserved (hP : Preserved P)
    (hstart : ∀ {settings law sink una now g},
      Engine.start settings law sink una now = .ok g → P g [])
    (h : Logged first last sends g) (ha : g.isAborted = false) : g.Running ∧ P g sends := by
  induction h with
  | start started => exact ⟨Sound.start started, hstart started⟩
  | step _ _ call ih =>
    obtain ⟨hrun, hp⟩ := ih (call.step.isAborted_eq_false ha)
    have hc := call.preserved hP ha hrun hp
    exact ⟨hc.running, hc.property⟩

end Preserved

theorem Logged.recorded (h : Logged first last sends g) (ha : g.isAborted = false) :
    g.Running ∧ Recorded g sends :=
  h.preserved preserved_recorded recorded_start ha

end Engine

/-! ## Reports of a byte -/

namespace AckPass

variable {i : AckInput} {p : AckPass} {x : SeqRange} {seq : Nat}

theorem Sound.arrived_advance (h : p.Sound) (hlo : p.board.una < i.ack.cumulative)
    (hhi : i.ack.cumulative ≤ p.board.top) (hseq : p.board.Arrived seq) :
    (p.advance i).board.Arrived seq := by
  rw [advance_board]
  exact h.board.arrived_release (Nat.le_of_lt hlo) hhi hseq

theorem Sound.arrived_markBlock (h : p.Sound) (hx : x.start < x.stop) (hlo : p.board.una ≤ x.start)
    (hhi : x.stop ≤ p.board.top) (hseq : p.board.Arrived seq) :
    (p.markBlock i x).board.Arrived seq :=
  hseq.imp_right fun hs => by rw [h.markBlock_sackedAt hx hlo hhi, hs, Bool.true_or]

theorem Still.arrived {q : AckPass} (hs : Still p q) (h : p.Sound) :
    q.board.Arrived seq ↔ p.board.Arrived seq := by
  obtain ⟨f, hf, hb⟩ := hs.board
  unfold Scoreboard.Arrived
  rw [hb, h.board.sackedAt_modify hf]
  rfl

/-- What has arrived before an ack has arrived after it. -/
theorem Sound.arrived_run (h : p.Sound) (hle : i.ack.cumulative ≤ p.board.top)
    (hseq : p.board.Arrived seq) : (p.run i).board.Arrived seq := by
  have hkept : Kept i fun q => q.board.Arrived seq :=
    ⟨fun hs hstill hq => (hstill.arrived hs).mpr hq,
      fun hs hlo hhi hq => hs.arrived_advance hlo hhi hq,
      fun hs hx hlo hhi _ hq => hs.arrived_markBlock hx hlo hhi hq⟩
  exact hkept.run h hle hseq

end AckPass

namespace Sending

/-- The instants at which a byte was reported as sent, latest first. -/
def reports (sends : List Sending) (seq : Nat) : List Nat :=
  (sends.filter (·.range.contains seq)).map (·.now)

end Sending

/-- What had arrived before a send was taken in has arrived. -/
def KeepsArrivals {κ : Type} (g : Engine κ) (sends : List Sending) : Prop :=
  ∀ e ∈ sends, ∀ seq, e.board.Arrived seq → g.board.Arrived seq

section Reports

variable {κ : Type}

theorem KeepsArrivals.mono {g g' : Engine κ} {sends : List Sending} (h : KeepsArrivals g sends)
    (hmono : ∀ seq, g.board.Arrived seq → g'.board.Arrived seq) : KeepsArrivals g' sends :=
  fun e he seq hseq => hmono seq (h e he seq hseq)

theorem preserved_keepsArrivals : Preserved (KeepsArrivals (κ := κ)) := by
  constructor
  · intro g g' sends hg hr h
    exact h.mono fun seq => (hr.arrived hg seq).mpr
  · intro g g' sends x now hg _ _ _ hsent _ h e he seq hseq
    rcases List.mem_cons.mp he with rfl | he
    · exact hsent.arrived hg.board hseq
    · exact hsent.arrived hg.board (h e he seq hseq)
  · intro g sends ack now hg hle h
    exact h.mono fun seq => hg.passState.arrived_run hle

variable [CongestionLaw κ] {g : Engine κ} {sends : List Sending} {first last : Nat}

/-- A byte that has not arrived was carried by every send that reported it. -/
theorem Engine.Logged.transmissions_eq (h : Logged first last sends g) (ha : g.isAborted = false)
    {seq : Nat} (hseq : ¬ g.board.Arrived seq) :
    transmissions sends seq = Sending.reports sends seq := by
  have hkeeps := (h.preserved preserved_keepsArrivals (fun _ => by simp [KeepsArrivals]) ha).2
  unfold Sending.transmissions Sending.reports
  refine congrArg (List.map Sending.now) (List.filter_congr ?_)
  intro e he
  have hmissing : ¬ e.board.Arrived seq := fun harr => hseq (hkeeps e he seq harr)
  unfold Scoreboard.Arrived at hmissing
  rw [not_or, Nat.not_lt, Bool.not_eq_true] at hmissing
  unfold Sending.carries
  simp [hmissing.1, hmissing.2]

end Reports

end LossRecovery
