import LossRecovery.Proofs.Sessions

/-!
# `LossRecovery.Proofs.Calls` — an engine under calls of any kind

A session belongs to a sender that keeps the rules. Here the sender may report sends from anywhere,
carry out any actions, whether they were asked for or not, tune the pacer at any time, and go on
calling after an error. Only the marks of delivery stay with the engine. What does not stop the
engine leaves it sound.

## Contents
- `Engine.Conduct`, `Engine.Noted`: what an engine goes by; from `g` to `g'`, only notes were taken.
- `Engine.Told`: from `g` to `g'`, something was told, and that is all.
- `Engine.Step`, `Engine.Reachable`: the calls, and the engines they lead to.
- `processSent_of_beyond`: new data that leaves a gap.
- `Maintained P`: the work of an engine keeps `P`; `Reachable.maintained`: then calls do.
- `MaintainedWhen ok P`, `MaintainedUnder ok P`, `MaintainedAside P`: all of it keeps `P` but acks, if
  flags and times are `ok`, if flags are, or in any case; `MaintainedBySends ok P`: sends do.
- `Sustains`: an engine of which `P` holds.
-/

namespace LossRecovery

namespace Engine

variable {κ : Type}

/-! ## Taking notes -/

/-- What an engine goes by, with its byte counts: all but the pacer, the sink, the messages, and the
counts of errors and of calls that came too late. -/
structure Conduct (κ : Type) where
  settings : Settings
  board : Scoreboard
  tracker : SackTracker
  ledger : RecoveryLedger
  recent : RecentAck
  rtt : RttEstimator
  goodput : GoodputEstimator
  probe : ProbeRtt
  law : κ
  schedule : Schedule
  window : Nat
  delivered : Nat
  sentBytes : Nat
  retransmittedBytes : Nat
  deliveredBytes : Nat
  isAborted : Bool

def conduct (g : Engine κ) : Conduct κ where
  settings := g.settings
  board := g.board
  tracker := g.tracker
  ledger := g.ledger
  recent := g.recent
  rtt := g.rtt
  goodput := g.goodput
  probe := g.probe
  law := g.law
  schedule := g.schedule
  window := g.window
  delivered := g.delivered
  sentBytes := g.stats.sentBytes
  retransmittedBytes := g.stats.retransmittedBytes
  deliveredBytes := g.stats.deliveredBytes
  isAborted := g.isAborted

/-- From `g` to `g'`, notes were taken, and nothing else happened. -/
def Noted (g g' : Engine κ) : Prop := g'.conduct = g.conduct

variable {g g' : Engine κ} {now : Nat}

theorem Noted.kept (h : Noted g g') : Kept g g' :=
  congrArg (fun c : Conduct κ => (⟨c.board, c.settings, c.tracker, c.ledger.sackedBytes,
    c.ledger.holeBytes, c.recent.sentAt, c.recent.stop, c.isAborted⟩ : Memory)) h

theorem Noted.running (h : Noted g g') (hg : g.Running) : g'.Running :=
  hg.relabel (.of_kept h.kept)

/-- An error that is no violation is noted. -/
theorem noted_fail (g : Engine κ) {e : Error} (he : e.isFatal = false) : Noted g (g.fail e) := by
  unfold fail
  simp only [he]
  cases e <;> rfl

/-- A violation stops the engine. -/
theorem isAborted_fail (g : Engine κ) {e : Error} (he : e.isFatal = true) :
    (g.fail e).isAborted = true := by
  unfold fail
  simp only [he, if_true]
  cases e <;> rfl

theorem isFatal_of_fail {e : Error} (ha : (g.fail e).isAborted = false) : e.isFatal = false := by
  rw [Bool.eq_false_iff]
  intro hf
  rw [isAborted_fail g hf] at ha
  cases ha

/-- From `g` to `g'`, something was told, and that is all. -/
def Told (g g' : Engine κ) : Prop := ∃ told, g' = { g with journal := told ++ g.journal }

theorem told_tell (g : Engine κ) (events : List Event) : Told g (g.tell events) := ⟨_, rfl⟩

theorem Told.noted (h : Told g g') : Noted g g' := by
  obtain ⟨told, rfl⟩ := h
  rfl

theorem Told.trans {g'' : Engine κ} (h : Told g g') (h' : Told g' g'') : Told g g'' := by
  obtain ⟨a, rfl⟩ := h
  obtain ⟨b, rfl⟩ := h'
  exact ⟨b ++ a, by simp⟩

/-! ## Calls -/

variable [CongestionLaw κ]

/-- One call of any kind. A sender that reports sends sets no marks of delivery. -/
inductive Step (g : Engine κ) : Engine κ → Prop
  | send (range : SeqRange) (flags : Flags) (now : Nat) (fresh : flags.IsFresh) :
      Step g (g.onPacketSent range flags now).1
  | ack (a : Ack) (now : Nat) : Step g (g.onAck a now).1
  | fire (timer : Timer) (generation : Nat) (hasData : Bool) (now : Nat) :
      Step g (g.onTimeout timer generation hasData now).1
  | dispatch {σ : Type} (host : Host σ) (w : σ) (actions : Actions) (now : Nat) :
      Step g (g.dispatch host w actions now).1.1
  | nextSendTime (bytes now : Nat) : Step g (g.nextSendTime bytes now).1
  | setFixedRate (rate : Option Nat) : Step g (g.setFixedRate rate)
  | setHardware (table : RateTable) : Step g (g.setHardware table)
  | setTrace (trace : String) : Step g (g.setTrace trace)

/-- The engines that calls lead to from a fresh one whose first sequence number is `first`. -/
inductive Reachable (first : Nat) : Engine κ → Prop
  | start {settings : Settings} {law : κ} {sink : Sink} {now : Nat} {g : Engine κ}
      (started : start settings law sink first now = .ok g) : Reachable first g
  | step {g g' : Engine κ} (before : Reachable first g) (call : Step g g') : Reachable first g'

/-! ## Calls that succeed, and calls that do not -/

omit [CongestionLaw κ] in
/-- New data that leaves a gap above the right edge is a violation, found before anything changed. -/
theorem processSent_of_beyond (g : Engine κ) {x : SeqRange} {flags : Flags} (hx : x.start < x.stop)
    (hlt : g.board.top < x.start) :
    g.processSent x flags now = (g.tell [.sendMisplaced x g.board.top],
      .error (.structural (.misplacedSend x g.board.top))) := by
  have hfresh : (⟨max x.start g.board.top, x.stop⟩ : SeqRange) = x := by
    simp [Nat.max_eq_left (Nat.le_of_lt hlt)]
  have hbad : ∀ mark, g.board.append x flags now mark
      = .error (.structural (.misplacedSend x g.board.top)) := by
    intro mark
    have hne : ¬ x.isEmpty = true := by simpa [SeqRange.isEmpty_iff] using hx
    simp [Scoreboard.append, hne, Nat.ne_of_gt hlt]
  have hempty : ¬ x.isEmpty = true := by simpa [SeqRange.isEmpty_iff] using hx
  have hbelow : ¬ x.start < g.board.top := by omega
  have habove : ¬ x.stop ≤ g.board.top := by omega
  simp only [processSent, hempty, hbelow, habove, hfresh, appendNew, hbad, if_false]
  rfl

omit [CongestionLaw κ] in
/-- A stopped engine refuses calls and stays as it is. -/
theorem guarded_of_aborted {α : Type} {call : Engine κ → Engine κ × Except Error α}
    (ha : g.isAborted = true) : g.guarded call = (g, .error .aborted) := by
  simp [guarded, ha]

/-! ## What calls keep -/

/-- A property that the work of a running engine keeps: taking notes, taking in sends and acks, and
acting on timers that fire. -/
structure Maintained (P : Engine κ → Prop) : Prop where
  noted : ∀ {g g'}, Noted g g' → P g → P g'
  sent : ∀ {g x flags} now, g.Running → x.start < x.stop → x.start ≤ g.board.top → flags.IsFresh →
    P g → P (g.processSent x flags now).1
  acked : ∀ {g ack} now, g.Running → ack.cumulative ≤ g.board.top → P g →
    P (g.processAck ack now).1
  fired : ∀ {g timer generation} hasData now, g.Running →
    g.schedule.timers.isCurrent timer generation = true → P g →
    P (g.processTimeout timer generation hasData now).1

/-- A property that the work of a running engine keeps as long as no ack arrives, when reports of
sends carry flags, and come at times, that are `ok`. -/
structure MaintainedWhen (ok : Flags → Nat → Prop) (P : Engine κ → Prop) : Prop where
  noted : ∀ {g g'}, Noted g g' → P g → P g'
  sent : ∀ {g x flags} now, g.Running → x.start < x.stop → x.start ≤ g.board.top → ok flags now →
    P g → P (g.processSent x flags now).1
  fired : ∀ {g timer generation} hasData now, g.Running →
    g.schedule.timers.isCurrent timer generation = true → P g →
    P (g.processTimeout timer generation hasData now).1

/-- A property that the work of a running engine keeps as long as no ack arrives, when reports of
sends carry flags that are `ok`. -/
abbrev MaintainedUnder (ok : Flags → Prop) (P : Engine κ → Prop) : Prop :=
  MaintainedWhen (fun flags _ => ok flags) P

/-- A property that the work of a running engine keeps as long as no ack arrives. -/
abbrev MaintainedAside (P : Engine κ → Prop) : Prop := MaintainedUnder Flags.IsFresh P

variable {P : Engine κ → Prop} {ok : Flags → Nat → Prop} {first : Nat}

/-- A property that a running engine keeps as it takes notes and takes in sends, when reports of sends
carry flags, and come at times, that are `ok`. -/
structure MaintainedBySends (ok : Flags → Nat → Prop) (P : Engine κ → Prop) : Prop where
  noted : ∀ {g g'}, Noted g g' → P g → P g'
  sent : ∀ {g x flags} now, g.Running → x.start < x.stop → x.start ≤ g.board.top → ok flags now →
    P g → P (g.processSent x flags now).1

theorem Maintained.aside (hP : Maintained P) : MaintainedAside P := ⟨hP.noted, hP.sent, hP.fired⟩

theorem MaintainedWhen.sends (hP : MaintainedWhen ok P) : MaintainedBySends ok P := ⟨hP.noted, hP.sent⟩

/-- A running engine of which a property holds. -/
def Sustains (P : Engine κ → Prop) (g : Engine κ) : Prop := g.Running ∧ P g

namespace Sustains

omit [CongestionLaw κ] in
theorem note (hP : MaintainedBySends ok P) (h : Sustains P g) (hn : Noted g g') : Sustains P g' :=
  ⟨hn.running h.1, hP.noted hn h.2⟩

omit [CongestionLaw κ] in
theorem running_processSent (h : g.Running) {x : SeqRange} {flags : Flags} (hx : x.start < x.stop)
    (hs : x.start ≤ g.board.top) (hf : flags.IsFresh) (now : Nat) :
    (g.processSent x flags now).1.Running := by
  obtain ⟨-, -, hsound, hsame⟩ := h.sound.processSent hx hs hf now
  exact ⟨hsound, hsame.isAborted.trans h.isAborted⟩

omit [CongestionLaw κ] in
theorem send (hP : MaintainedBySends ok P) (h : Sustains P g) {x : SeqRange} {flags : Flags}
    (hf : flags.IsFresh) (hok : ok flags now) (ha : (g.onPacketSent x flags now).1.isAborted = false) :
    Sustains P (g.onPacketSent x flags now).1 := by
  unfold onPacketSent at ha ⊢
  rw [guarded_eq h.1.isAborted] at ha ⊢
  by_cases hx : x.start < x.stop
  · by_cases hs : x.start ≤ g.board.top
    · obtain ⟨⟨actions, htaken⟩, -, -, -⟩ := h.1.sound.processSent hx hs hf now
      simp only [htaken]
      exact ⟨running_processSent h.1 hx hs hf now, hP.sent now h.1 hx hs hok h.2⟩
    · rw [processSent_of_beyond g hx (by omega)] at ha
      rw [isAborted_fail _ rfl] at ha
      cases ha
  · rw [processSent_of_empty g (by omega)]
    exact h.note hP (noted_fail g rfl)

theorem ack (hP : Maintained P) (h : Sustains P g) (a : Ack) (now : Nat) :
    Sustains P (g.onAck a now).1 := by
  by_cases hle : a.cumulative ≤ g.board.top
  · obtain ⟨hr, actions, hok⟩ := h.1.onAck hle now
    have hrun : (g.onAck a now).1.Running :=
      Running.relabel ⟨h.1.sound.acked hle now, h.1.isAborted⟩ hr
    refine ⟨hrun, ?_⟩
    obtain ⟨-, actions, hok, -⟩ := h.1.sound.processAck hle now
    unfold onAck
    rw [guarded_eq h.1.isAborted, hok]
    exact hP.acked now h.1 hle h.2
  · unfold onAck
    rw [guarded_eq h.1.isAborted, processAck_of_beyond (by omega)]
    exact h.note hP.aside.sends (noted_fail g rfl)

theorem fire (hP : MaintainedWhen ok P) (h : Sustains P g) (timer : Timer) (generation : Nat)
    (hasData : Bool) (now : Nat) : Sustains P (g.onTimeout timer generation hasData now).1 := by
  rw [onTimeout_eq h.1.isAborted]
  have hrun := h.1.relabel (relabelled_processTimeout g timer generation hasData now)
  cases hc : g.schedule.timers.isCurrent timer generation with
  | true => exact ⟨hrun, hP.fired hasData now h.1 hc h.2⟩
  | false =>
    have hstale : g.processTimeout timer generation hasData now
        = (g.noteStaleTimer timer generation, []) := by
      simp [processTimeout, hc]
    simp only [hstale]
    exact h.note hP.sends rfl

section Dispatch

variable {σ : Type} (host : Host σ) (now : Nat)

omit [CongestionLaw κ] in
/-- A send that is carried out is dropped, fails at the host, is taken in, or leaves a gap, which is
found before anything changed. -/
theorem sendRange (hP : MaintainedBySends ok P) (hd : ∀ kind : SendKind, ok kind.flags now)
    (h : Sustains P g) (w : σ) (range : SeqRange)
    (kind : SendKind) :
    (Sustains P (g.sendRange host w range kind now).1 ∧
      ∀ e, (g.sendRange host w range kind now).2.2 = .error e → ∃ m, e = .transmitFailed m) ∨
    ∃ c, (g.sendRange host w range kind now).2.2 = .error (.structural c) ∧
      Told g (g.sendRange host w range kind now).1 := by
  have htold : Sustains P (g.tell (host.transmit w range kind.flags).events) := h.note hP rfl
  have hcarried := carried_sendRange host g w range kind now
  generalize g.sendRange host w range kind now = done at hcarried ⊢
  cases hcarried with
  | dropped => exact .inl ⟨h.note hP rfl, by simp⟩
  | failed m =>
    refine .inl ⟨htold, ?_⟩
    intro e he
    injection he with he
    exact ⟨m, he.symm⟩
  | nothing => exact .inl ⟨htold, by simp⟩
  | refused n pos report =>
    have hx := start_lt_part range pos
    by_cases hs : range.start ≤ g.board.top
    · obtain ⟨⟨actions, hok⟩, -, -, -⟩ := htold.1.sound.processSent hx hs (isFresh_flags kind) now
      rw [report] at hok
      cases hok
    · rw [processSent_of_beyond (g.tell (host.transmit w range kind.flags).events) hx
        (Nat.lt_of_not_le hs)] at report
      cases report
      exact .inr ⟨_, rfl, (told_tell g _).trans (told_tell _ _)⟩
  | taken n pos report =>
    have hx := start_lt_part range pos
    by_cases hs : range.start ≤ g.board.top
    · have hsent : Sustains P ((g.tell (host.transmit w range kind.flags).events).processSent
          ⟨range.start, range.start + n⟩ kind.flags now).1 :=
        ⟨running_processSent htold.1 hx hs (isFresh_flags kind) now,
          hP.sent now htold.1 hx hs (hd kind) htold.2⟩
      rw [report] at hsent
      exact .inl ⟨hsent, by simp⟩
    · rw [processSent_of_beyond (g.tell (host.transmit w range kind.flags).events) hx
        (Nat.lt_of_not_le hs)] at report
      cases report

omit [CongestionLaw κ] in
/-- Where a send leaves a gap, the actions before it were carried out, and nothing else happened. -/
theorem dispatchAll (hP : MaintainedBySends ok P) (hd : ∀ kind : SendKind, ok kind.flags now)
    (h : Sustains P g) (w : σ) (total : Nat)
    (actions : Actions) :
    (Sustains P (g.dispatchAll host now w total actions).1 ∧
      ∀ e, (g.dispatchAll host now w total actions).2.2 = .error e → ∃ m, e = .transmitFailed m) ∨
    ∃ c done rest, (g.dispatchAll host now w total actions).2.2 = .error (.structural c) ∧
      actions = done ++ rest ∧
      Told (g.dispatchAll host now w total done).1 (g.dispatchAll host now w total actions).1 ∧
      Sustains P (g.dispatchAll host now w total done).1 := by
  -- Along the actions; the first error ends the walk.
  induction actions generalizing g w total with
  | nil => exact .inl ⟨h, by simp [Engine.dispatchAll]⟩
  | cons action rest ih =>
    cases action with
    | send range n kind =>
      have hone := h.sendRange host now hP hd w range kind
      cases hres : (g.sendRange host w range kind now).2.2 with
      | error e =>
        rw [hres] at hone
        simp only [Engine.dispatchAll, hres]
        rcases hone with ⟨hs, he⟩ | ⟨c, hc, ht⟩
        · refine .inl ⟨hs, ?_⟩
          intro e' he'
          injection he' with he'
          exact he' ▸ he e rfl
        · exact .inr ⟨c, [], _, hc, rfl, ht, h⟩
      | ok bytes =>
        rw [hres] at hone
        simp only [Engine.dispatchAll, hres]
        rcases hone with ⟨hs, -⟩ | ⟨c, hc, -⟩
        · rcases ih hs (g.sendRange host w range kind now).2.1 (total + bytes) with
            hall | ⟨c, done, after, hc, rfl, ht, hs'⟩
          · exact .inl hall
          · refine .inr ⟨c, .send range n kind :: done, after, hc, rfl, ?_⟩
            simpa only [Engine.dispatchAll, hres] using ⟨ht, hs'⟩
        · cases hc
    | arm timer duration generation =>
      rcases ih h (applyTimer host g w (.arm timer duration generation)) total with
        hall | ⟨c, done, after, hc, rfl, ht, hs'⟩
      · exact .inl hall
      · exact .inr ⟨c, .arm timer duration generation :: done, after, hc, rfl, ht, hs'⟩
    | cancel =>
      rcases ih h (applyTimer host g w .cancel) total with hall | ⟨c, done, after, hc, rfl, ht, hs'⟩
      · exact .inl hall
      · exact .inr ⟨c, .cancel :: done, after, hc, rfl, ht, hs'⟩

omit [CongestionLaw κ] in
theorem dispatch (hP : MaintainedBySends ok P) (hd : ∀ kind : SendKind, ok kind.flags now)
    (h : Sustains P g) (w : σ) (actions : Actions)
    (ha : (g.dispatch host w actions now).1.1.isAborted = false) :
    Sustains P (g.dispatch host w actions now).1.1 := by
  have hall := h.dispatchAll host now hP hd w 0 actions
  unfold Engine.dispatch at ha ⊢
  rw [if_neg (by simp [h.1.isAborted])] at ha ⊢
  dsimp only at ha ⊢
  cases hres : (g.dispatchAll host now w 0 actions).2.2 with
  | ok total =>
    rw [hres] at hall
    rcases hall with ⟨hs, -⟩ | ⟨c, done, rest, hc, -⟩
    · exact hs
    · cases hc
  | error e =>
    rw [hres] at hall ha
    rcases hall with ⟨hs, he⟩ | ⟨c, done, rest, hc, -⟩
    · obtain ⟨m, rfl⟩ := he e rfl
      exact hs.note hP (noted_fail _ rfl)
    · injection hc with hc
      rw [hc, isAborted_fail _ rfl] at ha
      cases ha

end Dispatch

/-- A call that does not stop the engine keeps what its work keeps. -/
theorem step (hP : Maintained P) (h : Sustains P g) (call : Step g g')
    (ha : g'.isAborted = false) : Sustains P g' := by
  cases call with
  | send range flags now hf => exact h.send hP.aside.sends hf hf ha
  | ack a now => exact h.ack hP a now
  | fire timer generation hasData now => exact h.fire hP.aside timer generation hasData now
  | dispatch host w actions now => exact h.dispatch host now hP.aside.sends isFresh_flags w actions ha
  | nextSendTime bytes now => exact h.note hP.aside.sends rfl
  | setFixedRate rate => exact h.note hP.aside.sends rfl
  | setHardware table => exact h.note hP.aside.sends rfl
  | setTrace trace => exact h.note hP.aside.sends rfl

end Sustains

/-- A stopped engine never runs again. -/
theorem Step.isAborted (call : Step g g') (ha : g.isAborted = true) : g'.isAborted = true := by
  cases call with
  | send range flags now hf => simpa [onPacketSent, guarded_of_aborted ha] using ha
  | ack a now => simpa [onAck, guarded_of_aborted ha] using ha
  | fire timer generation hasData now => simpa [onTimeout, guarded_of_aborted ha] using ha
  | dispatch host w actions now => simp [Engine.dispatch, ha]
  | nextSendTime bytes now => exact ha
  | setFixedRate rate => exact ha
  | setHardware table => exact ha
  | setTrace trace => exact ha

/-- An engine that was not stopped by a call was not stopped before. -/
theorem Step.isAborted_eq_false (call : Step g g') (ha : g'.isAborted = false) :
    g.isAborted = false := by
  cases hb : g.isAborted with
  | false => rfl
  | true =>
    rw [call.isAborted hb] at ha
    cases ha

/-- What holds at the start and is kept by the work of an engine holds of every engine that calls
lead to, unless they stopped it. -/
theorem Reachable.maintained (hP : Maintained P)
    (hstart : ∀ {settings law sink now g}, Engine.start settings law sink first now = .ok g → P g)
    (h : g.Reachable first) (ha : g.isAborted = false) : Sustains P g := by
  induction h with
  | start started => exact ⟨Sound.start started, hstart started⟩
  | step _ call ih => exact (ih (call.isAborted_eq_false ha)).step hP call ha

theorem maintained_true : Maintained fun _ : Engine κ => True :=
  ⟨fun _ _ => trivial, fun _ _ _ _ _ _ => trivial, fun _ _ _ _ => trivial,
    fun _ _ _ _ _ => trivial⟩

/-- An engine that was not stopped is sound. -/
theorem Reachable.running_of (h : g.Reachable first) (ha : g.isAborted = false) : g.Running :=
  (h.maintained maintained_true (fun _ => trivial) ha).1

end Engine

end LossRecovery
