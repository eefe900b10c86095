import LossRecovery.Proofs.Requests

/-!
# `LossRecovery.Proofs.Persistence` — what holds of a scoreboard in every state

An engine changes its scoreboard in five ways only: it relabels records, releases what lies below a
new left edge, marks a block, moves what was sent again, and takes in new data. What all five keep
holds of every engine that calls lead to, also of one that a violation stopped, since it was stopped
before anything was changed.

## Contents
- `Engine.CallAt`, `Engine.Timely`: calls with the instant they are made at, and the engines that
  calls lead to whose instants never go back, each with its latest instant.
- `Engine.Upheld now P`: what the work of an engine at the instant `now` keeps; `CallAt.upheld`,
  `Timely.upheld`, `Reachable.upheld`: then calls do. `CallAt.kept`: where acks and timers depend.
- `Scoreboard.Persists now Q`: the five ways keep `Q`; `Persists.upheld`: then the work of an engine
  does; `Timely.persists`, `Reachable.persists`: it holds in every state.
- `Reachable.sound`, `Reachable.staged`: every engine that calls lead to is sound, and its fields go with
  the stage.
-/

namespace LossRecovery

namespace Engine

variable {κ : Type} [CongestionLaw κ] {g g' : Engine κ} {first now : Nat}

/-! ## Calls and their instants -/

/-- One call of any kind, made at the instant `now`. A sender that reports sends sets no marks of
delivery. -/
inductive CallAt (now : Nat) (g : Engine κ) : Engine κ → Prop
  | send (range : SeqRange) (flags : Flags) (fresh : flags.IsFresh) :
      CallAt now g (g.onPacketSent range flags now).1
  | ack (a : Ack) : CallAt now g (g.onAck a now).1
  | fire (timer : Timer) (generation : Nat) (hasData : Bool) :
      CallAt now g (g.onTimeout timer generation hasData now).1
  | dispatch {σ : Type} (host : Host σ) (w : σ) (actions : Actions) :
      CallAt now g (g.dispatch host w actions now).1.1
  | nextSendTime (bytes : Nat) : CallAt now g (g.nextSendTime bytes now).1
  | setFixedRate (rate : Option Nat) : CallAt now g (g.setFixedRate rate)
  | setHardware (table : RateTable) : CallAt now g (g.setHardware table)
  | setTrace (trace : String) : CallAt now g (g.setTrace trace)

/-- Calls that are not timed may be made at any instant. -/
theorem Step.callAt (call : Step g g') : ∃ now, CallAt now g g' := by
  cases call with
  | send range flags now hf => exact ⟨now, .send range flags hf⟩
  | ack a now => exact ⟨now, .ack a⟩
  | fire timer generation hasData now => exact ⟨now, .fire timer generation hasData⟩
  | dispatch host w actions now => exact ⟨now, .dispatch host w actions⟩
  | nextSendTime bytes now => exact ⟨now, .nextSendTime bytes⟩
  | setFixedRate rate => exact ⟨0, .setFixedRate rate⟩
  | setHardware table => exact ⟨0, .setHardware table⟩
  | setTrace trace => exact ⟨0, .setTrace trace⟩

theorem CallAt.step (call : CallAt now g g') : Step g g' := by
  cases call with
  | send range flags fresh => exact .send range flags now fresh
  | ack a => exact .ack a now
  | fire timer generation hasData => exact .fire timer generation hasData now
  | dispatch host w actions => exact .dispatch host w actions now
  | nextSendTime bytes => exact .nextSendTime bytes now
  | setFixedRate rate => exact .setFixedRate rate
  | setHardware table => exact .setHardware table
  | setTrace trace => exact .setTrace trace

/-- The engines that calls lead to from a fresh one whose first sequence number is `first`, as long
as no call is made before an earlier one, with the instant of the latest call. -/
inductive Timely (first : Nat) : Nat → Engine κ → Prop
  | start {settings : Settings} {law : κ} {sink : Sink} {now : Nat} {g : Engine κ}
      (started : start settings law sink first now = .ok g) : Timely first 0 g
  | step {last now : Nat} {g g' : Engine κ} (before : Timely first last g) (later : last ≤ now)
      (call : CallAt now g g') : Timely first now g'

theorem Timely.reachable (h : g.Timely first now) : g.Reachable first := by
  induction h with
  | start started => exact .start started
  | step _ _ call ih => exact ih.step call.step

/-! ## What calls uphold -/

/-- Sends of new or old data at the instant `now` keep `P`. -/
abbrev KeptBySends (now : Nat) (P : Engine κ → Prop) : Prop :=
  MaintainedBySends (fun flags t => flags.IsFresh ∧ t = now) P

/-- A property that the work of a running engine at the instant `now` keeps, and that it does not
lose when it is stopped. -/
structure Upheld (now : Nat) (P : Engine κ → Prop) : Prop where
  aside : MaintainedWhen (fun flags t => flags.IsFresh ∧ t = now) P
  acked : ∀ {g ack}, g.Running → ack.cumulative ≤ g.board.top → P g → P (g.processAck ack now).1
  stopped : ∀ {g g'}, StoppedFrom g g' → P g → P g'

/-- The engine runs unless it was stopped, and a property holds of it. -/
structure Holds (P : Engine κ → Prop) (g : Engine κ) : Prop where
  running : g.isAborted = false → g.Running
  holds : P g

variable {P : Engine κ → Prop}

namespace Holds

omit [CongestionLaw κ] in
theorem of_sustains (h : Sustains P g) : Holds P g := ⟨fun _ => h.1, h.2⟩

omit [CongestionLaw κ] in
theorem of_stopped (hs : StoppedFrom g g') (hp : P g') : Holds P g' := by
  refine ⟨fun ha => ?_, hp⟩
  rw [hs.isAborted] at ha
  cases ha

section Sends

variable (hP : KeptBySends now P) (hstop : ∀ {g g'}, StoppedFrom g g' → P g → P g')
  (h : Sustains P g)

include hP hstop h
omit [CongestionLaw κ]

theorem send (range : SeqRange) {flags : Flags} (hf : flags.IsFresh) :
    Holds P (g.onPacketSent range flags now).1 := by
  rcases h.1.send_ends range hf now with ⟨-, -, hcounted⟩ | ⟨-, -, -, hstopped⟩ | ⟨hx, hs, actions, hok⟩
  · rw [hcounted]
    exact of_sustains (h.note hP rfl)
  · exact of_stopped hstopped (hstop hstopped h.2)
  · have htaken := (h.1.send_taken hf hok).2.2
    have hrun := Sustains.running_processSent h.1 hx hs hf now
    rw [htaken] at hrun
    exact of_sustains (h.send hP hf ⟨hf, rfl⟩ hrun.isAborted)

theorem dispatch {σ : Type} (host : Host σ) (w : σ) (actions : Actions) :
    Holds P (g.dispatch host w actions now).1.1 := by
  have hall := Sustains.dispatchAll host now hP (fun kind => ⟨isFresh_flags kind, rfl⟩) h w 0 actions
  unfold Engine.dispatch
  rw [if_neg (by simp [h.1.isAborted])]
  dsimp only
  cases hres : (g.dispatchAll host now w 0 actions).2.2 with
  | ok total =>
    rw [hres] at hall
    rcases hall with ⟨hs, -⟩ | ⟨c, done, rest, hc, -⟩
    · exact of_sustains hs
    · cases hc
  | error e =>
    rw [hres] at hall
    rcases hall with ⟨hs, he⟩ | ⟨c, done, rest, hc, -, ht, hs⟩
    · obtain ⟨m, rfl⟩ := he e rfl
      exact of_sustains (hs.note hP (noted_fail _ rfl))
    · injection hc with hc
      rw [hc]
      exact of_stopped (ht.stop c) (hstop (ht.stop c) hs.2)

end Sends

end Holds

/-- What sends keep, a call keeps, if an ack that is taken in or a firing timer keeps it where this call
is one. -/
theorem CallAt.kept (sends : KeptBySends now P)
    (stopped : ∀ {g g'}, StoppedFrom g g' → P g → P g')
    (acked : ∀ {ack}, g' = (g.processAck ack now).1 → g.Running → ack.cumulative ≤ g.board.top →
      P g → P g')
    (fired : ∀ {timer generation hasData},
      g' = (g.processTimeout timer generation hasData now).1 → g.Running →
      g.schedule.timers.isCurrent timer generation = true → P g → P g')
    (call : CallAt now g g') (h : Holds P g) : Holds P g' := by
  cases ha : g.isAborted with
  | true =>
    -- A stopped engine refuses calls, and is tuned at most.
    have tuned : ∀ {g'}, Noted g g' → Holds P g' := fun hn =>
      ⟨fun hb => absurd (ha.symm.trans hn.kept.isAborted.symm) (by simp [hb]), sends.noted hn h.holds⟩
    cases call with
    | send range flags hf =>
      unfold onPacketSent
      rwa [guarded_of_aborted ha]
    | ack a =>
      unfold onAck
      rwa [guarded_of_aborted ha]
    | fire timer generation hasData =>
      unfold onTimeout
      rwa [guarded_of_aborted ha]
    | dispatch host w actions =>
      unfold Engine.dispatch
      rwa [if_pos ha]
    | nextSendTime bytes => exact tuned rfl
    | setFixedRate rate => exact tuned rfl
    | setHardware table => exact tuned rfl
    | setTrace trace => exact tuned rfl
  | false =>
    have hs : Sustains P g := ⟨h.running ha, h.holds⟩
    cases call with
    | send range flags hf => exact Holds.send sends stopped hs range hf
    | ack a =>
      rcases hs.1.ack_ends a now with ⟨-, -, hcounted⟩ | ⟨hle, actions, hok⟩
      · rw [hcounted]
        exact Holds.of_sustains (hs.note sends rfl)
      · have hrun : (g.onAck a now).1.Running :=
          Running.relabel ⟨hs.1.sound.acked hle now, ha⟩ (hs.1.onAck hle now).1
        exact Holds.of_sustains ⟨hrun, acked (congrArg Prod.fst (hs.1.ack_taken hok).2).symm hs.1 hle hs.2⟩
    | fire timer generation hasData =>
      have heq : (g.onTimeout timer generation hasData now).1
          = (g.processTimeout timer generation hasData now).1 := by
        rw [onTimeout_eq ha]
      have hrun := (Sustains.fire maintained_true.aside ⟨hs.1, trivial⟩ timer generation hasData now).1
      refine Holds.of_sustains ⟨hrun, ?_⟩
      cases hc : g.schedule.timers.isCurrent timer generation with
      | true => exact fired heq hs.1 hc hs.2
      | false =>
        rw [heq]
        simp only [processTimeout, hc, Bool.false_eq_true, if_false]
        exact sends.noted (show Noted g (g.noteStaleTimer timer generation) from rfl) hs.2
    | dispatch host w actions => exact Holds.dispatch sends stopped hs host w actions
    | nextSendTime bytes => exact Holds.of_sustains (hs.note sends rfl)
    | setFixedRate rate => exact Holds.of_sustains (hs.note sends rfl)
    | setHardware table => exact Holds.of_sustains (hs.note sends rfl)
    | setTrace trace => exact Holds.of_sustains (hs.note sends rfl)

/-- What the work of an engine keeps, a call keeps. -/
theorem CallAt.upheld (hP : Upheld now P) (call : CallAt now g g') (h : Holds P g) : Holds P g' :=
  call.kept hP.aside.sends hP.stopped (fun he hrun hle hp => he ▸ hP.acked hrun hle hp)
    (fun he hrun hc hp => he ▸ hP.aside.fired _ now hrun hc hp) h

/-- What the work of an engine keeps at any instant, and what does not get lost as time goes by,
holds of every engine that timely calls lead to. -/
theorem Timely.upheld {P : Nat → Engine κ → Prop} (hP : ∀ now, Upheld now (P now))
    (hlater : ∀ {last now g}, last ≤ now → P last g → P now g)
    (hstart : ∀ {settings law sink now g}, Engine.start settings law sink first now = .ok g → P 0 g)
    (h : g.Timely first now) : Holds (P now) g := by
  induction h with
  | start started => exact ⟨fun _ => Sound.start started, hstart started⟩
  | step _ later call ih => exact call.upheld (hP _) ⟨ih.running, hlater later ih.holds⟩

/-- What the work of an engine keeps at any instant holds of every engine that calls lead to. -/
theorem Reachable.upheld (hP : ∀ now, Upheld now P)
    (hstart : ∀ {settings law sink now g}, Engine.start settings law sink first now = .ok g → P g)
    (h : g.Reachable first) : Holds P g := by
  induction h with
  | start started => exact ⟨fun _ => Sound.start started, hstart started⟩
  | step _ call ih =>
    obtain ⟨now, hcall⟩ := call.callAt
    exact hcall.upheld (hP now) ih

end Engine

/-! ## Scoreboards -/

namespace Scoreboard

/-- A property of scoreboards that all kinds of changes at the instant `now` keep. -/
structure Persists (now : Nat) (Q : Scoreboard → Prop) : Prop where
  relabel : ∀ {b f}, b.Coherent → SendRecord.Relabels f → Q b → Q (b.modify f)
  release : ∀ {b edge}, b.Coherent → b.una < edge → edge ≤ b.top → Q b → Q (b.release edge)
  mark : ∀ {b x}, b.Coherent → x.start < x.stop → b.una ≤ x.start → x.stop ≤ b.top → Q b →
    Q ((b.carveMissing x (AckPass.sackedRecord now)).coalesce ⟨x.start - 1, x.stop + 1⟩).1
  resend : ∀ {b x fits} flags afterTimeout, b.Coherent → x.start < x.stop → Q b →
    Q (Engine.resendOnBoard b x fits (Engine.resentRecord flags afterTimeout now))
  append : ∀ {b b' x flags mark}, b.Coherent → x.start < x.stop → x.start = b.top →
    flags.IsFresh → b.append x flags now mark = .ok b' → Q b → Q b'

variable {now : Nat} {Q : Scoreboard → Prop} {b b' : Scoreboard}

namespace Persists

theorem sent (hQ : Persists now Q) (hb : b.Coherent) (hq : Q b) {x : SeqRange}
    (hs : b.Sent x now b') : Q b' := by
  obtain ⟨mid, hresent, hextended⟩ := hs
  have hmid : Q mid := by
    rcases hresent with ⟨-, rfl⟩ | ⟨hx, flags, afterTimeout, rfl⟩
    · exact hq
    · exact hQ.resend flags afterTimeout hb hx hq
  have hcoherent := hresent.coherent hb
  rcases hextended with ⟨-, rfl⟩ | ⟨hx, flags, mark, hf, happend⟩
  · exact hmid
  · exact hQ.append hcoherent hx hresent.edges.2.symm hf happend hmid

theorem kept {i : AckInput} (hQ : Persists i.now Q) : AckPass.Kept i fun p => Q p.board where
  still hp hs hq := by
    obtain ⟨f, hf, hb⟩ := hs.board
    rw [hb]
    exact hQ.relabel hp.board hf hq
  advance hp hlo hhi hq := by
    rw [AckPass.advance_board]
    exact hQ.release hp.board hlo hhi hq
  mark hp hx hlo hhi _ hq := by
    rw [AckPass.markBlock_board]
    exact hQ.mark hp.board hx hlo hhi hq

variable {κ : Type}

theorem relabelled (hQ : Persists now Q) {g g' : Engine κ} (hb : g.board.Coherent)
    (hr : Engine.Relabelled g g') (hq : Q g.board) : Q g'.board := by
  obtain ⟨f, hf, hmodified⟩ := hr.board
  rw [hmodified]
  exact hQ.relabel hb hf hq

/-- What all kinds of changes keep, the work of an engine keeps. -/
theorem upheld [CongestionLaw κ] (hQ : Persists now Q) :
    Engine.Upheld now fun g : Engine κ => g.board.Coherent ∧ Q g.board where
  aside := {
    noted := by
      intro g g' hn hp
      rw [hn.kept.board]
      exact hp
    sent := by
      rintro g x flags t hrun hx hs ⟨hf, rfl⟩ hp
      obtain ⟨-, hsent, hsound, -⟩ := hrun.sound.processSent hx hs hf t
      exact ⟨hsound.board, hQ.sent hp.1 hp.2 hsent⟩
    fired := by
      intro g timer generation hasData t hrun _ hp
      have hr := Engine.relabelled_processTimeout g timer generation hasData t
      exact ⟨(hr.sound hrun.sound).board, hQ.relabelled hp.1 hr hp.2⟩ }
  acked := by
    intro g ack hrun hle hp
    have hr := (hrun.sound.processAck hle now).1
    have hacked := hrun.sound.acked hle now
    have hpass : Q (g.acked ack now).board :=
      hQ.kept.run (i := g.ackInput ack now) hrun.sound.passState hle hp.2
    exact ⟨(hr.sound hacked).board, hQ.relabelled hacked.board hr hpass⟩
  stopped := by
    rintro g g' ⟨told, rfl⟩ hp
    exact hp

end Persists

end Scoreboard

namespace Engine

variable {κ : Type} [CongestionLaw κ] {g : Engine κ} {first now : Nat}

/-- What persists holds of the scoreboard of every engine that timely calls lead to. -/
theorem Timely.persists {Q : Nat → Scoreboard → Prop} (hQ : ∀ now, Scoreboard.Persists now (Q now))
    (hlater : ∀ {last now b}, last ≤ now → Q last b → Q now b)
    (hstart : ∀ limit, Q 0 (Scoreboard.empty first limit)) (h : g.Timely first now) :
    g.board.Coherent ∧ Q now g.board := by
  refine (h.upheld (P := fun now g => g.board.Coherent ∧ Q now g.board) (fun now => (hQ now).upheld)
    (fun hle hp => ⟨hp.1, hlater hle hp.2⟩) ?_).holds
  intro settings law sink now g started
  rw [(start_board started).1]
  exact ⟨.empty _ _, hstart _⟩

/-- Every engine that calls lead to is sound, also one that was stopped. -/
theorem Reachable.sound (h : g.Reachable first) : g.Sound := by
  refine (h.upheld (P := Sound) (fun now => ?_) fun started => (Sound.start started).sound).holds
  exact {
    aside := {
      noted := fun hn hs => (Relabelled.of_kept hn.kept).sound hs
      sent := fun t hrun hx hs hok _ => (Sustains.running_processSent hrun hx hs hok.1 t).sound
      fired := fun hasData t hrun _ hs => (relabelled_processTimeout _ _ _ hasData t).sound hs }
    acked := fun hrun hle _ =>
      (hrun.sound.processAck hle now).1.sound (hrun.sound.acked hle now)
    stopped := by
      rintro g g' ⟨told, rfl⟩ hs
      exact ⟨hs.board, hs.counts, hs.tracker⟩ }

/-- The fields go with the stage in every state, also when the engine was stopped: stopping it turns the
timers off, which belong to no stage. -/
theorem Reachable.staged (h : g.Reachable first) : g.control.Staged := by
  refine (h.upheld (P := fun g => (g.isAborted = false → g.control.AtRest) ∧ g.control.Staged)
    (fun now => ?_) fun started => ⟨fun _ => atRest_start started, (atRest_start started).staged⟩).holds.2
  have atRest : ∀ {g : Engine κ}, g.control.AtRest →
      (g.isAborted = false → g.control.AtRest) ∧ g.control.Staged := fun h => ⟨fun _ => h, h.staged⟩
  exact {
    aside := {
      noted := fun hn hp => by
        rw [hn.control, hn.kept.isAborted]
        exact hp
      sent := fun t hrun hx hs hok hp =>
        atRest (atRest_sent hrun hx hs hok.1 t (hp.1 hrun.isAborted))
      fired := fun hasData t hrun hc hp =>
        atRest (atRest_fired hrun hc hasData t (hp.1 hrun.isAborted)) }
    acked := fun hrun hle hp => atRest (atRest_acked hrun hle now (hp.1 hrun.isAborted))
    stopped := by
      rintro g g' ⟨told, rfl⟩ ⟨-, hs⟩
      refine ⟨fun ha => Bool.noConfusion ha, ?_⟩
      exact hs.congr g.board.una g.schedule.timers.stopAll (Nat.le_refl _) }

/-- What persists at any instant holds of the scoreboard of every engine that calls lead to. -/
theorem Reachable.persists {Q : Scoreboard → Prop} (hQ : ∀ now, Scoreboard.Persists now Q)
    (hstart : ∀ limit, Q (Scoreboard.empty first limit)) (h : g.Reachable first) :
    g.board.Coherent ∧ Q g.board := by
  refine (h.upheld (P := fun g => g.board.Coherent ∧ Q g.board) (fun now => (hQ now).upheld) ?_).holds
  intro settings law sink now g started
  rw [(start_board started).1]
  exact ⟨.empty _ _, hstart _⟩

end Engine

end LossRecovery
