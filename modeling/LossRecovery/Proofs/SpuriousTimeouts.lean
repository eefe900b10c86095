import LossRecovery.Proofs.Restorations
import LossRecovery.Proofs.Signals

/-!
# `LossRecovery.Proofs.SpuriousTimeouts` — giving back what a series of timeouts took

When the retransmission timer fires, window and threshold are remembered. As long as no ack moves the
left edge, further timeouts leave what is remembered alone, and the first ack that does decides about
the whole series: if it proves that the timeout was spurious, all is as it was before the series. The
proof refers to the latest timeout of the series, though, and not to the first.

## Contents
- `Engine.Undoable saved last g`: a timeout goes on that fired last at `last`, and can be undone.
- `Engine.Series before began last g`: timeouts in a row that no ack has settled yet.
- `Engine.findsSpurious`: the verdict of an ack; `Engine.Undone`: what follows if the timeout was
  spurious; `Undoable.settled`: the first ack that moves the left edge decides.
- `Series.restores_window`: the window after a series, with a fixed window.
- `Series.undone_iff_echo`: the verdict of an ack that echoes a time.
-/

namespace LossRecovery

namespace Engine

variable {κ : Type} {g g' : Engine κ} {now last : Nat} {saved : Nat × Nat} {ack : Ack}

/-! ## What could be undone -/

/-- A timeout goes on that fired at the instant `last`. Window and threshold would be as in `saved` if
it was undone. -/
structure Undoable (saved : Nat × Nat) (last : Nat) (g : Engine κ) : Prop where
  stage : g.schedule.stage = .rtoPending
  firedAt : g.schedule.firedAt = some last
  undo : g.schedule.undo = some saved

theorem Undoable.of_timeout (h : Undoable saved last g)
    (hsame : g'.schedule.timeout = g.schedule.timeout) : Undoable saved last g' :=
  ⟨(congrArg TimeoutState.stage hsame).trans h.stage,
    (congrArg TimeoutState.firedAt hsame).trans h.firedAt,
    (congrArg TimeoutState.undo hsame).trans h.undo⟩

theorem lastingSends_undoable (saved : Nat × Nat) (last : Nat) :
    LastingSends (Undoable (κ := κ) saved last) where
  aside _ _ _ h := h.of_timeout rfl
  stale _ h := h.of_timeout rfl
  sent x flags now h := h.of_timeout (timeout_processSent _ x flags now)
  failed _ h := h.of_timeout (timeout_fail _ _)

variable [CongestionLaw κ]

/-- An ack that does not move the left edge decides nothing. -/
theorem Undoable.acked (h : Undoable saved last g)
    (still : (g.onAck ack now).1.board.una = g.board.una) : Undoable saved last (g.onAck ack now).1 := by
  cases ha : g.isAborted with
  | true =>
    unfold onAck
    rw [guarded_of_aborted ha]
    exact h
  | false =>
    have hdone := timeout_onAck ha ack now
    by_cases hle : ack.cumulative ≤ g.board.top
    · have hstay : (g.passState.run (g.ackInput ack now)).outcome.advanced = false := by
        rw [(course_acked g ack now).1, decide_eq_false_iff_not]
        intro hlt
        rw [board_onAck ha, una_processAck hle, if_pos hlt] at still
        omega
      rw [processAck_eq hle now] at hdone
      dsimp only at hdone
      generalize (g.passState.run (g.ackInput ack now)).outcome = o at hstay hdone
      have hsame := (conclude_still (g := g.acked ack now) h.stage ack hstay now).1
      generalize (g.acked ack now).conclude ack o now = concluded at hsame hdone
      -- What is sent again after the ack moves the cursor, which makes no difference here.
      obtain ⟨cursor, hmoved⟩ := cursor_respond concluded.1 g.schedule.stage ack o concluded.2 now
      have hafter := hdone.trans hmoved
      rw [hsame] at hafter
      exact ⟨(congrArg TimeoutState.stage hafter).trans h.stage,
        (congrArg TimeoutState.firedAt hafter).trans h.firedAt,
        (congrArg TimeoutState.undo hafter).trans h.undo⟩
    · rw [processAck_of_beyond (Nat.lt_of_not_le hle)] at hdone
      exact h.of_timeout hdone

/-- A timer that begins no timeout leaves the one that goes on alone. -/
theorem Undoable.fired (h : Undoable saved last g) (timed : g.control.ProbeTimed)
    (runs : g.isAborted = false) {timer : Timer} {generation : Nat} {hasData : Bool}
    (quiet : ¬ TimesOut now g (g.processTimeout timer generation hasData now).1) :
    Undoable saved last (g.processTimeout timer generation hasData now).1 := by
  rcases processTimeout_cases g timer generation hasData now with
    ⟨rfl, hc, hlt⟩ | ⟨rfl, hc, -⟩ | hsame
  · exact absurd (.of_processTimeout hasData runs hc hlt) quiet
  · -- The probe timer is not armed while a timeout goes on.
    obtain ⟨a, ha, -⟩ := TimerTable.isCurrent_iff.mp hc
    have hsteady : g.schedule.stage = .steady := timed (by simp [control, ha])
    rw [h.stage] at hsteady
    cases hsteady
  · exact h.of_timeout hsame

/-- Calls leave a timeout alone that goes on, but for further timeouts and for acks that move the left
edge. -/
theorem Undoable.call (h : Undoable saved last g) (timed : g.control.ProbeTimed)
    (hcall : Call g g') (quiet : ∀ now, ¬ TimesOut now g g')
    (still : g'.board.una = g.board.una) : Undoable saved last g' := by
  have hsends := lastingSends_undoable (κ := κ) saved last
  cases hcall with
  | send range flags now => exact hsends.guarded h (hsends.sent range flags now h) ofCall_processSent
  | ack a now => exact h.acked still
  | fire timer generation hasData now =>
    have hquiet := quiet now
    unfold onTimeout at hquiet ⊢
    cases ha : g.isAborted with
    | true =>
      rw [guarded_of_aborted ha]
      exact h
    | false =>
      rw [guarded_eq ha] at hquiet ⊢
      exact h.fired timed ha hquiet
  | dispatch host w actions now => exact hsends.dispatch host now h w actions
  | nextSendTime bytes now => exact h.of_timeout rfl
  | setFixedRate rate => exact h.of_timeout rfl
  | setHardware table => exact h.of_timeout rfl
  | setTrace trace => exact h.of_timeout rfl

/-! ## A series of timeouts -/

/-- Timeouts in a row: the first one found the engine `before` at the instant `began`, the latest one
fired at the instant `last`, and no ack moved the left edge since the first one. -/
inductive Series (before : Engine κ) (began : Nat) : Nat → Engine κ → Prop
  | first {g : Engine κ} (outside : before.schedule.stage ≠ .rtoPending)
      (fired : TimesOut began before g) : Series before began began g
  | again {g g' : Engine κ} {last now : Nat} (series : Series before began last g)
      (fired : TimesOut now g g') : Series before began now g'
  | call {g g' : Engine κ} {last : Nat} (series : Series before began last g) (called : Call g g')
      (quiet : ∀ now, ¬ TimesOut now g g') (still : g'.board.una = g.board.una) :
      Series before began last g'

theorem TimesOut.call (h : TimesOut now g g') : Call g g' := by
  obtain ⟨generation, hasData, -, -, -⟩ := h
  exact .fire .rto generation hasData now

theorem TimesOut.undoable (h : TimesOut now g g')
    (hsaved : (if g.schedule.stage = .rtoPending then g.schedule.undo
      else some (g.congestionWindow, g.threshold)) = some saved) : Undoable saved now g' :=
  ⟨congrArg TimeoutState.stage h.timeout, congrArg TimeoutState.firedAt h.timeout,
    (congrArg TimeoutState.undo h.timeout).trans hsaved⟩

namespace Series

variable {settings : Settings} {law : κ} {sink : Sink} {first began t : Nat}
  {g₀ before : Engine κ}

theorem run (h : Series before began last g) : Run before g := by
  induction h with
  | first _ fired => exact .single fired.call
  | again _ fired ih => exact ih.tail fired.call
  | call _ called _ _ ih => exact ih.tail called

/-- However many timeouts there are, what would be given back is from before the first one, and the
firing time is that of the latest one. -/
theorem undoable (h : Series before began last g)
    (started : start settings law sink first t = .ok g₀) (ran : Run g₀ before) :
    Undoable (before.congestionWindow, before.threshold) last g := by
  induction h with
  | first outside fired => exact fired.undoable (if_neg outside)
  | again _ fired ih => exact fired.undoable (by rw [if_pos ih.stage, ih.undo])
  | call series called quiet still ih =>
    exact ih.call (Run.probeTimed started (ran.trans series.run)) called quiet still

end Series

/-! ## The verdict -/

/-- Whether an ack that moves the left edge proves that the timeout that goes on was spurious. What it
delivered is taken note of first. -/
def findsSpurious (g : Engine κ) (ack : Ack) (now : Nat) : Bool :=
  let o := (g.passState.run (g.ackInput ack now)).outcome
  ((g.acked ack now).noted o now).provesSpurious ack o now

omit [CongestionLaw κ] in
/-- An echo decides alone. -/
theorem Undoable.findsSpurious_of_echo (h : Undoable saved last g) {echo : Nat}
    (he : ack.echo = some echo) (now : Nat) : g.findsSpurious ack now = decide (echo < last) := by
  have hfired : ((g.acked ack now).noted (g.passState.run (g.ackInput ack now)).outcome
      now).schedule.firedAt = some last := by
    rw [schedule_noted (g := g.acked ack now) h.stage]
    exact h.firedAt
  unfold findsSpurious provesSpurious
  simp only [hfired, he]

/-- The records that an ack reveals as lost when the timeout that goes on is undone. -/
def revealed (g : Engine κ) (ack : Ack) (now : Nat) : List SendRecord :=
  let o := (g.passState.run (g.ackInput ack now)).outcome
  ((g.acked ack now).noted o now).undoTimeout.detectLosses now

/-- From `g` to `g'`, a timeout was undone: window and threshold were set to `saved`. The law then
learned of a delivery at most, or else of an episode that begins. -/
structure Undone (saved : Nat × Nat) (g g' : Engine κ) : Prop where
  undos : g'.stats.spuriousRto = g.stats.spuriousRto + 1
  undo : g'.schedule.undo = none
  backoff : g'.schedule.backoff = 0
  clear : ∀ r ∈ g'.board.records, r.flags.toResend = false
  restored :
    let law := CongestionLaw.setWindow (CongestionLaw.setThreshold g.law saved.2) saved.1
    (g'.schedule.stage = .steady ∧
      (g'.law = law ∨ ∃ bytes now, g'.law = CongestionLaw.onAck law bytes now)) ∨
    (g'.schedule.stage = .recovering ∧
      g'.stats.recoveryEpisodes = g.stats.recoveryEpisodes + 1 ∧
      ∃ pipe now, g'.law = CongestionLaw.onSignal law .fastRecovery pipe now)

theorem Undone.congr {m m' : Engine κ} (h : Undone saved m m') (hbefore : m.standing = g.standing)
    (hafter : g'.standing = m'.standing) (hsame : g'.schedule.backoff = m'.schedule.backoff)
    (hboard : g'.board = m'.board) : Undone saved g g' := by
  simp only [standing, steering, Standing.mk.injEq, Steering.mk.injEq] at hbefore hafter
  obtain ⟨⟨-, hlaw, -⟩, hundos, hepisodes⟩ := hbefore
  obtain ⟨⟨hstage', hlaw', hundo'⟩, hundos', hepisodes'⟩ := hafter
  obtain ⟨hcount, hundo, hbackoff, hclear, hrestored⟩ := h
  refine ⟨?_, hundo'.trans hundo, hsame.trans hbackoff, hboard ▸ hclear, ?_⟩
  · rw [hundos', hcount, hundos]
  · rw [hstage', hlaw', hepisodes', ← hlaw, ← hepisodes]
    exact hrestored

theorem standing_undoTimeout (hu : g.schedule.undo = some saved) :
    g.undoTimeout.standing = {
      steering := {
        stage := .steady
        law := CongestionLaw.setWindow (CongestionLaw.setThreshold g.law saved.2) saved.1
        undo := none }
      undos := g.stats.spuriousRto + 1
      episodes := g.stats.recoveryEpisodes } := by
  unfold undoTimeout
  rw [hu]
  rfl

theorem clear_undoTimeout (g : Engine κ) :
    ∀ r ∈ g.undoTimeout.board.records, r.flags.toResend = false := by
  intro r hr
  obtain ⟨q, -, rfl⟩ := List.mem_map.mp hr
  rfl

/-- Losses that the same ack reveals begin an episode right away, which changes neither the window nor
the marks. -/
theorem undone_undoTimeout (hu : g.schedule.undo = some saved) (lost : List SendRecord)
    (o : AckOutcome) (now : Nat) :
    Undone saved g ((g.undoTimeout.respondToLosses lost now).creditDelivery o now) := by
  have hstanding := standing_undoTimeout hu
  have hclear := clear_undoTimeout g
  have hbackoff : g.undoTimeout.schedule.backoff = 0 := rfl
  generalize g.undoTimeout = u at hstanding hclear hbackoff
  simp only [standing, steering, Standing.mk.injEq, Steering.mk.injEq] at hstanding
  obtain ⟨⟨hsteady, hlaw, hnone⟩, hundos, hepisodes⟩ := hstanding
  unfold Engine.respondToLosses
  split
  · -- The law is told of the episode, and of no delivery.
    have hcredit : ∀ h : Engine κ, h.schedule.stage = .recovering →
        h.creditDelivery o now = { h with ledger := (h.creditDelivery o now).ledger } := by
      intro h hr
      unfold creditDelivery
      simp only [hr, reduceCtorEq, and_false, if_false]
    rw [hcredit _ rfl]
    refine ⟨hundos, hnone, hbackoff, ?_, .inr ⟨rfl, congrArg (· + 1) hepisodes, u.pipe, now, ?_⟩⟩
    · intro r hr
      obtain ⟨q, hq, rfl⟩ := List.mem_map.mp hr
      exact hclear q hq
    · rw [← hlaw]
      rfl
  · unfold creditDelivery
    dsimp only
    split
    · refine ⟨hundos, hnone, hbackoff, hclear, .inl ⟨hsteady, .inr ⟨o.delivered, now, ?_⟩⟩⟩
      rw [hlaw]
    · exact ⟨hundos, hnone, hbackoff, hclear, .inl ⟨hsteady, .inl hlaw⟩⟩

theorem stage_undoTimeout (hu : g.schedule.undo = some saved) (lost : List SendRecord)
    (o : AckOutcome) (now : Nat) :
    ((g.undoTimeout.respondToLosses lost now).creditDelivery o now).schedule.stage = .recovering ↔
      lost ≠ [] := by
  have hsteady : g.undoTimeout.schedule.stage = .steady :=
    congrArg (·.steering.stage) (standing_undoTimeout hu)
  rw [schedule_creditDelivery]
  unfold respondToLosses
  cases lost with
  | nil =>
    rw [if_neg (by simp), hsteady]
    simp
  | cons r rest =>
    rw [if_pos ⟨rfl, .inl hsteady⟩]
    exact iff_of_true rfl (List.cons_ne_nil r rest)

/-- The first ack that moves the left edge settles a timeout: it is undone, or can never be. -/
theorem Undoable.settled (h : Undoable saved last g)
    (moved : g.board.una < (g.onAck ack now).1.board.una) :
    (g.findsSpurious ack now = true → Undone saved g (g.onAck ack now).1 ∧
      ((g.onAck ack now).1.schedule.stage = .recovering ↔ g.revealed ack now ≠ [])) ∧
    (g.findsSpurious ack now = false →
      Unrestored g (g.onAck ack now).1 ∧ (g.onAck ack now).1.schedule.undo = none) := by
  obtain ⟨hadvanced, hstanding, hbackoff, hboard⟩ := onAck_moved moved
  unfold findsSpurious revealed
  dsimp only
  generalize (g.passState.run (g.ackInput ack now)).outcome = o at hadvanced hstanding hbackoff hboard ⊢
  have hnoted : ((g.acked ack now).noted o now).standing = g.standing :=
    standing_noted (g.acked ack now) o now
  have hundo : ((g.acked ack now).noted o now).schedule.undo = some saved :=
    (congrArg (·.steering.undo) hnoted).trans h.undo
  have hconcluded := conclude_of_pending (g := g.acked ack now) h.stage ack o now
  simp only [hadvanced, if_true] at hconcluded
  have hunrestored : Unrestored g ((g.acked ack now).noted o now) := .of_standing hnoted
  generalize (g.acked ack now).noted o now = m at hnoted hundo hconcluded hunrestored ⊢
  rw [hconcluded] at hstanding hbackoff hboard
  constructor
  · intro hfound
    have hafter : m.afterTimeout ack o now = m.undoTimeout := by
      unfold afterTimeout
      rw [hundo, hfound]
      rfl
    rw [hafter] at hstanding hbackoff hboard
    refine ⟨(undone_undoTimeout hundo _ o now).congr hnoted hstanding hbackoff hboard, ?_⟩
    rw [show (g.onAck ack now).1.schedule.stage = _ from congrArg (·.steering.stage) hstanding]
    exact stage_undoTimeout hundo _ o now
  · intro hnot
    obtain ⟨hafter, hgone⟩ := unrestored_afterTimeout (g := m) fun _ => hnot
    generalize m.afterTimeout ack o now = kept at hafter hgone hstanding
    have hlosses := unrestored_respondToLosses kept (kept.detectLosses now) now
    have hrest := (hlosses.trans (unrestored_creditDelivery _ o now)).trans (.of_standing hstanding)
    exact ⟨(hunrestored.trans hafter).trans hrest, hrest.undo_none hgone⟩

/-! ## What a series leaves behind -/

section FromStart

variable {settings : Settings} {sink : Sink} {first t began : Nat}

/-- A fixed law keeps its segment size. -/
theorem Run.mss_eq {law : FixedWindow} {g₀ g : Engine FixedWindow}
    (started : start settings law sink first t = .ok g₀) (ran : Run g₀ g) : g.law.mss = law.mss := by
  refine (ran.steered started).keep (P := fun d => d.law.mss = law.mss) ?_ ?_
  · intro d d' turn hd
    cases turn <;> exact hd
  · rw [start_steering started]

/-- If the first ack that moves the left edge after a series of timeouts proves it spurious, then the
window is as before the whole series, and so is the threshold unless the ack begins an episode. In any
case no later ack gives back anything, before another series begins. -/
theorem Series.restores_window {law : FixedWindow} {g₀ before g : Engine FixedWindow}
    (started : start settings law sink first t = .ok g₀) (ran : Run g₀ before)
    (series : Series before began last g)
    (moved : g.board.una < (g.onAck ack now).1.board.una) :
    let g' := (g.onAck ack now).1
    (g.findsSpurious ack now = true →
      g'.stats.spuriousRto = g.stats.spuriousRto + 1 ∧
      g'.congestionWindow = max before.congestionWindow law.mss ∧
      g'.schedule.backoff = 0 ∧
      (∀ r ∈ g'.board.records, r.flags.toResend = false) ∧
      (g.revealed ack now = [] →
        g'.schedule.stage = .steady ∧ g'.threshold = before.threshold) ∧
      (g.revealed ack now ≠ [] → g'.schedule.stage = .recovering ∧
        g'.stats.recoveryEpisodes = g.stats.recoveryEpisodes + 1)) ∧
    (g.findsSpurious ack now = false → Unrestored g g') ∧
    ∀ h, Unbegun g' h → ∀ later now', Unrestored h (h.onAck later now').1 := by
  have hmss := Run.mss_eq started (ran.trans series.run)
  obtain ⟨hundone, hunrestored⟩ := (series.undoable started ran).settled moved
  have hgone : (g.onAck ack now).1.schedule.undo = none := by
    cases hfound : g.findsSpurious ack now with
    | true => exact (hundone hfound).1.undo
    | false => exact (hunrestored hfound).2
  refine ⟨fun hfound => ?_, fun hnot => (hunrestored hnot).1, fun h hcalls later now' => ?_⟩
  · obtain ⟨⟨hundos, -, hbackoff, hclear, hrestored⟩, hstage⟩ := hundone hfound
    dsimp only at hrestored
    refine ⟨hundos, ?_, hbackoff, hclear, fun hnone => ?_, fun hsome => ?_⟩
    · -- Neither a delivery nor the begin of an episode changes a fixed window.
      unfold congestionWindow
      rcases hrestored with ⟨-, he | ⟨bytes, tick, he⟩⟩ | ⟨-, -, pipe, tick, he⟩ <;>
        rw [he, ← hmss] <;> rfl
    · unfold threshold
      rcases hrestored with ⟨hsteady, he | ⟨bytes, tick, he⟩⟩ | ⟨hbegun, -⟩
      · exact ⟨hsteady, by rw [he]; rfl⟩
      · exact ⟨hsteady, by rw [he]; rfl⟩
      · exact absurd hnone (hstage.mp hbegun)
    · rcases hrestored with ⟨hsteady, -⟩ | ⟨hbegun, hepisodes, -⟩
      · rw [hstage.mpr hsome] at hsteady
        cases hsteady
      · exact ⟨hbegun, hepisodes⟩
  · exact (Call.ack later now').unrestored ((hcalls.unrestored hgone).undo_none hgone)
      (not_begins_onAck h later now')

/-- Ten segments time out twice, and one of them is reported in between. Then an ack echoes the time at
which they were first sent, and the window is as it was. -/
theorem restores_window_after_two_timeouts : ∃ g₀ before g : Engine FixedWindow,
    Engine.start { tlpEnabled := false } (.ofSettings { tlpEnabled := false }) .discard 0 0 = .ok g₀ ∧
    Run g₀ before ∧ Series before 1000000000 7350000000 g ∧
    g.findsSpurious { cumulative := 2920, echo := some 0 } 7400000000 = true ∧
    g.congestionWindow = 1460 ∧
    (g.onAck { cumulative := 2920, echo := some 0 } 7400000000).1.congestionWindow = 14600 := by
  obtain ⟨g₀, before, g, started, ran, series, hwindow, hcollapsed, hfound, moved⟩ :
      ∃ g₀ before g : Engine FixedWindow,
        Engine.start { tlpEnabled := false } (.ofSettings { tlpEnabled := false }) .discard 0 0
          = .ok g₀ ∧
        Run g₀ before ∧ Series before 1000000000 7350000000 g ∧ before.congestionWindow = 14600 ∧
        g.congestionWindow = 1460 ∧
        g.findsSpurious { cumulative := 2920, echo := some 0 } 7400000000 = true ∧
        g.board.una < (g.onAck { cumulative := 2920, echo := some 0 } 7400000000).1.board.una := by
    refine ⟨_, _, _, rfl, .single (.send ⟨0, 14600⟩ {} 0), .again (.call (.first ?_
      (.fire 1 false ?_ ?_ ?_)) (.ack { cumulative := 0, blocks := [⟨1460, 2920⟩] } 1050000000)
      (fun _ h => absurd h.counted ?_) ?_) (.fire 4 false ?_ ?_ ?_), ?_⟩
    all_goals decide +kernel
  have hrestored := (Series.restores_window started ran series moved).1 hfound
  refine ⟨g₀, before, g, started, ran, series, hfound, hcollapsed, ?_⟩
  rw [hrestored.2.1, hwindow]
  rfl

/-- With an echo, a series is undone if and only if the echo is older than its latest timeout. The begin
of the series would tell the same, unless the echo lies in between. -/
theorem Series.undone_iff_echo {law : κ} {g₀ before g : Engine κ}
    (started : start settings law sink first t = .ok g₀) (ran : Run g₀ before)
    (series : Series before began last g) (ordered : began ≤ last)
    (moved : g.board.una < (g.onAck ack now).1.board.una) {echo : Nat}
    (echoed : ack.echo = some echo) :
    let undone := Undone (before.congestionWindow, before.threshold) g (g.onAck ack now).1
    (undone ↔ echo < last) ∧ (¬ undone → Unrestored g (g.onAck ack now).1) ∧
    ((undone ↔ echo < began) ↔ ¬ (began ≤ echo ∧ echo < last)) := by
  have hundoable := series.undoable started ran
  obtain ⟨hundone, hunrestored⟩ := hundoable.settled moved
  have hverdict := hundoable.findsSpurious_of_echo echoed now
  have hiff : Undone (before.congestionWindow, before.threshold) g (g.onAck ack now).1 ↔
      echo < last := by
    constructor
    · intro h
      by_contra hlate
      have hkept := (hunrestored (hverdict.trans (decide_eq_false hlate))).1.undos
      have hcounted := h.undos
      omega
    · intro hlt
      exact (hundone (hverdict.trans (decide_eq_true hlt))).1
  refine ⟨hiff, fun hnot => ?_, ?_⟩
  · have hlate : ¬ echo < last := fun hlt => hnot (hiff.mpr hlt)
    exact (hunrestored (hverdict.trans (decide_eq_false hlate))).1
  · rw [hiff]
    omega

/-- A segment times out twice, and is sent again in between. -/
theorem exists_resent_between : ∃ g₀ before g : Engine FixedWindow,
    Engine.start { tlpEnabled := false } (.ofSettings { tlpEnabled := false }) .discard 0 0 = .ok g₀ ∧
    Run g₀ before ∧ Series before 1000000000 3000000000 g ∧ before.congestionWindow = 14600 ∧
    g.board.records.map (fun r => (r.firstSent, r.lastSent)) = [(some 0, 1001000000)] ∧
    ∀ echo ∈ [0, 1001000000],
      let g' := (g.onAck { cumulative := 1460, echo := some echo } 3050000000).1
      g.board.una < g'.board.una ∧ g'.congestionWindow = 14600 := by
  refine ⟨_, _, _, rfl, .single (.send ⟨0, 1460⟩ {} 0), .again (.call (.first ?_
    (.fire 1 false ?_ ?_ ?_)) (.send ⟨0, 1460⟩ {} 1001000000)
    (fun _ h => absurd h.counted ?_) ?_) (.fire 3 false ?_ ?_ ?_), ?_⟩
  all_goals decide +kernel

/-- An ack with the time of the first sending undoes both timeouts. -/
theorem undone_by_echo_of_first_sending : ∃ before g : Engine FixedWindow,
    Series before 1000000000 3000000000 g ∧
    Undone (before.congestionWindow, before.threshold) g
      (g.onAck { cumulative := 1460, echo := some 0 } 3050000000).1 := by
  obtain ⟨g₀, before, g, started, ran, series, -, -, moved⟩ := exists_resent_between
  exact ⟨before, g, series, (Series.undone_iff_echo started ran series (by decide)
    (moved 0 (by simp)).1 rfl).1.mpr (by decide)⟩

/-- An ack with the time of the second sending does so as well. The window of before the first timeout is
back, although the segment arrived only once it was sent again after it. -/
theorem undone_by_echo_of_resend : ∃ g₀ before g : Engine FixedWindow,
    Engine.start { tlpEnabled := false } (.ofSettings { tlpEnabled := false }) .discard 0 0 = .ok g₀ ∧
    Run g₀ before ∧ Series before 1000000000 3000000000 g ∧
    g.board.records.map (fun r => (r.firstSent, r.lastSent)) = [(some 0, 1001000000)] ∧
    let g' := (g.onAck { cumulative := 1460, echo := some 1001000000 } 3050000000).1
    g.board.una < g'.board.una ∧ before.congestionWindow = 14600 ∧ g'.congestionWindow = 14600 ∧
    ¬ (Undone (before.congestionWindow, before.threshold) g g' ↔ 1001000000 < 1000000000) := by
  obtain ⟨g₀, before, g, started, ran, series, hwindow, hsent, moved⟩ := exists_resent_between
  obtain ⟨hmoved, hback⟩ := moved 1001000000 (by simp)
  have hundoable := series.undoable started ran
  have hfound : g.findsSpurious { cumulative := 1460, echo := some 1001000000 } 3050000000 = true :=
    (hundoable.findsSpurious_of_echo rfl 3050000000).trans (by decide)
  obtain ⟨hundone, -⟩ := (hundoable.settled hmoved).1 hfound
  refine ⟨g₀, before, g, started, ran, series, hsent, hmoved, hwindow, hback, fun hiff => ?_⟩
  exact absurd (hiff.mp hundone) (by decide)

end FromStart

end Engine

end LossRecovery
