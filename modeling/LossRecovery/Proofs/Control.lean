import LossRecovery.Planning
import LossRecovery.Settings
import Mathlib.Logic.ExistsUnique
import Mathlib.Logic.Relation

/-!
# `LossRecovery.Proofs.Control` — the course of loss recovery

Of all that an engine keeps, little decides what it does about losses next: the stage with what
belongs to it, the recovery episode, the probing of the least RTT, and both edges. An ack changes
these in turns of a few kinds, and may take several of them one after another.

## Contents
- `TimerTable.Only`: one timer is armed, and the other one is not.
- `Control` with `arm`, `Rearmed`, `Settled`, `extend` and `Fire`; `Control.Turn`, `Control.Turns`:
  what an ack does to it.
- `Fits`, `Staged`: what goes with each stage, and that it goes with the one there is.
- `AtRest`: what holds between calls; what an ack leaves ahead, and which timers it leaves armed.
-/

namespace LossRecovery

/-! ## Timers -/

/-- A timer is armed, and the other one is not. -/
def TimerTable.Only (t : TimerTable) (timer : Timer) : Prop :=
  (t.armed? timer).isSome = true ∧ t.armed? timer.other = none

namespace TimerTable

variable {t : TimerTable} {timer : Timer}

theorem only_set (t : TimerTable) (timer : Timer) (expiry : Nat) :
    ((t.stop timer.other).set timer expiry).Only timer := by
  constructor
  · simp
  · simp

theorem Only.eq {other : Timer} (h : t.Only timer) (ho : (t.armed? other).isSome = true) :
    other = timer := by
  have hne : other ≠ timer.other := by
    rintro rfl
    simp [h.2] at ho
  revert hne
  cases timer <;> cases other <;> decide

theorem Only.existsUnique (h : t.Only timer) : ∃! timer, (t.armed? timer).isSome = true :=
  ⟨timer, h.1, fun _ ho => h.eq ho⟩

end TimerTable

/-! ## Control -/

/-- What decides the course of loss recovery. -/
structure Control where
  settings : Settings
  schedule : Schedule
  /-- Whether a recovery episode is in progress. -/
  active : Bool
  /-- The right edge when the episode began. -/
  point : Nat
  /-- Whether the least RTT is probed. -/
  probing : Bool
  una : Nat
  top : Nat

namespace Control

/-- Arm a timer in place of the other one. -/
def arm (c : Control) (timer : Timer) (expiry : Nat) : Control :=
  { c with schedule := { c.schedule with
      timers := (c.schedule.timers.stop timer.other).set timer expiry } }

/-- A timer that goes with the stage was armed. -/
def Rearmed (c c' : Control) : Prop :=
  ∃ timer expiry, c' = c.arm timer expiry ∧ (timer = .tlp → c.schedule.stage = .steady)

/-- How the timers are settled after an ack that came in the stage `prior`: they are off without
outstanding data; else one was armed, or the ack changed nothing that calls for it. -/
def Settled (prior : Stage) (c c' : Control) : Prop :=
  (c.top ≤ c.una ∧ ∃ timers : TimerTable, (∀ timer, timers.armed? timer = none) ∧
    c' = { c with schedule := { c.schedule with timers := timers } }) ∨
  (c.una < c.top ∧
    (Rearmed c c' ∨
      c' = c ∧ c.schedule.stage = prior ∧ c.schedule.timers.nextTimeout ≠ none))

/-- Data was sent up to `top`. A tail loss probe may end there. -/
def extend (c : Control) (top : Nat) (probeEnd : Option Nat) : Control :=
  { c with top := top, schedule := { c.schedule with probeEnd := probeEnd } }

/-- What a firing timer enters: the probe timer a probe, if there is something to send, and the
retransmission timer a timeout, which ends episodes and probes of any kind. -/
inductive Fire (c : Control) : Timer → Control → Prop
  | nothing : Fire c .tlp c
  | probe (stop : Nat) :
      Fire c .tlp { c with schedule := { c.schedule with
        stage := .tlpPending, probeEnd := some stop } }
  | timeout {backoff : Nat} (hb : 0 < backoff) (now : Nat) (undo : Option (Nat × Nat))
      (cursor : Option Nat) :
      Fire c .rto { c with
        active := false
        probing := false
        schedule := { c.schedule with
          stage := .rtoPending
          backoff := backoff
          rtoPoint := c.top
          firedAt := some now
          undo := undo
          probeEnd := none
          cursor := cursor } }

/-- One turn that an ack gives to loss recovery. -/
inductive Turn (c : Control) : Control → Prop
  | leaveTimeout (h : c.schedule.stage = .rtoPending) :
      Turn c { c with schedule := { c.schedule with
        stage := .steady, backoff := 0, firedAt := none, cursor := none, undo := none } }
  | forgetUndo : Turn c { c with schedule := { c.schedule with undo := none } }
  | resetBackoff (h : c.schedule.stage ≠ .rtoPending) :
      Turn c { c with schedule := { c.schedule with backoff := 0 } }
  | settleProbe (h : c.schedule.stage = .tlpPending) :
      Turn c { c with schedule := { c.schedule with stage := .steady, probeEnd := none } }
  | leaveRecovery (h : c.schedule.stage = .recovering) :
      Turn c { c with active := false, schedule := { c.schedule with stage := .steady } }
  | enterRecovery (h : c.schedule.stage = .steady ∨ c.schedule.stage = .tlpPending)
      (outstanding : c.una < c.top) :
      Turn c { c with
        active := true
        point := c.top
        schedule := { c.schedule with stage := .recovering, probeEnd := none } }
  | moveCursor (h : c.schedule.stage = .rtoPending) (cursor : Option Nat) :
      Turn c { c with schedule := { c.schedule with cursor := cursor } }
  | probeRtt (h : c.schedule.stage = .steady ∨ c.probing = true) (probing : Bool) :
      Turn c { c with probing := probing }

/-- Any number of turns. -/
def Turns : Control → Control → Prop := Relation.ReflTransGen Turn

variable {c c' : Control}

/-! ## What turns leave alone -/

/-- Settings, edges, timers, and the place where the retransmission timer fired. -/
structure Frame (c c' : Control) : Prop where
  settings : c'.settings = c.settings
  timers : c'.schedule.timers = c.schedule.timers
  rtoPoint : c'.schedule.rtoPoint = c.schedule.rtoPoint
  una : c'.una = c.una
  top : c'.top = c.top

theorem Turn.frame (h : Turn c c') : Frame c c' := by
  cases h <;> exact ⟨rfl, rfl, rfl, rfl, rfl⟩

/-- What every turn keeps, any number of turns keeps. -/
theorem Turns.keep {P : Control → Prop} (hP : ∀ {c c'}, Turn c c' → P c → P c') (h : Turns c c')
    (hc : P c) : P c' := by
  induction h with
  | refl => exact hc
  | tail _ turn ih => exact hP turn ih

theorem Turns.frame (h : Turns c c') : Frame c c' := by
  refine h.keep (P := Frame c) ?_ ⟨rfl, rfl, rfl, rfl, rfl⟩
  intro d d' turn ih
  have ht := turn.frame
  exact ⟨ht.settings.trans ih.settings, ht.timers.trans ih.timers,
    ht.rtoPoint.trans ih.rtoPoint, ht.una.trans ih.una, ht.top.trans ih.top⟩

/-! ## Stages and their fields -/

/-- No timeout is going on, and nothing is kept of one. -/
def Calm (s : Schedule) : Prop :=
  s.firedAt = none ∧ s.backoff = 0 ∧ s.undo = none ∧ s.cursor = none

/-- What goes with a stage: the fields that belong to it are set, those that belong to another one
are not, and what it waits for was sent. -/
def Fits (c : Control) : Stage → Prop
  | .steady => Calm c.schedule ∧ c.active = false ∧ c.schedule.probeEnd = none
  | .recovering =>
    Calm c.schedule ∧ c.active = true ∧ c.schedule.probeEnd = none ∧ c.point ≤ c.top
  | .tlpPending => Calm c.schedule ∧ c.active = false ∧ c.schedule.probeEnd.isSome = true
  | .rtoPending =>
    c.active = false ∧ c.schedule.probeEnd = none ∧ c.schedule.firedAt.isSome = true ∧
      0 < c.schedule.backoff ∧ c.probing = false ∧ c.schedule.rtoPoint ≤ c.top

/-- The fields go with the stage. -/
def Staged (c : Control) : Prop := c.Fits c.schedule.stage

namespace Staged

variable {stage : Stage}

theorem fits (hs : c.Staged) (h : c.schedule.stage = stage) : c.Fits stage := h ▸ hs

theorem calm (hs : c.Staged) (h : c.schedule.stage ≠ .rtoPending) : Calm c.schedule := by
  cases hstage : c.schedule.stage with
  | steady => exact (hs.fits hstage).1
  | recovering => exact (hs.fits hstage).1
  | tlpPending => exact (hs.fits hstage).1
  | rtoPending => exact absurd hstage h

/-- Which stage it is can be told from the fields. -/
theorem agree (hs : c.Staged) :
    (c.schedule.stage = .recovering ↔ c.active = true) ∧
    (c.schedule.stage = .rtoPending ↔ c.schedule.firedAt.isSome = true) ∧
    (c.schedule.stage = .rtoPending ↔ 0 < c.schedule.backoff) ∧
    (c.schedule.stage = .tlpPending ↔ c.schedule.probeEnd.isSome = true) ∧
    (c.schedule.undo.isSome = true → c.schedule.stage = .rtoPending) ∧
    (c.schedule.cursor.isSome = true → c.schedule.stage = .rtoPending) := by
  cases hstage : c.schedule.stage with
  | steady =>
    obtain ⟨⟨hfired, hbackoff, hundo, hcursor⟩, hactive, hprobe⟩ := hs.fits hstage
    simp [hfired, hbackoff, hundo, hcursor, hactive, hprobe]
  | recovering =>
    obtain ⟨⟨hfired, hbackoff, hundo, hcursor⟩, hactive, hprobe, -⟩ := hs.fits hstage
    simp [hfired, hbackoff, hundo, hcursor, hactive, hprobe]
  | tlpPending =>
    obtain ⟨⟨hfired, hbackoff, hundo, hcursor⟩, hactive, hprobe⟩ := hs.fits hstage
    simp [hfired, hbackoff, hundo, hcursor, hactive, hprobe]
  | rtoPending =>
    obtain ⟨hactive, hprobe, hfired, hbackoff, -⟩ := hs.fits hstage
    simp [hactive, hprobe, hfired, hbackoff]

/-- The left edge and the timers belong to no stage, and what was sent stays sent. -/
theorem congr (hs : c.Staged) (una : Nat) {top : Nat} (timers : TimerTable) (htop : c.top ≤ top) :
    Staged { c with una := una, top := top, schedule := { c.schedule with timers := timers } } := by
  show Fits _ c.schedule.stage
  cases hstage : c.schedule.stage with
  | steady => exact hs.fits hstage
  | recovering =>
    obtain ⟨hcalm, hactive, hprobe, hpoint⟩ := hs.fits hstage
    exact ⟨hcalm, hactive, hprobe, Nat.le_trans hpoint htop⟩
  | tlpPending => exact hs.fits hstage
  | rtoPending =>
    obtain ⟨hactive, hprobe, hfired, hbackoff, hprobing, hpoint⟩ := hs.fits hstage
    exact ⟨hactive, hprobe, hfired, hbackoff, hprobing, Nat.le_trans hpoint htop⟩

end Staged

theorem Turn.staged (h : Turn c c') (hs : c.Staged) : c'.Staged := by
  cases h with
  | leaveTimeout h =>
    obtain ⟨hactive, hprobe, -⟩ := hs.fits h
    exact ⟨⟨rfl, rfl, rfl, rfl⟩, hactive, hprobe⟩
  | forgetUndo =>
    show Fits _ c.schedule.stage
    by_cases h : c.schedule.stage = .rtoPending
    · rw [h]
      exact hs.fits h
    · -- Outside a timeout there was nothing to forget.
      rw [← (hs.calm h).2.2.1]
      exact hs
  | resetBackoff h =>
    rw [← (hs.calm h).2.1]
    exact hs
  | settleProbe h =>
    obtain ⟨hcalm, hactive, -⟩ := hs.fits h
    exact ⟨hcalm, hactive, rfl⟩
  | leaveRecovery h =>
    obtain ⟨hcalm, -, hprobe, -⟩ := hs.fits h
    exact ⟨hcalm, rfl, hprobe⟩
  | enterRecovery h _ =>
    have hcalm : Calm c.schedule := hs.calm (by rcases h with h | h <;> simp [h])
    exact ⟨hcalm, rfl, rfl, Nat.le_refl _⟩
  | moveCursor h cursor =>
    show Fits _ c.schedule.stage
    rw [h]
    exact hs.fits h
  | probeRtt h probing =>
    show Fits _ c.schedule.stage
    cases hstage : c.schedule.stage with
    | steady => exact hs.fits hstage
    | recovering => exact hs.fits hstage
    | tlpPending => exact hs.fits hstage
    | rtoPending =>
      -- During a timeout the least RTT is not probed.
      obtain ⟨-, -, -, -, hprobing, -⟩ := hs.fits hstage
      simp [hstage, hprobing] at h

theorem Turns.staged (h : Turns c c') (hs : c.Staged) : c'.Staged := h.keep Turn.staged hs

/-! ## What is waited for -/

/-- The ack that ends a timeout is still to come. -/
def TimeoutAhead (c : Control) : Prop :=
  c.schedule.stage = .rtoPending → c.una < c.schedule.rtoPoint

/-- The ack that ends a recovery episode is still to come. -/
def EpisodeAhead (c : Control) : Prop := c.schedule.stage = .recovering → c.una < c.point

/-- The ack that ends a tail loss probe is still to come. -/
def ProbeAhead (c : Control) : Prop :=
  c.schedule.stage = .tlpPending → ∀ stop, c.schedule.probeEnd = some stop → c.una < stop

/-- A tail loss probe ends no more than a segment above the right edge. -/
def ProbeNear (c : Control) : Prop :=
  ∀ stop, c.schedule.probeEnd = some stop → stop ≤ c.top + c.settings.mss

theorem Turn.timeoutAhead (h : Turn c c') (ha : c.TimeoutAhead) : c'.TimeoutAhead := by
  -- No turn leads to a timeout.
  intro hr
  cases h with
  | forgetUndo => exact ha hr
  | resetBackoff h => exact ha hr
  | moveCursor h cursor => exact ha hr
  | probeRtt h probing => exact ha hr
  | leaveTimeout | settleProbe | leaveRecovery | enterRecovery => cases hr

theorem Turn.episodeAhead (h : Turn c c') (ha : c.EpisodeAhead) : c'.EpisodeAhead := by
  intro hr
  cases h with
  | forgetUndo => exact ha hr
  | resetBackoff h => exact ha hr
  | moveCursor h cursor => exact ha hr
  | probeRtt h probing => exact ha hr
  | enterRecovery h outstanding => exact outstanding
  | leaveTimeout | settleProbe | leaveRecovery => cases hr

theorem Turn.probeAhead (h : Turn c c') (ha : c.ProbeAhead) : c'.ProbeAhead := by
  intro hr
  cases h with
  | forgetUndo => exact ha hr
  | resetBackoff h => exact ha hr
  | moveCursor h cursor => exact ha hr
  | probeRtt h probing => exact ha hr
  | leaveTimeout | settleProbe | leaveRecovery | enterRecovery => cases hr

theorem Turn.probeNear (h : Turn c c') (hn : c.ProbeNear) : c'.ProbeNear := by
  intro stop hstop
  cases h with
  | settleProbe | enterRecovery => cases hstop
  | _ => exact hn stop hstop

/-! ## Between calls -/

/-- One timer is armed while data is outstanding, and none otherwise. The probe timer goes with the
steady stage. -/
structure Timed (c : Control) : Prop where
  idle : c.una = c.top → ∀ timer, c.schedule.timers.armed? timer = none
  one : c.una < c.top → ∃ timer, c.schedule.timers.Only timer
  steady : (c.schedule.timers.armed? .tlp).isSome = true → c.schedule.stage = .steady

/-- Loss recovery between two calls. -/
structure AtRest (c : Control) : Prop where
  mss_pos : 0 < c.settings.mss
  staged : c.Staged
  timeoutAhead : c.TimeoutAhead
  episodeAhead : c.EpisodeAhead
  timed : c.Timed

theorem Rearmed.timed (h : Rearmed c c') (hlt : c.una < c.top) : c'.Timed := by
  obtain ⟨timer, expiry, rfl, hsteady⟩ := h
  have honly := TimerTable.only_set c.schedule.timers timer expiry
  refine ⟨fun he => absurd he (Nat.ne_of_lt hlt), fun _ => ⟨timer, honly⟩, ?_⟩
  intro hsome
  exact hsteady (honly.eq hsome).symm

theorem Rearmed.atRest (h : Rearmed c c') (hlt : c.una < c.top) (hmss : 0 < c.settings.mss)
    (hs : c.Staged) (ht : c.TimeoutAhead) (he : c.EpisodeAhead) : c'.AtRest := by
  have htimed := h.timed hlt
  obtain ⟨timer, expiry, rfl, -⟩ := h
  exact ⟨hmss, hs.congr c.una _ (Nat.le_refl _), ht, he, htimed⟩

/-- An ack moves the left edge, gives turns, and settles the timers. -/
theorem AtRest.acked (h : c.AtRest) {edge : Nat} (hedge : c.una ≤ edge) {d : Control}
    (turns : Turns { c with una := edge } d) (ht : d.TimeoutAhead) (he : d.EpisodeAhead)
    (hsettled : Settled c.schedule.stage d c') : c'.AtRest := by
  have hframe := turns.frame
  have hmss : 0 < d.settings.mss := by simpa [hframe.settings] using h.mss_pos
  have hstaged : d.Staged := turns.staged (h.staged.congr edge c.schedule.timers (Nat.le_refl _))
  rcases hsettled with ⟨hle, timers, hoff, rfl⟩ | ⟨hlt, hrearmed | ⟨rfl, hprior, -⟩⟩
  · refine ⟨hmss, hstaged.congr d.una timers (Nat.le_refl _), ht, he, fun _ => hoff, ?_, ?_⟩
    · intro hlt
      exact absurd hlt (Nat.not_lt.mpr hle)
    · intro hsome
      simp [hoff] at hsome
  · exact hrearmed.atRest hlt hmss hstaged ht he
  · -- The timers are those from before the ack, and the stage is the same.
    have hbefore : c.una < c.top := by
      have h1 := hframe.una
      have h2 := hframe.top
      dsimp only at h1 h2
      omega
    refine ⟨hmss, hstaged, ht, he, ?_, ?_, ?_⟩
    · intro heq
      exact absurd heq (Nat.ne_of_lt hlt)
    · intro _
      rw [hframe.timers]
      exact h.timed.one hbefore
    · rw [hframe.timers, hprior]
      exact h.timed.steady

/-- A send moves the right edge. Where it arms no timer, the right one is armed already. -/
theorem AtRest.sent (h : c.AtRest) {top : Nat} {probeEnd : Option Nat} (hle : c.una ≤ c.top)
    (htop : c.top ≤ top)
    (hprobe : probeEnd = c.schedule.probeEnd ∨
      (c.schedule.stage = .tlpPending ∧ probeEnd.isSome = true))
    (hsent : (c.una < top ∧ Rearmed (c.extend top probeEnd) c') ∨
      (c' = c.extend top probeEnd ∧
        (top = c.top ∨ (c.schedule.timers.armed? .rto).isSome = true))) : c'.AtRest := by
  have hstaged : (c.extend top probeEnd).Staged := by
    rcases hprobe with rfl | ⟨hstage, hsome⟩
    · exact h.staged.congr c.una c.schedule.timers htop
    · obtain ⟨hcalm, hactive, -⟩ := h.staged.fits hstage
      show Fits _ c.schedule.stage
      rw [hstage]
      exact ⟨hcalm, hactive, hsome⟩
  rcases hsent with ⟨hlt, hrearmed⟩ | ⟨rfl, hkept⟩
  · exact hrearmed.atRest hlt h.mss_pos hstaged h.timeoutAhead h.episodeAhead
  · refine ⟨h.mss_pos, hstaged, h.timeoutAhead, h.episodeAhead, ?_, ?_, h.timed.steady⟩
    · intro heq
      change c.una = top at heq
      exact h.timed.idle (by omega)
    · intro hlt
      change c.una < top at hlt
      apply h.timed.one
      rcases hkept with rfl | harmed
      · exact hlt
      · -- Nothing is armed without outstanding data.
        apply Nat.lt_of_le_of_ne hle
        intro heq
        simp [h.timed.idle heq] at harmed

/-- A timer that fires while data is outstanding is followed by the retransmission timer. -/
theorem AtRest.fired (h : c.AtRest) {timer : Timer} {timers : TimerTable} {d : Control}
    (hlt : c.una < c.top) (harmed : (c.schedule.timers.armed? timer).isSome = true)
    (hfire : Fire { c with schedule := { c.schedule with timers := timers } } timer d)
    (expiry : Nat) : (d.arm .rto expiry).AtRest := by
  have hrearmed : Rearmed d (d.arm .rto expiry) := ⟨.rto, expiry, rfl, fun hr => Timer.noConfusion hr⟩
  have hs := h.staged.congr c.una timers (Nat.le_refl _)
  cases hfire with
  | nothing => exact hrearmed.atRest hlt h.mss_pos hs h.timeoutAhead h.episodeAhead
  | probe stop =>
    -- The probe timer is armed in the steady stage only.
    obtain ⟨hcalm, hactive, -⟩ := hs.fits (h.timed.steady harmed)
    refine hrearmed.atRest hlt h.mss_pos ⟨hcalm, hactive, rfl⟩ (fun hr => ?_) (fun hr => ?_)
    · cases hr
    · cases hr
  | timeout hb now undo cursor =>
    refine hrearmed.atRest hlt h.mss_pos ?_ (fun _ => hlt) (fun hr => ?_)
    · exact ⟨rfl, rfl, rfl, hb, rfl, Nat.le_refl _⟩
    · cases hr

end Control

end LossRecovery
