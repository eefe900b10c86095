import LossRecovery.Congestion.FixedWindow
import LossRecovery.Proofs.Steering

/-!
# `LossRecovery.Proofs.Signals` — the signals a congestion law is given

An episode of fast recovery is ended once, by its own exit or by a timeout, and no exit is told
without one. A law may rely on this: the fixed window follows its threshold at an exit, and before any
episode that threshold is out of reach.

## Contents
- `Recording κ`: a law that keeps the signals it was given.
- `InOrder`: the order of signals; `InOrder.concat`: when one more signal fits.
- `Steering.Told`, `Steering.Bounded M`: what turns keep about the signals, and about the windows.
- `signals_in_order_and_window_bounded`: the order in every run, and what it means for a fixed window.
-/

namespace LossRecovery

/-! ## Recording -/

/-- A law together with the signals it was given, the earliest first. -/
structure Recording (κ : Type) where
  law : κ
  signals : List CongestionSignal

namespace Recording

variable {κ : Type} [CongestionLaw κ]

/-- A law that was given no signal yet. -/
def start (law : κ) : Recording κ := ⟨law, []⟩

/-- The law answers as it would without the record. -/
instance : CongestionLaw (Recording κ) where
  window r := CongestionLaw.window r.law
  threshold r := CongestionLaw.threshold r.law
  setWindow r window := { r with law := CongestionLaw.setWindow r.law window }
  setThreshold r threshold := { r with law := CongestionLaw.setThreshold r.law threshold }
  onAck r bytes now := { r with law := CongestionLaw.onAck r.law bytes now }
  onSignal r s pipe now :=
    { law := CongestionLaw.onSignal r.law s pipe now, signals := r.signals ++ [s] }
  inSlowStart r := CongestionLaw.inSlowStart r.law

end Recording

/-! ## The order of signals -/

/-- An exit comes right after the begin of an episode, and between the begins of two episodes the
first one was ended. -/
structure InOrder (signals : List CongestionSignal) : Prop where
  exit_after_begin : ∀ before after, signals = before ++ .recoveryExit :: after →
    before.getLast? = some .fastRecovery
  end_between : ∀ before between after,
    signals = before ++ .fastRecovery :: (between ++ .fastRecovery :: after) →
    .recoveryExit ∈ between ∨ .retransmissionTimeout ∈ between

namespace InOrder

variable {signals : List CongestionSignal} {s : CongestionSignal}

theorem nil : InOrder [] := by
  constructor
  · intro before after h
    simp at h
  · intro before between after h
    simp at h

/-- What comes last is no begin of an episode, or there was something after that begin. -/
theorem ended_of_getLast? {before between : List CongestionSignal}
    (h : (before ++ .fastRecovery :: between).getLast? ≠ some .fastRecovery) :
    .recoveryExit ∈ between ∨ .retransmissionTimeout ∈ between := by
  rcases List.eq_nil_or_concat' between with rfl | ⟨rest, last, rfl⟩
  · simp at h
  · cases last with
    | fastRecovery =>
      rw [← List.cons_append, ← List.append_assoc, List.getLast?_concat] at h
      exact absurd rfl h
    | recoveryExit => simp
    | retransmissionTimeout => simp

/-- One more signal fits if an exit follows a begin, and a begin does not. -/
theorem concat (h : InOrder signals)
    (hexit : s = .recoveryExit → signals.getLast? = some .fastRecovery)
    (hbegin : s = .fastRecovery → signals.getLast? ≠ some .fastRecovery) :
    InOrder (signals ++ [s]) := by
  constructor
  · intro before after heq
    rcases List.eq_nil_or_concat' after with rfl | ⟨rest, last, rfl⟩
    · obtain ⟨rfl, rfl⟩ := List.append_singleton_inj.mp heq
      exact hexit rfl
    · rw [← List.cons_append, ← List.append_assoc] at heq
      obtain ⟨heq, -⟩ := List.append_singleton_inj.mp heq
      exact h.exit_after_begin _ _ heq
  · intro before between after heq
    rcases List.eq_nil_or_concat' after with rfl | ⟨rest, last, rfl⟩
    · rw [← List.cons_append, ← List.append_assoc] at heq
      obtain ⟨rfl, rfl⟩ := List.append_singleton_inj.mp heq
      exact ended_of_getLast? (hbegin rfl)
    · rw [← List.cons_append, ← List.append_assoc, ← List.cons_append, ← List.append_assoc] at heq
      obtain ⟨heq, -⟩ := List.append_singleton_inj.mp heq
      rw [List.append_assoc, List.cons_append] at heq
      exact h.end_between _ _ _ heq

end InOrder

namespace Steering

/-! ## What turns keep -/

/-- The signals so far are in order, and the latest one is the begin of an episode exactly while the
episode goes on. -/
structure Told {κ : Type} (d : Steering (Recording κ)) : Prop where
  inOrder : InOrder d.law.signals
  begun : d.stage = .recovering ↔ d.law.signals.getLast? = some .fastRecovery

theorem Turn.told {κ : Type} [CongestionLaw κ] {d d' : Steering (Recording κ)} (turn : Turn d d')
    (h : d.Told) : d'.Told := by
  obtain ⟨horder, hbegun⟩ := h
  cases turn with
  | credit hs bytes now => exact ⟨horder, hbegun⟩
  | enterRecovery hs pipe now =>
    refine ⟨horder.concat nofun (fun _ hlast => ?_), ?_⟩
    · rw [hbegun.mpr hlast] at hs
      simp at hs
    · simp [CongestionLaw.onSignal]
  | leaveRecovery hs pipe now =>
    refine ⟨horder.concat (fun _ => hbegun.mp hs) nofun, ?_⟩
    simp [CongestionLaw.onSignal]
  | collapse pipe now =>
    refine ⟨horder.concat nofun nofun, ?_⟩
    simp [CongestionLaw.onSignal]
  | giveBack hs hu =>
    exact ⟨horder, by simpa [hs, CongestionLaw.setWindow, CongestionLaw.setThreshold] using hbegun⟩
  | forgetUndo hs => exact ⟨horder, hbegun⟩
  | leaveTimeout hs => exact ⟨horder, by simpa [hs] using hbegun⟩
  | probe hs => exact ⟨horder, by simpa [hs] using hbegun⟩
  | settleProbe hs => exact ⟨horder, by simpa [hs] using hbegun⟩

/-- No window of a fixed law exceeds `M`, nor does any that it may be set to: the threshold at an
exit, and what an undo gives back. -/
structure Bounded (M : Nat) (d : Steering FixedWindow) : Prop where
  mss : d.law.mss ≤ M
  minWindow : d.law.minWindow ≤ M
  window : d.law.window ≤ M
  threshold : d.stage = .recovering → d.law.threshold ≤ M
  undo : ∀ window threshold, d.undo = some (window, threshold) → window ≤ M

theorem Turn.bounded {M : Nat} {d d' : Steering FixedWindow} (turn : Turn d d')
    (h : d.Bounded M) : d'.Bounded M := by
  obtain ⟨hmss, hmin, hwindow, hthreshold, hundo⟩ := h
  cases turn with
  | credit hs bytes now => exact ⟨hmss, hmin, hwindow, hthreshold, hundo⟩
  | enterRecovery hs pipe now =>
    -- An episode has a threshold of its own, whatever it was before.
    have hhalf : max (d.law.window / 2) d.law.minWindow ≤ M := by omega
    exact ⟨hmss, hmin, hwindow, fun _ => hhalf, hundo⟩
  | leaveRecovery hs pipe now =>
    have hfollows : max d.law.threshold d.law.minWindow ≤ M := Nat.max_le.mpr ⟨hthreshold hs, hmin⟩
    exact ⟨hmss, hmin, hfollows, nofun, hundo⟩
  | collapse pipe now =>
    refine ⟨hmss, hmin, hmss, nofun, ?_⟩
    intro window threshold he
    dsimp only at he
    split at he
    · exact hundo window threshold he
    · simp only [Option.some.injEq, Prod.mk.injEq] at he
      exact he.1 ▸ hwindow
  | giveBack hs hu =>
    have hgiven : max _ d.law.mss ≤ M := Nat.max_le.mpr ⟨hundo _ _ hu, hmss⟩
    exact ⟨hmss, hmin, hgiven, nofun, nofun⟩
  | forgetUndo hs => exact ⟨hmss, hmin, hwindow, hthreshold, nofun⟩
  | leaveTimeout hs =>
    exact ⟨hmss, hmin, hwindow, nofun, nofun⟩
  | probe hs => exact ⟨hmss, hmin, hwindow, nofun, hundo⟩
  | settleProbe hs => exact ⟨hmss, hmin, hwindow, nofun, hundo⟩

end Steering

namespace Engine

/-! ## Runs -/

theorem start_steering {κ : Type} [CongestionLaw κ] {settings : Settings} {law : κ} {sink : Sink}
    {first now : Nat} {g : Engine κ} (started : start settings law sink first now = .ok g) :
    g.steering = ⟨.steady, law, none⟩ := by
  obtain ⟨-, rfl⟩ := start_eq_ok_iff.mp started
  rfl

theorem Run.told {κ : Type} [CongestionLaw κ] {settings : Settings} {law : κ} {sink : Sink}
    {first now : Nat} {g₀ g : Engine (Recording κ)}
    (started : start settings (.start law) sink first now = .ok g₀) (h : Run g₀ g) :
    g.steering.Told := by
  refine (h.steered started).keep Steering.Turn.told ?_
  rw [start_steering started]
  exact ⟨.nil, by simp [Recording.start]⟩

theorem Run.bounded {settings : Settings} {sink : Sink} {first now : Nat} {g₀ g : Engine FixedWindow}
    (started : start settings (.ofSettings settings) sink first now = .ok g₀) (h : Run g₀ g)
    {M : Nat} (hmss : settings.mss ≤ M) (hmin : settings.minWindow ≤ M)
    (hinitial : settings.initialWindow ≤ M) : g.steering.Bounded M := by
  refine (h.steered started).keep Steering.Turn.bounded ?_
  rw [start_steering started]
  exact ⟨hmss, hmin, hinitial, nofun, nofun⟩

/-- In every run, the signals come in order, whatever the law. A fixed window therefore never exceeds
the initial window, the least one, or a segment. -/
theorem signals_in_order_and_window_bounded (settings : Settings) (sink : Sink) (first now : Nat) :
    (∀ {κ : Type} [CongestionLaw κ] (law : κ) (g₀ g : Engine (Recording κ)),
      start settings (.start law) sink first now = .ok g₀ → Run g₀ g → InOrder g.law.signals) ∧
    (∀ g₀ g : Engine FixedWindow,
      start settings (.ofSettings settings) sink first now = .ok g₀ → Run g₀ g →
      g.congestionWindow ≤ max (settings.initialWindowSegments * settings.mss)
        (max (settings.minWindowSegments * settings.mss) settings.mss)) := by
  constructor
  · intro κ _ law g₀ g started hrun
    exact (hrun.told started).inOrder
  · intro g₀ g started hrun
    have hmin : settings.minWindow ≤ settings.minWindowSegments * settings.mss := Nat.min_le_left _ _
    have hinitial : settings.initialWindow ≤ settings.initialWindowSegments * settings.mss :=
      Nat.min_le_left _ _
    exact (hrun.bounded started (by omega) (by omega) (by omega)).window

/-- The calls of a recovery episode, and of a timeout that the ack after it proves spurious. -/
def troubledRun {κ : Type} [CongestionLaw κ] (g : Engine κ) : Engine κ :=
  let g := (g.onPacketSent ⟨0, 1460⟩ {} 0).1
  let g := (g.onPacketSent ⟨1460, 14600⟩ {} 1000000).1
  let g := (g.onAck { cumulative := 0, blocks := [⟨1460, 5840⟩] } 100000000).1
  let g := (g.onAck { cumulative := 0, blocks := [⟨1460, 5840⟩] } 150000000).1
  let g := (g.onAck { cumulative := 14600 } 200000000).1
  let g := (g.onPacketSent ⟨14600, 29200⟩ {} 200000000).1
  let g := (g.onTimeout .tlp 7 false 400000000).1
  let g := (g.onTimeout .rto 9 false 900000000).1
  (g.onAck { cumulative := 29200, echo := some 200000000 } 900010000).1

theorem run_troubledRun {κ : Type} [CongestionLaw κ] (g : Engine κ) : Run g g.troubledRun :=
  (((((((((Relation.ReflTransGen.refl.tail (.send _ _ _)).tail (.send _ _ _)).tail (.ack _ _)).tail
    (.ack _ _)).tail (.ack _ _)).tail (.send _ _ _)).tail (.fire _ _ _ _)).tail
    (.fire _ _ _ _)).tail (.ack _ _))

/-- An episode, its exit, and a timeout are told. The undo gives back the window that the episode left,
half the initial one. -/
theorem signals_of_troubledRun : ∃ (r₀ : Engine (Recording FixedWindow)) (g₀ : Engine FixedWindow),
    start {} (.start (.ofSettings {})) .discard 0 0 = .ok r₀ ∧
    start {} (.ofSettings {}) .discard 0 0 = .ok g₀ ∧
    (Run r₀ r₀.troubledRun ∧
      r₀.troubledRun.law.signals = [.fastRecovery, .recoveryExit, .retransmissionTimeout] ∧
      InOrder r₀.troubledRun.law.signals) ∧
    Run g₀ g₀.troubledRun ∧ g₀.troubledRun.stats.spuriousRto = 1 ∧
      g₀.troubledRun.congestionWindow = 7300 ∧ g₀.troubledRun.congestionWindow ≤ 14600 := by
  have recorded : start {} (.start (.ofSettings {})) .discard 0 0
    = .ok (_ : Engine (Recording FixedWindow)) := rfl
  have started : start {} (.ofSettings {}) .discard 0 0 = .ok (_ : Engine FixedWindow) := rfl
  obtain ⟨horder, hbound⟩ := signals_in_order_and_window_bounded {} .discard 0 0
  exact ⟨_, _, recorded, started,
    ⟨run_troubledRun _, by decide +kernel, horder _ _ _ recorded (run_troubledRun _)⟩,
    run_troubledRun _, by decide +kernel, by decide +kernel,
    hbound _ _ started (run_troubledRun _)⟩

end Engine

end LossRecovery
