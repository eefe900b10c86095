import LossRecovery.Proofs.Conclusions

/-!
# `LossRecovery.Proofs.Windows` — sending within the receive window

An ack offers the receiver's window above its own cumulative ack. The engine keeps the window of the
latest ack it took in, and counts it from the left edge, where the highest cumulative ack put it. A
late ack, whose cumulative ack lies below that edge, thus shifts its window up.

## Contents
- `Unheard g g'`: from `g` to `g'`, nothing was heard from the receiver.
- `Aside`: calls that bring no ack; `Aside.unheard`: nothing is heard by them.
- `Heard first g acks`: `acks` are the acks that `g` has taken in.
- `Heard.edges`: the left edge and the window, by the acks; `Heard.quota_within`: the quota.
- `quota_beyond_after_late_ack`: a late ack lets the quota reach beyond every window offered.
-/

namespace LossRecovery

namespace Engine

variable {κ : Type} {g g' : Engine κ} {now : Nat}

/-! ## Nothing heard -/

/-- From `g` to `g'`, nothing was heard from the receiver. Data may have been sent. -/
structure Unheard (g g' : Engine κ) : Prop where
  una : g'.board.una = g.board.una
  window : g'.window = g.window
  top_le : g.board.top ≤ g'.board.top
  sackedAt : ∀ seq, g'.board.sackedAt seq = g.board.sackedAt seq

theorem Unheard.refl (g : Engine κ) : Unheard g g := ⟨rfl, rfl, Nat.le_refl _, fun _ => rfl⟩

theorem Unheard.trans {g'' : Engine κ} (h : Unheard g g') (h' : Unheard g' g'') : Unheard g g'' :=
  ⟨h'.una.trans h.una, h'.window.trans h.window, Nat.le_trans h.top_le h'.top_le,
    fun seq => (h'.sackedAt seq).trans (h.sackedAt seq)⟩

theorem Noted.unheard (h : Noted g g') : Unheard g g' := by
  have hboard : g'.board = g.board := congrArg Conduct.board h
  refine ⟨by rw [hboard], congrArg Conduct.window h, Nat.le_of_eq (by rw [hboard]), ?_⟩
  intro seq
  rw [hboard]

theorem window_processSent (g : Engine κ) (x : SeqRange) (flags : Flags) (now : Nat) :
    (g.processSent x flags now).1.window = g.window := by
  obtain ⟨sent, hterms⟩ := terms_processSent g x flags now
  exact congrArg Terms.window hterms

variable [CongestionLaw κ]

/-- The work of an engine leaves alone what it heard, as long as no ack arrives. -/
theorem maintained_unheard (g : Engine κ) : MaintainedAside (Unheard g) where
  noted hn h := h.trans hn.unheard
  sent {g' x flags} now hrun hx hs hf h := by
    obtain ⟨-, hsent, -, -⟩ := hrun.sound.processSent hx hs hf now
    obtain ⟨huna, htop⟩ := hsent.edges
    refine h.trans ⟨huna, window_processSent g' x flags now, ?_, hsent.sackedAt hrun.sound.board⟩
    rw [htop]
    exact Nat.le_max_left _ _
  fired {g' timer generation} hasData now hrun hc h := by
    have hrelabelled := relabelled_processTimeout g' timer generation hasData now
    obtain ⟨huna, htop⟩ := hrelabelled.edges
    obtain ⟨f, hf, hboard⟩ := hrelabelled.board
    refine h.trans ⟨huna, (kept_processTimeout g' timer generation hasData now).1,
      Nat.le_of_eq htop.symm, ?_⟩
    intro seq
    rw [hboard, hrun.sound.board.sackedAt_modify hf]

/-- A call that brings no ack. -/
inductive Aside (g : Engine κ) : Engine κ → Prop
  | send (range : SeqRange) (flags : Flags) (now : Nat) (fresh : flags.IsFresh) :
      Aside g (g.onPacketSent range flags now).1
  | fire (timer : Timer) (generation : Nat) (hasData : Bool) (now : Nat) :
      Aside g (g.onTimeout timer generation hasData now).1
  | dispatch {σ : Type} (host : Host σ) (w : σ) (actions : Actions) (now : Nat) :
      Aside g (g.dispatch host w actions now).1.1
  | nextSendTime (bytes now : Nat) : Aside g (g.nextSendTime bytes now).1
  | setFixedRate (rate : Option Nat) : Aside g (g.setFixedRate rate)
  | setHardware (table : RateTable) : Aside g (g.setHardware table)
  | setTrace (trace : String) : Aside g (g.setTrace trace)

theorem Aside.step (call : Aside g g') : Step g g' := by
  cases call with
  | send range flags now fresh => exact .send range flags now fresh
  | fire timer generation hasData now => exact .fire timer generation hasData now
  | dispatch host w actions now => exact .dispatch host w actions now
  | nextSendTime bytes now => exact .nextSendTime bytes now
  | setFixedRate rate => exact .setFixedRate rate
  | setHardware table => exact .setHardware table
  | setTrace trace => exact .setTrace trace

/-- A call that brings no ack and does not stop the engine keeps what its work keeps without acks. -/
theorem Aside.keeps {P : Engine κ → Prop} (hP : MaintainedAside P) (call : Aside g g')
    (hrun : g.Running) (h : P g) (ha : g'.isAborted = false) : P g' := by
  have hg : Sustains P g := ⟨hrun, h⟩
  cases call with
  | send range flags now fresh => exact (hg.send hP.sends fresh fresh ha).2
  | fire timer generation hasData now => exact (hg.fire hP timer generation hasData now).2
  | dispatch host w actions now => exact (hg.dispatch host now hP.sends isFresh_flags w actions ha).2
  | nextSendTime bytes now => exact hP.noted (show Noted g (g.nextSendTime bytes now).1 from rfl) h
  | setFixedRate rate => exact hP.noted (show Noted g (g.setFixedRate rate) from rfl) h
  | setHardware table => exact hP.noted (show Noted g (g.setHardware table) from rfl) h
  | setTrace trace => exact hP.noted (show Noted g (g.setTrace trace) from rfl) h

theorem Aside.unheard (hrun : g.Running) (call : Aside g g') (ha : g'.isAborted = false) :
    Unheard g g' := call.keeps (maintained_unheard g) hrun (.refl g) ha

/-! ## The window of an ack -/

/-- An ack that is taken in moves the left edge, and its window is the one that counts. -/
theorem Running.heard (h : g.Running) {a : Ack} {actions : Actions}
    (hok : (g.onAck a now).2 = .ok actions) :
    (g.onAck a now).1.Running ∧ (g.onAck a now).1.board.una = max g.board.una a.cumulative ∧
      (g.onAck a now).1.window = a.window := by
  obtain ⟨hle, htaken⟩ := h.ack_taken hok
  obtain ⟨timing, -, hfooting, -⟩ := h.sound.processAck_answer hle now
  obtain ⟨hrelabelled, -⟩ := h.onAck hle now
  have huna := congrArg Control.una (h.sound.control_acked hle now).1
  rw [htaken] at hfooting
  refine ⟨(Sustains.ack maintained_true ⟨h, trivial⟩ a now).1, hrelabelled.edges.1.trans huna, ?_⟩
  exact (footing_window hfooting).trans
    (congrArg Stock.window (stock_conclude (g.acked a now) a (g.outcomeOf a now) now))

/-! ## Acks taken in -/

/-- `acks` are the acks that `g` has taken in, the latest first. -/
inductive Heard (first : Nat) : Engine κ → List Ack → Prop
  | start {settings : Settings} {law : κ} {sink : Sink} {now : Nat} {g : Engine κ}
      (started : start settings law sink first now = .ok g) : Heard first g []
  | taken {g : Engine κ} {acks : List Ack} (before : Heard first g acks) (a : Ack) (now : Nat)
      {actions : Actions} (ok : (g.onAck a now).2 = .ok actions) :
      Heard first (g.onAck a now).1 (a :: acks)
  | refused {g : Engine κ} {acks : List Ack} (before : Heard first g acks) (a : Ack) (now : Nat)
      {e : Error} (failed : (g.onAck a now).2 = .error e) : Heard first (g.onAck a now).1 acks
  | aside {g g' : Engine κ} {acks : List Ack} (before : Heard first g acks) (call : Aside g g') :
      Heard first g' acks

variable {first : Nat} {a : Ack} {acks : List Ack}

/-- The acks are those of an engine that calls lead to, in any order. -/
theorem Heard.reachable (h : Heard first g acks) : g.Reachable first := by
  induction h with
  | start started => exact .start started
  | taken _ a now _ ih => exact ih.step (.ack a now)
  | refused _ a now _ ih => exact ih.step (.ack a now)
  | aside _ call ih => exact ih.step call.step

/-- The highest cumulative ack, on top of the first sequence number. -/
def highestCumulative (first : Nat) (acks : List Ack) : Nat :=
  acks.foldr (fun a edge => max edge a.cumulative) first

/-- The highest right edge of a window that was offered. -/
def highestEdge (acks : List Ack) : Nat :=
  acks.foldr (fun a edge => max edge (a.cumulative + a.window)) 0

/-- The left edge is where the highest cumulative ack put it, and the window is that of the latest
ack. -/
theorem Heard.edges (h : Heard first g acks) (ha : g.isAborted = false) :
    g.board.una = highestCumulative first acks ∧ ∀ a ∈ acks.head?, g.window = a.window := by
  induction h with
  | start started =>
    refine ⟨?_, by simp⟩
    rw [(start_board started).1]
    rfl
  | @taken g acks before a now actions ok ih =>
    have hbefore := (guarded_ok ok).1
    obtain ⟨-, huna, hwindow⟩ := (before.reachable.running_of hbefore).heard ok
    refine ⟨?_, by simp [hwindow]⟩
    rw [huna, (ih hbefore).1]
    rfl
  | @refused g acks before a now e failed ih =>
    have hbefore := Step.isAborted_eq_false (.ack a now) ha
    rw [(before.reachable.running_of hbefore).ack_refused failed]
    exact ih hbefore
  | @aside g g' acks before call ih =>
    have hbefore := call.step.isAborted_eq_false ha
    have hunheard := call.unheard (before.reachable.running_of hbefore) ha
    rw [hunheard.una, hunheard.window]
    exact ih hbefore

/-! ## The quota -/

theorem sendQuota_le (g : Engine κ) (hq : 0 < g.sendQuota) :
    g.isAborted = false ∧ g.board.top + g.sendQuota ≤ g.board.una + g.window := by
  unfold sendQuota at hq ⊢
  cases ha : g.isAborted with
  | true => simp [ha] at hq
  | false =>
    have hedge : g.windowEdge ≤ g.board.una + g.window := Nat.min_le_left _ _
    simp only [ha] at hq ⊢
    refine ⟨trivial, ?_⟩
    simp only [Bool.false_eq_true, if_false] at hq ⊢
    omega

/-- What may be sent stays within the window of the latest ack, counted from the left edge, where the
highest cumulative ack put it. It stays within the highest window edge that was offered, unless the
latest ack is late, and then it exceeds that edge by no more than that ack lies below the left
edge. -/
theorem Heard.quota_within (h : Heard first g (a :: acks)) (hq : 0 < g.sendQuota) :
    g.board.una = highestCumulative first (a :: acks) ∧
    g.board.top + g.sendQuota ≤ g.board.una + a.window ∧
    (g.board.una ≤ a.cumulative → g.board.top + g.sendQuota ≤ highestEdge (a :: acks)) ∧
    g.board.top + g.sendQuota ≤ highestEdge (a :: acks) + (g.board.una - a.cumulative) := by
  obtain ⟨ha, hle⟩ := g.sendQuota_le hq
  obtain ⟨huna, hwindow⟩ := h.edges ha
  have hedge : a.cumulative + a.window ≤ highestEdge (a :: acks) := Nat.le_max_right _ _
  rw [hwindow a rfl] at hle
  exact ⟨huna, hle, by omega, by omega⟩

/-- A window that is reopened by the latest ack: the quota ends where the window does. -/
theorem quota_within_reopened_window : ∃ g : Engine FixedWindow,
    (Heard 0 g [{ cumulative := 5000, window := 3000 }, { cumulative := 2000, window := 0 }] ∧
      0 < g.sendQuota) ∧
    g.board.una = 5000 ∧ g.board.top = 5000 ∧ g.board.top + g.sendQuota ≤ 8000 := by
  have started : Engine.start {} (FixedWindow.ofSettings {}) .discard 0 0 = .ok _ := rfl
  have sent := (Heard.start started).aside (.send ⟨0, 5000⟩ {} 0 ⟨rfl, rfl⟩)
  have closed := sent.taken { cumulative := 2000, window := 0 } 50000000 rfl
  have reopened := closed.taken { cumulative := 5000, window := 3000 } 60000000 rfl
  obtain ⟨huna, -, hwithin, -⟩ := Heard.quota_within reopened (by decide +kernel)
  exact ⟨_, ⟨reopened, by decide +kernel⟩, huna, rfl, hwithin (Nat.le_of_eq huna)⟩

/-- An ack that closes the window is followed by a late one from before: the quota reaches beyond
every window edge that was offered. -/
theorem quota_beyond_after_late_ack : ∃ g : Engine FixedWindow,
    Heard 0 g [{ cumulative := 0, window := 5000 }, { cumulative := 5000, window := 0 }] ∧
    0 < g.sendQuota ∧
    highestEdge [{ cumulative := 0, window := 5000 }, { cumulative := 5000, window := 0 }]
      < g.board.top + g.sendQuota := by
  have started : Engine.start {} (FixedWindow.ofSettings {}) .discard 0 0 = .ok _ := rfl
  have sent := (Heard.start started).aside (.send ⟨0, 5000⟩ {} 0 ⟨rfl, rfl⟩)
  have closed := sent.taken { cumulative := 5000, window := 0 } 50000000 rfl
  have late := closed.taken { cumulative := 0, window := 5000 } 60000000 rfl
  exact ⟨_, late, by decide +kernel, by decide +kernel⟩

end Engine

end LossRecovery
