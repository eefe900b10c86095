import LossRecovery.Proofs.PendingTimeouts

/-!
# `LossRecovery.Proofs.Restorations` — where a window may be given back

A congestion law is informed of signals and of deliveries all the time. Its window and threshold are
overwritten at one place only, where an ack proves that a timeout was spurious. Everything else leaves
the count of such acks alone, and what could be given back as it was, or gives it up. The exception is
a timer that begins a series of timeouts.

## Contents
- `Informs`, `Informed`: what a law may be told.
- `Engine.Unrestored g g'`: from `g` to `g'`, nothing was given back.
- `edges_processAck`: where an ack leaves the edges.
- `Engine.Begins`, `Unbegun`: the begin of a series, and calls without one; `Call.unrestored`.
-/

namespace LossRecovery

/-! ## Laws -/

/-- A law is told of a turning point, or of delivered bytes. -/
inductive Informs {κ : Type} [CongestionLaw κ] (law : κ) : κ → Prop
  | signal (s : CongestionSignal) (pipe now : Nat) :
      Informs law (CongestionLaw.onSignal law s pipe now)
  | credit (bytes now : Nat) : Informs law (CongestionLaw.onAck law bytes now)

/-- A law is told any number of things. -/
def Informed {κ : Type} [CongestionLaw κ] : κ → κ → Prop := Relation.ReflTransGen Informs

/-! ## The edges -/

/-- The left edge and the right edge. -/
def Scoreboard.edges (b : Scoreboard) : Nat × Nat := (b.una, b.top)

namespace AckPass

theorem edges_atEdge (i : AckInput) (p : AckPass) : (p.atEdge i).board.edges
    = (if p.board.una < i.ack.cumulative then i.ack.cumulative else p.board.una, p.board.top) := by
  unfold atEdge
  split
  · exact congrArg Scoreboard.edges advance_board
  · rfl

theorem edges_checkWindow (i : AckInput) (p : AckPass) :
    (p.checkWindow i).board.edges = p.board.edges := by
  unfold checkWindow
  dsimp only
  split
  · rfl
  · split <;> rfl

theorem edges_applyBlock (i : AckInput) (p : AckPass) (x : SeqRange) :
    (p.applyBlock i x).board.edges = p.board.edges := by
  rcases applyBlock_cases i p x with ⟨-, he⟩ | ⟨-, -, he⟩ | ⟨-, he⟩ | ⟨-, -, -, he⟩ <;>
    exact congrArg (fun p => p.board.edges) he

theorem edges_countAgainst (p : AckPass) : p.countAgainst.board.edges = p.board.edges := by
  unfold countAgainst countRepeated
  split
  · rfl
  · split
    · split
      · rfl
      · split <;> rfl
    · rfl

theorem edges_applyDuplicate (i : AckInput) (p : AckPass) (x : SeqRange) :
    (p.applyDuplicate i x).board.edges = p.board.edges := by
  unfold applyDuplicate
  dsimp only
  split <;> rfl

/-- Only the cumulative ack moves the left edge, and no ack moves the right one. -/
theorem edges_run (i : AckInput) (p : AckPass) : (p.run i).board.edges
    = (if p.board.una < i.ack.cumulative then i.ack.cumulative else p.board.una, p.board.top) := by
  have hblocks : (((p.beforeBlocks i).applyBlocks i).countAgainst).board.edges
      = (p.atEdge i).board.edges :=
    calc (((p.beforeBlocks i).applyBlocks i).countAgainst).board.edges
      _ = ((p.beforeBlocks i).applyBlocks i).board.edges := edges_countAgainst _
      _ = (p.beforeBlocks i).board.edges :=
          foldl_keep (fun p : AckPass => p.board.edges) (g := applyBlock i) _ _ (edges_applyBlock i)
      _ = (p.atEdge i).board.edges := edges_checkWindow i _
  rw [← edges_atEdge, ← hblocks, run_eq]
  cases i.ack.duplicate with
  | none => rfl
  | some x => exact edges_applyDuplicate i _ x

end AckPass

namespace Engine

variable {κ : Type} {g g' g'' : Engine κ} {now : Nat}

/-- A call that may fail leaves behind what its work did, or that with an error counted. -/
theorem guarded_cases {α : Type} (call : Engine κ → Engine κ × Except Error α)
    (runs : g.isAborted = false) :
    (g.guarded call).1 = (call g).1 ∨ ∃ e, (g.guarded call).1 = (call g).1.fail e := by
  rw [guarded_eq runs]
  cases (call g).2 with
  | ok a => exact .inl rfl
  | error e => exact .inr ⟨e, rfl⟩

theorem board_fail (g : Engine κ) (e : Error) : (g.fail e).board = g.board := by
  unfold fail
  cases e <;> rfl

variable [CongestionLaw κ]

/-! ## Acks and the edges -/

theorem edges_conclude (g : Engine κ) (ack : Ack) (o : AckOutcome) (now : Nat) :
    (g.conclude ack o now).1.board.edges = g.board.edges := by
  obtain ⟨mid, hbefore, -, hafter⟩ := conclude_eq g ack o now
  obtain ⟨f, -, hf⟩ := hbefore.board
  obtain ⟨f', -, hf'⟩ := hafter.board
  rw [hf', hf]
  rfl

theorem edges_processAck {ack : Ack} (hle : ack.cumulative ≤ g.board.top) (now : Nat) :
    (g.processAck ack now).1.board.edges
      = (if g.board.una < ack.cumulative then ack.cumulative else g.board.una, g.board.top) := by
  rw [processAck_eq hle now]
  dsimp only
  rw [board_respond, edges_conclude]
  exact AckPass.edges_run (g.ackInput ack now) g.passState

theorem una_processAck {ack : Ack} (hle : ack.cumulative ≤ g.board.top) (now : Nat) :
    (g.processAck ack now).1.board.una
      = if g.board.una < ack.cumulative then ack.cumulative else g.board.una :=
  congrArg Prod.fst (edges_processAck hle now)

theorem board_onAck (runs : g.isAborted = false) (ack : Ack) (now : Nat) :
    (g.onAck ack now).1.board = (g.processAck ack now).1.board := by
  rcases guarded_cases (fun g => g.processAck ack now) runs with hdone | ⟨e, hfailed⟩
  · exact congrArg Engine.board hdone
  · exact (congrArg Engine.board hfailed).trans (board_fail _ e)

theorem timeout_onAck (runs : g.isAborted = false) (ack : Ack) (now : Nat) :
    (g.onAck ack now).1.schedule.timeout = (g.processAck ack now).1.schedule.timeout := by
  rcases guarded_cases (fun g => g.processAck ack now) runs with hdone | ⟨e, hfailed⟩
  · exact congrArg (·.schedule.timeout) hdone
  · exact (congrArg (·.schedule.timeout) hfailed).trans (timeout_fail _ e)

theorem standing_onAck (runs : g.isAborted = false) (ack : Ack) (now : Nat) :
    (g.onAck ack now).1.standing = (g.processAck ack now).1.standing := by
  rcases guarded_cases (fun g => g.processAck ack now) runs with hdone | ⟨e, hfailed⟩
  · exact congrArg standing hdone
  · exact (congrArg standing hfailed).trans (standing_fail _ e)

/-- An ack that moves the left edge was taken in, and the pass over it tells. -/
theorem onAck_moved {ack : Ack} (moved : g.board.una < (g.onAck ack now).1.board.una) :
    let o := (g.passState.run (g.ackInput ack now)).outcome
    let concluded := ((g.acked ack now).conclude ack o now).1
    o.advanced = true ∧ (g.onAck ack now).1.standing = concluded.standing ∧
      (g.onAck ack now).1.schedule.backoff = concluded.schedule.backoff ∧
      (g.onAck ack now).1.board = concluded.board := by
  cases ha : g.isAborted with
  | true =>
    unfold onAck at moved
    rw [guarded_of_aborted ha] at moved
    exact absurd moved (Nat.lt_irrefl _)
  | false =>
    have hbackoff := congrArg TimeoutState.backoff (timeout_onAck ha ack now)
    rw [board_onAck ha] at moved ⊢
    by_cases hle : ack.cumulative ≤ g.board.top
    · rw [una_processAck hle] at moved
      have hlt : g.board.una < ack.cumulative := by
        by_contra hnot
        rw [if_neg hnot] at moved
        exact Nat.lt_irrefl _ moved
      rw [processAck_eq hle now] at hbackoff
      rw [standing_onAck ha, processAck_eq hle now]
      dsimp only
      rw [standing_respond, board_respond]
      exact ⟨(course_acked g ack now).1.trans (decide_eq_true hlt), rfl,
        hbackoff.trans (backoff_respond ..), rfl⟩
    · rw [processAck_of_beyond (Nat.lt_of_not_le hle)] at moved
      exact absurd moved (Nat.lt_irrefl _)

/-! ## Nothing given back -/

/-- From `g` to `g'`, no window was given back: the law was informed at most, no timeout counts as
undone, and what could be given back is the same, or was given up. -/
structure Unrestored (g g' : Engine κ) : Prop where
  law : Informed g.law g'.law
  undos : g'.stats.spuriousRto = g.stats.spuriousRto
  undo : g'.schedule.undo = g.schedule.undo ∨ g'.schedule.undo = none

namespace Unrestored

theorem refl (g : Engine κ) : Unrestored g g := ⟨.refl, rfl, .inl rfl⟩

theorem trans (h : Unrestored g g') (h' : Unrestored g' g'') : Unrestored g g'' :=
  ⟨Relation.ReflTransGen.trans h.law h'.law, h'.undos.trans h.undos,
    h'.undo.elim (fun hsame => hsame ▸ h.undo) .inr⟩

theorem of_standing (h : g'.standing = g.standing) : Unrestored g g' := by
  have hlaw : g'.law = g.law := congrArg (·.steering.law) h
  refine ⟨?_, congrArg Standing.undos h, .inl (congrArg (·.steering.undo) h)⟩
  rw [hlaw]
  exact .refl

/-- What cannot be given back anymore stays so. -/
theorem undo_none (h : Unrestored g g') (hnone : g.schedule.undo = none) : g'.schedule.undo = none :=
  h.undo.elim (fun hsame => hsame.trans hnone) id

theorem guarded {α : Type} {call : Engine κ → Engine κ × Except Error α}
    (hcall : g.isAborted = false → Unrestored g (call g).1) : Unrestored g (g.guarded call).1 := by
  cases ha : g.isAborted with
  | true =>
    rw [guarded_of_aborted ha]
    exact .refl g
  | false =>
    rcases guarded_cases call ha with hdone | ⟨e, hfailed⟩
    · rw [hdone]
      exact hcall ha
    · rw [hfailed]
      exact (hcall ha).trans (.of_standing (standing_fail _ e))

end Unrestored

theorem unrestored_checkTimeoutEnd (g : Engine κ) : Unrestored g g.checkTimeoutEnd := by
  unfold checkTimeoutEnd
  split
  · exact ⟨.refl, rfl, .inr rfl⟩
  · exact .refl g

/-- Without proof that the timeout was spurious, nothing is given back, and nothing can be later. -/
theorem unrestored_afterTimeout {ack : Ack} {o : AckOutcome}
    (unproved : g.schedule.undo.isSome = true → g.provesSpurious ack o now = false) :
    Unrestored g (g.afterTimeout ack o now) ∧ (g.afterTimeout ack o now).schedule.undo = none := by
  unfold afterTimeout
  split
  · next hsome =>
    rw [unproved hsome]
    have hforgot : Unrestored g { g with schedule := { g.schedule with undo := none } } :=
      ⟨.refl, rfl, .inr rfl⟩
    have hend := unrestored_checkTimeoutEnd { g with schedule := { g.schedule with undo := none } }
    exact ⟨hforgot.trans hend, hend.undo_none rfl⟩
  · next hnone =>
    have hend := unrestored_checkTimeoutEnd g
    exact ⟨hend, hend.undo_none (by simpa using hnone)⟩

theorem unrestored_respondToLosses (g : Engine κ) (lost : List SendRecord) (now : Nat) :
    Unrestored g (g.respondToLosses lost now) := by
  unfold respondToLosses
  split
  · exact ⟨.single (.signal _ _ _), rfl, .inl rfl⟩
  · exact .refl g

theorem unrestored_creditDelivery (g : Engine κ) (o : AckOutcome) (now : Nat) :
    Unrestored g (g.creditDelivery o now) := by
  unfold creditDelivery
  dsimp only
  split
  · exact ⟨.single (.credit _ _), rfl, .inl rfl⟩
  · exact ⟨.refl, rfl, .inl rfl⟩

theorem unrestored_settled (g : Engine κ) (o : AckOutcome) (now : Nat) :
    Unrestored g ((g.settleProbe o).checkRecoveryEnd now) := by
  have hprobe : Unrestored g (g.settleProbe o) := by
    unfold settleProbe
    split
    · exact ⟨.refl, rfl, .inl rfl⟩
    · exact .refl g
  refine hprobe.trans ?_
  unfold checkRecoveryEnd
  split
  · exact ⟨.single (.signal _ _ _), rfl, .inl rfl⟩
  · exact .refl _

/-- While nothing can be given back, no ack gives anything back. -/
theorem unrestored_processAck (hnone : g.schedule.undo = none) (ack : Ack) (now : Nat) :
    Unrestored g (g.processAck ack now).1 := by
  unfold processAck
  cases g.passOf ack now with
  | error e => exact .refl g
  | ok p =>
    dsimp only
    have hadopted : Unrestored g (g.adopt p ack) := ⟨.refl, rfl, .inl rfl⟩
    have hnoted := hadopted.trans (.of_standing (standing_noted (g.adopt p ack) p.outcome now))
    have hjudged : Unrestored g ((g.adopt p ack).judged ack p.outcome now) := by
      unfold judged
      refine Unrestored.trans ?_ (unrestored_settled _ p.outcome now)
      split
      · refine hnoted.trans (unrestored_afterTimeout fun hsome => ?_).1
        rw [hnoted.undo_none hnone] at hsome
        cases hsome
      · exact hnoted
    rw [conclude_judged]
    exact ((hjudged.trans (unrestored_respondToLosses _ _ now)).trans
      (unrestored_creditDelivery _ p.outcome now)).trans (.of_standing (standing_respond _ _ _ _ _ _))

/-! ## Timers -/

/-- The begin of a series of timeouts. -/
def Begins (g g' : Engine κ) : Prop := g.schedule.stage ≠ .rtoPending ∧ ∃ now, TimesOut now g g'

/-- A timer that begins no series gives nothing back. Within a series, what could be given back
stays as it was. -/
theorem unrestored_processTimeout (runs : g.isAborted = false) {timer : Timer} {generation : Nat}
    {hasData : Bool} (within : ¬ Begins g (g.processTimeout timer generation hasData now).1) :
    Unrestored g (g.processTimeout timer generation hasData now).1 := by
  cases hc : g.schedule.timers.isCurrent timer generation with
  | false =>
    simp only [processTimeout, hc, Bool.false_eq_true, if_false]
    exact .of_standing rfl
  | true =>
    cases timer with
    | tlp =>
      rw [processTimeout_eq g hc hasData now]
      dsimp only
      unfold fireProbe
      split
      · exact .of_standing rfl
      · cases (g.takeOff .tlp).probeFor hasData <;> exact ⟨.refl, rfl, .inl rfl⟩
    | rto =>
      by_cases hlt : g.board.una < g.board.top
      · have hr : g.schedule.stage = .rtoPending := by
          by_contra hne
          exact within ⟨hne, now, .of_processTimeout hasData runs hc hlt⟩
        have hcollapsed : Unrestored g ((g.takeOff .rto).collapsed now) :=
          ⟨.single (.signal _ _ _), rfl, .inl (if_pos hr)⟩
        rw [processTimeout_eq g hc hasData now]
        dsimp only
        rw [fireTimeout_eq (g := g.takeOff .rto) hlt]
        exact hcollapsed.trans (.of_standing (standing_resendLowest _))
      · rw [processTimeout_eq g hc hasData now]
        dsimp only
        have hnone : (g.takeOff .rto).board.outstanding = 0 :=
          Nat.sub_eq_zero_of_le (Nat.le_of_not_lt hlt)
        unfold fireTimeout
        rw [if_pos hnone]
        exact .of_standing rfl

/-! ## Calls -/

theorem lastingSends_unrestored (g₀ : Engine κ) : LastingSends (Unrestored g₀) where
  aside _ _ _ h := h.trans (.of_standing rfl)
  stale _ h := h.trans (.of_standing rfl)
  sent x flags now h := h.trans (.of_standing (standing_processSent _ x flags now))
  failed _ h := h.trans (.of_standing (standing_fail _ _))

/-- While nothing can be given back, no call gives anything back, but one that begins a series. -/
theorem Call.unrestored (hcall : Call g g') (hnone : g.schedule.undo = none)
    (within : ¬ Begins g g') : Unrestored g g' := by
  have hsends := lastingSends_unrestored g
  cases hcall with
  | send range flags now => exact .guarded fun _ => hsends.sent range flags now (.refl g)
  | ack a now => exact .guarded fun _ => unrestored_processAck hnone a now
  | fire timer generation hasData now =>
    refine .guarded fun runs => unrestored_processTimeout runs ?_
    rwa [onTimeout_eq runs] at within
  | dispatch host w actions now => exact hsends.dispatch host now (.refl g) w actions
  | nextSendTime bytes now => exact .of_standing rfl
  | setFixedRate rate => exact .of_standing rfl
  | setHardware table => exact .of_standing rfl
  | setTrace trace => exact .of_standing rfl

/-- Any number of calls, none of which begins a series of timeouts. -/
def Unbegun : Engine κ → Engine κ → Prop :=
  Relation.ReflTransGen fun g g' => Call g g' ∧ ¬ Begins g g'

theorem Unbegun.unrestored (h : Unbegun g g') (hnone : g.schedule.undo = none) :
    Unrestored g g' := by
  induction h with
  | refl => exact .refl g
  | tail _ last ih => exact ih.trans (last.1.unrestored (ih.undo_none hnone) last.2)

/-- No ack begins a series. -/
theorem not_begins_onAck (g : Engine κ) (ack : Ack) (now : Nat) :
    ¬ Begins g (g.onAck ack now).1 := by
  rintro ⟨hne, tick, hfired⟩
  have hr : (g.onAck ack now).1.schedule.stage = .rtoPending :=
    congrArg TimeoutState.stage hfired.timeout
  cases ha : g.isAborted with
  | true =>
    unfold onAck at hr
    rw [guarded_of_aborted ha] at hr
    exact hne hr
  | false =>
    have hsame := congrArg (·.steering.stage) (standing_onAck ha ack now)
    exact stage_processAck_ne hne ack now (hsame.symm.trans hr)

end Engine

end LossRecovery
