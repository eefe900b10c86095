import LossRecovery.Engine.Dispatch
import LossRecovery.Engine.Timeout
import LossRecovery.Proofs.Marking

/-!
# `LossRecovery.Proofs.EngineSteps` — what the calls of an engine do to its scoreboard

Most of what an engine does concerns its window, its timers and its statistics. To the scoreboard
an ack is one pass, a firing timer only relabels records, and a send is a resend, new data, or both.

## Contents
- `Engine.Sound`: the scoreboard is coherent, and counters and tracker fit it.
- `Engine.Kept g g'`: from `g` to `g'`, nothing happened that concerns the records.
- `Scoreboard.outlines`: where the records lie, which have arrived, how many acks were counted against
  them, and which lie beyond the window.
- `Engine.Relabelled g g'`: from `g` to `g'`, records were relabelled at most.
- `weighed`, `judged`, `conclude_eq`, `relabelled_respond`: what follows a pass over an ack.
- `relabelled_processTimeout`: a firing timer.
-/

namespace LossRecovery

open Engine (totalLength)

/-! ## Outlines -/

/-- What a pass over an ack says about a record beside its history: where it lies, whether it has
arrived, how many acks were counted against it, and whether it was found beyond the receive
window. -/
structure Outline where
  start : Nat
  stop : Nat
  sacked : Bool
  dupacks : Nat
  collapsed : Bool

def SendRecord.outline (r : SendRecord) : Outline where
  start := r.start
  stop := r.stop
  sacked := r.flags.sacked
  dupacks := r.dupacks
  collapsed := r.flags.collapsed

def Scoreboard.outlines (b : Scoreboard) : List Outline := b.records.map SendRecord.outline

theorem Scoreboard.outlines_modify {b : Scoreboard} {f : SendRecord → SendRecord}
    (hf : ∀ r, (f r).outline = r.outline) : (b.modify f).outlines = b.outlines := by
  simp [outlines, modify, hf]

namespace Engine

variable {κ : Type}

/-- The scoreboard is coherent, and what goes with it fits. -/
structure Sound (g : Engine κ) : Prop where
  board : g.board.Coherent
  counts : g.ledger.Counts g.board
  tracker : g.tracker.Sound g.board

/-- What of an engine concerns its records, with its settings. -/
structure Memory where
  board : Scoreboard
  settings : Settings
  tracker : SackTracker
  sackedBytes : Nat
  holeBytes : Nat
  sentAt : Option Nat
  stop : Nat
  isAborted : Bool

def memory (g : Engine κ) : Memory where
  board := g.board
  settings := g.settings
  tracker := g.tracker
  sackedBytes := g.ledger.sackedBytes
  holeBytes := g.ledger.holeBytes
  sentAt := g.recent.sentAt
  stop := g.recent.stop
  isAborted := g.isAborted

/-- From `g` to `g'`, nothing happened that concerns the records. -/
def Kept (g g' : Engine κ) : Prop := g'.memory = g.memory

/-- From `g` to `g'`, records were relabelled, and nothing else happened that concerns them. -/
structure Relabelled (g g' : Engine κ) : Prop where
  settings : g'.settings = g.settings
  board : ∃ f, SendRecord.Relabels f ∧ g'.board = g.board.modify f
  outlines : g'.board.outlines = g.board.outlines
  tracker : g'.tracker = g.tracker
  sacked : g'.ledger.sackedBytes = g.ledger.sackedBytes
  holes : g.ledger.holeBytes = totalLength (·.hole) g.board.records →
    g'.ledger.holeBytes = totalLength (·.hole) g'.board.records
  sentAt : g'.recent.sentAt = g.recent.sentAt
  stop : g'.recent.stop = g.recent.stop
  isAborted : g'.isAborted = g.isAborted

variable {g g' g'' : Engine κ}

namespace Kept

theorem settings (h : Kept g g') : g'.settings = g.settings := congrArg Memory.settings h
theorem board (h : Kept g g') : g'.board = g.board := congrArg Memory.board h
theorem tracker (h : Kept g g') : g'.tracker = g.tracker := congrArg Memory.tracker h
theorem sentAt (h : Kept g g') : g'.recent.sentAt = g.recent.sentAt := congrArg Memory.sentAt h
theorem stop (h : Kept g g') : g'.recent.stop = g.recent.stop := congrArg Memory.stop h
theorem isAborted (h : Kept g g') : g'.isAborted = g.isAborted := congrArg Memory.isAborted h

theorem sacked (h : Kept g g') : g'.ledger.sackedBytes = g.ledger.sackedBytes :=
  congrArg Memory.sackedBytes h

theorem holes (h : Kept g g') : g'.ledger.holeBytes = g.ledger.holeBytes :=
  congrArg Memory.holeBytes h

/-- Two engines that differ in what they remember of a delivery only agree on the rest. -/
theorem of_recent {a : RecentAck} (ht : a.sentAt = g.recent.sentAt) (hs : a.stop = g.recent.stop) :
    Kept g { g with recent := a } := by
  unfold Kept memory
  rw [ht, hs]

end Kept

namespace Relabelled

theorem of_kept (h : Kept g g') : Relabelled g g' := by
  refine ⟨h.settings, ⟨id, .id, ?_⟩, by rw [h.board], h.tracker, h.sacked, fun he => ?_, h.sentAt, h.stop,
    h.isAborted⟩
  · rw [h.board]
    unfold Scoreboard.modify
    rw [List.map_id]
  · rw [h.holes, h.board]
    exact he

theorem refl (g : Engine κ) : Relabelled g g := of_kept rfl

theorem trans (h : Relabelled g g') (h' : Relabelled g' g'') : Relabelled g g'' := by
  obtain ⟨f, hf, hb⟩ := h.board
  obtain ⟨f', hf', hb'⟩ := h'.board
  refine ⟨h'.settings.trans h.settings, ⟨f' ∘ f, hf'.comp hf, ?_⟩, h'.outlines.trans h.outlines,
    h'.tracker.trans h.tracker, h'.sacked.trans h.sacked, fun he => h'.holes (h.holes he), h'.sentAt.trans h.sentAt,
    h'.stop.trans h.stop, h'.isAborted.trans h.isAborted⟩
  rw [hb', hb]
  unfold Scoreboard.modify
  rw [List.map_map]

theorem after (h' : Relabelled g' g'') (h : Kept g g') : Relabelled g g'' := (of_kept h).trans h'

theorem before {m : Engine κ} (h : Relabelled g m) (h' : Kept m g') : Relabelled g g' :=
  h.trans (of_kept h')

theorem sound (h : Relabelled g g') (hg : g.Sound) : g'.Sound := by
  obtain ⟨f, hf, hb⟩ := h.board
  have hsame : ∀ seq, g'.board.sackedAt seq = g.board.sackedAt seq := by
    intro seq
    rw [hb, hg.board.sackedAt_modify hf]
  have hu : g'.board.una = g.board.una := by rw [hb]; rfl
  refine ⟨?_, ⟨?_, h.holes hg.counts.holes⟩, ?_⟩
  · rw [hb]
    exact hg.board.modify hf
  · rw [h.sacked, hb, hg.counts.sacked]
    exact (totalLength_map fun r _ => ⟨hf.sacked r, hf.length r⟩).symm
  · have ht := hg.tracker
    rw [h.tracker]
    refine ⟨ht.canonical, ?_, ?_, ?_, ?_⟩
    · intro seq hs hlo
      rw [hu] at hlo
      rw [hsame]
      exact ht.filter seq hs hlo
    · rw [hu]
      exact ht.una_le
    · intro seq hs
      rw [hsame] at hs
      exact ht.sacked_lt seq hs
    · rw [hu, hsame]
      exact ht.reached

end Relabelled

variable {o : AckOutcome} {ack : Ack} {now : Nat}

/-! ## An ack -/

/-- No record counts as a hole after the holes were forgotten. -/
theorem relabelled_clearHoles (g : Engine κ) : Relabelled g g.clearHoles := by
  refine ⟨rfl, ⟨_, ?_, rfl⟩, Scoreboard.outlines_modify fun _ => rfl, rfl, rfl, fun _ => ?_, rfl, rfl, rfl⟩
  · exact .of_eq (fun _ => rfl) (fun _ => rfl) (fun _ => rfl) fun _ hh => Bool.noConfusion hh
  · show 0 = totalLength (·.hole) (g.board.records.map fun r => { r with hole := false })
    rw [totalLength_const (c := false) fun r hr => ?_]
    · rfl
    · obtain ⟨q, -, rfl⟩ := List.mem_map.mp hr
      rfl

theorem relabelled_leaveTimeout (g : Engine κ) : Relabelled g g.leaveTimeout := by
  refine ⟨rfl, ⟨_, ?_, rfl⟩, Scoreboard.outlines_modify fun _ => rfl, rfl, rfl, fun he => ?_, rfl, rfl, rfl⟩
  · exact .of_eq (fun _ => rfl) (fun _ => rfl) (fun _ => rfl) fun _ => id
  · refine he.trans (totalLength_map ?_).symm
    exact fun _ _ => ⟨rfl, rfl⟩

theorem relabelled_checkTimeoutEnd (g : Engine κ) : Relabelled g g.checkTimeoutEnd := by
  unfold checkTimeoutEnd
  split
  · exact (relabelled_leaveTimeout _).after rfl
  · exact .refl g

theorem kept_count (g : Engine κ) (c : Counter) (n : Nat) : Kept g (g.count c n) :=
  rfl

theorem relabelled_counts (g : Engine κ) (counts : List (Counter × Nat)) :
    Relabelled g (counts.foldl (fun g c => g.count c.1 c.2) g) := by
  induction counts generalizing g with
  | nil => exact .refl g
  | cons c rest ih => exact (ih _).after (kept_count g c.1 c.2)

theorem relabelled_noteOutcome (g : Engine κ) : Relabelled g (g.noteOutcome o) :=
  (relabelled_counts _ _).after rfl

theorem relabelled_takeSample (g : Engine κ) (sample : Option Nat) :
    Relabelled g (g.takeSample sample now) := by
  unfold takeSample
  cases sample with
  | none => exact .refl g
  | some rtt =>
    dsimp only
    cases g.rtt.update rtt now with
    | ok estimator =>
      dsimp only
      split <;> exact .of_kept rfl
    | error e =>
      dsimp only
      cases e.counter? <;> exact .of_kept rfl

theorem fade_delivery (a : RecentAck) (age now : Nat) :
    (a.fade age now).sentAt = a.sentAt ∧ (a.fade age now).stop = a.stop := by
  unfold RecentAck.fade
  split <;> exact ⟨rfl, rfl⟩

theorem relabelled_noteReordering (g : Engine κ) : Relabelled g (g.noteReordering o now) := by
  have hfade := fun a : RecentAck => fade_delivery a g.settings.reorderFade now
  unfold noteReordering
  cases o.reordering with
  | true => exact (Relabelled.of_kept (.of_recent (hfade _).1 (hfade _).2)).after rfl
  | false => exact .of_kept (.of_recent (hfade _).1 (hfade _).2)

theorem relabelled_settleProbe (g : Engine κ) : Relabelled g (g.settleProbe o) := by
  unfold settleProbe
  split
  · exact .of_kept rfl
  · exact .refl g

theorem relabelled_rearm (g : Engine κ) : Relabelled g (g.rearm now).1 := by
  unfold rearm
  split <;> exact .of_kept rfl

theorem relabelled_settleTimers (g : Engine κ) (prior : Stage) :
    Relabelled g (g.settleTimers prior o now).1 := by
  unfold settleTimers
  split
  · exact .of_kept rfl
  · split
    · exact relabelled_rearm g
    · exact .refl g

section Law

variable [CongestionLaw κ]

theorem relabelled_enterRecovery (g : Engine κ) : Relabelled g (g.enterRecovery now) :=
  ((relabelled_clearHoles _).after rfl).before
    rfl

theorem relabelled_checkRecoveryEnd (g : Engine κ) : Relabelled g (g.checkRecoveryEnd now) := by
  unfold checkRecoveryEnd
  split
  · exact .of_kept rfl
  · exact .refl g

theorem relabelled_respondToLosses (g : Engine κ) (lost : List SendRecord) :
    Relabelled g (g.respondToLosses lost now) := by
  unfold respondToLosses
  split
  · exact relabelled_enterRecovery g
  · exact .refl g

theorem relabelled_undoTimeout (g : Engine κ) : Relabelled g g.undoTimeout := by
  unfold undoTimeout
  cases g.schedule.undo with
  | none =>
    exact (relabelled_leaveTimeout g).before rfl
  | some w =>
    exact ((relabelled_leaveTimeout _).after rfl).before
      rfl

theorem relabelled_afterTimeout (g : Engine κ) : Relabelled g (g.afterTimeout ack o now) := by
  unfold afterTimeout
  split
  · split
    · exact relabelled_undoTimeout g
    · exact (relabelled_checkTimeoutEnd _).after rfl
  · exact relabelled_checkTimeoutEnd g

theorem relabelled_creditDelivery (g : Engine κ) : Relabelled g (g.creditDelivery o now) := by
  unfold creditDelivery
  dsimp only
  split <;> exact .of_kept rfl

/-- The engine after what an ack delivered was noted and weighed, before the end of the recovery
episode is looked for. -/
def weighed (g : Engine κ) (ack : Ack) (o : AckOutcome) (now : Nat) : Engine κ :=
  let noted := ((g.noteOutcome o).takeSample o.rttSample now).noteReordering o now
  let repaired :=
    if noted.schedule.stage = .rtoPending ∧ o.advanced = true then noted.afterTimeout ack o now
    else noted
  repaired.settleProbe o

/-- The engine in which losses are looked for: what the ack delivered was noted and judged. -/
def judged (g : Engine κ) (ack : Ack) (o : AckOutcome) (now : Nat) : Engine κ :=
  let noted := ((g.noteOutcome o).takeSample o.rttSample now).noteReordering o now
  let repaired :=
    if noted.schedule.stage = .rtoPending ∧ o.advanced = true then noted.afterTimeout ack o now
    else noted
  (repaired.settleProbe o).checkRecoveryEnd now

theorem judged_weighed (g : Engine κ) (ack : Ack) (o : AckOutcome) (now : Nat) :
    g.judged ack o now = (g.weighed ack o now).checkRecoveryEnd now := rfl

theorem relabelled_judged (g : Engine κ) (ack : Ack) (o : AckOutcome) (now : Nat) :
    Relabelled g (g.judged ack o now) := by
  have h1 : Relabelled g (((g.noteOutcome o).takeSample o.rttSample now).noteReordering o now) :=
    ((relabelled_noteOutcome g).trans (relabelled_takeSample _ _)).trans
      (relabelled_noteReordering _)
  unfold judged
  refine Relabelled.trans ?_ (relabelled_checkRecoveryEnd _)
  refine Relabelled.trans ?_ (relabelled_settleProbe _)
  split
  · exact h1.trans (relabelled_afterTimeout _)
  · exact h1

theorem conclude_judged (g : Engine κ) (ack : Ack) (o : AckOutcome) (now : Nat) :
    g.conclude ack o now =
      let judged := g.judged ack o now
      let lost := judged.detectLosses now
      ((judged.respondToLosses lost now).creditDelivery o now, lost) := rfl

/-- The losses are looked for in an engine between the conclusions, which relabel records at most. -/
theorem conclude_eq (g : Engine κ) (ack : Ack) (o : AckOutcome) (now : Nat) :
    ∃ mid, Relabelled g mid ∧
    (g.conclude ack o now).2 = mid.detectLosses now ∧
    Relabelled mid (g.conclude ack o now).1 := by
  rw [conclude_judged]
  exact ⟨g.judged ack o now, relabelled_judged g ack o now, rfl,
    (relabelled_respondToLosses _ _).trans (relabelled_creditDelivery _)⟩

theorem relabelled_planSends (g : Engine κ) (lost : List SendRecord) :
    Relabelled g (g.planSends lost).1 := by
  unfold planSends
  split
  · exact .of_kept rfl
  · unfold planGoBackN
    split
    · exact .refl g
    · exact .of_kept rfl
  · exact .refl g

theorem relabelled_checkProbeRtt (g : Engine κ) : Relabelled g (g.checkProbeRtt now) := by
  unfold checkProbeRtt
  split
  · exact .refl g
  · dsimp only
    split <;> exact .of_kept rfl

theorem relabelled_measureGoodput (g : Engine κ) : Relabelled g (g.measureGoodput o now) := by
  unfold measureGoodput
  split
  · exact .refl g
  · dsimp only
    split
    · exact .of_kept rfl
    · split <;> exact .of_kept rfl

/-- Acting on an ack relabels records at most. -/
theorem relabelled_respond (g : Engine κ) (prior : Stage) (ack : Ack) (o : AckOutcome)
    (lost : List SendRecord) (now : Nat) : Relabelled g (g.respond prior ack o lost now).1 := by
  unfold respond
  dsimp only
  refine Relabelled.before ?_ (m := Prod.fst (settleTimers _ _ _ _))
    rfl
  refine Relabelled.trans ?_ (relabelled_settleTimers _ _)
  refine Relabelled.before ?_ (m := measureGoodput _ _ _) rfl
  refine Relabelled.trans ?_ (relabelled_measureGoodput _)
  exact (relabelled_planSends g lost).trans (relabelled_checkProbeRtt _)

end Law

/-! ## A firing timer -/

theorem relabelled_presumeLost (g : Engine κ) : Relabelled g g.presumeLost := by
  refine (relabelled_clearHoles g).trans
    ⟨rfl, ⟨_, ?_, rfl⟩, Scoreboard.outlines_modify fun r => ?_, rfl, rfl, fun he => ?_, rfl, rfl, rfl⟩
  · constructor <;> intro r <;> dsimp only <;> split <;> first | rfl | exact id
  · dsimp only
    split <;> rfl
  · refine he.trans (totalLength_map fun r _ => ?_).symm
    dsimp only
    split <;> exact ⟨rfl, rfl⟩

theorem relabelled_fireProbe (g : Engine κ) (hasData : Bool) :
    Relabelled g (g.fireProbe hasData now).1 := by
  unfold fireProbe
  split
  · exact .refl g
  · dsimp only
    split <;> exact .of_kept rfl

section Law

variable [CongestionLaw κ]

theorem relabelled_collapse (g : Engine κ) (now : Nat) : Relabelled g (g.collapse now) := by
  unfold collapse
  dsimp only
  refine Relabelled.before (m := presumeLost _) ?_ rfl
  refine (relabelled_presumeLost _).after ?_
  unfold Kept memory
  dsimp only
  split <;> rfl

theorem relabelled_resendLowest (g : Engine κ) : Relabelled g g.resendLowest.1 := by
  unfold resendLowest
  split
  · exact .refl g
  · exact .of_kept rfl

theorem relabelled_fireTimeout (g : Engine κ) : Relabelled g (g.fireTimeout now).1 := by
  unfold fireTimeout
  split
  · exact .refl g
  · dsimp only
    refine Relabelled.before (m := Prod.fst (resendLowest _)) ?_ rfl
    refine Relabelled.trans ?_ (relabelled_resendLowest _)
    exact (relabelled_collapse g now).before rfl

/-- A firing timer relabels records at most. -/
theorem relabelled_processTimeout (g : Engine κ) (timer : Timer) (generation : Nat)
    (hasData : Bool) (now : Nat) :
    Relabelled g (g.processTimeout timer generation hasData now).1 := by
  unfold processTimeout
  split
  · cases timer with
    | tlp => exact (relabelled_fireProbe _ _).after rfl
    | rto => exact (relabelled_fireTimeout _).after rfl
  · exact .of_kept rfl

end Law

end Engine

end LossRecovery
