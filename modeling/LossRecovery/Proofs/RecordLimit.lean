import LossRecovery.Proofs.BlockCuts
import LossRecovery.Proofs.Persistence

/-!
# `LossRecovery.Proofs.RecordLimit` — acks stay within the record limit

Sends may take a scoreboard beyond its record limit, acks do not. A block that would is left out, and
leaving it out changes nothing: it is decided before the first cut, and the pass goes on with the next
block as if that one had not been there.

## Contents
- `size_release`, `size_coalesce`, `kept_size`: how many records the steps of a pass leave.
- `Weighed i p x`: how a pass decides on a block; `Sound.weighed`: it does so in every state.
- `effect`, `effect_foldBlocks`: refused blocks may as well not be there.
- `WeighsBlocks i p`: both of these for all blocks of an ack.
- `Reachable.limit_eq`, `Reachable.within_record_limit`: acks that arrive at an engine.
-/

namespace LossRecovery

theorem Settings.two_le_maxSegments {s : Settings} (h : s.validate = .ok ()) :
    2 ≤ s.maxSegments := by
  unfold validate at h
  cases hfault : s.fault? with
  | some fault =>
    rw [hfault] at h
    cases h
  | none =>
    unfold fault? at hfault
    split_ifs at hfault
    omega

/-! ## How many records there are -/

namespace Scoreboard

variable {b b' : Scoreboard} {x : SeqRange}

theorem Coherent.size_release (h : b.Coherent) (edge : Nat) : (b.release edge).size ≤ b.size := by
  show (dropBelow edge b.records).length ≤ b.records.length
  rw [h.tiles.dropBelow_eq edge, List.length_map]
  exact List.length_filter_le _ _

theorem size_modify (f : SendRecord → SendRecord) : (b.modify f).size = b.size := List.length_map f

theorem length_coalesceFrom (near : SendRecord → Bool) (l : SendRecord) (rest : List SendRecord) :
    (coalesceFrom near l rest).1.length ≤ rest.length + 1 := by
  induction rest generalizing l with
  | nil => exact Nat.le_refl 1
  | cons r rest ih =>
    unfold coalesceFrom
    split
    · exact Nat.le_succ_of_le (ih (l.absorb r))
    · exact Nat.succ_le_succ (ih r)

theorem size_coalesce (b : Scoreboard) (x : SeqRange) : (b.coalesce x).1.size ≤ b.size := by
  show (coalesceRecords (·.overlaps x) b.records).1.length ≤ b.records.length
  cases b.records with
  | nil => exact Nat.le_refl 0
  | cons l rest => exact length_coalesceFrom _ l rest

theorem Sent.limit {now : Nat} (h : b.Sent x now b') : b'.limit = b.limit := by
  obtain ⟨mid, hresent, hextended⟩ := h
  have hmid : mid.limit = b.limit := by
    rcases hresent with ⟨-, rfl⟩ | ⟨-, flags, afterTimeout, rfl⟩
    · rfl
    · cases b.resendFits (b.resentPart x) <;> rfl
  rcases hextended with ⟨-, rfl⟩ | ⟨hx, flags, mark, -, happend⟩
  · exact hmid
  · rcases append_eq_ok flags now mark hx hresent.edges.2.symm with ⟨last, below, -, -, he⟩ | he <;>
    · rw [he] at happend
      injection happend with happend
      rw [← happend]
      exact hmid

end Scoreboard

namespace AckPass

variable {i : AckInput} {p q : AckPass} {x : SeqRange}

/-- A pass adds no records beyond the limit. -/
theorem kept_size (i : AckInput) (limit before : Nat) :
    Kept i fun p => p.board.limit = limit ∧ p.board.size ≤ max before limit where
  still := by
    rintro p q - hstill ⟨hlimit, hsize⟩
    obtain ⟨f, -, hb⟩ := hstill.board
    rw [hb, Scoreboard.size_modify]
    exact ⟨hlimit, hsize⟩
  advance := by
    rintro p hp - - ⟨hlimit, hsize⟩
    rw [advance_board]
    exact ⟨hlimit, Nat.le_trans (hp.board.size_release _) hsize⟩
  mark := by
    rintro p x hp hx - - hfits ⟨hlimit, hsize⟩
    have hcarved := hp.board.size_carveMissing hx (sackedRecord i.now)
    have hjoined := (p.board.carveMissing x (sackedRecord i.now)).size_coalesce
      ⟨x.start - 1, x.stop + 1⟩
    simp only [Scoreboard.cutsFit, Bool.or_eq_true, beq_iff_eq, decide_eq_true_eq] at hfits
    rw [markBlock_board]
    exact ⟨hlimit, by omega⟩

/-! ## One block -/

theorem deliver_splits {r : SendRecord} : (deliver i p r).outcome.splits = p.outcome.splits := by
  unfold deliver AckOutcome.record AckOutcome.measure
  dsimp only
  split
  · rfl
  · split <;> rfl

theorem sackWalk_splits {rs : List SendRecord} : (rs.foldl (sackRecord i x) p).outcome.splits
    = p.outcome.splits + Number.total (rs.map fun r => (r.carve x).cuts) := by
  rw [← foldl_add_eq]
  apply foldl_project (·.outcome.splits) (g := sackRecord i x) rs p
  intro _ _
  exact deliver_splits

/-- A block that is refused is counted and told, and that is all. -/
theorem applyBlock_of_refuses (hrefused : p.refuses x = true) : p.applyBlock i x = { p with
    outcome := { p.outcome with refused := p.outcome.refused + 1 }
    journal := .blockRefused (outstandingPart p.board x) p.board.size :: p.journal } := by
  rcases applyBlock_cases i p x with ⟨hproper, -⟩ | ⟨-, hknown, -⟩ | ⟨-, he⟩ | ⟨hno, -⟩
  · simp [refuses, hproper] at hrefused
  · simp [refuses, hknown] at hrefused
  · exact he
  · rw [hrefused] at hno
    cases hno

/-- How a pass decides on a block that makes sense and is not known. It is refused exactly if marking
it one cut after another would run out of room, and then it is only counted and told. Else the cuts
that were reckoned up are the ones that are made. -/
structure Weighed (i : AckInput) (p : AckPass) (x : SeqRange) : Prop where
  refused_iff : p.refuses x = true ↔
    isProper p.board x = true ∧ p.tracker.filter.covers (outstandingPart p.board x) = false ∧
    p.board.markRecords i.now (outstandingPart p.board x)
      ((p.board.overlapping (outstandingPart p.board x)).map (·.start)) = .error .exhausted
  refused : p.refuses x = true → p.applyBlock i x = { p with
    outcome := { p.outcome with refused := p.outcome.refused + 1 }
    journal := .blockRefused (outstandingPart p.board x) p.board.size :: p.journal }
  marked : p.refuses x = false → isProper p.board x = true →
    p.tracker.filter.covers (outstandingPart p.board x) = false →
    ∃ marked : Scoreboard,
      p.board.markRecords i.now (outstandingPart p.board x)
        ((p.board.overlapping (outstandingPart p.board x)).map (·.start))
          = .ok (marked, p.board.cutsNeeded (outstandingPart p.board x)) ∧
      (p.applyBlock i x).board = (marked.coalesce
        ⟨(outstandingPart p.board x).start - 1, (outstandingPart p.board x).stop + 1⟩).1 ∧
      (p.applyBlock i x).outcome.splits
        = p.outcome.splits + p.board.cutsNeeded (outstandingPart p.board x)

theorem Sound.weighed (h : p.Sound) (i : AckInput) (x : SeqRange) : Weighed i p x := by
  have hwalk := fun hproper : isProper p.board x = true =>
    h.board.markRecords_overlapping (start_lt_outstandingPart hproper) i.now
  refine ⟨?_, fun hrefused => ?_, fun hrefused hproper hknown => ?_⟩
  · unfold refuses
    rw [Bool.and_eq_true, Bool.and_eq_true, Bool.not_eq_true', Bool.not_eq_true', and_assoc]
    refine and_congr_right fun hproper => and_congr_right fun _ => ?_
    rw [hwalk hproper]
    cases p.board.cutsFit (outstandingPart p.board x) <;> simp
  · exact applyBlock_of_refuses hrefused
  · rcases applyBlock_cases i p x with ⟨hno, -⟩ | ⟨-, hyes, -⟩ | ⟨hyes, -⟩ | ⟨-, -, hfits, he⟩
    · rw [hproper] at hno
      cases hno
    · rw [hknown] at hyes
      cases hyes
    · rw [hrefused] at hyes
      cases hyes
    · refine ⟨_, (hwalk hproper).trans (if_pos hfits), ?_, ?_⟩
      · rw [he]
        exact markBlock_board
      · rw [he, ← h.board.cutsOf_overlapping (start_lt_outstandingPart hproper)]
        exact sackWalk_splits

/-! ## All blocks -/

/-- What a pass did, leaving aside how many blocks it refused and what it told. -/
def effect (p : AckPass) : AckPass :=
  { p with outcome := { p.outcome with refused := 0 }, journal := [] }

theorem effect_sackRecord (i : AckInput) (x : SeqRange) (p : AckPass) (r : SendRecord) :
    (sackRecord i x p r).effect = (sackRecord i x p.effect r).effect := by
  have hmeasure : ∀ (o : AckOutcome) sent now,
      { o.measure sent now with refused := 0 } = { o with refused := 0 }.measure sent now := by
    intro o sent now
    unfold AckOutcome.measure
    split
    · rfl
    · dsimp only
      split <;> rfl
  unfold effect sackRecord deliver tell AckOutcome.record
  dsimp only
  rw [hmeasure, hmeasure]

/-- What the steps of a walk do does not depend on earlier refusals, so neither does the walk. -/
theorem effect_foldl {α : Type} {step : AckPass → α → AckPass}
    (hstep : ∀ p x, (step p x).effect = (step p.effect x).effect) {p q : AckPass}
    (h : p.effect = q.effect) (xs : List α) : (xs.foldl step p).effect = (xs.foldl step q).effect := by
  have hwalk := fun p => foldl_project (h := fun p x => (step p x).effect) effect xs p hstep
  rw [hwalk p, hwalk q, h]

theorem effect_markBlock (i : AckInput) (p : AckPass) (x : SeqRange) :
    (p.markBlock i x).effect = (p.effect.markBlock i x).effect := by
  have hjoined : ∀ (q : AckPass) (b : Scoreboard), ({ q with board := b }.joinAround x).effect
      = ({ q.effect with board := b }.joinAround x).effect := fun _ _ => rfl
  have hmarked := effect_foldl (effect_sackRecord i x) (show p.effect = p.effect.effect from rfl)
    ((p.board.overlapping x).filter fun r => !r.isDelivered)
  unfold markBlock
  rw [show p.effect.board = p.board from rfl]
  dsimp only
  rw [hjoined, hmarked, ← hjoined]

/-- What a block does depends on what was done before, but not on earlier refusals. -/
theorem effect_applyBlock (i : AckInput) (p : AckPass) (x : SeqRange) :
    (p.applyBlock i x).effect = (p.effect.applyBlock i x).effect := by
  have hmark := effect_markBlock i p ⟨max x.start p.board.una, x.stop⟩
  unfold applyBlock
  rw [show p.effect.board = p.board from rfl, show p.effect.tracker = p.tracker from rfl]
  split
  · rfl
  · dsimp only
    split
    · rfl
    · split
      · rfl
      · exact congrArg (fun q : AckPass => { q with tracker := { q.tracker with
          filter := q.tracker.filter.insert ⟨max x.start p.board.una, x.stop⟩ } }) hmark

theorem effect_refused (hrefused : p.refuses x = true) : (p.applyBlock i x).effect = p.effect := by
  rw [applyBlock_of_refuses hrefused]
  rfl

/-- The other blocks are applied as if those that are refused were not there. -/
theorem effect_foldBlocks (i : AckInput) (p : AckPass) (blocks : List SeqRange) :
    (blocks.foldl (AckPass.applyBlock i) p).effect
      = ((takenBlocks i p blocks).foldl (AckPass.applyBlock i) p).effect := by
  induction blocks generalizing p with
  | nil => rfl
  | cons x rest ih =>
    rw [List.foldl_cons, takenBlocks_cons, ih]
    cases hrefused : p.refuses x with
    | true =>
      rw [if_pos rfl]
      exact effect_foldl (effect_applyBlock i) (effect_refused hrefused) _
    | false => rfl

/-- How a pass goes through the blocks of an ack: it weighs every one of them in the state that those
below it have led to, and those it refuses may as well not be there. -/
structure WeighsBlocks (i : AckInput) (p : AckPass) : Prop where
  each : ∀ below x above, Sorting.sortByKey (·.start) i.ack.blocks = below ++ x :: above →
    Weighed i (below.foldl (AckPass.applyBlock i) (p.beforeBlocks i)) x
  others : ((p.beforeBlocks i).applyBlocks i).effect
    = ((p.taken i).foldl (AckPass.applyBlock i) (p.beforeBlocks i)).effect

theorem Sound.weighsBlocks (h : p.Sound) (hhi : i.ack.cumulative ≤ p.board.top) :
    WeighsBlocks i p where
  each below x _ _ := ((h.beforeBlocks hhi).foldBlocks i below).1.weighed i x
  others := effect_foldBlocks i (p.beforeBlocks i) (Sorting.sortByKey (·.start) i.ack.blocks)

end AckPass

/-! ## Acks -/

namespace Engine

variable {κ : Type} [CongestionLaw κ] {g g' : Engine κ} {first : Nat}

/-- The record limit of the scoreboard is the one of the settings. -/
theorem upheld_limit (now : Nat) :
    Upheld now fun g : Engine κ => g.board.limit = g.settings.maxSegments where
  aside := {
    noted := by
      intro g g' hn hp
      rw [hn.kept.board, hn.kept.settings]
      exact hp
    sent := by
      rintro g x flags t hrun hx hs ⟨hf, rfl⟩ hp
      obtain ⟨-, hsent, -⟩ := hrun.sound.processSent hx hs hf t
      rw [hsent.limit, settings_processSent]
      exact hp
    fired := by
      intro g timer generation hasData t _ _ hp
      have hr := relabelled_processTimeout g timer generation hasData t
      obtain ⟨f, -, hb⟩ := hr.board
      rw [hb, hr.settings]
      exact hp }
  acked := by
    intro g ack hrun hle hp
    have hr := (hrun.sound.processAck hle now).1
    have hpass := (AckPass.kept_size (g.ackInput ack now) g.board.limit g.board.size).run
      hrun.sound.passState hle ⟨rfl, Nat.le_max_left _ _⟩
    obtain ⟨f, -, hb⟩ := hr.board
    rw [hb, hr.settings]
    exact hpass.1.trans hp
  stopped := by
    rintro g g' ⟨told, rfl⟩ hp
    exact hp

theorem Reachable.limit_eq (h : g.Reachable first) : g.board.limit = g.settings.maxSegments := by
  refine (h.upheld upheld_limit ?_).holds
  intro settings law sink now g started
  obtain ⟨hvalid, rfl⟩ := start_eq_ok_iff.mp started
  exact Nat.max_eq_left (Settings.two_le_maxSegments hvalid)

/-- An ack leaves no more records than there were, or than the limit allows. -/
theorem Running.size_onAck (h : g.Running) (ack : Ack) (now : Nat) :
    (g.onAck ack now).1.board.size ≤ max g.board.size g.board.limit := by
  rcases h.ack_ends ack now with ⟨-, -, hcounted⟩ | ⟨hle, -⟩
  · rw [hcounted]
    exact Nat.le_max_left _ _
  · obtain ⟨f, -, hb⟩ := (h.onAck hle now).1.board
    have hpass := (AckPass.kept_size (g.ackInput ack now) g.board.limit g.board.size).run
      h.sound.passState hle ⟨rfl, Nat.le_max_left _ _⟩
    rw [hb, Scoreboard.size_modify]
    exact hpass.2

/-- No ack takes the scoreboard beyond its record limit, or further beyond it. Of the blocks of an ack
that is taken in, those are refused for which there is no room, before anything is done about them,
and the others are applied as if these were not there. -/
theorem Reachable.within_record_limit (h : g.Reachable first) (ack : Ack) (now : Nat) :
    (g.onAck ack now).1.board.size ≤ max g.board.size g.settings.maxSegments ∧
    (g.isAborted = false → ack.cumulative ≤ g.board.top →
      g.passOf ack now = .ok (g.passState.run (g.ackInput ack now)) ∧
      AckPass.WeighsBlocks (g.ackInput ack now) g.passState) := by
  refine ⟨?_, fun ha hle => ⟨AckPass.process_eq_ok hle, ?_⟩⟩
  · cases ha : g.isAborted with
    | true =>
      rw [onAck, guarded_of_aborted ha]
      exact Nat.le_max_left _ _
    | false =>
      rw [← h.limit_eq]
      exact (h.running_of ha).size_onAck ack now
  · exact (h.running_of ha).sound.passState.weighsBlocks hle

/-- There is room for one more record, but cutting the first block out of the middle of a record
takes two. It is refused, and the second block takes the room. -/
theorem within_record_limit_straddled : ∃ (g : Engine FixedWindow) (ack : Ack),
    (g.Reachable 0 ∧ g.isAborted = false ∧ ack.cumulative ≤ g.board.top ∧
      g.board.size = 2 ∧ g.settings.maxSegments = 3 ∧ ack.blocks = [⟨4000, 4380⟩, ⟨500, 1000⟩] ∧
      (g.onAck ack 50).1.board.records.map (fun r => (r.start, r.stop, r.flags.sacked))
        = [(0, 1460, false), (1460, 4000, false), (4000, 4380, true)]) ∧
    (g.onAck ack 50).1.board.size ≤ max g.board.size g.settings.maxSegments ∧
    g.passOf ack 50 = .ok (g.passState.run (g.ackInput ack 50)) ∧
    AckPass.WeighsBlocks (g.ackInput ack 50) g.passState := by
  have started : Engine.start { maxSegments := 3 } (FixedWindow.ofSettings { maxSegments := 3 })
      .discard 0 0 = .ok _ := rfl
  have first := (Reachable.start started).step (.send ⟨0, 1460⟩ {} 0 ⟨rfl, rfl⟩)
  have second := first.step (.send ⟨1460, 4380⟩ {} 10 ⟨rfl, rfl⟩)
  have limited := Reachable.within_record_limit second
    { cumulative := 0, blocks := [⟨4000, 4380⟩, ⟨500, 1000⟩] } 50
  exact ⟨_, _, ⟨second, by decide +kernel⟩, limited.1, limited.2 rfl (Nat.zero_le _)⟩

end Engine

end LossRecovery
