import LossRecovery.Proofs.BlockCuts
import LossRecovery.Proofs.SackExactness
import LossRecovery.Proofs.SackedRuns

/-!
# `LossRecovery.Proofs.Replays` — an ack that arrives twice

Taking in an ack a second time changes nothing but marks. What the filter still knows of its blocks is
skipped. What it has forgotten is walked again, and nothing is found there: the bytes of a block are
SACKed, so that no record of it is missing, and no two SACKed records are left to be joined. An ack that
carries a block or a report of data received twice is no duplicate ack either, and the report raises the
factor of the reordering window once per round trip only.

## Contents
- `Scoreboard.Filled`: all bytes of a range are SACKed; `cutsNeeded_filled`, `carveMissing_filled`,
  `coalesce_apart`: then there is nothing to do.
- `AckOutcome.work`: what a pass does to the records.
- `AckPass.Idle p q`: from `p` to `q`, no work was done; `Sound.idle_foldBlocks`.
- `AckPass.Neutral p q`: from `p` to `q`, no more than marks changed; `Sound.neutral_run`.
- `Reachable.replay_neutral`: a second pass over the same ack.
-/

namespace LossRecovery

/-! ## Ranges without a missing byte -/

namespace Scoreboard

variable {b : Scoreboard} {r : SendRecord} {x : SeqRange}

/-- All bytes of a range are SACKed. -/
def Filled (b : Scoreboard) (x : SeqRange) : Prop :=
  ∀ seq, x.contains seq = true → b.sackedAt seq = true

namespace Coherent

theorem delivered_of_filled (h : b.Coherent) (hx : x.start < x.stop) (hf : b.Filled x)
    (hr : r ∈ b.records) (ho : r.overlaps x = true) : r.isDelivered = true := by
  have hne := (h.tiles.bounds hr).2.1
  rw [SendRecord.overlaps_iff hne hx] at ho
  have hc : r.contains (max r.start x.start) = true := SendRecord.contains_iff.mpr (by omega)
  rw [(h.records r hr).isDelivered, ← h.sackedAt_eq ⟨hr, hc⟩]
  exact hf _ (SeqRange.contains_iff.mpr (by omega))

theorem missing_filled (h : b.Coherent) (hx : x.start < x.stop) (hf : b.Filled x) :
    (b.overlapping x).filter (fun r => !r.isDelivered) = [] := by
  refine List.filter_eq_nil_iff.mpr fun r hr => ?_
  obtain ⟨hrb, ho⟩ := (mem_overlapping hx).mp hr
  rw [h.delivered_of_filled hx hf hrb ho]
  exact Bool.false_ne_true

/-- No missing record reaches over an end of the range. -/
theorem cutsNeeded_filled (h : b.Coherent) (hx : x.start < x.stop) (hf : b.Filled x) :
    b.cutsNeeded x = 0 := by
  have hnone : ∀ point, ∀ r ∈ b.overlapping x, (!r.isDelivered && r.straddles point) = false := by
    intro point r hr
    obtain ⟨hrb, ho⟩ := (mem_overlapping hx).mp hr
    rw [h.delivered_of_filled hx hf hrb ho]
    rfl
  have hhead : (b.overlapping x).head?.any (fun r => !r.isDelivered && r.straddles x.start) = false := by
    rw [Option.any_eq_false]
    intro r hr
    exact hnone _ r (List.mem_of_mem_head? hr)
  have hlast : (b.overlapping x).getLast?.any (fun r => !r.isDelivered && r.straddles x.stop) = false := by
    rw [Option.any_eq_false]
    intro r hr
    exact hnone _ r (List.mem_of_getLast? hr)
  unfold cutsNeeded
  simp only [hhead, hlast]
  rfl

theorem carveMissing_filled (h : b.Coherent) (hx : x.start < x.stop) (hf : b.Filled x)
    (f : SendRecord → SendRecord) : b.carveMissing x f = b := by
  refine Eq.trans (h.refine_congr fun r hr => if_neg ?_) h.refine_singleton
  intro hit
  rw [Bool.and_eq_true] at hit
  rw [h.delivered_of_filled hx hf hr hit.1] at hit
  exact Bool.false_ne_true hit.2

end Coherent

/-- Where no two neighbours may be joined, none are. -/
theorem coalesceRecords_eq_self {near : SendRecord → Bool} {rs : List SendRecord}
    (h : rs.IsChain fun l r => l.canAbsorb r = false) : coalesceRecords near rs = (rs, []) := by
  cases rs with
  | nil => rfl
  | cons l rest =>
    show coalesceFrom near l rest = (l :: rest, [])
    induction rest generalizing l with
    | nil => rfl
    | cons r rest ih =>
      obtain ⟨hlr, hrest⟩ := List.isChain_cons_cons.mp h
      unfold coalesceFrom
      rw [hlr, Bool.and_false, if_neg Bool.false_ne_true, ih r hrest]

theorem Coherent.coalesce_apart (h : b.Coherent) (ha : b.Apart) (x : SeqRange) :
    b.coalesce x = (b, []) := by
  have hchain : b.records.IsChain fun l r => l.canAbsorb r = false := by
    refine h.tiles.isChain_iff.mpr fun l hl r hr hlr => Bool.eq_false_iff.mpr fun hj => ?_
    simp only [SendRecord.canAbsorb, Bool.and_eq_true, (h.records l hl).isDelivered,
      (h.records r hr).isDelivered] at hj
    exact h.tiles.isChain_iff.mp ha l hl r hr hlr hj.1.1
  unfold Scoreboard.coalesce
  rw [coalesceRecords_eq_self hchain]
  simp

end Scoreboard

/-! ## Passes without work -/

/-- What a pass does to the records: bytes newly acknowledged and newly SACKed, cuts, joins, and blocks
refused. -/
structure AckWork where
  cumulative : Nat := 0
  sacked : Nat := 0
  splits : Nat := 0
  merged : Nat := 0
  refused : Nat := 0

def AckOutcome.work (o : AckOutcome) : AckWork :=
  ⟨o.cumulative, o.sacked, o.splits, o.merged, o.refused⟩

namespace AckPass

variable {i j : AckInput} {p q r : AckPass} {x : SeqRange}

/-- From `p` to `q`, no work was done. -/
structure Idle (p q : AckPass) : Prop where
  ledger : q.ledger = p.ledger
  recent : q.recent = p.recent
  highest : q.tracker.highest = p.tracker.highest
  work : q.outcome.work = p.outcome.work
  duplicate : q.outcome.duplicate = p.outcome.duplicate

theorem Idle.refl (p : AckPass) : Idle p p := ⟨rfl, rfl, rfl, rfl, rfl⟩

theorem Idle.trans (h : Idle p q) (h' : Idle q r) : Idle p r :=
  ⟨h'.ledger.trans h.ledger, h'.recent.trans h.recent, h'.highest.trans h.highest,
    h'.work.trans h.work, h'.duplicate.trans h.duplicate⟩

theorem idle_checkWindow : Idle p (p.checkWindow i) := by
  unfold checkWindow
  by_cases hlt : Word.add p.board.una i.ack.window < p.board.top
  · simp only [hlt, if_true]
    exact ⟨rfl, rfl, rfl, rfl, rfl⟩
  · simp only [hlt, if_false]
    split
    · exact ⟨rfl, rfl, rfl, rfl, rfl⟩
    · exact .refl p

/-- There is nothing to mark in a range without a missing byte, and nothing to join around it. -/
theorem Sound.idle_markBlock (h : p.Sound) (ha : p.board.Apart) (hx : x.start < x.stop)
    (hf : p.board.Filled x) :
    Idle p (p.markBlock i x) ∧ (p.markBlock i x).board = p.board := by
  have hboard : p.board.carveMissing x (sackedRecord i.now) = p.board :=
    h.board.carveMissing_filled hx hf _
  unfold AckPass.markBlock joinAround
  simp only [h.board.missing_filled hx hf, List.foldl_nil, hboard, h.board.coalesce_apart ha,
    List.length_nil, Nat.add_zero]
  exact ⟨⟨rfl, rfl, rfl, rfl, rfl⟩, rfl⟩

theorem Sound.idle_applyBlock (h : p.Sound) (ha : p.board.Apart)
    (hf : isProper p.board x = true → p.board.Filled (outstandingPart p.board x)) :
    Idle p (p.applyBlock i x) ∧ (p.applyBlock i x).board = p.board := by
  rcases applyBlock_cases i p x with ⟨-, he⟩ | ⟨-, -, he⟩ | ⟨hrefused, -⟩ | ⟨-, hproper, -, he⟩
  · rw [he]
    exact ⟨⟨rfl, rfl, rfl, rfl, rfl⟩, rfl⟩
  · rw [he]
    exact ⟨⟨rfl, rfl, rfl, rfl, rfl⟩, rfl⟩
  · -- A block that needs no cuts is not refused.
    simp only [refuses, Bool.and_eq_true, Bool.not_eq_true'] at hrefused
    have hproper := hrefused.1.1
    have hcuts := h.board.cutsNeeded_filled (start_lt_outstandingPart hproper) (hf hproper)
    have hfits : p.board.cutsFit (outstandingPart p.board x) = true := by
      unfold Scoreboard.cutsFit
      rw [hcuts]
      rfl
    rw [hfits] at hrefused
    cases hrefused.2
  · obtain ⟨hidle, hboard⟩ :=
      h.idle_markBlock (i := i) ha (start_lt_outstandingPart hproper) (hf hproper)
    rw [he]
    exact ⟨⟨hidle.ledger, hidle.recent, hidle.highest, hidle.work, hidle.duplicate⟩, hboard⟩

theorem Sound.idle_foldBlocks (h : p.Sound) (ha : p.board.Apart) {blocks : List SeqRange}
    (hf : ∀ x ∈ blocks, isProper p.board x = true → p.board.Filled (outstandingPart p.board x)) :
    Idle p (blocks.foldl (AckPass.applyBlock i) p) ∧
      (blocks.foldl (AckPass.applyBlock i) p).board = p.board := by
  induction blocks generalizing p with
  | nil => exact ⟨.refl p, rfl⟩
  | cons x rest ih =>
    obtain ⟨hfirst, hboard⟩ := h.idle_applyBlock (i := i) ha (hf x List.mem_cons_self)
    obtain ⟨hrest, hboard'⟩ := ih (h.applyBlock i x).1 (by rw [hboard]; exact ha) fun y hy => by
      rw [hboard]
      exact hf y (List.mem_cons_of_mem _ hy)
    exact ⟨hfirst.trans hrest, hboard'.trans hboard⟩

/-! ## A report of data received twice -/

/-- Whether the factor of the reordering window was raised in the round trip that the left edge is in. -/
def raised (p : AckPass) : Bool := !p.recent.raisedAt.all (· < p.board.una)

theorem multiplier_applyDuplicate (hraised : (x.isEmpty || p.board.top < x.stop) = false → p.raised) :
    (p.applyDuplicate i x).recent.multiplier = p.recent.multiplier := by
  unfold applyDuplicate
  split
  · rfl
  · next hproper =>
    have hall := hraised (Bool.eq_false_iff.mpr hproper)
    rw [raised, Bool.not_eq_true'] at hall
    show (p.recent.noteDuplicate _ _ _).multiplier = _
    unfold RecentAck.noteDuplicate
    rw [hall, if_neg Bool.false_ne_true]

/-- A report raises the factor, unless it was raised in the same round trip. -/
theorem raised_applyDuplicate (hle : p.board.una ≤ p.board.top)
    (hproper : (x.isEmpty || p.board.top < x.stop) = false) : (p.applyDuplicate i x).raised := by
  have hrecent : (p.applyDuplicate i x).recent
      = p.recent.noteDuplicate p.board.una p.board.top i.now := by
    unfold applyDuplicate
    rw [if_neg (Bool.eq_false_iff.mp hproper)]
    rfl
  obtain ⟨f, -, hb⟩ := remarks_applyDuplicate (i := i) (p := p) (x := x)
  rw [raised, hrecent, hb]
  show (!(p.recent.noteDuplicate p.board.una p.board.top i.now).raisedAt.all (· < p.board.una)) = true
  unfold RecentAck.noteDuplicate
  split
  · simpa using hle
  · next hall => simpa using hall

/-! ## A second pass -/

/-- From `p` to `q`, no more changed than marks for the window and for data received twice, and no work
was done. -/
structure Neutral (p q : AckPass) : Prop where
  board : ∃ f, SendRecord.Remarks f ∧ q.board = p.board.modify f
  ledger : q.ledger = p.ledger
  highest : q.tracker.highest = p.tracker.highest
  multiplier : q.recent.multiplier = p.recent.multiplier
  work : q.outcome.work = {}

theorem countAgainst_eq_self (hs : p.outcome.sacked = 0) (hd : p.outcome.duplicate = false) :
    p.countAgainst = p := by
  unfold countAgainst
  rw [hs, hd, if_neg (Nat.lt_irrefl 0), if_neg Bool.false_ne_true]

theorem work_applyDuplicate : (p.applyDuplicate i x).outcome.work = p.outcome.work := by
  unfold applyDuplicate
  split <;> rfl

/-- An ack that says nothing new, but carries a block or a report. -/
theorem Sound.neutral_run (h : p.Sound) (ha : p.board.Apart) (hfresh : p.outcome = {})
    (hedge : i.ack.cumulative ≤ p.board.una)
    (hf : ∀ x ∈ i.ack.blocks, isProper p.board x = true → p.board.Filled (outstandingPart p.board x))
    (hmore : i.ack.blocks ≠ [] ∨ i.ack.duplicate.isSome)
    (hraised : ∀ x, i.ack.duplicate = some x → (x.isEmpty || p.board.top < x.stop) = false →
      p.raised) : Neutral p (p.run i) := by
  have hbare : p.isDuplicate i = false := by
    rcases hmore with hblocks | hreport
    · simp [isDuplicate, hblocks]
    · obtain ⟨x, hx⟩ := Option.isSome_iff_exists.mp hreport
      simp [isDuplicate, hx]
  -- Before the blocks, the left edge stays, and marks are set.
  have hbefore : p.beforeBlocks i = (p.noteDuplicateAck i).checkWindow i := by
    rw [AckPass.beforeBlocks, AckPass.atEdge, if_neg (Nat.not_lt.mpr hedge)]
  obtain ⟨f, hmarks, hboard⟩ := remarks_checkWindow (i := i) (p := p.noteDuplicateAck i)
  have hchecked : Idle (p.noteDuplicateAck i) ((p.noteDuplicateAck i).checkWindow i) :=
    idle_checkWindow
  have hsound := h.beforeBlocks (i := i) (Nat.le_trans hedge h.board.le)
  rw [← hbefore] at hboard hchecked
  replace hboard : (p.beforeBlocks i).board = p.board.modify f := hboard
  -- No block has a missing byte.
  obtain ⟨hblocks, hsame⟩ : Idle (p.beforeBlocks i) ((p.beforeBlocks i).applyBlocks i) ∧
      ((p.beforeBlocks i).applyBlocks i).board = (p.beforeBlocks i).board := by
    refine hsound.idle_foldBlocks ?_ fun x hx hproper seq hc => ?_
    · rw [hboard]
      exact Scoreboard.apart_modify ha hmarks.relabels
    · rw [hboard] at hproper hc ⊢
      rw [h.board.sackedAt_modify hmarks.relabels]
      exact hf x (Sorting.mem_sortByKey.mp hx) hproper seq hc
  have hidle := hchecked.trans hblocks
  have hwork : ((p.beforeBlocks i).applyBlocks i).outcome.work = {} := by
    refine hidle.work.trans ?_
    show p.outcome.work = {}
    rw [hfresh]
    rfl
  have hcount : ((p.beforeBlocks i).applyBlocks i).countAgainst = (p.beforeBlocks i).applyBlocks i :=
    countAgainst_eq_self (congrArg AckWork.sacked hwork) (hidle.duplicate.trans hbare)
  rw [run_eq, hcount]
  cases hreport : i.ack.duplicate with
  | none =>
    exact ⟨⟨f, hmarks, hsame.trans hboard⟩, hidle.ledger, hidle.highest,
      congrArg RecentAck.multiplier hidle.recent, hwork⟩
  | some x =>
    have hquiet : Quiet ((p.beforeBlocks i).applyBlocks i)
        (((p.beforeBlocks i).applyBlocks i).applyDuplicate i x) := quiet_applyDuplicate
    obtain ⟨f', hmarks', hboard'⟩ :=
      remarks_applyDuplicate (i := i) (p := (p.beforeBlocks i).applyBlocks i) (x := x)
    refine ⟨⟨f' ∘ f, hmarks'.comp hmarks, ?_⟩, hquiet.ledger.trans hidle.ledger,
      hquiet.highest.trans hidle.highest, ?_, work_applyDuplicate.trans hwork⟩
    · rw [hboard', hsame, hboard]
      simp [Scoreboard.modify]
    · refine (multiplier_applyDuplicate fun hproper => ?_).trans
        (congrArg RecentAck.multiplier hidle.recent)
      rw [hsame, hboard] at hproper
      have hraised := hraised x hreport hproper
      rw [raised, hidle.recent, hsame, hboard]
      exact hraised

/-- After a report that makes sense, the factor was raised in the round trip. -/
theorem Sound.raised_run (h : p.Sound) (hle : i.ack.cumulative ≤ p.board.top)
    (hreport : i.ack.duplicate = some x)
    (hproper : (x.isEmpty || (p.run i).board.top < x.stop) = false) : (p.run i).raised := by
  have hblocks : ((p.beforeBlocks i).applyBlocks i).Sound :=
    ((h.beforeBlocks hle).foldBlocks i _).1
  have hcounted := (quiet_countAgainst hblocks.board).sound hblocks
  obtain ⟨f, -, hboard⟩ := remarks_applyDuplicate (i := i)
    (p := ((p.beforeBlocks i).applyBlocks i).countAgainst) (x := x)
  rw [run_eq, hreport] at hproper ⊢
  dsimp only at hproper ⊢
  rw [hboard] at hproper
  exact raised_applyDuplicate hcounted.board.le hproper

/-- A second pass over an ack of which nothing was refused. -/
theorem Sound.neutral_replay (h : p.Sound) (ha : p.board.Apart) (hfresh : p.outcome = {})
    (hle : i.ack.cumulative ≤ p.board.top) (hsame : j.ack = i.ack)
    (hmore : i.ack.blocks ≠ [] ∨ i.ack.duplicate.isSome) (href : (p.run i).outcome.refused = 0) :
    Neutral (p.run i).next ((p.run i).next.run j) := by
  have hexact := h.exact hfresh hle
  have hrun := (h.run hle).1
  have hapart : (p.run i).board.Apart := (Scoreboard.persists_apart i.now).kept.run h hle ha
  have hedge : i.ack.cumulative ≤ (p.run i).board.una := by
    rw [hexact.una]
    exact Nat.le_max_right _ _
  rw [← hsame] at hedge hmore
  refine hrun.next.neutral_run (i := j) hapart rfl hedge ?_ hmore ?_
  · -- The bytes of a block that makes sense were SACKed by the first pass.
    intro x hx hproper seq hc
    rw [hsame] at hx
    rw [isProper_iff] at hproper
    rw [SeqRange.contains_iff] at hc
    have hlo : max x.start (p.run i).board.una ≤ seq := hc.1
    have hhi : seq < x.stop := hc.2
    have htop : x.stop ≤ (p.run i).board.top := hproper.2.1
    refine (hexact.sackedAt_iff href (by omega) (by omega)).mpr (.inr ⟨x, hx, hproper.1, ?_, ?_⟩)
    · rw [← hexact.top]
      exact htop
    · exact SeqRange.contains_iff.mpr (by omega)
  · intro x hreport hproper
    rw [hsame] at hreport
    exact h.raised_run hle hreport hproper

end AckPass

namespace Engine

open AckPass

variable {κ : Type} [CongestionLaw κ] {g : Engine κ} {first : Nat}

/-- A second pass over an ack that carries a block or a report, and of which nothing was refused,
changes no more than marks for the window and for data received twice, and does no work. -/
theorem Reachable.replay_neutral (h : g.Reachable first) {i j : AckInput} {q : AckPass}
    (hsame : j.ack = i.ack) (hmore : i.ack.blocks ≠ [] ∨ i.ack.duplicate.isSome)
    (hok : process i g.passState = .ok q) (href : q.outcome.refused = 0) :
    ∃ q', process j q.next = .ok q' ∧ Neutral q.next q' := by
  obtain ⟨hle, rfl⟩ := process_ok hok
  have hapart : g.board.Apart := (h.persists Scoreboard.persists_apart fun _ => .nil).2
  have hpass := h.sound.passState
  have htop : j.ack.cumulative ≤ (g.passState.run i).next.board.top := by
    rw [hsame, show (g.passState.run i).next.board.top = _ from (hpass.exact rfl hle).top]
    exact hle
  exact ⟨_, process_eq_ok htop, hpass.neutral_replay hapart rfl hle hsame hmore href⟩

/-- A filter with room for one range has forgotten the first block, which is walked again. The second
block comes twice, the third is malformed, and the report is of data that was never sent again. -/
theorem replay_neutral_after_forgotten_block : ∃ g : Engine FixedWindow, ∃ i j : AckInput,
    ∃ q : AckPass, (g.Reachable 0 ∧ j.ack = i.ack ∧ i.ack.blocks ≠ [] ∧
      process i g.passState = .ok q ∧ q.outcome.refused = 0 ∧
      q.tracker.filter.covers ⟨500, 1000⟩ = false) ∧
    ∃ q', process j q.next = .ok q' ∧ Neutral q.next q' := by
  have started : Engine.start { sackFilterRanges := 1 } (FixedWindow.ofSettings {}) .discard 0 0
    = .ok _ := rfl
  have sent := (Reachable.start started).step (.send ⟨0, 4000⟩ {} 0 ⟨rfl, rfl⟩)
  let ack : Ack := {
    cumulative := 0
    blocks := [⟨2000, 3000⟩, ⟨500, 1000⟩, ⟨2000, 3000⟩, ⟨3500, 9000⟩]
    duplicate := some ⟨0, 200⟩ }
  have replayed := Reachable.replay_neutral (i := ⟨ack, 0, 50⟩) (j := ⟨ack, 0, 60⟩) sent rfl
    (.inl (List.cons_ne_nil _ _)) (process_eq_ok (Nat.zero_le _)) (by decide +kernel)
  exact ⟨_, ⟨ack, 0, 50⟩, ⟨ack, 0, 60⟩, _, ⟨sent, rfl, List.cons_ne_nil _ _,
    process_eq_ok (Nat.zero_le _), by decide +kernel, by decide +kernel⟩, replayed⟩

end Engine

end LossRecovery
