import LossRecovery.Proofs.SackExactness
import LossRecovery.Proofs.WindowMarks

/-!
# `LossRecovery.Proofs.DupackCounts` — what acks are counted against

An ack that newly SACKs data is counted against the records it passes over. The pass knows only the
highest number ever SACKed: it counts the ack against every missing record below, whether what the ack
newly SACKed lies above that record or not. Holes are left out, also those that are forgotten when the
ack begins a recovery episode.

## Contents
- `SendRecord.tally`, `Sound.tally_run`: the counts after a pass over an ack.
- `SackTracker.Sound.start_lt_highest_iff`: below the highest number are the missing records with SACKed
  bytes above them.
- `Engine.Running.tally`: the counts after an ack.
- `CountsNewly`, `Miscounted`, `Reachable.counts_dupacks`: when the count of a record goes by what was
  newly SACKed above it, and when it does not; `counted_for_data_below`.
-/

namespace LossRecovery

/-- How many acks were counted against a record, and whether it is a hole. -/
def SendRecord.tally (r : SendRecord) : Nat × Bool := (r.dupacks, r.hole)

namespace SendRecord

variable {p r : SendRecord} {f : SendRecord → SendRecord}

theorem IsPart.tally (h : p.IsPart r) : p.tally = r.tally := by
  rw [h.same]
  rfl

theorem Remarks.tally (hf : Remarks f) (r : SendRecord) : (f r).tally = r.tally := by
  obtain ⟨_, _, he⟩ := hf r
  rw [he]
  rfl

end SendRecord

theorem Scoreboard.tally_remark (b : Scoreboard) {f : SendRecord → SendRecord}
    (hf : SendRecord.Remarks f) : b.Inherits SendRecord.tally (b.modify f) :=
  Scoreboard.inherits_modify (fun r => ⟨hf.relabels.start r, hf.relabels.stop r⟩) hf.relabels.sacked
    hf.tally

/-! ## A pass over an ack -/

/-- Below the highest number are the missing records with SACKed bytes above them. -/
theorem SackTracker.Sound.start_lt_highest_iff {t : SackTracker} {b : Scoreboard} (h : t.Sound b)
    (hb : b.Coherent) {r : SendRecord} (hr : r ∈ b.records) (hm : r.flags.sacked = false) :
    r.start < t.highest ↔ ∃ seq, r.stop ≤ seq ∧ b.sackedAt seq = true := by
  have hbounds := hb.tiles.bounds hr
  constructor
  · intro hlt
    rcases h.reached with he | hs
    · omega
    · refine ⟨t.highest - 1, ?_, hs⟩
      -- The SACKed byte below the highest number does not lie in the missing record.
      by_contra hin
      rw [hb.sackedAt_eq ⟨hr, SendRecord.contains_iff.mpr (by omega)⟩, hm] at hs
      cases hs
  · rintro ⟨seq, hle, hs⟩
    have := h.sacked_lt seq hs
    omega

namespace AckPass

variable {i : AckInput} {p : AckPass}

theorem Sound.tally_beforeBlocks (h : p.Sound) :
    p.board.Inherits SendRecord.tally (p.beforeBlocks i).board := by
  obtain ⟨f, hf, hb⟩ := remarks_checkWindow (i := i) (p := (p.atEdge i).noteDuplicateAck i)
  have hedge : p.board.Inherits SendRecord.tally (p.atEdge i).board := by
    unfold AckPass.atEdge
    split
    · rw [advance_board]
      exact h.board.inherits_release SendRecord.IsPart.tally _
    · exact .refl _ _
  refine hedge.trans ?_
  rw [show (p.beforeBlocks i).board = (p.atEdge i).board.modify f from hb]
  exact Scoreboard.tally_remark _ hf

/-- The ack is counted against the missing records below the highest number, but for the holes. -/
theorem holds_countPassed (h : p.board.Coherent) {seq : Nat} {r : SendRecord}
    (hr : p.countPassed.board.Holds seq r) (hm : r.flags.sacked = false) :
    ∃ s, p.board.Holds seq s ∧ s.flags.sacked = false ∧ r.start = s.start ∧ r.hole = s.hole ∧
      r.dupacks = if s.hole = false ∧ s.start < p.tracker.highest then Word.incr32 s.dupacks
        else s.dupacks := by
  obtain ⟨s, hs, rfl⟩ := Scoreboard.Coherent.of_modify
    (fun s => by split <;> exact ⟨rfl, rfl⟩) hr
  have hsm : s.flags.sacked = false := by split at hm <;> exact hm
  have hcountable : countable s = !s.hole := by
    rw [countable, (h.records s hs.1).isDelivered, hsm, Bool.not_false, Bool.true_and]
  refine ⟨s, hs, hsm, ?_, ?_, ?_⟩
  · split <;> rfl
  · split <;> rfl
  · rw [hcountable]
    cases s.hole with
    | true => simp
    | false =>
      simp only [Bool.not_false, Bool.true_and, decide_eq_true_eq, true_and]
      split <;> rfl

/-- The counts after a pass over an ack that newly SACKed data. -/
theorem Sound.tally_run (h : p.Sound) (hle : i.ack.cumulative ≤ p.board.top)
    (hnew : 0 < (p.run i).outcome.sacked) {seq : Nat} {r : SendRecord}
    (hr : (p.run i).board.Holds seq r) (hm : r.flags.sacked = false) :
    ∃ s, p.board.Holds seq s ∧ s.flags.sacked = false ∧ r.hole = s.hole ∧
      r.dupacks = if s.hole = false ∧ r.start < (p.run i).tracker.highest then
        Word.incr32 s.dupacks else s.dupacks := by
  have hbefore := h.beforeBlocks hle (i := i)
  have hblocks : ((p.beforeBlocks i).applyBlocks i).Sound := (hbefore.foldBlocks i _).1
  have hinherits : p.board.Inherits SendRecord.tally ((p.beforeBlocks i).applyBlocks i).board :=
    h.tally_beforeBlocks.trans (hbefore.inherits_foldBlocks SendRecord.IsPart.tally i _)
  have hquiet : Quiet ((p.beforeBlocks i).applyBlocks i).countAgainst (p.run i) := by
    rw [run_eq]
    cases i.ack.duplicate with
    | none => exact .of_eq rfl rfl ⟨rfl, rfl⟩ ⟨rfl, rfl, rfl, rfl⟩ rfl
    | some x => exact quiet_applyDuplicate
  have hcounted : ((p.beforeBlocks i).applyBlocks i).countAgainst
      = ((p.beforeBlocks i).applyBlocks i).countPassed := by
    rw [hquiet.sacked, (quiet_countAgainst hblocks.board).sacked] at hnew
    exact if_pos hnew
  -- What follows the count only sets marks.
  obtain ⟨f, hf, hb⟩ : ∃ f, SendRecord.Remarks f ∧
      (p.run i).board = ((p.beforeBlocks i).applyBlocks i).countAgainst.board.modify f := by
    rw [run_eq]
    cases i.ack.duplicate with
    | none => exact ⟨id, .id, by simp [Scoreboard.modify]⟩
    | some x => exact remarks_applyDuplicate
  rw [hb, hcounted] at hr
  obtain ⟨t, ht, rfl⟩ := Scoreboard.Coherent.of_modify
    (fun r => ⟨hf.relabels.start r, hf.relabels.stop r⟩) hr
  rw [hf.relabels.sacked] at hm
  obtain ⟨q, hq, hqm, hstart, hhole, hdupacks⟩ := holds_countPassed hblocks.board ht hm
  obtain ⟨s, hs, hsm, htally⟩ := hinherits seq q hq hqm
  obtain ⟨hd, hh⟩ := Prod.mk.inj htally
  obtain ⟨hfd, hfh⟩ := Prod.mk.inj (hf.tally t)
  have hhighest : (p.run i).tracker.highest = ((p.beforeBlocks i).applyBlocks i).tracker.highest :=
    hquiet.highest.trans (quiet_countAgainst hblocks.board).highest
  refine ⟨s, hs, hsm, ?_, ?_⟩
  · rw [hfh, hhole, hh]
  · rw [hfd, hdupacks, hd, hh, hf.relabels.start, hstart, hhighest]

end AckPass

namespace Engine

variable {κ : Type} {g g' : Engine κ} {a : Ack} {actions : Actions} {first now : Nat}

/-! ## An ack as a whole -/

/-- Relabelling forgets holes at most, and counts nothing. -/
theorem Relabelled.tally (h : Relabelled g g') {seq : Nat} {r : SendRecord}
    (hr : g'.board.Holds seq r) : ∃ s, g.board.Holds seq s ∧ r.start = s.start ∧
      r.flags.sacked = s.flags.sacked ∧ r.dupacks = s.dupacks ∧ (r.hole = true → s.hole = true) := by
  obtain ⟨f, hf, hb⟩ := h.board
  have houtlines := h.outlines
  rw [hb] at hr houtlines
  obtain ⟨s, hs, rfl⟩ := Scoreboard.Coherent.of_modify (fun r => ⟨hf.start r, hf.stop r⟩) hr
  have hsame : (f s).outline = s.outline := by
    have hmap : (g.board.records.map f).map SendRecord.outline
        = g.board.records.map SendRecord.outline := houtlines
    rw [List.map_map] at hmap
    exact List.map_inj_left.mp hmap s hs.1
  exact ⟨s, hs, hf.start s, hf.sacked s, congrArg Outline.dupacks hsame, hf.hole s⟩

variable [CongestionLaw κ]

/-- What becomes of the SACKed bytes is up to the pass. -/
theorem Running.sackedAt_onAck (h : g.Running) (hle : a.cumulative ≤ g.board.top) (seq : Nat) :
    (g.onAck a now).1.board.sackedAt seq = (g.acked a now).board.sackedAt seq := by
  obtain ⟨f, hf, hb⟩ := (h.onAck hle now).1.board
  rw [hb]
  exact (h.sound.acked hle now).board.sackedAt_modify hf

/-- An ack is counted against the missing records with SACKed bytes above them, but for the holes. -/
theorem Running.tally (h : g.Running) (hle : a.cumulative ≤ g.board.top)
    (hnew : 0 < (g.passState.run (g.ackInput a now)).outcome.sacked) {r : SendRecord}
    (hr : r ∈ (g.onAck a now).1.board.records) (hm : r.flags.sacked = false) :
    ∃ s, g.board.Holds r.start s ∧ s.flags.sacked = false ∧ (r.hole = true → s.hole = true) ∧
      r.dupacks = if s.hole = false ∧ r.start < (g.onAck a now).1.tracker.highest then
        Word.incr32 s.dupacks else s.dupacks := by
  have hrelabelled := (h.onAck hle now).1
  have hacked := h.sound.acked hle now
  have hstart := (hrelabelled.sound hacked).board.holds_start hr
  obtain ⟨q, hq, hqstart, hqm, hqd, hqh⟩ := hrelabelled.tally hstart
  obtain ⟨s, hs, hsm, hhole, hd⟩ := h.sound.passState.tally_run (i := g.ackInput a now) hle hnew hq
    (hqm.symm.trans hm)
  refine ⟨s, hs, hsm, fun hh => hhole.symm.trans (hqh hh), ?_⟩
  rw [hqd, hd, hqstart, hrelabelled.tracker]
  rfl

/-- From `b` to `b'`, a byte at or above `edge` was newly SACKed. -/
def NewlySackedFrom (b b' : Scoreboard) (edge : Nat) : Prop :=
  ∃ seq, edge ≤ seq ∧ b'.sackedAt seq = true ∧ b.sackedAt seq = false

/-- The ack between `b` and `b'` is counted against `r`, which was a part of `s`, if it newly SACKed
data above `r`, and not else. -/
def CountsNewly (b b' : Scoreboard) (s r : SendRecord) : Prop :=
  (NewlySackedFrom b b' r.stop → r.dupacks = s.dupacks + 1) ∧
    (¬ NewlySackedFrom b b' r.stop → r.dupacks = s.dupacks)

/-- What may go wrong in counting the ack between `b` and `b'` against `r`, a part of `s`. -/
inductive Miscounted (b b' : Scoreboard) (s r : SendRecord) : Prop
  /-- Nothing above was newly SACKed, but something was SACKed before. -/
  | late (old : ¬ NewlySackedFrom b b' r.stop) (above : ∃ seq, r.stop ≤ seq ∧ b.sackedAt seq = true)
      (countable : s.hole = false) (below : s.dupacks ≠ Word.max32)
  /-- The count is as high as it gets. -/
  | capped (new : NewlySackedFrom b b' r.stop) (countable : s.hole = false)
      (full : Word.max32 ≤ s.dupacks)
  /-- The record was a hole, and is no more, since the ack began a recovery episode. -/
  | forgotten (new : NewlySackedFrom b b' r.stop) (spared : s.hole = true)

/-- A count that was raised by the rule of the pass is what the newly SACKed data demands, unless one of
the three ways applies. -/
theorem countsNewly_iff {b b' : Scoreboard} {s r : SendRecord}
    (hkept : ∀ seq, r.stop ≤ seq → b.sackedAt seq = true → b'.sackedAt seq = true)
    (hcounted : s.hole = false → (∃ seq, r.stop ≤ seq ∧ b'.sackedAt seq = true) →
      r.dupacks = Word.incr32 s.dupacks)
    (hspared : (s.hole = true ∨ ∀ seq, r.stop ≤ seq → b'.sackedAt seq = false) →
      r.dupacks = s.dupacks) : CountsNewly b b' s r ↔ ¬ Miscounted b b' s r := by
  have hincr : Word.incr32 s.dupacks = min (s.dupacks + 1) Word.max32 := rfl
  have habove : NewlySackedFrom b b' r.stop → ∃ seq, r.stop ≤ seq ∧ b'.sackedAt seq = true :=
    fun ⟨seq, hle, hs, _⟩ => ⟨seq, hle, hs⟩
  constructor
  · rintro ⟨hnew, hold⟩ (⟨old, ⟨seq, hle, hs⟩, countable, below⟩ | ⟨new, countable, full⟩ |
      ⟨new, spared⟩)
    · have h1 := hold old
      have h2 := hcounted countable ⟨seq, hle, hkept seq hle hs⟩
      omega
    · have h1 := hnew new
      have h2 := hcounted countable (habove new)
      omega
    · have h1 := hnew new
      have h2 := hspared (.inl spared)
      omega
  · intro hno
    refine ⟨fun new => ?_, fun old => ?_⟩
    · have countable : s.hole = false := Bool.eq_false_iff.mpr fun hh => hno (.forgotten new hh)
      have h1 := hcounted countable (habove new)
      have h2 : ¬ Word.max32 ≤ s.dupacks := fun full => hno (.capped new countable full)
      omega
    · cases hh : s.hole with
      | true => exact hspared (.inl hh)
      | false =>
        by_cases hany : ∃ seq, r.stop ≤ seq ∧ b'.sackedAt seq = true
        · -- What is SACKed above was SACKed before, so that the count cannot have risen.
          obtain ⟨seq, hle, hs⟩ := hany
          have hbefore : b.sackedAt seq = true := by
            by_contra hnot
            exact old ⟨seq, hle, hs, Bool.eq_false_iff.mpr hnot⟩
          have h1 := hcounted hh ⟨seq, hle, hs⟩
          have h2 : s.dupacks = Word.max32 := by
            by_contra below
            exact hno (.late old ⟨seq, hle, hbefore⟩ hh below)
          omega
        · refine hspared (.inr fun seq hle => Bool.eq_false_iff.mpr fun hs => hany ⟨seq, hle, hs⟩)

/-- An ack that newly SACKs data counts the bytes. -/
theorem Running.sacked_pos (h : g.Running) (hle : a.cumulative ≤ g.board.top)
    (hnew : NewlySackedFrom g.board (g.onAck a now).1.board 0) :
    0 < (g.passState.run (g.ackInput a now)).outcome.sacked := by
  obtain ⟨seq, -, hs, hold⟩ := hnew
  have hexact := h.sound.passState.exact (i := g.ackInput a now) rfl hle
  rw [h.sackedAt_onAck hle] at hs
  obtain ⟨hlo, hhi⟩ : (g.passState.run (g.ackInput a now)).board.una ≤ seq ∧
      seq < (g.passState.run (g.ackInput a now)).board.top :=
    (h.sound.acked hle now).board.bounds_of_sackedAt hs
  rw [hexact.newly]
  refine List.countP_pos_iff.mpr ⟨seq, ?_, ?_⟩
  · rw [List.mem_range'_1]
    omega
  · rw [Bool.and_eq_true, Bool.not_eq_true']
    exact ⟨hs, hold⟩

/-- What is SACKed stays so as long as it is outstanding. -/
theorem Running.sackedAt_of_before (h : g.Running) (hle : a.cumulative ≤ g.board.top) {seq : Nat}
    (hlo : (g.onAck a now).1.board.una ≤ seq) (hs : g.board.sackedAt seq = true) :
    (g.onAck a now).1.board.sackedAt seq = true := by
  have hexact := h.sound.passState.exact (i := g.ackInput a now) rfl hle
  rw [(h.onAck hle now).1.edges.1] at hlo
  rw [h.sackedAt_onAck hle]
  refine (hexact.sacked seq hlo ?_).mpr (.inl hs)
  rw [hexact.top]
  exact (h.sound.board.bounds_of_sackedAt hs).2

/-- After an ack that newly SACKed data, every missing record is compared with the record it was a part
of. The ack is counted against it if a byte above it is SACKed, whenever that was, and the record was no
hole. Against a record that is no hole, it is counted as what was newly SACKed above it demands, unless
that goes wrong in one of three ways. -/
theorem Reachable.counts_dupacks (h : g.Reachable first) (hok : (g.onAck a now).2 = .ok actions)
    (hnew : NewlySackedFrom g.board (g.onAck a now).1.board 0) :
    ∀ r ∈ (g.onAck a now).1.board.records, r.flags.sacked = false →
      ∃ s, g.board.Holds r.start s ∧ s.flags.sacked = false ∧ (r.hole = true → s.hole = true) ∧
        (s.hole = false → (∃ seq, r.stop ≤ seq ∧ (g.onAck a now).1.board.sackedAt seq = true) →
          r.dupacks = Word.incr32 s.dupacks) ∧
        ((s.hole = true ∨ ∀ seq, r.stop ≤ seq → (g.onAck a now).1.board.sackedAt seq = false) →
          r.dupacks = s.dupacks) ∧
        (r.hole = false → (CountsNewly g.board (g.onAck a now).1.board s r ↔
          ¬ Miscounted g.board (g.onAck a now).1.board s r)) := by
  have hrunning := h.running_of (guarded_ok hok).1
  obtain ⟨hle, -⟩ := hrunning.ack_taken hok
  have hsound := (hrunning.onAck hle now).1.sound (hrunning.sound.acked hle now)
  intro r hr hm
  obtain ⟨s, hs, hsm, hhole, hd⟩ := hrunning.tally hle (hrunning.sacked_pos hle hnew) hr hm
  have habove := hsound.tracker.start_lt_highest_iff hsound.board hr hm
  have hcounted : s.hole = false →
      (∃ seq, r.stop ≤ seq ∧ (g.onAck a now).1.board.sackedAt seq = true) →
      r.dupacks = Word.incr32 s.dupacks := fun hh hany =>
    hd.trans (if_pos ⟨hh, habove.mpr hany⟩)
  have hspared : (s.hole = true ∨ ∀ seq, r.stop ≤ seq → (g.onAck a now).1.board.sackedAt seq = false) →
      r.dupacks = s.dupacks := by
    intro hor
    refine hd.trans (if_neg ?_)
    rintro ⟨hh, hlt⟩
    rcases hor with hh' | hnone
    · rw [hh] at hh'
      cases hh'
    · obtain ⟨seq, hle, hs⟩ := habove.mp hlt
      rw [hnone seq hle] at hs
      cases hs
  refine ⟨s, hs, hsm, hhole, hcounted, hspared, fun _ => countsNewly_iff (fun seq hstop hs => ?_)
    hcounted hspared⟩
  have hbounds := hsound.board.tiles.bounds hr
  exact hrunning.sackedAt_of_before hle (by omega) hs

/-- Two blocks, one below and one above a hole: the ack is counted once against what lies between them,
and not against what lies above both. -/
theorem counts_dupacks_between_blocks : ∃ g : Engine FixedWindow,
    let done := g.onAck { cumulative := 0, blocks := [⟨0, 1000⟩, ⟨2000, 3000⟩] } 50
    (g.Reachable 0 ∧ (∃ actions, done.2 = .ok actions) ∧
      NewlySackedFrom g.board done.1.board 0) ∧
    done.1.board.records.map (fun r => (r.start, r.flags.sacked, r.dupacks))
      = [(0, true, 0), (1000, false, 1), (2000, true, 0), (3000, false, 0)] ∧
    ∀ r ∈ done.1.board.records, r.flags.sacked = false → ∃ s, g.board.Holds r.start s ∧
      (CountsNewly g.board done.1.board s r ↔ ¬ Miscounted g.board done.1.board s r) := by
  have started : Engine.start {} (FixedWindow.ofSettings {}) .discard 0 0 = .ok _ := rfl
  have sent := (Reachable.start started).step (.send ⟨0, 4000⟩ {} 0 ⟨rfl, rfl⟩)
  refine ⟨_, ⟨sent, ⟨_, rfl⟩, 2000, by decide, by decide +kernel, by decide +kernel⟩,
    by decide +kernel, ?_⟩
  intro r hr hm
  obtain ⟨s, hs, -, -, -, -, hiff⟩ := Reachable.counts_dupacks sent rfl
    ⟨2000, by decide, by decide +kernel, by decide +kernel⟩ r hr hm
  exact ⟨s, hs, hiff ((by decide +kernel : ∀ r ∈ _, r.hole = false) r hr)⟩

omit [CongestionLaw κ] in
/-- Above records that are all SACKed, nothing is newly SACKed. -/
theorem not_newlySackedFrom {b b' : Scoreboard} (hb : b.Coherent) (hb' : b'.Coherent)
    (hedges : b.una ≤ b'.una) (htop : b'.top = b.top) {edge : Nat}
    (hall : ∀ q ∈ b.records, edge < q.stop → q.flags.sacked = true) :
    ¬ NewlySackedFrom b b' edge := by
  rintro ⟨seq, hle, hs, hold⟩
  obtain ⟨hlo, hhi⟩ := hb'.bounds_of_sackedAt hs
  obtain ⟨q, hq⟩ := hb.exists_holds (by omega : b.una ≤ seq) (by omega)
  have hc := SendRecord.contains_iff.mp hq.2
  rw [hb.sackedAt_eq hq, hall q hq.1 (by omega)] at hold
  cases hold

/-- The last of four segments is SACKed, then the first and the second arrive late. The ack of the second
is counted against the third, although it newly SACKed nothing above it, and the third, against which only
the first of the three acks should have been counted, is presumed lost and sent again. -/
theorem counted_for_data_below : ∃ g : Engine FixedWindow, g.Reachable 0 ∧
    let done := g.onAck { cumulative := 0, blocks := [⟨1460, 2920⟩] } 52
    NewlySackedFrom g.board done.1.board 0 ∧
    (∃ r ∈ done.1.board.records, r.flags.sacked = false ∧ r.hole = false ∧
      ∃ s, g.board.Holds r.start s ∧ r.dupacks = s.dupacks + 1 ∧
        ¬ NewlySackedFrom g.board done.1.board r.stop ∧ ¬ CountsNewly g.board done.1.board s r) ∧
    ∃ actions, done.2 = .ok actions ∧ .send ⟨2920, 4380⟩ 1 .retransmit ∈ actions := by
  have started : Engine.start {} (FixedWindow.ofSettings {}) .discard 0 0 = .ok _ := rfl
  have sent := (((Reachable.start started).step (.send ⟨0, 2920⟩ {} 0 ⟨rfl, rfl⟩)).step
    (.send ⟨2920, 4380⟩ {} 1 ⟨rfl, rfl⟩)).step (.send ⟨4380, 5840⟩ {} 2 ⟨rfl, rfl⟩)
  have acked := (sent.step (.ack { cumulative := 0, blocks := [⟨4380, 5840⟩] } 50)).step
    (.ack { cumulative := 0, blocks := [⟨0, 1460⟩] } 51)
  have later := acked.step (.ack { cumulative := 0, blocks := [⟨1460, 2920⟩] } 52)
  refine ⟨_, acked, ⟨1460, by decide, by decide +kernel, by decide +kernel⟩, ?_,
    ⟨_, rfl, by decide +kernel⟩⟩
  have old := not_newlySackedFrom (acked.running_of (by decide +kernel)).sound.board
    (later.running_of (by decide +kernel)).sound.board (by decide +kernel) (by decide +kernel)
    (by decide +kernel : ∀ q ∈ (_ : List SendRecord), 4380 < q.stop → q.flags.sacked = true)
  let third (dupacks : Nat) : SendRecord :=
    ⟨2920, 4380, 0, 0, ⟨1, none, none⟩, none, dupacks, { sackPassed := true }, 0, false, true⟩
  exact ⟨third 3, by decide +kernel, rfl, rfl, third 2, ⟨by decide +kernel, rfl⟩, rfl, old,
    fun hcounts => absurd (hcounts.2 old) (by decide)⟩

end Engine

end LossRecovery
