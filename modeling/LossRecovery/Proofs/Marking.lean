import LossRecovery.Proofs.AckSteps

/-!
# `LossRecovery.Proofs.Marking` — what an ack releases and marks

The cumulative ack releases what lies below it, and each block marks its bytes. What is counted as
delivered on the way is exactly what was not known to have arrived before.

## Contents
- `Sound.advance`: a new left edge.
- `Sound.markBlock`, `Sound.applyBlock`: one block.
- `takenBlocks`, `Sound.foldBlocks`: all blocks; those refused at the record limit are left out.
- `Sound.run`: the pass as a whole; `Kept.run`: what its steps keep, it keeps.
-/

namespace LossRecovery

open Engine (totalLength)

namespace AckPass

variable {i : AckInput} {p q : AckPass} {block x : SeqRange}

/-! ## A new left edge -/

/-- The SACKed bytes of a coherent scoreboard, counted one by one. -/
theorem countBytes_sackedAt {b : Scoreboard} (h : b.Coherent) :
    countBytes b.sackedAt b.una b.top = totalLength (·.flags.sacked) b.records :=
  h.tiles.countBytes_eq fun _ hr _ hc => h.sackedAt_eq ⟨hr, hc⟩

/-- What the walk below a new left edge takes from the ledger is what the release takes from the
totals. -/
theorem Sound.advance_counts (h : p.Sound) (hlo : p.board.una < i.ack.cumulative) :
    (p.advance i).ledger.Counts (p.advance i).board := by
  have hs := totalLength_released (p := fun r => r.flags.sacked) h.board.tiles hlo
    fun _ _ _ hpart => hpart.sacked
  have hh := totalLength_released (p := fun r => r.hole) h.board.tiles hlo
    fun _ _ _ hpart => hpart.hole
  have hover : p.board.overlapping ⟨p.board.una, i.ack.cumulative⟩
      = p.board.records.filter (·.overlaps ⟨p.board.una, i.ack.cumulative⟩) :=
    if_neg (by rw [SeqRange.isEmpty_iff]; exact Nat.not_le.mpr hlo)
  constructor
  · show ((p.board.overlapping _).foldl (releaseRecord i) p).ledger.sackedBytes
      = totalLength _ (Scoreboard.dropBelow _ _)
    rw [releaseWalk_sacked, releaseWalk_board, hover, h.counts.sacked, ← hs]
    exact Nat.add_sub_cancel _ _
  · show ((p.board.overlapping _).foldl (releaseRecord i) p).ledger.holeBytes
      = totalLength _ (Scoreboard.dropBelow _ _)
    rw [releaseWalk_holes, releaseWalk_board, hover, h.counts.holes, ← hh]
    exact Nat.add_sub_cancel _ _

theorem advance_board : (p.advance i).board = p.board.release i.ack.cumulative := by
  show ((p.board.overlapping _).foldl (releaseRecord i) p).board.release _ = _
  rw [releaseWalk_board]

theorem advance_tracker : (p.advance i).tracker
    = { p.tracker with
        filter := p.tracker.filter.removeBelow i.ack.cumulative
        highest := max p.tracker.highest i.ack.cumulative } := by
  simp only [advance, releaseWalk_tracker]

theorem Sound.advance (h : p.Sound) (hlo : p.board.una < i.ack.cumulative)
    (hhi : i.ack.cumulative ≤ p.board.top) : (p.advance i).Sound := by
  have hsame := fun seq (hseq : i.ack.cumulative ≤ seq) =>
    h.board.sackedAt_release (Nat.le_of_lt hlo) hhi hseq
  refine ⟨?_, h.advance_counts hlo, ?_⟩
  · rw [advance_board]
    exact h.board.release (Nat.le_of_lt hlo) hhi
  · rw [advance_board, advance_tracker]
    have hco := h.board.release (Nat.le_of_lt hlo) hhi
    refine ⟨h.tracker.canonical.removeBelow _, ?_, Nat.le_max_right _ _,
      ?_, ?_⟩
    · intro seq hs hseq
      have hseq' : i.ack.cumulative ≤ seq := hseq
      rw [hsame seq hseq']
      exact h.tracker.filter seq (RangeSet.of_removeBelow hs) (by omega)
    · intro seq hs
      have hseq : i.ack.cumulative ≤ seq := (hco.bounds_of_sackedAt hs).1
      rw [hsame seq hseq] at hs
      exact Nat.lt_of_lt_of_le (h.tracker.sacked_lt seq hs) (Nat.le_max_left _ _)
    · -- The highest number is the new edge, or the SACKed byte below it was not released.
      by_cases hcmp : p.tracker.highest ≤ i.ack.cumulative
      · exact Or.inl (Nat.max_eq_right hcmp)
      · refine Or.inr ?_
        show (p.board.release _).sackedAt (max _ _ - 1) = true
        rw [Nat.max_eq_left (by omega), hsame _ (by omega)]
        rcases h.tracker.reached with hr | hr
        · omega
        · exact hr

/-- What the cumulative ack newly delivers are the bytes below it that were not SACKED. -/
theorem Sound.advance_cumulative (h : p.Sound) (hlo : p.board.una < i.ack.cumulative)
    (hhi : i.ack.cumulative ≤ p.board.top) :
    (p.advance i).outcome.cumulative = p.outcome.cumulative
      + countBytes (fun s => !p.board.sackedAt s) p.board.una i.ack.cumulative := by
  have hall := totalLength_released (p := fun _ => true) h.board.tiles hlo fun _ _ _ _ => rfl
  have hsk := totalLength_released (p := fun r => r.flags.sacked) h.board.tiles hlo
    fun _ _ _ hpart => hpart.sacked
  have hrel := h.board.release (Nat.le_of_lt hlo) hhi
  have htiles : Tiles i.ack.cumulative (Scoreboard.dropBelow i.ack.cumulative p.board.records)
      p.board.top := hrel.tiles
  rw [htiles.totalLength_all, h.board.tiles.totalLength_all] at hall
  -- The SACKed bytes below the new edge are those the release takes away.
  have habove : countBytes p.board.sackedAt i.ack.cumulative p.board.top
      = totalLength (·.flags.sacked) (Scoreboard.dropBelow i.ack.cumulative p.board.records) := by
    rw [← countBytes_congr fun s hs _ => h.board.sackedAt_release (Nat.le_of_lt hlo) hhi hs]
    exact countBytes_sackedAt hrel
  have hsplit := countBytes_append (g := p.board.sackedAt) (Nat.le_of_lt hlo) hhi
  rw [habove, countBytes_sackedAt h.board, ← hsk] at hsplit
  have hnot := countBytes_not p.board.sackedAt p.board.una i.ack.cumulative
  have hover : p.board.overlapping ⟨p.board.una, i.ack.cumulative⟩
      = p.board.records.filter (·.overlaps ⟨p.board.una, i.ack.cumulative⟩) :=
    if_neg (by rw [SeqRange.isEmpty_iff]; exact Nat.not_le.mpr hlo)
  show ((p.board.overlapping _).foldl (releaseRecord i) p).outcome.cumulative = _
  rw [releaseWalk_cumulative, hover]
  -- A covered byte is SACKed or newly delivered.
  have hparts := Number.total_map_add
    (p.board.records.filter (·.overlaps ⟨p.board.una, i.ack.cumulative⟩))
    (fun r => if r.flags.sacked then coveredBytes i r else 0)
    (fun r => if r.flags.sacked then 0 else coveredBytes i r)
  have hwhole : (fun r : SendRecord => (if r.flags.sacked then coveredBytes i r else 0)
      + (if r.flags.sacked then 0 else coveredBytes i r)) = coveredBytes i := by
    funext r
    cases r.flags.sacked <;> simp
  rw [hwhole] at hparts
  simp only [if_true] at hall
  unfold coveredBytes at hparts ⊢
  omega

/-! ## One block -/

theorem foldl_max_spec {β : Type} (l : List β) (f : β → Nat) (n : Nat) :
    n ≤ l.foldl (fun m x => max m (f x)) n ∧ (∀ x ∈ l, f x ≤ l.foldl (fun m x => max m (f x)) n) ∧
      (l.foldl (fun m x => max m (f x)) n = n
        ∨ ∃ x ∈ l, l.foldl (fun m x => max m (f x)) n = f x) := by
  induction l generalizing n with
  | nil => exact ⟨Nat.le_refl _, fun x hx => absurd hx List.not_mem_nil, Or.inl rfl⟩
  | cons y rest ih =>
    obtain ⟨h1, h2, h3⟩ := ih (max n (f y))
    rw [List.foldl_cons]
    refine ⟨by omega, ?_, ?_⟩
    · intro x hx
      rcases List.mem_cons.mp hx with rfl | hx
      · omega
      · exact h2 x hx
    · rcases h3 with h3 | ⟨x, hx, h3⟩
      · by_cases hy : n ≤ f y
        · exact Or.inr ⟨y, List.mem_cons_self, by omega⟩
        · exact Or.inl (by omega)
      · exact Or.inr ⟨x, List.mem_cons_of_mem _ hx, h3⟩

/-- The missing records of a range are those that share a number with it and are not SACKED. -/
theorem mem_missing {b : Scoreboard} {r : SendRecord} (h : b.Coherent) (hx : x.start < x.stop) :
    (r ∈ (b.overlapping x).filter fun r => !r.isDelivered)
      ↔ r ∈ b.records ∧ r.overlaps x = true ∧ r.flags.sacked = false := by
  rw [List.mem_filter, Scoreboard.mem_overlapping hx, and_assoc]
  refine and_congr_right fun hr => and_congr_right fun _ => ?_
  rw [(h.records r hr).isDelivered, Bool.not_eq_true']

/-- No missing record is SACKed. -/
theorem total_missing_sacked {b : Scoreboard} (h : b.Coherent) (hx : x.start < x.stop)
    (len : SendRecord → Nat) :
    Number.total (((b.overlapping x).filter fun r => !r.isDelivered).map fun r =>
      if r.flags.sacked then len r else 0) = 0 := by
  apply Number.total_eq_zero_iff.mpr
  intro n hn
  obtain ⟨r, hr, rfl⟩ := List.mem_map.mp hn
  rw [((mem_missing h hx).mp hr).2.2]
  rfl

theorem markBlock_board : (p.markBlock i block).board
    = ((p.board.carveMissing block (sackedRecord i.now)).coalesce
        ⟨block.start - 1, block.stop + 1⟩).1 := rfl

theorem Sound.inherits_markBlock {α : Type} {f : SendRecord → α}
    (hf : ∀ {p r : SendRecord}, p.IsPart r → f p = f r) (h : p.Sound) (hx : block.start < block.stop) :
    p.board.Inherits f (p.markBlock i block).board := by
  rw [markBlock_board]
  exact (h.board.inherits_sack hf hx _).trans ((h.board.sack hx _).inherits_coalesce f _)

section MarkBlock

variable (h : p.Sound) (hx : block.start < block.stop)

include h hx

theorem Sound.markBlock_sackedAt (hlo : p.board.una ≤ block.start)
    (hhi : block.stop ≤ p.board.top) (seq : Nat) :
    (p.markBlock i block).board.sackedAt seq = (p.board.sackedAt seq || block.contains seq) := by
  rw [markBlock_board, (h.board.sack hx _).sackedAt_coalesce, h.board.sackedAt_sack hx hlo hhi]

theorem Sound.markBlock_sackedBytes : (p.markBlock i block).ledger.sackedBytes
    = totalLength (·.flags.sacked) (p.markBlock i block).board.records := by
  have hcarve := Scoreboard.totalLength_carveMissing (p := fun r => r.flags.sacked)
    (f := sackedRecord i.now) h.board hx (fun _ _ _ hpart => hpart.sacked) fun _ => rfl
  rw [total_missing_sacked h.board hx] at hcarve
  show (((p.board.overlapping block).filter fun r => !r.isDelivered).foldl
    (sackRecord i block) p).ledger.sackedBytes = _
  rw [sackWalk_sacked, markBlock_board, Scoreboard.totalLength_coalesce (h.board.sack hx i.now),
    h.counts.sacked]
  · exact hcarve.symm
  · -- Records are joined only if both are SACKed.
    intro a c ha hc hac
    simp only [SendRecord.canAbsorb, Bool.and_eq_true, ha.isDelivered, hc.isDelivered] at hac
    refine ⟨hac.1.1.1.trans hac.1.1.2.symm, ?_⟩
    show (a.flags.sacked || c.flags.sacked) = a.flags.sacked
    rw [hac.1.1.1, hac.1.1.2]
    rfl

theorem Sound.markBlock_holeBytes : (p.markBlock i block).ledger.holeBytes
    = totalLength (·.hole) (p.markBlock i block).board.records := by
  have hcarve := Scoreboard.totalLength_carveMissing (p := fun r => r.hole)
    (f := sackedRecord i.now) h.board hx (fun _ _ _ hpart => hpart.hole) fun _ => rfl
  have hcome : Number.total (((p.board.overlapping block).filter fun r => !r.isDelivered).map
      fun r => if (sackedRecord i.now (r.carve block).middle).hole then
        (r.carve block).middle.length else 0) = 0 := by
    apply Number.total_eq_zero_iff.mpr
    intro n hn
    obtain ⟨r, -, rfl⟩ := List.mem_map.mp hn
    rfl
  have hgone : ((p.board.overlapping block).filter fun r => !r.isDelivered).map
      (fun r => if (r.carve block).middle.hole then (r.carve block).middle.length else 0)
      = ((p.board.overlapping block).filter fun r => !r.isDelivered).map
        fun r => if r.hole then (r.carve block).middle.length else 0 := by
    apply List.map_congr_left
    intro r hr
    obtain ⟨hrb, hro, -⟩ := (mem_missing h.board hx).mp hr
    rw [(SendRecord.isPart_carve_middle (h.board.tiles.bounds hrb).2.1 hx hro).hole]
  show (((p.board.overlapping block).filter fun r => !r.isDelivered).foldl
    (sackRecord i block) p).ledger.holeBytes = _
  rw [sackWalk_holes, markBlock_board, Scoreboard.totalLength_coalesce (h.board.sack hx i.now),
    h.counts.holes, hgone]
  · rw [hcome] at hcarve
    omega
  · -- Records are joined only if neither is a hole.
    intro a c _ _ hac
    simp only [SendRecord.canAbsorb, Bool.and_eq_true, Bool.not_eq_true'] at hac
    exact ⟨hac.1.2.trans hac.2.symm, rfl⟩

theorem Sound.markBlock_highest (hlo : p.board.una ≤ block.start)
    (hhi : block.stop ≤ p.board.top) :
    p.board.una ≤ (p.markBlock i block).tracker.highest
      ∧ (∀ seq, (p.markBlock i block).board.sackedAt seq = true →
        seq < (p.markBlock i block).tracker.highest)
      ∧ ((p.markBlock i block).tracker.highest = p.board.una
        ∨ (p.markBlock i block).board.sackedAt ((p.markBlock i block).tracker.highest - 1)
          = true) := by
  have hmem := fun r => mem_missing (r := r) h.board hx
  have hhigh : (p.markBlock i block).tracker.highest
      = ((p.board.overlapping block).filter fun r => !r.isDelivered).foldl
          (fun n r => max n (r.carve block).middle.stop) p.tracker.highest := sackWalk_highest
  obtain ⟨hge, hall, hreach⟩ := foldl_max_spec
    ((p.board.overlapping block).filter fun r => !r.isDelivered)
    (fun r => (r.carve block).middle.stop) p.tracker.highest
  rw [← hhigh] at hge hall hreach
  refine ⟨Nat.le_trans h.tracker.una_le hge, ?_, ?_⟩
  · intro seq hs
    rw [h.markBlock_sackedAt hx hlo hhi, Bool.or_eq_true] at hs
    cases hold : p.board.sackedAt seq with
    | true => exact Nat.lt_of_lt_of_le (h.tracker.sacked_lt seq hold) hge
    | false =>
      have hin : block.contains seq = true := by
        rcases hs with hs | hs
        · rw [hold] at hs
          exact Bool.noConfusion hs
        · exact hs
      have hb := SeqRange.contains_iff.mp hin
      -- A byte newly SACKed was in a missing record, and the walk met that record.
      obtain ⟨r, hr⟩ := h.board.exists_holds (show p.board.una ≤ seq by omega)
        (show seq < p.board.top by omega)
      rw [h.board.sackedAt_eq hr] at hold
      have hstop := hall r ((hmem r).mpr ⟨hr.1, SendRecord.overlaps_of_contains hr.2 hin, hold⟩)
      rw [SendRecord.carve_middle_stop] at hstop
      have hrb := SendRecord.contains_iff.mp hr.2
      omega
  · rw [h.markBlock_sackedAt hx hlo hhi, Bool.or_eq_true]
    rcases hreach with hreach | ⟨r, hr, hreach⟩
    · rw [hreach]
      exact h.tracker.reached.imp_right Or.inl
    · -- The part of a record that raised the highest number ends inside the block.
      obtain ⟨hrb, hro, -⟩ := (hmem r).mp hr
      have hne := (h.board.tiles.bounds hrb).2.1
      have hov := (SendRecord.overlaps_iff hne hx).mp hro
      refine Or.inr (Or.inr (SeqRange.contains_iff.mpr ?_))
      rw [hreach, SendRecord.carve_middle_stop]
      omega

theorem Sound.marks_markBlock (hlo : p.board.una ≤ block.start) (hhi : block.stop ≤ p.board.top) :
    Marks (fun seq => block.contains seq = true) p (p.markBlock i block) := by
  refine ⟨rfl, rfl, ?_, ?_, ?_⟩
  · intro seq
    rw [h.markBlock_sackedAt hx hlo hhi, Bool.or_eq_true, SeqRange.contains_iff]
    constructor
    · rintro (hs | hs)
      · exact Or.inl hs
      · exact Or.inr ⟨by omega, by omega, hs⟩
    · rintro (hs | ⟨-, -, hs⟩)
      · exact Or.inl hs
      · exact Or.inr hs
  · exact sackWalk_outcome.1
  · show (((p.board.overlapping block).filter fun r => !r.isDelivered).foldl
        (sackRecord i block) p).outcome.sacked + _
      = _ + (((p.board.overlapping block).filter fun r => !r.isDelivered).foldl
        (sackRecord i block) p).ledger.sackedBytes
    rw [sackWalk_newly, sackWalk_sacked]
    omega

end MarkBlock

/-- The outstanding part of a block. -/
def outstandingPart (b : Scoreboard) (x : SeqRange) : SeqRange := ⟨max x.start b.una, x.stop⟩

/-- Whether a block is refused at the record limit: it makes sense, it is not known, and its cuts do
not fit. -/
def refuses (p : AckPass) (x : SeqRange) : Bool :=
  isProper p.board x && !p.tracker.filter.covers (outstandingPart p.board x)
    && !p.board.cutsFit (outstandingPart p.board x)

/-- Applying a block, case by case. -/
theorem applyBlock_cases (i : AckInput) (p : AckPass) (x : SeqRange) :
    (isProper p.board x = false ∧ (p.applyBlock i x)
      = { p with outcome := { p.outcome with malformed := p.outcome.malformed + 1 } }.tell
          [.blockMalformed x p.board.una p.board.top]) ∨
    (isProper p.board x = true ∧ p.tracker.filter.covers (outstandingPart p.board x) = true
      ∧ (p.applyBlock i x)
        = { p with outcome := { p.outcome with filtered := p.outcome.filtered + 1 } }) ∨
    (p.refuses x = true ∧ (p.applyBlock i x)
      = { p with outcome := { p.outcome with refused := p.outcome.refused + 1 } }.tell
          [.blockRefused (outstandingPart p.board x) p.board.size]) ∨
    (p.refuses x = false ∧ isProper p.board x = true
      ∧ p.board.cutsFit (outstandingPart p.board x) = true ∧ (p.applyBlock i x) =
        let marked := p.markBlock i (outstandingPart p.board x)
        { marked with tracker := { marked.tracker with
            filter := marked.tracker.filter.insert (outstandingPart p.board x) } }) := by
  unfold applyBlock refuses
  cases hproper : isProper p.board x with
  | false => exact Or.inl ⟨rfl, rfl⟩
  | true =>
    cases hknown : p.tracker.filter.covers (outstandingPart p.board x) with
    | true =>
      refine Or.inr (Or.inl ⟨rfl, rfl, ?_⟩)
      unfold outstandingPart at hknown
      simp only [hknown, Bool.not_true, Bool.false_eq_true, if_false, if_true]
    | false =>
      cases hfits : p.board.cutsFit (outstandingPart p.board x) with
      | false =>
        refine Or.inr (Or.inr (Or.inl ⟨rfl, ?_⟩))
        unfold outstandingPart at hknown hfits ⊢
        simp only [hknown, hfits, Bool.not_true, Bool.not_false, Bool.false_eq_true, if_false,
          if_true]
      | true =>
        refine Or.inr (Or.inr (Or.inr ⟨rfl, rfl, rfl, ?_⟩))
        unfold outstandingPart at hknown hfits ⊢
        simp only [hknown, hfits, Bool.not_true, Bool.false_eq_true, if_false]

theorem isProper_iff {b : Scoreboard} :
    isProper b x = true ↔ x.start < x.stop ∧ x.stop ≤ b.top ∧ b.una < x.stop := by
  simp [isProper, and_assoc]

theorem start_lt_outstandingPart {b : Scoreboard} (h : isProper b x = true) :
    (outstandingPart b x).start < (outstandingPart b x).stop := by
  rw [isProper_iff] at h
  show max x.start b.una < x.stop
  omega

/-- Nothing was marked: what there would be to mark is known. -/
theorem marks_of_known {new : Nat → Prop} (hb : q.board = p.board) (hl : q.ledger = p.ledger)
    (hc : q.outcome.cumulative = p.outcome.cumulative) (hs : q.outcome.sacked = p.outcome.sacked)
    (hnew : ∀ seq, p.board.una ≤ seq → seq < p.board.top → new seq → p.board.sackedAt seq = true) :
    Marks new p q := by
  refine ⟨by rw [hb], by rw [hb], ?_, hc, by rw [hs, hl]⟩
  intro seq
  rw [hb]
  constructor
  · exact Or.inl
  · rintro (h1 | ⟨h1, h2, h3⟩)
    · exact h1
    · exact hnew seq h1 h2 h3

/-- A block that is applied enters the filter, all of its bytes being SACKED then. -/
theorem Sound.insert_filter (hq : q.Sound) (hm : Marks (fun seq => x.contains seq = true) p q)
    (hlo : p.board.una ≤ x.start) (hhi : x.stop ≤ p.board.top) :
    Sound { q with tracker := { q.tracker with filter := q.tracker.filter.insert x } } := by
  refine ⟨hq.board, hq.counts, ⟨hq.tracker.canonical.insert, ?_, hq.tracker.una_le,
    hq.tracker.sacked_lt, hq.tracker.reached⟩⟩
  intro seq hs hseq
  rcases hq.tracker.canonical.of_insert hs with hs | hs
  · exact hq.tracker.filter seq hs hseq
  · have hb := SeqRange.contains_iff.mp hs
    exact (hm.sacked seq).mpr (Or.inr ⟨by omega, by omega, hs⟩)

theorem Sound.markBlock (h : p.Sound) (hx : x.start < x.stop) (hlo : p.board.una ≤ x.start)
    (hhi : x.stop ≤ p.board.top) : (p.markBlock i x).Sound := by
  have hfilter : (p.markBlock i x).tracker.filter = p.tracker.filter := sackWalk_filter
  obtain ⟨h1, h2, h3⟩ := h.markBlock_highest (i := i) hx hlo hhi
  refine ⟨?_, ⟨h.markBlock_sackedBytes hx, h.markBlock_holeBytes hx⟩,
    ⟨?_, ?_, h1, h2, h3⟩⟩
  · rw [markBlock_board]
    exact (h.board.sack hx _).coalesce _
  · rw [hfilter]
    exact h.tracker.canonical
  · intro seq hs hseq
    rw [hfilter] at hs
    rw [h.markBlock_sackedAt hx hlo hhi, h.tracker.filter seq hs hseq, Bool.true_or]

theorem Sound.applyBlock (h : p.Sound) (i : AckInput) (x : SeqRange) :
    (p.applyBlock i x).Sound ∧
    Marks (fun seq => p.refuses x = false ∧ x.stop ≤ p.board.top ∧ x.contains seq = true) p
      (p.applyBlock i x) ∧
    (p.applyBlock i x).outcome.refused = p.outcome.refused + (p.refuses x).toNat := by
  have part : ∀ seq, p.board.una ≤ seq →
      ((outstandingPart p.board x).contains seq = true ↔ x.contains seq = true) := by
    intro seq hseq
    rw [SeqRange.contains_iff, SeqRange.contains_iff]
    show max x.start p.board.una ≤ seq ∧ seq < x.stop ↔ _
    omega
  rcases applyBlock_cases i p x with ⟨hproper, he⟩ | ⟨hproper, hknown, he⟩ | ⟨hrefused, he⟩ |
    ⟨hrefused, hproper, -, he⟩ <;> rw [he]
  · -- No outstanding byte lies in a block that makes no sense.
    refine ⟨⟨h.board, h.counts, h.tracker⟩, marks_of_known rfl rfl rfl rfl ?_, ?_⟩
    · rintro seq h1 - ⟨-, h2, h3⟩
      have hnot : ¬ isProper p.board x = true := by
        rw [hproper]
        exact Bool.false_ne_true
      rw [isProper_iff] at hnot
      rw [SeqRange.contains_iff] at h3
      omega
    · rw [refuses, hproper]
      rfl
  · -- The filter holds nothing but what has arrived.
    refine ⟨⟨h.board, h.counts, h.tracker⟩, marks_of_known rfl rfl rfl rfl ?_, ?_⟩
    · rintro seq h1 - ⟨-, -, h3⟩
      exact h.tracker.filter seq (RangeSet.holds_of_covers hknown ((part seq h1).mpr h3)) h1
    · rw [refuses, hproper, hknown]
      rfl
  · -- A refused block marks nothing.
    refine ⟨⟨h.board, h.counts, h.tracker⟩, marks_of_known rfl rfl rfl rfl ?_, ?_⟩
    · rintro seq - - ⟨h1, -, -⟩
      rw [hrefused] at h1
      exact Bool.noConfusion h1
    · rw [hrefused]
      rfl
  · -- Of an applied block, the part above the left edge is marked.
    have hx := start_lt_outstandingPart hproper
    rw [isProper_iff] at hproper
    have hlo : p.board.una ≤ (outstandingPart p.board x).start := Nat.le_max_right _ _
    have hm := h.marks_markBlock (i := i) hx hlo hproper.2.1
    refine ⟨(h.markBlock hx hlo hproper.2.1).insert_filter hm hlo hproper.2.1,
      ⟨hm.una, hm.top, ?_, hm.cumulative, hm.newly⟩, ?_⟩
    · intro seq
      rw [hm.sacked seq]
      apply or_congr_right
      apply and_congr_right
      intro h1
      rw [part seq h1]
      exact and_congr_right fun _ =>
        ⟨fun h3 => ⟨hrefused, hproper.2.1, h3⟩, fun h3 => h3.2.2⟩
    · rw [hrefused]
      exact sackWalk_outcome.2

/-! ## All blocks -/

/-- The blocks of a list that are not refused when they are applied one after another. -/
def takenBlocks (i : AckInput) (p : AckPass) : List SeqRange → List SeqRange
  | [] => []
  | x :: rest =>
    if p.refuses x then takenBlocks i (p.applyBlock i x) rest
    else x :: takenBlocks i (p.applyBlock i x) rest

theorem takenBlocks_cons {rest : List SeqRange} : takenBlocks i p (x :: rest)
    = if p.refuses x then takenBlocks i (p.applyBlock i x) rest
      else x :: takenBlocks i (p.applyBlock i x) rest := rfl

theorem Sound.foldBlocks (h : p.Sound) (i : AckInput) (blocks : List SeqRange) :
    (blocks.foldl (AckPass.applyBlock i) p).Sound ∧
    Marks (fun seq => ∃ x ∈ takenBlocks i p blocks, x.stop ≤ p.board.top ∧ x.contains seq = true) p
      (blocks.foldl (AckPass.applyBlock i) p) ∧
    (blocks.foldl (AckPass.applyBlock i) p).outcome.refused + (takenBlocks i p blocks).length
      = p.outcome.refused + blocks.length := by
  -- Which blocks are refused depends on the scoreboard they meet, so the pass goes along.
  induction blocks generalizing p with
  | nil =>
    refine ⟨h, marks_of_known rfl rfl rfl rfl ?_, rfl⟩
    rintro seq - - ⟨x, hx, -⟩
    exact absurd hx List.not_mem_nil
  | cons x rest ih =>
    obtain ⟨hs, hm, hr⟩ := h.applyBlock i x
    obtain ⟨hs', hm', hr'⟩ := ih hs
    rw [List.foldl_cons]
    refine ⟨hs', (hm.trans hm').congr fun seq _ _ => ?_, ?_⟩
    · rw [hm.top, takenBlocks_cons]
      cases hrefused : p.refuses x with
      | true => simp
      | false => simp
    · rw [takenBlocks_cons]
      cases hrefused : p.refuses x with
      | true =>
        rw [if_pos rfl, List.length_cons]
        rw [hrefused] at hr
        simp only [Bool.toNat_true] at hr
        omega
      | false =>
        rw [if_neg Bool.false_ne_true, List.length_cons, List.length_cons]
        rw [hrefused] at hr
        simp only [Bool.toNat_false] at hr
        omega

/-- What the bytes that the blocks leave missing inherit. -/
theorem Sound.inherits_foldBlocks {α : Type} {f : SendRecord → α}
    (hf : ∀ {p r : SendRecord}, p.IsPart r → f p = f r) (h : p.Sound) (i : AckInput)
    (blocks : List SeqRange) : p.board.Inherits f (blocks.foldl (AckPass.applyBlock i) p).board := by
  induction blocks generalizing p with
  | nil => exact .refl f p.board
  | cons x rest ih =>
    refine Scoreboard.Inherits.trans ?_ (ih (h.applyBlock i x).1)
    rcases applyBlock_cases i p x with ⟨-, he⟩ | ⟨-, -, he⟩ | ⟨-, he⟩ | ⟨-, hproper, -, he⟩ <;>
      rw [he]
    · exact .refl f p.board
    · exact .refl f p.board
    · exact .refl f p.board
    · exact h.inherits_markBlock hf (start_lt_outstandingPart hproper)

/-! ## The whole ack -/

/-- A pass after the left edge was moved up to the cumulative ack, if that lies above it. -/
def atEdge (i : AckInput) (p : AckPass) : AckPass :=
  if p.board.una < i.ack.cumulative then p.advance i else p

/-- A pass before the first block. -/
def beforeBlocks (i : AckInput) (p : AckPass) : AckPass :=
  ((p.atEdge i).noteDuplicateAck i).checkWindow i

/-- The blocks of the ack that a pass does not refuse, in ascending order of their starts. -/
def taken (i : AckInput) (p : AckPass) : List SeqRange :=
  takenBlocks i (p.beforeBlocks i) (Sorting.sortByKey (·.start) i.ack.blocks)

theorem run_eq (i : AckInput) (p : AckPass) : p.run i =
    match i.ack.duplicate with
    | some x => ((p.beforeBlocks i).applyBlocks i).countAgainst.applyDuplicate i x
    | none => ((p.beforeBlocks i).applyBlocks i).countAgainst := rfl

/-- What moving the left edge up to the cumulative ack does. -/
structure Edged (i : AckInput) (p q : AckPass) : Prop where
  una : q.board.una = max p.board.una i.ack.cumulative
  top : q.board.top = p.board.top
  sackedAt : ∀ seq, q.board.una ≤ seq → q.board.sackedAt seq = p.board.sackedAt seq
  cumulative : q.outcome.cumulative = p.outcome.cumulative
    + countBytes (fun s => !p.board.sackedAt s) p.board.una q.board.una
  sacked : q.outcome.sacked = p.outcome.sacked
  refused : q.outcome.refused = p.outcome.refused

theorem Sound.atEdge (h : p.Sound) (hhi : i.ack.cumulative ≤ p.board.top) :
    (p.atEdge i).Sound ∧ Edged i p (p.atEdge i) := by
  unfold AckPass.atEdge
  by_cases hlo : p.board.una < i.ack.cumulative
  · rw [if_pos hlo]
    have hb := advance_board (i := i) (p := p)
    refine ⟨h.advance hlo hhi, ?_, ?_, ?_, ?_, ?_, ?_⟩
    · rw [hb]
      exact (Nat.max_eq_right (Nat.le_of_lt hlo)).symm
    · rw [hb]
      rfl
    · intro seq hseq
      rw [hb] at hseq ⊢
      exact h.board.sackedAt_release (Nat.le_of_lt hlo) hhi hseq
    · rw [hb]
      exact h.advance_cumulative hlo hhi
    · exact releaseWalk_outcome.1
    · exact releaseWalk_outcome.2
  · rw [if_neg hlo]
    refine ⟨h, (Nat.max_eq_left (Nat.le_of_not_lt hlo)).symm, rfl, fun _ _ => rfl, ?_, rfl, rfl⟩
    simp [countBytes]

theorem Sound.beforeBlocks (h : p.Sound) (hhi : i.ack.cumulative ≤ p.board.top) :
    (p.beforeBlocks i).Sound :=
  quiet_checkWindow.sound (quiet_noteDuplicateAck.sound (h.atEdge hhi).1)

/-- A pass over an ack keeps what goes with the scoreboard fitting, and marks exactly the bytes of
the blocks taken. -/
theorem Sound.run (h : p.Sound) (hhi : i.ack.cumulative ≤ p.board.top) :
    (p.run i).Sound ∧
    Marks (fun seq => ∃ x ∈ p.taken i, x.stop ≤ p.board.top ∧ x.contains seq = true) (p.atEdge i)
      (p.run i) ∧
    (p.run i).outcome.refused + (p.taken i).length = p.outcome.refused + i.ack.blocks.length := by
  obtain ⟨hedge, he⟩ := h.atEdge hhi
  -- Between the edge and the blocks, and after the blocks, records are only relabelled.
  have q1 : Quiet (p.atEdge i) ((p.atEdge i).noteDuplicateAck i) := quiet_noteDuplicateAck
  have s1 := q1.sound hedge
  have q2 : Quiet ((p.atEdge i).noteDuplicateAck i) (p.beforeBlocks i) := quiet_checkWindow
  have s2 := q2.sound s1
  obtain ⟨s3, m3, r3⟩ := s2.foldBlocks i (Sorting.sortByKey (·.start) i.ack.blocks)
  have q4 : Quiet ((p.beforeBlocks i).applyBlocks i) ((p.beforeBlocks i).applyBlocks i).countAgainst :=
    quiet_countAgainst s3.board
  have s4 := q4.sound s3
  have q5 : Quiet ((p.beforeBlocks i).applyBlocks i).countAgainst (p.run i) := by
    rw [run_eq]
    cases i.ack.duplicate with
    | none => exact Quiet.of_eq rfl rfl ⟨rfl, rfl⟩ ⟨rfl, rfl, rfl, rfl⟩ rfl
    | some x => exact quiet_applyDuplicate
  have htop : (p.beforeBlocks i).board.top = p.board.top :=
    ((q2.marks s1).top.trans (q1.marks hedge).top).trans he.top
  refine ⟨q5.sound s4, ?_, ?_⟩
  · have m12 := (q1.marks hedge).trans (q2.marks s1)
    have m45 := (q4.marks s3).trans (q5.marks s4)
    apply ((m12.trans m3).trans m45).congr
    intro seq _ _
    rw [htop]
    simp [taken]
  · rw [Sorting.length_sortByKey] at r3
    show _ + (takenBlocks i (p.beforeBlocks i) _).length = _
    rw [q5.refused, q4.refused]
    rw [q2.refused, q1.refused, he.refused] at r3
    exact r3

theorem process_eq_ok (hhi : i.ack.cumulative ≤ p.board.top) : p.process i = .ok (p.run i) :=
  if_neg (Nat.not_lt.mpr hhi)

theorem process_ok (h : p.process i = .ok q) : i.ack.cumulative ≤ p.board.top ∧ q = p.run i := by
  unfold process at h
  split at h
  · cases h
  · next hle =>
    injection h with h
    exact ⟨Nat.le_of_not_lt hle, h.symm⟩

/-! ## Induction over a pass -/

/-- From `p` to `q`, records were relabelled, no delivery was remembered and no RTT was measured. -/
structure Still (p q : AckPass) : Prop where
  board : ∃ f, SendRecord.Relabels f ∧ q.board = p.board.modify f
  sentAt : q.recent.sentAt = p.recent.sentAt
  stop : q.recent.stop = p.recent.stop
  rtt : q.recent.rtt = p.recent.rtt
  factor : p.recent.multiplier ≤ RecentAck.maxMultiplier → q.recent.multiplier ≤ RecentAck.maxMultiplier
  measured : q.outcome.measured = p.outcome.measured

theorem Quiet.still (h : Quiet p q) : Still p q := by
  obtain ⟨f, hf, -, hb⟩ := h.board
  exact ⟨⟨f, hf, hb⟩, h.sentAt, h.stop, h.rtt, h.factor, h.measured⟩

theorem Still.of_eq (hb : q.board = p.board) (hr : q.recent = p.recent)
    (ho : q.outcome.measured = p.outcome.measured) : Still p q := by
  refine ⟨⟨id, .id, ?_⟩, by rw [hr], by rw [hr], by rw [hr], by rw [hr]; exact id, ho⟩
  rw [hb]
  unfold Scoreboard.modify
  rw [List.map_id]

/-- A property that relabelling, a new left edge and marked blocks keep. -/
structure Kept (i : AckInput) (Q : AckPass → Prop) : Prop where
  still : ∀ {p q}, p.Sound → Still p q → Q p → Q q
  advance : ∀ {p}, p.Sound → p.board.una < i.ack.cumulative → i.ack.cumulative ≤ p.board.top →
    Q p → Q (p.advance i)
  mark : ∀ {p x}, p.Sound → x.start < x.stop → p.board.una ≤ x.start → x.stop ≤ p.board.top →
    p.board.cutsFit x = true → Q p → Q (p.markBlock i x)

variable {Q : AckPass → Prop}

theorem Kept.applyBlock (hQ : Kept i Q) (h : p.Sound) (hp : Q p) (x : SeqRange) :
    Q (p.applyBlock i x) := by
  rcases applyBlock_cases i p x with ⟨-, he⟩ | ⟨-, -, he⟩ | ⟨-, he⟩ | ⟨-, hproper, hfits, he⟩ <;>
    rw [he]
  · exact hQ.still h (.of_eq rfl rfl rfl) hp
  · exact hQ.still h (.of_eq rfl rfl rfl) hp
  · exact hQ.still h (.of_eq rfl rfl rfl) hp
  · have hx := start_lt_outstandingPart hproper
    rw [isProper_iff] at hproper
    have hlo : p.board.una ≤ (outstandingPart p.board x).start := Nat.le_max_right _ _
    exact hQ.still (h.markBlock hx hlo hproper.2.1) (.of_eq rfl rfl rfl)
      (hQ.mark h hx hlo hproper.2.1 hfits hp)

theorem Kept.foldBlocks (hQ : Kept i Q) (h : p.Sound) (hp : Q p) (blocks : List SeqRange) :
    Q (blocks.foldl (AckPass.applyBlock i) p) := by
  induction blocks generalizing p with
  | nil => exact hp
  | cons x rest ih => exact ih (h.applyBlock i x).1 (hQ.applyBlock h hp x)

/-- What the steps keep, a pass over an ack keeps. -/
theorem Kept.run (hQ : Kept i Q) (h : p.Sound) (hhi : i.ack.cumulative ≤ p.board.top) (hp : Q p) :
    Q (p.run i) := by
  have hedge := (h.atEdge hhi).1
  -- One fact after each step: it is sound, and `Q` holds there.
  have p0 : Q (p.atEdge i) := by
    unfold AckPass.atEdge
    split
    · next hlo => exact hQ.advance h hlo hhi hp
    · exact hp
  have q1 : Quiet (p.atEdge i) ((p.atEdge i).noteDuplicateAck i) := quiet_noteDuplicateAck
  have s1 := q1.sound hedge
  have q2 : Quiet ((p.atEdge i).noteDuplicateAck i) (p.beforeBlocks i) := quiet_checkWindow
  have s2 := q2.sound s1
  have p2 := hQ.still s1 q2.still (hQ.still hedge q1.still p0)
  have s3 := (s2.foldBlocks i (Sorting.sortByKey (·.start) i.ack.blocks)).1
  have p3 : Q ((p.beforeBlocks i).applyBlocks i) := hQ.foldBlocks s2 p2 _
  have q4 : Quiet ((p.beforeBlocks i).applyBlocks i) ((p.beforeBlocks i).applyBlocks i).countAgainst :=
    quiet_countAgainst s3.board
  have s4 := q4.sound s3
  have p4 := hQ.still s3 q4.still p3
  rw [run_eq]
  cases i.ack.duplicate with
  | none => exact p4
  | some x => exact hQ.still s4 quiet_applyDuplicate.still p4

end AckPass

end LossRecovery
