import LossRecovery.Proofs.Sessions

/-!
# `LossRecovery.Proofs.SackExactness` — acks are exact to the byte

After an ack, exactly those outstanding bytes are SACKed that were SACKed before or lie in a block
that makes sense and was not refused at the record limit. Blocks left out because the filter knows
them are no exception, since the filter knows only what has arrived.

## Contents
- `AckPass.Exact i p q`: what a pass from `p` to `q` changes about bytes, and counts.
- `Sound.exact`: every pass is exact; `Exact.two`: two passes, one after the other.
- `Reachable.ack_exact`: both, for every reachable session.
-/

namespace LossRecovery

namespace AckPass

variable {i j : AckInput} {p q : AckPass}

/-- The pass that the next ack begins with. -/
def next (p : AckPass) : AckPass :=
  { board := p.board, tracker := p.tracker, ledger := p.ledger, recent := p.recent }

theorem Sound.next (h : p.Sound) : p.next.Sound := ⟨h.board, h.counts, h.tracker⟩

/-- What a pass from `p` to `q` changes about bytes, and counts. -/
structure Exact (i : AckInput) (p q : AckPass) : Prop where
  /-- The left edge moves up to the cumulative ack. -/
  una : q.board.una = max p.board.una i.ack.cumulative
  top : q.board.top = p.board.top
  /-- The blocks that were not refused are blocks of the ack. -/
  taken : (p.taken i).Sublist (Sorting.sortByKey (·.start) i.ack.blocks)
  /-- The others are counted. -/
  refused : q.outcome.refused + (p.taken i).length = i.ack.blocks.length
  sacked : ∀ seq, q.board.una ≤ seq → seq < q.board.top → (q.board.sackedAt seq = true ↔
    p.board.sackedAt seq = true ∨
      ∃ x ∈ p.taken i, x.start < x.stop ∧ x.stop ≤ p.board.top ∧ x.contains seq = true)
  /-- Newly acknowledged are the bytes below the new edge that were not SACKed. -/
  cumulative : q.outcome.cumulative
    = countBytes (fun seq => !p.board.sackedAt seq) p.board.una q.board.una
  /-- Newly SACKed are the bytes above it that became SACKed. -/
  newly : q.outcome.sacked
    = countBytes (fun seq => q.board.sackedAt seq && !p.board.sackedAt seq) q.board.una q.board.top
  /-- The highest number is the left edge, or the highest end of a SACKED record. -/
  highest : q.tracker.highest
    = ((q.board.records.filter (·.flags.sacked)).map (·.stop)).foldl max q.board.una

theorem takenBlocks_sublist (i : AckInput) (p : AckPass) (blocks : List SeqRange) :
    (takenBlocks i p blocks).Sublist blocks := by
  induction blocks generalizing p with
  | nil => exact List.Sublist.slnil
  | cons x rest ih =>
    rw [takenBlocks_cons]
    split
    · exact (ih _).cons x
    · exact (ih _).cons_cons x

/-- The highest number of a tracker, read off the records. -/
theorem Sound.highest_eq (h : p.Sound) : p.tracker.highest
    = ((p.board.records.filter (·.flags.sacked)).map (·.stop)).foldl max p.board.una := by
  obtain ⟨hge, hall, hreach⟩ := foldl_max_spec (p.board.records.filter (·.flags.sacked)) (·.stop)
    p.board.una
  rw [List.foldl_map]
  have hmem : ∀ r ∈ p.board.records.filter (·.flags.sacked), r.stop ≤ p.tracker.highest := by
    intro r hr
    obtain ⟨hrb, hsk⟩ := List.mem_filter.mp hr
    have hne := (h.board.tiles.bounds hrb).2.1
    have hlast : p.board.sackedAt (r.stop - 1) = true := by
      rw [h.board.sackedAt_eq ⟨hrb, SendRecord.contains_iff.mpr (by omega)⟩]
      exact hsk
    have := h.tracker.sacked_lt _ hlast
    omega
  refine Nat.le_antisymm ?_ ?_
  · rcases h.tracker.reached with he | he
    · rw [he]
      exact hge
    · -- The last byte below the highest number is in a SACKED record.
      have hb := h.board.bounds_of_sackedAt he
      obtain ⟨r, hr⟩ := h.board.exists_holds hb.1 hb.2
      have hc := SendRecord.contains_iff.mp hr.2
      rw [h.board.sackedAt_eq hr] at he
      have := hall r (List.mem_filter.mpr ⟨hr.1, he⟩)
      omega
  · rcases hreach with he | ⟨r, hr, he⟩
    · rw [he]
      exact h.tracker.una_le
    · rw [he]
      exact hmem r hr

/-- Every pass over an ack within the data sent is exact. -/
theorem Sound.exact (h : p.Sound) (hfresh : p.outcome = {})
    (hle : i.ack.cumulative ≤ p.board.top) : Exact i p (p.run i) := by
  obtain ⟨hedge, he⟩ := h.atEdge hle
  obtain ⟨hrun, hm, hr⟩ := h.run hle
  have hempty : p.outcome.cumulative = 0 ∧ p.outcome.sacked = 0 ∧ p.outcome.refused = 0 := by
    rw [hfresh]
    exact ⟨rfl, rfl, rfl⟩
  obtain ⟨hcum, hsk, href⟩ := hempty
  have hsacked : ∀ seq, (p.run i).board.una ≤ seq →
      (p.atEdge i).board.sackedAt seq = p.board.sackedAt seq := by
    intro seq hseq
    rw [hm.una] at hseq
    exact he.sackedAt seq hseq
  refine ⟨hm.una.trans he.una, hm.top.trans he.top, takenBlocks_sublist _ _ _, ?_,
    ?_, ?_, ?_, hrun.highest_eq⟩
  · rw [href, Nat.zero_add] at hr
    exact hr
  · intro seq hlo hhi
    rw [hm.sacked seq, hsacked seq hlo, ← hm.una, ← hm.top]
    refine or_congr_right ⟨?_, ?_⟩
    · rintro ⟨-, -, x, hx, hstop, hc⟩
      have hb := SeqRange.contains_iff.mp hc
      exact ⟨x, hx, by omega, hstop, hc⟩
    · rintro ⟨x, hx, -, hstop, hc⟩
      exact ⟨hlo, hhi, x, hx, hstop, hc⟩
  · rw [hm.cumulative, he.cumulative, hcum, hm.una, Nat.zero_add]
  · -- The counters of the ledger count the SACKed bytes before and after the blocks.
    have hnewly := hm.newly
    rw [hedge.counts.sacked, hrun.counts.sacked, ← countBytes_sackedAt hedge.board,
      ← countBytes_sackedAt hrun.board, he.sacked, hsk, ← hm.una, ← hm.top,
      countBytes_congr fun seq hlo _ => hsacked seq hlo] at hnewly
    have himp := countBytes_of_imp p.board.sackedAt (p.run i).board.sackedAt (p.run i).board.una
      (p.run i).board.top fun seq hlo _ hseq => by
        rw [← hsacked seq hlo] at hseq
        exact (hm.sacked seq).mpr (Or.inl hseq)
    omega

/-- If nothing was refused, all blocks were taken. -/
theorem Exact.taken_eq (h : Exact i p q) (hr : q.outcome.refused = 0) :
    p.taken i = Sorting.sortByKey (·.start) i.ack.blocks := by
  refine h.taken.eq_of_length ?_
  have := h.refused
  rw [Sorting.length_sortByKey]
  omega

/-- The SACKed bytes after an ack of which nothing was refused. -/
theorem Exact.sackedAt_iff (h : Exact i p q) (hr : q.outcome.refused = 0) {seq : Nat}
    (hlo : q.board.una ≤ seq) (hhi : seq < q.board.top) : q.board.sackedAt seq = true ↔
      p.board.sackedAt seq = true ∨
        ∃ x ∈ i.ack.blocks, x.start < x.stop ∧ x.stop ≤ p.board.top ∧ x.contains seq = true := by
  rw [h.sacked seq hlo hhi, h.taken_eq hr]
  simp only [Sorting.mem_sortByKey]

/-- Two acks of which nothing is refused, taken in one after the other. -/
theorem Exact.two {q' : AckPass} (h : Exact i p q) (h' : Exact j q.next q')
    (hr : q.outcome.refused = 0) (hr' : q'.outcome.refused = 0) :
    q'.board.una = max (max p.board.una i.ack.cumulative) j.ack.cumulative ∧
    q'.board.top = p.board.top ∧
    ∀ seq, q'.board.una ≤ seq → seq < q'.board.top → (q'.board.sackedAt seq = true ↔
      (p.board.sackedAt seq = true ∨
        ∃ x ∈ i.ack.blocks, x.start < x.stop ∧ x.stop ≤ p.board.top ∧ x.contains seq = true) ∨
      ∃ x ∈ j.ack.blocks, x.start < x.stop ∧ x.stop ≤ p.board.top ∧ x.contains seq = true) := by
  have hu : q'.board.una = max q.board.una j.ack.cumulative := h'.una
  have ht : q'.board.top = q.board.top := h'.top
  refine ⟨by rw [hu, h.una], ht.trans h.top, ?_⟩
  intro seq hlo hhi
  have hold : q.board.una ≤ seq ∧ seq < q.board.top := by omega
  rw [h'.sackedAt_iff hr' hlo hhi]
  show q.board.sackedAt seq = true ∨ _ ↔ _
  rw [h.sackedAt_iff hr hold.1 hold.2]
  show _ ∨ (∃ x ∈ j.ack.blocks, x.start < x.stop ∧ x.stop ≤ q.board.top ∧ _) ↔ _
  rw [h.top]

end AckPass

open AckPass

/-- Every ack within the data sent is exact, and of two acks of which nothing is refused in either
order, the order does not matter. -/
theorem Session.Reachable.ack_exact {κ : Type} [CongestionLaw κ] {s : Session κ}
    (h : s.Reachable) :
    (∀ i : AckInput, i.ack.cumulative ≤ s.engine.board.top →
      ∃ q, process i s.engine.passState = .ok q ∧ Exact i s.engine.passState q) ∧
    (∀ i i' j j' : AckInput, i'.ack = i.ack → j'.ack = j.ack →
      i.ack.cumulative ≤ s.engine.board.top → j.ack.cumulative ≤ s.engine.board.top →
      ∃ q₁ q₂ q₁' q₂', process i s.engine.passState = .ok q₁ ∧ process j q₁.next = .ok q₂ ∧
        process j' s.engine.passState = .ok q₁' ∧ process i' q₁'.next = .ok q₂' ∧
        (q₁.outcome.refused = 0 → q₂.outcome.refused = 0 → q₁'.outcome.refused = 0 →
          q₂'.outcome.refused = 0 →
          q₂.board.una = q₂'.board.una ∧
            ∀ seq, q₂.board.sackedAt seq = q₂'.board.sackedAt seq)) := by
  have hp := h.running.sound.passState
  -- A pass goes through, is exact, and leaves what the next one needs.
  have pass : ∀ {p : AckPass} (i : AckInput), p.Sound → p.outcome = {} →
      i.ack.cumulative ≤ p.board.top →
      ∃ q, process i p = .ok q ∧ Exact i p q ∧ q.Sound := fun {p} i hs hf hle =>
    ⟨_, process_eq_ok hle, hs.exact hf hle, (hs.run hle).1⟩
  constructor
  · intro i hle
    obtain ⟨q, hq, hexact, -⟩ := pass i hp rfl hle
    exact ⟨q, hq, hexact⟩
  · intro i i' j j' hi hj hile hjle
    obtain ⟨q₁, hq₁, e₁, s₁⟩ := pass i hp rfl hile
    obtain ⟨q₂, hq₂, e₂, s₂⟩ := pass j s₁.next rfl
      (by rw [show q₁.next.board.top = _ from e₁.top]; exact hjle)
    obtain ⟨q₁', hq₁', e₁', s₁'⟩ := pass j' hp rfl (by rw [hj]; exact hjle)
    obtain ⟨q₂', hq₂', e₂', s₂'⟩ := pass i' s₁'.next rfl
      (by rw [show q₁'.next.board.top = _ from e₁'.top, hi]; exact hile)
    refine ⟨q₁, q₂, q₁', q₂', hq₁, hq₂, hq₁', hq₂', ?_⟩
    intro r₁ r₂ r₁' r₂'
    obtain ⟨hu, ht, hs⟩ := e₁.two e₂ r₁ r₂
    obtain ⟨hu', ht', hs'⟩ := e₁'.two e₂' r₁' r₂'
    rw [hi, hj] at hu' hs'
    have huna : q₂.board.una = q₂'.board.una := by
      rw [hu, hu']
      omega
    refine ⟨huna, ?_⟩
    intro seq
    by_cases hin : q₂.board.una ≤ seq ∧ seq < q₂.board.top
    · rw [Bool.eq_iff_iff, hs seq hin.1 hin.2, hs' seq (by omega) (by omega), or_assoc, or_assoc]
      exact or_congr_right or_comm
    · rw [s₂.board.sackedAt_eq_false (by omega), s₂'.board.sackedAt_eq_false (by omega)]

/-- Overlapping blocks on top of a SACKed segment, one of them beyond the data sent, and an ack of
the first segment, in either order. -/
theorem ack_exact_overlapping : ∃ s : Session FixedWindow, s.Reachable ∧
    s.engine.board.sackedAt 1460 = true ∧
    ∃ q₁ q₂ q₁' q₂',
      process ⟨{ cumulative := 0, blocks := [⟨2000, 3500⟩, ⟨1000, 2000⟩, ⟨4000, 9000⟩] }, 0, 60⟩
        s.engine.passState = .ok q₁ ∧
      process ⟨{ cumulative := 1460 }, 0, 60⟩ q₁.next = .ok q₂ ∧
      process ⟨{ cumulative := 1460 }, 0, 60⟩ s.engine.passState = .ok q₁' ∧
      process ⟨{ cumulative := 0, blocks := [⟨2000, 3500⟩, ⟨1000, 2000⟩, ⟨4000, 9000⟩] }, 0, 60⟩
        q₁'.next = .ok q₂' ∧
      q₂.board.una = 1460 ∧ q₂'.board.una = 1460 ∧
      ∀ seq, q₂.board.sackedAt seq = q₂'.board.sackedAt seq := by
  have started : Engine.start {} (FixedWindow.ofSettings {}) .discard 0 0 = .ok _ := rfl
  have sent := (Session.Reachable.start started).step
    (.send ⟨0, 4380⟩ {} 0 (Nat.zero_le _) ⟨rfl, rfl⟩)
  have acked := sent.step (.ack { cumulative := 0, blocks := [⟨1460, 2920⟩] } 50)
  obtain ⟨q₁, q₂, q₁', q₂', h₁, h₂, h₁', h₂', hsame⟩ := (Session.Reachable.ack_exact acked).2
    ⟨{ cumulative := 0, blocks := [⟨2000, 3500⟩, ⟨1000, 2000⟩, ⟨4000, 9000⟩] }, 0, 60⟩ _
    ⟨{ cumulative := 1460 }, 0, 60⟩ _ rfl rfl (by decide +kernel) (by decide +kernel)
  have e₁ := (process_ok h₁).2
  have e₂ := (process_ok h₂).2
  have e₁' := (process_ok h₁').2
  have e₂' := (process_ok h₂').2
  subst e₁ e₁' e₂ e₂'
  obtain ⟨-, hbytes⟩ := hsame (by decide +kernel) (by decide +kernel) (by decide +kernel)
    (by decide +kernel)
  exact ⟨_, acked, rfl, _, _, _, _, h₁, h₂, h₁', h₂', by decide +kernel, by decide +kernel, hbytes⟩

end LossRecovery
