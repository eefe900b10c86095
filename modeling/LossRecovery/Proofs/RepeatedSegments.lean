import LossRecovery.Proofs.ReceivedBlocks

/-!
# `LossRecovery.Proofs.RepeatedSegments` — how an ack tells what arrived twice

On the wire a repeated segment has no field of its own. The receiver puts it in front of its blocks, and
the sender knows it by its place: below the cumulative ack, or inside the block after it. Blocks leave
gaps, so none of them is ever taken for a repeated segment. But a repeated segment does not move its block
to the front, and where another block is listed first, it is taken for a block.

## Contents
- `Ack.reportsDuplicate_iff`, `Ack.ofWire_reported`, `Ack.ofWire_unreported`: reading blocks off the wire.
- `Tidy.unreported`: the blocks of a receiver alone report nothing.
- `Tidy.reported_iff`: which repeated segments are known as such.
- `Tidy.ack_of_new`, `ack_of_reported`, `ack_of_unreported`: the three acks a segment may be answered with.
- `Fed.reports_repeated`: the duplicate report and the blocks of every ack, by what was received.
-/

namespace LossRecovery

/-! ## Reading blocks off the wire -/

namespace Ack

variable {x : SeqRange} {wire rest : List SeqRange} {c w : Nat}

theorem reportsDuplicate_iff : reportsDuplicate c x rest = true ↔
    x.stop ≤ c ∨ ∃ b, rest.head? = some b ∧ x.within b = true := by
  simp [reportsDuplicate, Option.any_eq_true]

theorem ofWire_reported (h : reportsDuplicate c x rest = true) :
    ofWire c (x :: rest) w
      = { cumulative := c, blocks := rest, duplicate := some x, window := w } :=
  if_pos h

theorem ofWire_unreported
    (h : ∀ x rest, wire = x :: rest → reportsDuplicate c x rest = false) :
    ofWire c wire w = { cumulative := c, blocks := wire, window := w } := by
  cases wire with
  | nil => rfl
  | cons x rest =>
    have hno : ¬ reportsDuplicate c x rest = true := by
      rw [h x rest rfl]
      exact Bool.false_ne_true
    exact if_neg hno

end Ack

namespace Receiver

open SeqRange (Apart AnyHolds)

variable {r : Receiver} {x b q : SeqRange} {xs : List SeqRange} {isn : Nat}

/-! ## Which segments are known for repeated ones -/

theorem not_within_of_apart (hx : x.start < x.stop) (hbq : Apart b q) (hb : x.within b = true) :
    ¬ x.within q = true := by
  intro hq
  rw [SeqRange.within_iff] at hb hq
  unfold Apart at hbq
  omega

theorem head?_reported (r : Receiver) : (r.blocks.take reported).head? = r.blocks.head? := by
  rw [List.head?_take]
  rfl

namespace Tidy

/-- The first of the blocks lies above the cumulative ack, and it is not inside the second. -/
theorem unreported (h : r.Tidy) (x : SeqRange) (rest : List SeqRange)
    (hwire : r.blocks.take reported = x :: rest) :
    Ack.reportsDuplicate r.cumulative x rest = false := by
  have hsub : (x :: rest).Sublist r.blocks := hwire ▸ List.take_sublist _ _
  have hx : x ∈ r.blocks := hsub.subset List.mem_cons_self
  have habove := h.above x hx
  have hfilled := h.separate.filled x hx
  obtain ⟨hapart, -⟩ := List.pairwise_cons.mp (h.separate.apart.sublist hsub)
  rw [Bool.eq_false_iff, ne_eq, Ack.reportsDuplicate_iff]
  rintro (hbelow | ⟨b, hb, hin⟩)
  · omega
  · have hself : x.within x = true := SeqRange.within_iff.mpr ⟨Nat.le_refl _, Nat.le_refl _⟩
    exact not_within_of_apart hfilled (hapart b (List.mem_of_head? hb)) hself hin

/-- A repeated segment is known by its place unless it lies in a block that is not listed first. -/
theorem reported_iff (h : r.Tidy) (hx : x.start < x.stop) (hdup : r.isDuplicate x = true) :
    Ack.reportsDuplicate r.cumulative x (r.blocks.take reported) = true ↔
      ∀ b ∈ r.blocks.tail, ¬ x.within b = true := by
  unfold isDuplicate at hdup
  rw [Bool.or_eq_true, decide_eq_true_eq, List.any_eq_true] at hdup
  rw [Ack.reportsDuplicate_iff, head?_reported]
  constructor
  · rintro (hbelow | ⟨first, hfirst, hin⟩) b hb
    · have habove := h.above b (List.mem_of_mem_tail hb)
      rw [SeqRange.within_iff]
      omega
    · obtain ⟨rest, hblocks⟩ := List.head?_eq_some_iff.mp hfirst
      have hapart := h.separate.apart
      rw [hblocks] at hapart hb
      exact not_within_of_apart hx ((List.pairwise_cons.mp hapart).1 b hb) hin
  · intro hbehind
    rcases hdup with hbelow | ⟨b, hb, hin⟩
    · exact .inl hbelow
    · refine .inr ⟨b, ?_, hin⟩
      cases hblocks : r.blocks with
      | nil => simp [hblocks] at hb
      | cons first rest =>
        rw [hblocks] at hb hbehind
        rcases List.mem_cons.mp hb with rfl | hrest
        · rfl
        · exact absurd hin (hbehind b hrest)

end Tidy

/-! ## The answer to a segment -/

/-- A new segment is answered with the first blocks. -/
theorem Tidy.ack_of_new (h : r.Tidy) (hx : x.start < x.stop) (hnew : r.isDuplicate x = false)
    (sent : Nat) :
    (r.onSegment x sent).2.duplicate = none ∧
      (r.onSegment x sent).2.blocks = (r.onSegment x sent).1.blocks.take reported := by
  have hwire := Ack.ofWire_unreported (w := Word.max64) (h.accept hx).unreported
  unfold onSegment wireBlocks
  simp [hnew, hwire]

theorem onSegment_of_duplicate (hdup : r.isDuplicate x = true) (sent : Nat) :
    r.onSegment x sent
      = (r, { Ack.ofWire r.cumulative (x :: r.blocks.take reported) Word.max64 with
          echo := some sent }) := by
  unfold onSegment wireBlocks
  rw [accept_of_duplicate hdup, hdup]
  rfl

theorem ack_of_reported (hdup : r.isDuplicate x = true)
    (hrep : Ack.reportsDuplicate r.cumulative x (r.blocks.take reported) = true) (sent : Nat) :
    (r.onSegment x sent).2.duplicate = some x ∧
      (r.onSegment x sent).2.blocks = (r.onSegment x sent).1.blocks.take reported := by
  rw [onSegment_of_duplicate hdup, Ack.ofWire_reported hrep]
  exact ⟨rfl, rfl⟩

/-- A repeated segment that is not known as such is taken for the first block. -/
theorem ack_of_unreported (hdup : r.isDuplicate x = true)
    (hrep : Ack.reportsDuplicate r.cumulative x (r.blocks.take reported) = false) (sent : Nat) :
    (r.onSegment x sent).2.duplicate = none ∧
      (r.onSegment x sent).2.blocks = x :: (r.onSegment x sent).1.blocks.take reported := by
  have hwire : Ack.ofWire r.cumulative (x :: r.blocks.take reported) Word.max64
      = { cumulative := r.cumulative, blocks := x :: r.blocks.take reported } := by
    apply Ack.ofWire_unreported
    rintro _ _ hcons
    obtain ⟨rfl, rfl⟩ := List.cons.inj hcons
    exact hrep
  rw [onSegment_of_duplicate hdup, hwire]
  exact ⟨rfl, rfl⟩

/-- After any segments, an ack reports the segment it answers as a duplicate exactly if all of that was
received before, what lies below the first number counting as received, and it does not lie in a block
behind the first one. The blocks of the ack are then the first three. A segment that is not reported leaves the
duplicate report empty: a new one is answered with the first three blocks alone, and one that lies in a
block behind the first is put in front of them. -/
theorem Fed.reports_repeated (h : Fed isn xs r) (hx : x.start < x.stop) (sent : Nat) :
    ((r.onSegment x sent).2.duplicate = some x ↔
      (∀ k, isn ≤ k → x.contains k = true → AnyHolds xs k) ∧
        ∀ b ∈ r.blocks.tail, ¬ x.within b = true) ∧
    ((r.onSegment x sent).2.duplicate = some x →
      (r.onSegment x sent).2.blocks = (r.onSegment x sent).1.blocks.take 3) ∧
    ((r.onSegment x sent).2.duplicate ≠ some x → (r.onSegment x sent).2.duplicate = none) ∧
    (¬ (∀ k, isn ≤ k → x.contains k = true → AnyHolds xs k) →
      (r.onSegment x sent).2.blocks = (r.onSegment x sent).1.blocks.take 3) ∧
    (∀ b ∈ r.blocks.tail, x.within b = true →
      (r.onSegment x sent).2.blocks = x :: (r.onSegment x sent).1.blocks.take 3) := by
  have htidy := h.faithful.tidy
  rw [← h.faithful.isDuplicate_iff hx]
  cases hdup : r.isDuplicate x with
  | false =>
    obtain ⟨hduplicate, hblocks⟩ := htidy.ack_of_new hx hdup sent
    have houtside : ∀ b ∈ r.blocks.tail, ¬ x.within b = true := by
      intro b hb hin
      have hany : r.blocks.any x.within = true :=
        List.any_eq_true.mpr ⟨b, List.mem_of_mem_tail hb, hin⟩
      rw [isDuplicate, hany, Bool.or_true] at hdup
      exact Bool.noConfusion hdup
    refine ⟨by simp [hduplicate], fun _ => hblocks, fun _ => hduplicate, fun _ => hblocks, ?_⟩
    intro b hb hin
    exact absurd hin (houtside b hb)
  | true =>
    have hiff := htidy.reported_iff hx hdup
    cases hrep : Ack.reportsDuplicate r.cumulative x (r.blocks.take reported) with
    | true =>
      obtain ⟨hduplicate, hblocks⟩ := ack_of_reported hdup hrep sent
      have hfirst := hiff.mp hrep
      refine ⟨iff_of_true hduplicate ⟨rfl, hfirst⟩, fun _ => hblocks,
        fun hne => absurd hduplicate hne, fun _ => hblocks, ?_⟩
      intro b hb hin
      exact absurd hin (hfirst b hb)
    | false =>
      obtain ⟨hduplicate, hblocks⟩ := ack_of_unreported hdup hrep sent
      have hbehind : ¬ ∀ b ∈ r.blocks.tail, ¬ x.within b = true := by
        rw [← hiff, hrep]
        exact Bool.false_ne_true
      refine ⟨?_, ?_, fun _ => hduplicate, fun hnew => absurd rfl hnew, fun _ _ _ => hblocks⟩
      · rw [hduplicate]
        exact iff_of_false (by simp) fun hall => hbehind hall.2
      · intro hsome
        rw [hduplicate] at hsome
        cases hsome

/-- A part of the latest block is reported, above two blocks of which the other came first. -/
theorem reports_repeated_in_first : ∃ r, Fed 0 [⟨300, 400⟩, ⟨100, 200⟩] r ∧
    (r.onSegment ⟨320, 380⟩ 2).2.duplicate = some ⟨320, 380⟩ ∧
    (r.onSegment ⟨320, 380⟩ 2).2.blocks = [⟨300, 400⟩, ⟨100, 200⟩] := by
  have hfed : Fed 0 [⟨300, 400⟩, ⟨100, 200⟩] _ :=
    (Fed.start.segment ⟨100, 200⟩ (by decide) 0).segment ⟨300, 400⟩ (by decide) 1
  obtain ⟨hiff, hblocks, -⟩ := hfed.reports_repeated (x := ⟨320, 380⟩) (by decide) 2
  have hreported := hiff.mpr ⟨?_, by decide⟩
  · exact ⟨_, hfed, hreported, hblocks hreported⟩
  · intro k _ hk
    refine ⟨⟨300, 400⟩, List.mem_cons_self, ?_⟩
    rw [SeqRange.contains_iff] at hk ⊢
    dsimp only at hk ⊢
    omega

/-- A segment that arrives again after another one is not reported, but listed twice. -/
theorem unreported_behind_first : ∃ r, Fed 0 [⟨300, 400⟩, ⟨100, 200⟩] r ∧
    (∀ k, (⟨100, 200⟩ : SeqRange).contains k = true → AnyHolds [⟨300, 400⟩, ⟨100, 200⟩] k) ∧
    (r.onSegment ⟨100, 200⟩ 2).2.duplicate = none ∧
    (r.onSegment ⟨100, 200⟩ 2).2.blocks = [⟨100, 200⟩, ⟨300, 400⟩, ⟨100, 200⟩] := by
  have hfed : Fed 0 [⟨300, 400⟩, ⟨100, 200⟩] _ :=
    (Fed.start.segment ⟨100, 200⟩ (by decide) 0).segment ⟨300, 400⟩ (by decide) 1
  refine ⟨_, hfed, ?_, by decide, by decide⟩
  intro k hk
  exact ⟨⟨100, 200⟩, List.mem_cons_of_mem _ List.mem_cons_self, hk⟩

end Receiver

end LossRecovery
