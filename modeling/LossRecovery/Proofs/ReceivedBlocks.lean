import LossRecovery.Proofs.Exchanges
import LossRecovery.Proofs.RangeLists

/-!
# `LossRecovery.Proofs.ReceivedBlocks` — a receiver acknowledges what it got

The blocks of a receiver stay apart from each other and from the cumulative ack. That is why one pass
over them joins a segment with all it touches: a block that was passed by touches neither the segment nor
the blocks behind it, and so not their hull. And it is why only the joined block can reach down to the
cumulative ack.

## Contents
- `Tidy r`: the blocks are separate and lie above the cumulative ack.
- `separate_absorb`, `Tidy.accept_cases`: what joining leaves, and the two ways it can end.
- `Tidy.isDuplicate_iff`: a duplicate is a segment that is held to the last byte.
- `Fed isn xs r`: the receiver after any non-empty segments; `Fed.faithful`.
- `Fed.acknowledges`: cumulative ack, blocks and duplicates, by what was received.
-/

namespace LossRecovery

namespace Receiver

open SeqRange (Apart AnyHolds Separate)

variable {r : Receiver} {x b m q : SeqRange} {xs blocks rest : List SeqRange} {k isn c sent : Nat}

/-! ## Joining a segment with the blocks -/

theorem apart_iff_not_touches : Apart b x ↔ ¬ touches b x = true := by
  simp only [Apart, touches, Bool.and_eq_true, decide_eq_true_eq]
  omega

/-- A range apart from two that touch is apart from their hull. -/
theorem apart_hull (hq : q.start < q.stop) (hx : Apart q x) (hb : Apart q b)
    (htouch : touches b x = true) : Apart q (x.hull b) := by
  simp only [touches, Bool.and_eq_true, decide_eq_true_eq] at htouch
  unfold Apart at hx hb
  show q.stop < min x.start b.start ∨ max x.stop b.stop < q.start
  omega

theorem apart_absorb (hq : q.start < q.stop) (hx : Apart q x) (hblocks : ∀ b ∈ blocks, Apart q b) :
    Apart q (absorb x blocks).1 := by
  induction blocks generalizing x with
  | nil => exact hx
  | cons b rest ih =>
    have hb := hblocks b List.mem_cons_self
    have hrest : ∀ b ∈ rest, Apart q b := fun y hy => hblocks y (List.mem_cons_of_mem b hy)
    unfold absorb
    split
    · next htouch => exact ih (apart_hull hq hx hb htouch) hrest
    · exact ih hx hrest

theorem absorb_sublist (x : SeqRange) (blocks : List SeqRange) :
    (absorb x blocks).2.Sublist blocks := by
  induction blocks generalizing x with
  | nil => exact List.Sublist.refl _
  | cons b rest ih =>
    unfold absorb
    split
    · exact (ih (x.hull b)).cons b
    · exact (ih x).cons_cons b

/-- The joined block reaches over the segment. -/
theorem within_absorb (x : SeqRange) (blocks : List SeqRange) :
    x.within (absorb x blocks).1 = true := by
  induction blocks generalizing x with
  | nil => exact SeqRange.within_iff.mpr ⟨Nat.le_refl _, Nat.le_refl _⟩
  | cons b rest ih =>
    unfold absorb
    split
    · obtain ⟨hstart, hstop⟩ := SeqRange.within_iff.mp (ih (x.hull b))
      apply SeqRange.within_iff.mpr
      exact ⟨Nat.le_trans hstart (Nat.min_le_left _ _), Nat.le_trans (Nat.le_max_left _ _) hstop⟩
    · exact ih x

/-- One pass joins a segment with all blocks that it overlaps or touches in the end. -/
theorem separate_absorb (h : Separate blocks) (hx : x.start < x.stop) :
    Separate ((absorb x blocks).1 :: (absorb x blocks).2) := by
  induction blocks generalizing x with
  | nil => exact ⟨List.pairwise_singleton _ _, by simpa [absorb] using hx⟩
  | cons b rest ih =>
    obtain ⟨hfirst, hapart⟩ := List.pairwise_cons.mp h.apart
    have hb := h.filled b List.mem_cons_self
    have hrest : Separate rest := ⟨hapart, fun y hy => h.filled y (List.mem_cons_of_mem b hy)⟩
    unfold absorb
    split
    · apply ih hrest
      show min x.start b.start < max x.stop b.stop
      omega
    · next htouch =>
      obtain ⟨hjoined, hothers⟩ := List.pairwise_cons.mp (ih hrest hx).apart
      have hsub := absorb_sublist x rest
      -- The block that was passed by is apart from all that the segment goes on to join.
      have hpassed : Apart (absorb x rest).1 b :=
        (apart_absorb hb (apart_iff_not_touches.mpr htouch) hfirst).symm
      refine ⟨List.pairwise_cons.mpr ⟨?_, List.pairwise_cons.mpr ⟨?_, hothers⟩⟩, ?_⟩
      · intro y hy
        rcases List.mem_cons.mp hy with rfl | hy
        · exact hpassed
        · exact hjoined y hy
      · intro y hy
        exact hfirst y (hsub.subset hy)
      · intro y hy
        rcases List.mem_cons.mp hy with rfl | hy
        · exact (ih hrest hx).filled _ List.mem_cons_self
        · rcases List.mem_cons.mp hy with rfl | hy
          · exact hb
          · exact hrest.filled y (hsub.subset hy)

/-! ## The cumulative ack -/

/-- The block that a segment ends up in. -/
def joined (r : Receiver) (x : SeqRange) : SeqRange := (absorb x r.blocks).1

/-- The blocks that a segment does not reach. -/
def passed (r : Receiver) (x : SeqRange) : List SeqRange := (absorb x r.blocks).2

theorem passed_sublist (r : Receiver) (x : SeqRange) : (r.passed x).Sublist r.blocks :=
  absorb_sublist x r.blocks

theorem accept_of_duplicate (hdup : r.isDuplicate x = true) : r.accept x = r := by
  unfold accept
  rw [hdup, if_pos rfl]

theorem advance_of_le (hm : m.start ≤ c) :
    advance ⟨m :: rest, c⟩ = ⟨rest, max c m.stop⟩ := by
  simp [advance, hm]

theorem advance_of_lt (hblocks : ∀ b ∈ blocks, c < b.start) : advance ⟨blocks, c⟩ = ⟨blocks, c⟩ := by
  have hnone : blocks.find? (·.start ≤ c) = none := by
    apply List.find?_eq_none.mpr
    intro b hb
    have hlt := hblocks b hb
    rw [decide_eq_true_eq]
    omega
  unfold advance
  rw [hnone]

/-- The blocks are separate, and there is a gap between the cumulative ack and each of them. -/
structure Tidy (r : Receiver) : Prop where
  separate : Separate r.blocks
  above : ∀ b ∈ r.blocks, r.cumulative < b.start

namespace Tidy

/-- A segment that is no duplicate is joined with the blocks. The joined block comes first, or the
cumulative ack moves over it. -/
theorem accept_cases (h : r.Tidy) (hnew : r.isDuplicate x = false) :
    (r.joined x).start ≤ r.cumulative ∧
        r.accept x = ⟨r.passed x, max r.cumulative (r.joined x).stop⟩ ∨
      r.cumulative < (r.joined x).start ∧
        r.accept x = ⟨r.joined x :: r.passed x, r.cumulative⟩ := by
  have haccept : r.accept x = advance ⟨r.joined x :: r.passed x, r.cumulative⟩ := by
    unfold accept
    rw [if_neg (by rw [hnew]; exact Bool.false_ne_true)]
    rfl
  rw [haccept]
  rcases Nat.lt_or_ge r.cumulative (r.joined x).start with hlt | hle
  · refine .inr ⟨hlt, advance_of_lt ?_⟩
    intro b hb
    rcases List.mem_cons.mp hb with rfl | hb
    · exact hlt
    · exact h.above b ((passed_sublist r x).subset hb)
  · exact .inl ⟨hle, advance_of_le hle⟩

theorem accept (h : r.Tidy) (hx : x.start < x.stop) : (r.accept x).Tidy := by
  cases hdup : r.isDuplicate x with
  | true =>
    rw [accept_of_duplicate hdup]
    exact h
  | false =>
    have hseparate : Separate (r.joined x :: r.passed x) := separate_absorb h.separate hx
    have habove : ∀ b ∈ r.passed x, r.cumulative < b.start := fun b hb =>
      h.above b ((passed_sublist r x).subset hb)
    rcases h.accept_cases hdup with ⟨hle, haccept⟩ | ⟨hlt, haccept⟩
    · obtain ⟨hjoined, hpassed⟩ := List.pairwise_cons.mp hseparate.apart
      have hfilled : ∀ b ∈ r.passed x, b.start < b.stop := fun b hb =>
        hseparate.filled b (List.mem_cons_of_mem _ hb)
      rw [haccept]
      refine ⟨⟨hpassed, hfilled⟩, fun b hb => ?_⟩
      -- A block above the cumulative ack that is apart from the joined one lies above that too.
      have hapart := hjoined b hb
      have hlt := habove b hb
      have hlength := hfilled b hb
      unfold Apart at hapart
      show max r.cumulative (r.joined x).stop < b.start
      omega
    · rw [haccept]
      refine ⟨hseparate, fun b hb => ?_⟩
      rcases List.mem_cons.mp hb with rfl | hb
      · exact hlt
      · exact habove b hb

theorem cumulative_le (h : r.Tidy) (x : SeqRange) : r.cumulative ≤ (r.accept x).cumulative := by
  cases hdup : r.isDuplicate x with
  | true => rw [accept_of_duplicate hdup]
  | false =>
    rcases h.accept_cases hdup with ⟨-, haccept⟩ | ⟨-, haccept⟩
    · rw [haccept]
      exact Nat.le_max_left _ _
    · rw [haccept]

/-- The block with a new segment comes first, unless the cumulative ack moves over it. -/
theorem first_block (h : r.Tidy) (hnew : r.isDuplicate x = false)
    (hbeyond : (r.accept x).cumulative < x.stop) :
    ∃ b rest, (r.accept x).blocks = b :: rest ∧ x.within b = true := by
  have hwithin : x.within (r.joined x) = true := within_absorb x r.blocks
  rcases h.accept_cases hnew with ⟨-, haccept⟩ | ⟨-, haccept⟩
  · rw [haccept] at hbeyond
    have hlt : max r.cumulative (r.joined x).stop < x.stop := hbeyond
    rw [SeqRange.within_iff] at hwithin
    omega
  · rw [haccept]
    exact ⟨r.joined x, r.passed x, rfl, hwithin⟩

theorem not_holds_cumulative (h : r.Tidy) : ¬ r.Holds r.cumulative := by
  rintro (hlt | ⟨b, hb, hc⟩)
  · exact Nat.lt_irrefl _ hlt
  · have hlt := h.above b hb
    rw [SeqRange.contains_iff] at hc
    omega

/-- A duplicate is a segment that is held to the last byte. -/
theorem isDuplicate_iff (h : r.Tidy) (hx : x.start < x.stop) :
    r.isDuplicate x = true ↔ ∀ k, x.contains k = true → r.Holds k := by
  unfold isDuplicate
  rw [Bool.or_eq_true, decide_eq_true_eq, List.any_eq_true, h.separate.exists_within_iff hx]
  constructor
  · rintro (hbelow | hall) k hk
    · rw [SeqRange.contains_iff] at hk
      exact .inl (Nat.lt_of_lt_of_le hk.2 hbelow)
    · exact .inr (hall k hk)
  · intro hall
    by_contra hnot
    obtain ⟨hreach, hgap⟩ := not_or.mp hnot
    -- The segment does not reach down to the cumulative ack, which is not held.
    have hlt : r.cumulative < x.start := by
      by_contra hle
      apply h.not_holds_cumulative
      apply hall
      rw [SeqRange.contains_iff]
      omega
    apply hgap
    intro k hk
    have hheld := hall k hk
    rw [SeqRange.contains_iff] at hk
    exact hheld.resolve_left (by omega)

end Tidy

/-! ## Any sequence of segments -/

/-- The receiver after segments that are not empty, the latest first. -/
inductive Fed (isn : Nat) : List SeqRange → Receiver → Prop
  | start : Fed isn [] (start isn)
  | segment {xs : List SeqRange} {r : Receiver} (before : Fed isn xs r) (x : SeqRange)
      (filled : x.start < x.stop) (sent : Nat) : Fed isn (x :: xs) (r.onSegment x sent).1

/-- The receiver is tidy, and it holds what is below the first number and what was received. -/
structure Faithful (isn : Nat) (xs : List SeqRange) (r : Receiver) : Prop where
  tidy : r.Tidy
  first_le : isn ≤ r.cumulative
  holds : ∀ k, r.Holds k ↔ k < isn ∨ AnyHolds xs k

namespace Faithful

theorem start (isn : Nat) : Faithful isn [] (start isn) := by
  refine ⟨⟨⟨List.Pairwise.nil, ?_⟩, ?_⟩, Nat.le_refl isn, ?_⟩
  · intro b hb
    exact absurd hb List.not_mem_nil
  · intro b hb
    exact absurd hb List.not_mem_nil
  · intro k
    simp [Holds, Receiver.start, AnyHolds]

theorem segment (h : Faithful isn xs r) (hx : x.start < x.stop) (sent : Nat) :
    Faithful isn (x :: xs) (r.onSegment x sent).1 := by
  refine ⟨h.tidy.accept hx, Nat.le_trans h.first_le (h.tidy.cumulative_le x), fun k => ?_⟩
  rw [holds_onSegment, h.holds]
  simp only [AnyHolds, List.mem_cons, exists_eq_or_imp]
  rw [or_assoc]
  exact or_congr_right or_comm

theorem isLeast_cumulative (h : Faithful isn xs r) :
    IsLeast {k | isn ≤ k ∧ ¬ AnyHolds xs k} r.cumulative := by
  refine ⟨⟨h.first_le, ?_⟩, ?_⟩
  · intro hreceived
    exact h.tidy.not_holds_cumulative ((h.holds _).mpr (.inr hreceived))
  · rintro k ⟨hle, hnot⟩
    by_contra hlt
    rcases (h.holds k).mp (.inl (Nat.lt_of_not_le hlt)) with hbelow | hreceived
    · omega
    · exact hnot hreceived

/-- The blocks hold just what was received above the cumulative ack. -/
theorem anyHolds_blocks_iff (h : Faithful isn xs r) :
    AnyHolds r.blocks k ↔ r.cumulative < k ∧ AnyHolds xs k := by
  have hfirst := h.first_le
  constructor
  · rintro ⟨b, hb, hc⟩
    have hreceived := (h.holds k).mp (.inr ⟨b, hb, hc⟩)
    have habove := h.tidy.above b hb
    rw [SeqRange.contains_iff] at hc
    exact ⟨by omega, hreceived.resolve_left (by omega)⟩
  · rintro ⟨hlt, hreceived⟩
    exact ((h.holds k).mpr (.inr hreceived)).resolve_left (by omega)

theorem isDuplicate_iff (h : Faithful isn xs r) (hx : x.start < x.stop) :
    r.isDuplicate x = true ↔ ∀ k, isn ≤ k → x.contains k = true → AnyHolds xs k := by
  rw [h.tidy.isDuplicate_iff hx]
  simp only [h.holds]
  constructor
  · intro hall k hle hk
    exact (hall k hk).resolve_left (Nat.not_lt.mpr hle)
  · intro hall k hk
    rcases Nat.lt_or_ge k isn with hlt | hle
    · exact .inl hlt
    · exact .inr (hall k hle hk)

end Faithful

theorem Fed.faithful (h : Fed isn xs r) : Faithful isn xs r := by
  induction h with
  | start => exact .start isn
  | segment _ x filled sent ih => exact ih.segment filled sent

theorem cumulative_ofWire (cumulative : Nat) (wire : List SeqRange) (window : Nat) :
    (Ack.ofWire cumulative wire window).cumulative = cumulative := by
  unfold Ack.ofWire
  split
  · rfl
  · split <;> rfl

/-- After any segments, the cumulative ack is the least number from the first one on that was not
received. The blocks are not empty, lie above it with a gap, leave gaps between each other, and hold just
what was received above it. The next segment is a duplicate if all of it that is not below the first
number was received before, and then nothing changes; otherwise its block comes first, if it lies above
the cumulative ack then. -/
theorem Fed.acknowledges (h : Fed isn xs r) :
    IsLeast {k | isn ≤ k ∧ ¬ AnyHolds xs k} r.cumulative ∧
    (∀ b ∈ r.blocks, b.start < b.stop ∧ r.cumulative < b.start) ∧
    r.blocks.Pairwise Apart ∧
    (∀ k, AnyHolds r.blocks k ↔ r.cumulative < k ∧ AnyHolds xs k) ∧
    ∀ x sent, x.start < x.stop →
      (r.isDuplicate x = true ↔ ∀ k, isn ≤ k → x.contains k = true → AnyHolds xs k) ∧
      (r.isDuplicate x = true → (r.onSegment x sent).1 = r) ∧
      (r.isDuplicate x = false → (r.onSegment x sent).1.cumulative < x.stop →
        ∃ b rest, (r.onSegment x sent).1.blocks = b :: rest ∧ x.within b = true) ∧
      (r.onSegment x sent).2.cumulative = (r.onSegment x sent).1.cumulative := by
  have hfaithful := h.faithful
  have htidy := hfaithful.tidy
  refine ⟨hfaithful.isLeast_cumulative, ?_, htidy.separate.apart,
    fun k => hfaithful.anyHolds_blocks_iff, ?_⟩
  · intro b hb
    exact ⟨htidy.separate.filled b hb, htidy.above b hb⟩
  · intro x sent hx
    exact ⟨hfaithful.isDuplicate_iff hx, accept_of_duplicate, htidy.first_block,
      cumulative_ofWire _ _ _⟩

/-- Segments out of order leave two blocks, and one that reaches into both of them is new. -/
theorem acknowledges_after_reordering : ∃ r,
    Fed 1000 [⟨1300, 1400⟩, ⟨1500, 1600⟩, ⟨1200, 1300⟩] r ∧
    r.blocks = [⟨1200, 1400⟩, ⟨1500, 1600⟩] ∧
    IsLeast {k | 1000 ≤ k ∧ ¬ AnyHolds [⟨1300, 1400⟩, ⟨1500, 1600⟩, ⟨1200, 1300⟩] k} 1000 ∧
    ∃ b rest, (r.onSegment ⟨1350, 1550⟩ 7).1.blocks = b :: rest ∧
      (⟨1350, 1550⟩ : SeqRange).within b = true := by
  have hfed : Fed 1000 [⟨1300, 1400⟩, ⟨1500, 1600⟩, ⟨1200, 1300⟩] _ :=
    ((Fed.start.segment ⟨1200, 1300⟩ (by decide) 1).segment ⟨1500, 1600⟩ (by decide) 2).segment
      ⟨1300, 1400⟩ (by decide) 3
  obtain ⟨hleast, -, -, -, hnext⟩ := hfed.acknowledges
  obtain ⟨-, -, hfirst, -⟩ := hnext ⟨1350, 1550⟩ 7 (by decide)
  exact ⟨_, hfed, by decide, hleast, hfirst (by decide) (by decide)⟩

end Receiver

end LossRecovery
