import Mathlib.Data.Nat.Dist
import LossRecovery.Sequence.Unwrap

/-!
# `LossRecovery.Proofs.Unwrapping` — the nearest number of a wire number

The sequence numbers of one wire number lie a whole epoch apart. So a number is the nearest of them to
what the reader expects as soon as it is no farther away than the two next to it, and next to an end of
the 64-bit range there is only one.

## Contents
- `GoesBy wire x`: the 64-bit sequence numbers of a wire number.
- `Nearest wire expected x`: no other of them is closer, and on a tie `x` is the larger;
  `Nearest.unique`, `Nearest.of_neighbours`, `nearest_of_dist_lt`.
- `candidate`, `unwrap_eq`: where unwrapping starts, and that stopping additions and guards change none
  of its comparisons; `nearest_unwrap`: it finds the nearest.
- `unwrap_nearest`: what a reader gets, and that it is what the writer meant.
-/

namespace LossRecovery.Sequence

variable {wire expected x y : Nat}

/-! ## The numbers of a wire number -/

/-- The 64-bit sequence number `x` goes by `wire` on the wire. -/
structure GoesBy (wire x : Nat) : Prop where
  word : x ≤ Word.max64
  low : x % epoch = wire

/-- Two numbers of one wire number are an epoch apart, if not more. -/
theorem GoesBy.add_epoch_le (hx : GoesBy wire x) (hy : GoesBy wire y) (hlt : x < y) :
    x + epoch ≤ y := by
  have hlow : x % epoch = y % epoch := hx.low.trans hy.low.symm
  unfold epoch at hlow ⊢
  omega

theorem GoesBy.next (hx : GoesBy wire x) (h : x + epoch ≤ Word.max64) : GoesBy wire (x + epoch) :=
  ⟨h, (Nat.add_mod_right x epoch).trans hx.low⟩

theorem GoesBy.previous (hx : GoesBy wire x) (h : epoch ≤ x) : GoesBy wire (x - epoch) :=
  ⟨Nat.le_trans (Nat.sub_le x epoch) hx.word, (Nat.mod_eq_sub_mod h).symm.trans hx.low⟩

/-- Of the sequence numbers that go by `wire`, none is closer to `expected` than `x`, and one that is as
close is not larger. -/
structure Nearest (wire expected x : Nat) : Prop where
  goesBy : GoesBy wire x
  closest : ∀ y, GoesBy wire y → Nat.dist x expected ≤ Nat.dist y expected
  larger : ∀ y, GoesBy wire y → Nat.dist y expected = Nat.dist x expected → y ≤ x

namespace Nearest

theorem unique (hx : Nearest wire expected x) (hy : Nearest wire expected y) : x = y := by
  have hxy := hx.closest y hy.goesBy
  have hyx := hy.closest x hx.goesBy
  have hdist : Nat.dist x expected = Nat.dist y expected := Nat.le_antisymm hxy hyx
  apply Nat.le_antisymm
  · exact hy.larger x hx.goesBy hdist
  · exact hx.larger y hy.goesBy hdist.symm

/-- A number is the nearest if its neighbour one epoch above is farther away, and the one below no
closer, where there are such. -/
theorem of_neighbours (hx : GoesBy wire x)
    (above : x + epoch ≤ Word.max64 → expected < x + epoch / 2)
    (below : epoch ≤ x → x ≤ expected + epoch / 2) : Nearest wire expected x := by
  -- Every other number lies beyond one of the neighbours.
  have hfar : ∀ y, GoesBy wire y → Nat.dist x expected ≤ Nat.dist y expected ∧
      (Nat.dist y expected = Nat.dist x expected → y ≤ x) := by
    intro y hy
    have hword := hy.word
    unfold Nat.dist
    rcases Nat.lt_trichotomy x y with hlt | rfl | hgt
    · have hapart := hx.add_epoch_le hy hlt
      have hnear := above (Nat.le_trans hapart hword)
      unfold epoch at hapart hnear
      omega
    · simp
    · have hapart := hy.add_epoch_le hx hgt
      have hnear := below (Nat.le_trans (Nat.le_add_left _ _) hapart)
      unfold epoch at hapart hnear
      omega
  exact ⟨hx, fun y hy => (hfar y hy).1, fun y hy => (hfar y hy).2⟩

end Nearest

/-- A number less than half an epoch away is the nearest one. -/
theorem nearest_of_dist_lt (hx : x ≤ Word.max64) (hnear : Nat.dist x expected < epoch / 2) :
    Nearest (x % epoch) expected x := by
  unfold Nat.dist at hnear
  apply Nearest.of_neighbours ⟨hx, rfl⟩
  · intro _
    omega
  · intro _
    omega

/-! ## Unwrapping -/

/-- The number of `wire` in the epoch of the expected one, from which unwrapping starts. -/
def candidate (wire expected : Nat) : Nat := expected - expected % epoch + wire

theorem goesBy_candidate (hwire : wire < epoch) (hexpected : expected ≤ Word.max64) :
    GoesBy wire (candidate wire expected) := by
  unfold candidate
  refine ⟨?_, ?_⟩
  · unfold epoch at hwire ⊢
    unfold Word.max64 at hexpected ⊢
    omega
  · rw [← Nat.div_mul_self_eq_mod_sub_self, Nat.mul_add_mod_self_right, Nat.mod_eq_of_lt hwire]

theorem lt_candidate_add (wire expected : Nat) : expected < candidate wire expected + epoch := by
  unfold candidate epoch
  omega

theorem candidate_lt_add (hwire : wire < epoch) (expected : Nat) :
    candidate wire expected < expected + epoch := by
  unfold candidate
  omega

/-- The addition that stops at the end of the range decides as an exact one. The guard leaves out the
numbers whose neighbour above is not a word, and one more: that is the last of its epoch, and so the
expected number does not lie above it. -/
theorem raises_iff (hwire : wire < epoch) (hexpected : expected ≤ Word.max64) :
    Word.add (candidate wire expected) (epoch / 2) ≤ expected ∧
        candidate wire expected < Word.max64 - epoch ↔
      candidate wire expected + epoch / 2 ≤ expected ∧
        candidate wire expected + epoch ≤ Word.max64 := by
  unfold Word.add candidate
  unfold epoch at *
  unfold Word.max64 at *
  omega

theorem lowers_iff (hwire : wire < epoch) (hexpected : expected ≤ Word.max64) :
    candidate wire expected > Word.add expected (epoch / 2) ↔
      expected + epoch / 2 < candidate wire expected := by
  have hword := (goesBy_candidate hwire hexpected).word
  unfold Word.add
  omega

/-- Unwrapping compares exactly. -/
theorem unwrap_eq (hwire : wire < epoch) (hexpected : expected ≤ Word.max64) :
    unwrap wire expected =
      if candidate wire expected + epoch / 2 ≤ expected ∧
          candidate wire expected + epoch ≤ Word.max64 then candidate wire expected + epoch
      else if expected + epoch / 2 < candidate wire expected ∧ epoch ≤ candidate wire expected then
        candidate wire expected - epoch
      else candidate wire expected := by
  have hraises := raises_iff hwire hexpected
  have hlowers := and_congr_left' (c := epoch ≤ candidate wire expected) (lowers_iff hwire hexpected)
  unfold unwrap
  exact if_congr hraises rfl (if_congr hlowers rfl rfl)

theorem nearest_unwrap (hwire : wire < epoch) (hexpected : expected ≤ Word.max64) :
    Nearest wire expected (unwrap wire expected) := by
  have hcandidate := goesBy_candidate hwire hexpected
  have hbelow := lt_candidate_add wire expected
  have habove := candidate_lt_add hwire expected
  have hhalf : epoch / 2 + epoch / 2 = epoch := rfl
  rw [unwrap_eq hwire hexpected]
  split
  · next h =>
    apply Nearest.of_neighbours (hcandidate.next h.2)
    · intro _
      omega
    · intro _
      omega
  · next hraise =>
    split
    · next h =>
      apply Nearest.of_neighbours (hcandidate.previous h.2)
      · intro _
        omega
      · intro _
        omega
    · next hlower =>
      apply Nearest.of_neighbours hcandidate
      · intro hword
        omega
      · intro hle
        omega

/-- A wire number is read as the nearest of its sequence numbers, the larger one on a tie. So a sequence
number less than half an epoch from the expected one is read back from its low half. -/
theorem unwrap_nearest (hexpected : expected ≤ Word.max64) :
    (∀ wire < epoch, Nearest wire expected (unwrap wire expected)) ∧
    ∀ x ≤ Word.max64, Nat.dist x expected < epoch / 2 → unwrap (x % epoch) expected = x := by
  refine ⟨fun wire hwire => nearest_unwrap hwire hexpected, ?_⟩
  intro x hx hnear
  have hlow : x % epoch < epoch := by
    unfold epoch
    omega
  exact (nearest_unwrap hlow hexpected).unique (nearest_of_dist_lt hx hnear)

/-- At the upper end of the range the nearest number may be more than half an epoch away. -/
theorem unwrap_nearest_at_top : Word.max64 ≤ Word.max64 ∧
    Nearest 0x10 Word.max64 0xffffffff00000010 ∧
    unwrap (0xffffffff80000000 % epoch) Word.max64 = 0xffffffff80000000 := by
  obtain ⟨hnearest, hback⟩ := unwrap_nearest (Nat.le_refl Word.max64)
  have hread : unwrap 0x10 Word.max64 = 0xffffffff00000010 := by decide
  refine ⟨Nat.le_refl _, ?_, ?_⟩
  · rw [← hread]
    exact hnearest 0x10 (by decide)
  · exact hback 0xffffffff80000000 (by decide) (by decide)

/-- Halfway between two numbers, the larger one is taken. -/
example : unwrap 0 0x180000000 = 0x200000000 := by decide

end LossRecovery.Sequence
