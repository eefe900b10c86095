import LossRecovery.Proofs.Spending
import Mathlib.Algebra.Order.Floor.Div

/-!
# `LossRecovery.Proofs.RateReduction` — sends in proportion to what is delivered

While the pipe is above the threshold, an episode grants the share of the threshold in the flight for
all that was delivered since it began, less all that was sent. The share is rounded up once, on the
sums, so the rounding of one ack is made up for by the next.

## Contents
- `RecoveryLedger.Repairs`: the course of an episode, with what was delivered and sent in all.
- `RecoveryLedger.InShare`: what the ledger knows about it; one step, then the whole course.
- `RecoveryLedger.Repairs.proportional`: what is sent keeps to the share, and a full send reaches it.
-/

namespace LossRecovery

namespace RecoveryLedger

variable {l l' : RecoveryLedger} {flight threshold left delivered sent n : Nat}

theorem share_eq (h : 0 < l.flight) (threshold : Nat) :
    l.share threshold = min (l.delivered * threshold ⌈/⌉ l.flight) Word.max64 := by
  rw [share, if_neg (Nat.ne_of_gt h), Nat.ceilDiv_eq_add_pred_div]

theorem share_mono (hflight : l.flight = l'.flight) (hle : l.delivered ≤ l'.delivered) :
    l.share threshold ≤ l'.share threshold := by
  unfold share
  rw [hflight]
  split
  · exact Nat.le_refl _
  · have hmul := Nat.mul_le_mul_right threshold hle
    have hdiv := Nat.div_le_div_right (c := l'.flight)
      (show l.delivered * threshold + l'.flight - 1 ≤ l'.delivered * threshold + l'.flight - 1 by omega)
    omega

/-- The course of an episode that began with `flight` bytes outstanding: deliveries of any size, reads
of the allowance while the pipe is above the threshold, and sends within what is left of the latest
allowance. `delivered` and `sent` are the sums so far, `left` is what may still be sent. -/
inductive Repairs (flight threshold : Nat) : RecoveryLedger → Nat → Nat → Nat → Prop
  | enter (l : RecoveryLedger) (top : Nat) : Repairs flight threshold (l.enter flight top) 0 0 0
  | deliver {l : RecoveryLedger} {left delivered sent : Nat}
      (before : Repairs flight threshold l left delivered sent) (bytes : Nat) :
      Repairs flight threshold (l.deliver bytes) left (delivered + bytes) sent
  | read {l : RecoveryLedger} {left delivered sent : Nat}
      (before : Repairs flight threshold l left delivered sent) (pipe mss : Nat)
      (above : threshold < pipe) :
      Repairs flight threshold l (l.allowance pipe threshold mss) delivered sent
  | send {l : RecoveryLedger} {left delivered sent : Nat}
      (before : Repairs flight threshold l left delivered sent) (bytes : Nat)
      (within : bytes ≤ left) :
      Repairs flight threshold (l.spend bytes) (left - bytes) delivered (sent + bytes)

/-- The ledger of an episode that keeps to its share: its counts are the sums, as far as they are
words, and what was sent and what is left of the allowance lie within the share. -/
structure InShare (flight threshold : Nat) (l : RecoveryLedger) (left delivered sent : Nat) :
    Prop where
  active : l.active = true
  flight : l.flight = flight
  delivered : l.delivered = min delivered Word.max64
  out : l.out = sent
  within : sent + left ≤ l.share threshold

namespace InShare

theorem enter (l : RecoveryLedger) (top : Nat) :
    InShare flight threshold (l.enter flight top) 0 0 0 :=
  ⟨rfl, rfl, rfl, rfl, Nat.zero_le _⟩

/-- A delivery only makes the share larger. -/
theorem deliver (h : InShare flight threshold l left delivered sent) (bytes : Nat) :
    InShare flight threshold (l.deliver bytes) left (delivered + bytes) sent := by
  have hmore : (l.deliver bytes).delivered = Word.add l.delivered bytes := if_pos h.active
  have hle : l.delivered ≤ (l.deliver bytes).delivered := by
    have hword := h.delivered
    rw [hmore]
    unfold Word.add
    omega
  refine ⟨h.active, h.flight, ?_, h.out, Nat.le_trans h.within (share_mono rfl hle)⟩
  rw [hmore, h.delivered]
  unfold Word.add
  omega

/-- An allowance that is read is what the share leaves. -/
theorem read (h : InShare flight threshold l left delivered sent) {pipe : Nat} (mss : Nat)
    (above : threshold < pipe) :
    InShare flight threshold l (l.allowance pipe threshold mss) delivered sent := by
  have hwithin := h.within
  refine ⟨h.active, h.flight, h.delivered, h.out, ?_⟩
  rw [allowance_of_lt h.active above, h.out]
  omega

/-- What is sent is taken off what was left. The share is a word, so the count does not stop short. -/
theorem send (h : InShare flight threshold l left delivered sent) (hn : n ≤ left) :
    InShare flight threshold (l.spend n) (left - n) delivered (sent + n) := by
  have hwithin := h.within
  have hword := l.share_le threshold
  have hout : (l.spend n).out = Word.add l.out n := if_pos h.active
  refine ⟨h.active, h.flight, h.delivered, ?_, ?_⟩
  · rw [hout, h.out]
    exact Word.add_eq (by omega)
  · change sent + n + (left - n) ≤ l.share threshold
    omega

end InShare

theorem Repairs.inShare (h : Repairs flight threshold l left delivered sent) :
    InShare flight threshold l left delivered sent := by
  induction h with
  | enter l top => exact .enter l top
  | deliver _ bytes ih => exact ih.deliver bytes
  | read _ pipe mss above ih => exact ih.read mss above
  | send _ bytes within ih => exact ih.send within

/-- Rate reduction is proportional over a whole episode, while the sums are words: the ledger counts
what was delivered and sent, what was sent is at most the share of the threshold in the flight for all
that was delivered, rounded up, and a send of the full allowance brings it to exactly that share. -/
theorem Repairs.proportional (h : Repairs flight threshold l left delivered sent)
    (hflight : 0 < flight) (hdelivered : delivered ≤ Word.max64)
    (hshare : delivered * threshold ⌈/⌉ flight ≤ Word.max64) :
    (l.delivered = delivered ∧ l.out = sent) ∧
    sent ≤ delivered * threshold ⌈/⌉ flight ∧
    ∀ pipe mss, threshold < pipe →
      sent + l.allowance pipe threshold mss = delivered * threshold ⌈/⌉ flight ∧
      (l.spend (l.allowance pipe threshold mss)).out = delivered * threshold ⌈/⌉ flight := by
  have hin := h.inShare
  have hcount : l.delivered = delivered := hin.delivered.trans (Nat.min_eq_left hdelivered)
  have hexact : l.share threshold = delivered * threshold ⌈/⌉ flight := by
    rw [share_eq (hin.flight ▸ hflight), hcount, hin.flight]
    exact Nat.min_eq_left hshare
  have hwithin := hin.within
  rw [hexact] at hwithin
  refine ⟨⟨hcount, hin.out⟩, by omega, ?_⟩
  intro pipe mss above
  have hfull : sent + l.allowance pipe threshold mss = delivered * threshold ⌈/⌉ flight := by
    rw [allowance_of_lt hin.active above, hin.out, hexact]
    omega
  refine ⟨hfull, ?_⟩
  have hsent := (h.read pipe mss above).send _ (Nat.le_refl _)
  exact hsent.inShare.out.trans hfull

/-- Three bytes in flight and a threshold of two: one byte is sent for each of the first two that are
delivered, and the third one grants nothing more. -/
theorem proportional_two_thirds : ∃ l : RecoveryLedger,
    (Repairs 3 2 l 0 3 2 ∧ 0 < 3 ∧ 3 ≤ Word.max64 ∧ 3 * 2 ⌈/⌉ (3 : Nat) ≤ Word.max64) ∧
    (l.delivered = 3 ∧ l.out = 2) ∧ (2 : Nat) ≤ 3 * 2 ⌈/⌉ (3 : Nat) ∧
    ∀ pipe mss, 2 < pipe →
      2 + l.allowance pipe 2 mss = 3 * 2 ⌈/⌉ (3 : Nat) ∧
      (l.spend (l.allowance pipe 2 mss)).out = 3 * 2 ⌈/⌉ (3 : Nat) := by
  have begun : Repairs 3 2 _ 0 0 0 := .enter default 3
  have one := ((begun.deliver 1).read 3 1 (by decide)).send 1 (by decide)
  have two := ((one.deliver 1).read 3 1 (by decide)).send 1 (by decide)
  have three := two.deliver 1
  exact ⟨_, ⟨three, by decide, by decide, by decide⟩,
    three.proportional (by decide) (by decide) (by decide)⟩

end RecoveryLedger

end LossRecovery
