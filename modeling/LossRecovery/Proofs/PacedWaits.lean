import LossRecovery.Proofs.PacedBursts

/-!
# `LossRecovery.Proofs.PacedWaits` — asking again at the told time

A send that finds too few tokens is told when to ask again: after the time the rate takes for the
missing tokens, rounded down to a nanosecond. What the rate brings in that time is rounded down once
more. So at the told time tokens are still missing, unless the division came out even. Asking then
begins a new wait, and a sender that asks at each told time and at no other waits forever.

## Contents
- `TokenBucket.missing`, `TokenBucket.PutOff`: a send that lacks tokens, and what it was told.
- `le_gain_iff`, `not_dvd_rest`: the two roundings.
- `TokenBucket.poll`: asking at each told time; one step, then any number of them.
- `TokenBucket.waits`: when a send that was put off may leave.
-/

namespace LossRecovery

namespace TokenBucket

variable {rate rtt window bytes now later t n : Nat} {b b' : TokenBucket}

/-! ## A send that is put off -/

/-- The tokens that a send lacks. -/
def missing (b : TokenBucket) (bytes : Nat) : Nat := bytes - b.tokens

/-- A send of `bytes` was put off at `now` until `t`: it lacks tokens of the bucket, which was just
filled and could hold them. -/
structure PutOff (rate window bytes now t : Nat) (b : TokenBucket) : Prop where
  window : b.window = window
  filled : b.filled = now
  lacks : b.tokens < bytes
  fits : bytes ≤ b.capacity
  told : t = now + Word.wrap (b.missing bytes * Time.second / rate)

theorem window_resize (b : TokenBucket) (rtt window : Nat) : (b.resize rtt window).window = window := by
  unfold resize
  split
  · next h => exact h.symm
  · rfl

theorem schedule_resize (hs : Steady rate rtt window) (b : TokenBucket) (bytes now : Nat) :
    b.schedule bytes rate rtt window now
      = (b.resize rtt window).schedule bytes rate rtt window now := by
  have hrate := hs.rate
  have hrtt := hs.rtt
  have hwindow := hs.window
  have hagain : (b.resize rtt window).resize rtt window = b.resize rtt window :=
    if_pos (b.window_resize rtt window).symm
  have hposed : ¬ (rtt = 0 ∨ window = 0 ∨ rate = 0) := by omega
  rw [schedule, schedule, if_neg hposed, if_neg hposed]
  dsimp only
  rw [hagain]

theorem PutOff.of_schedule (hs : Steady rate rtt window)
    (h : b.schedule bytes rate rtt window now = (b', some t)) (hfits : bytes ≤ b'.capacity) :
    PutOff rate window bytes now t b' := by
  have hw := b.window_resize rtt window
  rw [schedule_resize hs, schedule_eq hs hw] at h
  split at h
  · cases h
  · split at h
    · cases h
    · next hlacks =>
      cases h
      exact ⟨hw, rfl, Nat.lt_of_not_le hlacks, hfits, rfl⟩

/-- A fill takes what it brings off the missing tokens. -/
theorem missing_fill (hfits : bytes ≤ b.capacity) (hbytes : bytes ≤ Word.max64) (rate now : Nat) :
    (b.fill rate now).missing bytes = b.missing bytes - b.gained rate now := by
  change bytes - min (Word.add b.tokens (b.gained rate now)) b.capacity = bytes - b.tokens - _
  unfold Word.add
  omega

/-- Asked again, a send may leave if the fill brings what is missing. Otherwise the rest is waited for. -/
theorem PutOff.schedule (h : PutOff rate window bytes now t b) (hs : Steady rate rtt window)
    (hbytes : bytes ≤ Word.max64) (later : Nat) :
    b.schedule bytes rate rtt window later =
      (b.fill rate later,
        if b.missing bytes ≤ b.gained rate later then none
        else some (later
          + Word.wrap ((b.missing bytes - b.gained rate later) * Time.second / rate))) := by
  have hlacks := h.lacks
  have hfill := missing_fill h.fits hbytes rate later
  have henough : bytes ≤ (b.fill rate later).tokens ↔ b.missing bytes ≤ b.gained rate later := by
    unfold missing at hfill ⊢
    omega
  rw [schedule_eq hs h.window, if_neg (by omega), ← hfill]
  by_cases hle : b.missing bytes ≤ b.gained rate later
  · rw [if_pos (henough.mpr hle), if_pos hle]
  · rw [if_neg (mt henough.mp hle), if_neg hle]
    rfl

theorem PutOff.released_iff (h : PutOff rate window bytes now t b) (hs : Steady rate rtt window)
    (hbytes : bytes ≤ Word.max64) :
    (b.schedule bytes rate rtt window later).2 = none ↔
      b.missing bytes ≤ b.gained rate later := by
  rw [h.schedule hs hbytes]
  split <;> simp [*]

/-! ## Rounding down twice -/

section Rounding

variable {short unit : Nat}

/-- What comes in during the time for the missing tokens, both rounded down, is all of them only if
the time comes out even. -/
theorem le_gain_iff (hunit : 0 < unit) :
    short ≤ rate * (short * unit / rate) / unit ↔ rate ∣ short * unit := by
  rw [Nat.le_div_iff_mul_le hunit]
  constructor
  · intro hle
    exact ⟨_, Nat.le_antisymm hle (Nat.mul_div_le _ _)⟩
  · intro heven
    rw [Nat.mul_div_cancel' heven]

/-- One nanosecond after that time all of them have come in. -/
theorem le_gain_of_lt (hunit : 0 < unit) (hrate : 0 < rate) {elapsed : Nat}
    (h : short * unit / rate < elapsed) : short ≤ rate * elapsed / unit := by
  rw [Nat.le_div_iff_mul_le hunit, Nat.mul_comm rate]
  exact Nat.le_of_lt ((Nat.div_lt_iff_lt_mul hrate).mp h)

theorem eq_one_of_mul {k : Nat} (hpos : 0 < k * unit) (hlt : k * unit < 2 * unit) : k = 1 := by
  have hsome := Nat.pos_of_mul_pos_right hpos
  have hfew := Nat.lt_of_mul_lt_mul_right hlt
  omega

/-- If the time does not come out even, neither does the time for what is missing after it. -/
theorem not_dvd_rest (hunit : 0 < unit) (hrate : 0 < rate) (h : ¬ rate ∣ short * unit) :
    ¬ rate ∣ (short - rate * (short * unit / rate) / unit) * unit := by
  intro heven
  generalize htime : short * unit / rate = time at heven
  generalize hgain : rate * time / unit = gain at heven
  have hover : short * unit % rate < rate := Nat.mod_lt _ hrate
  have hodd : 0 < short * unit % rate := Nat.pos_of_ne_zero (mt Nat.dvd_of_mod_eq_zero h)
  have hall : rate * time + short * unit % rate = short * unit := htime ▸ Nat.div_add_mod _ _
  have hbrought : unit * gain + rate * time % unit = rate * time := hgain ▸ Nat.div_add_mod _ _
  have hlost : rate * time % unit < unit := Nat.mod_lt _ hunit
  have hrest : (short - gain) * unit = short * unit % rate + rate * time % unit := by
    rw [Nat.sub_mul, Nat.mul_comm gain]
    omega
  rcases Nat.lt_or_ge rate unit with hslow | hfast
  · -- A single token is left, and the rate divides the unit.
    have hpos : 0 < (short - gain) * unit := by omega
    have hlt : (short - gain) * unit < 2 * unit := by omega
    rw [eq_one_of_mul hpos hlt, Nat.one_mul] at heven
    exact h (Nat.dvd_mul_left_of_dvd heven short)
  · -- What is left takes one nanosecond, so the unit divides the rate, and the gain was not cut down.
    obtain ⟨k, hk⟩ := heven
    rw [Nat.mul_comm rate] at hk
    have hpos : 0 < k * rate := by omega
    have hlt : k * rate < 2 * rate := by omega
    rw [eq_one_of_mul hpos hlt, Nat.one_mul] at hk
    have hwhole : rate * time % unit = 0 :=
      Nat.mod_eq_zero_of_dvd (Nat.dvd_mul_right_of_dvd ⟨_, hk.symm.trans (Nat.mul_comm _ _)⟩ time)
    omega

end Rounding

/-! ## Asking at each told time -/

theorem PutOff.told_eq (h : PutOff rate window bytes now t b)
    (hbrief : b.missing bytes * Time.second / rate ≤ Word.max64) :
    t = now + b.missing bytes * Time.second / rate := by
  rw [h.told, Word.wrap_eq hbrief]

theorem PutOff.gained_eq (h : PutOff rate window bytes now t b)
    (hword : rate * (later - now) / Time.second ≤ Word.max64) :
    b.gained rate later = rate * (later - now) / Time.second := by
  rw [gained, h.filled, Time.since, Word.wrap_eq hword]

theorem PutOff.elapsed (h : PutOff rate window bytes now t b)
    (hbrief : b.missing bytes * Time.second / rate ≤ Word.max64) :
    t - now = b.missing bytes * Time.second / rate := by
  rw [h.told_eq hbrief]
  exact Nat.add_sub_cancel_left _ _

/-- By the told time no more than what is missing comes in, so the gain is a word. -/
theorem PutOff.gained_told (h : PutOff rate window bytes now t b) (hbytes : bytes ≤ Word.max64)
    (hbrief : b.missing bytes * Time.second / rate ≤ Word.max64) :
    b.gained rate t = rate * (b.missing bytes * Time.second / rate) / Time.second := by
  have hle : rate * (b.missing bytes * Time.second / rate) / Time.second ≤ b.missing bytes :=
    Nat.div_le_of_le_mul (Nat.mul_comm _ Time.second ▸ Nat.mul_div_le _ rate)
  have hmissing : b.missing bytes ≤ bytes := Nat.sub_le _ _
  rw [← h.elapsed hbrief] at hle ⊢
  exact h.gained_eq (by omega)

/-- The bucket and the answer after `n` more questions for the same send, each at the time that the
answer before named. Nothing is sent in between. -/
def poll (b : TokenBucket) (bytes rate rtt window now : Nat) : Nat → TokenBucket × Option Nat
  | 0 => b.schedule bytes rate rtt window now
  | n + 1 =>
    match b.poll bytes rate rtt window now n with
    | (b', some t) => b'.schedule bytes rate rtt window t
    | (b', none) => (b', none)

/-- A send that was put off for a time that does not come out even. -/
structure Starved (rate window bytes now t : Nat) (b : TokenBucket) : Prop
    extends PutOff rate window bytes now t b where
  brief : b.missing bytes * Time.second / rate ≤ Word.max64
  uneven : ¬ rate ∣ b.missing bytes * Time.second

/-- Asked at the told time, it is put off again, and again the time does not come out even. -/
theorem Starved.again (h : Starved rate window bytes now t b) (hs : Steady rate rtt window)
    (hbytes : bytes ≤ Word.max64) :
    ∃ t', b.schedule bytes rate rtt window t = (b.fill rate t, some t') ∧
      Starved rate window bytes t t' (b.fill rate t) := by
  have hput := h.toPutOff
  have hgained := hput.gained_told hbytes h.brief
  have hnot : ¬ b.missing bytes ≤ b.gained rate t := by
    rw [hgained, le_gain_iff (by decide)]
    exact h.uneven
  have hanswer := hput.schedule hs hbytes t
  rw [if_neg hnot] at hanswer
  have hfill := missing_fill h.fits hbytes rate t
  refine ⟨_, hanswer, PutOff.of_schedule hs hanswer h.fits, ?_, ?_⟩
  · have hless : (b.fill rate t).missing bytes ≤ b.missing bytes := by omega
    exact Nat.le_trans (Nat.div_le_div_right (Nat.mul_le_mul_right _ hless)) h.brief
  · rw [hfill, hgained]
    exact not_dvd_rest (by decide) hs.rate h.uneven

/-- So it is put off at every told time. -/
theorem Starved.poll (h : Starved rate window bytes now t b')
    (hfirst : b.schedule bytes rate rtt window now = (b', some t)) (hs : Steady rate rtt window)
    (hbytes : bytes ≤ Word.max64) (n : Nat) :
    ∃ last next m, b.poll bytes rate rtt window now n = (m, some next) ∧
      Starved rate window bytes last next m := by
  induction n with
  | zero => exact ⟨now, t, b', hfirst, h⟩
  | succ n ih =>
    obtain ⟨last, next, m, hpoll, hstarved⟩ := ih
    obtain ⟨next', hagain, hstarved'⟩ := hstarved.again hs hbytes
    refine ⟨next, next', _, ?_, hstarved'⟩
    rw [TokenBucket.poll, hpoll]
    exact hagain

/-- A send that is put off may leave once the rate has brought what is missing. Within words, it is
told the time that the rate takes for that, rounded down: it may leave at every later instant, but at
the told one only if the rate comes out even. A sender that asks at each told time waits forever
exactly if it does not. -/
theorem waits (hs : Steady rate rtt window)
    (hput : b.schedule bytes rate rtt window now = (b', some t)) (hfits : bytes ≤ b'.capacity)
    (hbytes : bytes ≤ Word.max64) :
    (∀ later, (b'.schedule bytes rate rtt window later).2 = none ↔
      b'.missing bytes ≤ b'.gained rate later) ∧
    (b'.missing bytes * Time.second / rate ≤ Word.max64 →
      t = now + b'.missing bytes * Time.second / rate ∧
      (∀ later, t ≤ later → rate * (later - now) / Time.second ≤ Word.max64 →
        ((b'.schedule bytes rate rtt window later).2 = none ↔
          t < later ∨ rate ∣ b'.missing bytes * Time.second)) ∧
      ((∀ n, (b.poll bytes rate rtt window now n).2 ≠ none) ↔
        ¬ rate ∣ b'.missing bytes * Time.second)) := by
  have h := PutOff.of_schedule hs hput hfits
  refine ⟨fun later => h.released_iff hs hbytes, fun hbrief => ⟨h.told_eq hbrief, ?_, ?_⟩⟩
  · intro later hlater hword
    have helapsed := h.elapsed hbrief
    rw [h.released_iff hs hbytes, h.gained_eq hword]
    rcases Nat.eq_or_lt_of_le hlater with rfl | hlt
    · rw [helapsed, le_gain_iff (by decide)]
      simp
    · have hbegun : now ≤ t := h.told ▸ Nat.le_add_right _ _
      have hlonger : b'.missing bytes * Time.second / rate < later - now := by
        rw [← helapsed]
        omega
      exact iff_of_true (le_gain_of_lt (by decide) hs.rate hlonger) (.inl hlt)
  · constructor
    · intro hforever heven
      have hone := hforever 1
      rw [poll, poll, hput] at hone
      refine hone ((h.released_iff hs hbytes).mpr ?_)
      rw [h.gained_told hbytes hbrief]
      exact (le_gain_iff (by decide)).mpr heven
    · intro huneven n hnone
      obtain ⟨last, next, m, hpoll, -⟩ :=
        Starved.poll ⟨h, hbrief, huneven⟩ hput hs hbytes n
      rw [hpoll] at hnone
      cases hnone

/-- An empty bucket of ten segments at three megabytes a second: a segment takes 486666 nanoseconds and
two thirds. It may leave 486667 nanoseconds later, and never if it is asked for at the told times. -/
theorem waits_two_thirds : ∃ b', let b := (start 1000000 1000000 14600 1460 0).spend 14600
    (Steady 3000000 1000000 14600 ∧
      b.schedule 1460 3000000 1000000 14600 0 = (b', some 486666) ∧
      1460 ≤ b'.capacity ∧ 1460 ≤ Word.max64) ∧
    (b'.schedule 1460 3000000 1000000 14600 486666).2 ≠ none ∧
    (b'.schedule 1460 3000000 1000000 14600 486667).2 = none ∧
    ∀ n, (b.poll 1460 3000000 1000000 14600 0 n).2 ≠ none := by
  have hs : Steady 3000000 1000000 14600 := ⟨by decide, by decide, by decide⟩
  have hput : ((start 1000000 1000000 14600 1460 0).spend 14600).schedule 1460 3000000 1000000 14600 0
      = (_, some 486666) := rfl
  obtain ⟨-, hwithin⟩ := waits hs hput (by decide) (by decide)
  obtain ⟨-, hreleased, hforever⟩ := hwithin (by decide)
  refine ⟨_, ⟨hs, hput, by decide, by decide⟩, ?_, ?_, hforever.mpr (by decide)⟩
  · exact mt (hreleased 486666 (Nat.le_refl _) (by decide)).mp (by decide)
  · exact (hreleased 486667 (by decide) (by decide)).mpr (.inl (by decide))

/-- Asked for at the told time, the segment is put off again, for the one token that is missing. -/
theorem put_off_when_told : ∃ b' b'', let b := (start 1000000 1000000 14600 1460 0).spend 14600
    Steady 3000000 1000000 14600 ∧ 1460 ≤ b.capacity ∧ 1460 ≤ b'.capacity ∧
    b.schedule 1460 3000000 1000000 14600 0 = (b', some 486666) ∧
    b'.schedule 1460 3000000 1000000 14600 486666 = (b'', some 486999) :=
  ⟨_, _, ⟨by decide, by decide, by decide⟩, by decide, by decide, rfl, rfl⟩

end TokenBucket

end LossRecovery
