import LossRecovery.Number.Total
import LossRecovery.Pacing.TokenBucket
import Mathlib.Order.Bounds.Basic

/-!
# `LossRecovery.Proofs.PacedBursts` — how much leaves a paced sender at once

A bucket is filled only when a send finds too few tokens in it. Old tokens are spent first, without
a look at the clock, and the fill after them makes up for the whole time since the last one, up to
another capacity. So up to two capacities may leave in a burst, and no more.

## Contents
- `TokenBucket.Call`, `TokenBucket.Paces`: one call at a constant rate, and a run of calls.
- `TokenBucket.gained`, `TokenBucket.burst`: what a fill brings, and what may leave at one instant.
- `TokenBucket.Drawn`: what was sent since some bucket; one call, then the whole run.
- `TokenBucket.Paces.bursts`: the bound over any time, and the greatest burst at an instant.
-/

namespace LossRecovery

namespace TokenBucket

variable {rate rtt window now n first last t₁ t₂ : Nat} {sends : List (Nat × Nat)}
  {a b b' : TokenBucket}

/-! ## Filling -/

/-- The tokens that came in since the bucket was last filled. -/
def gained (b : TokenBucket) (rate now : Nat) : Nat :=
  Word.wrap (rate * Time.since now b.filled / Time.second)

theorem gained_le (b : TokenBucket) (rate now : Nat) :
    b.gained rate now * Time.second ≤ rate * (now - b.filled) :=
  Nat.le_trans (Nat.mul_le_mul_right _ (Word.wrap_le _)) (Nat.div_mul_le_self _ _)

theorem tokens_fill_le (b : TokenBucket) (rate now : Nat) :
    (b.fill rate now).tokens ≤ min (b.tokens + b.gained rate now) b.capacity := by
  change min (Word.add b.tokens (b.gained rate now)) b.capacity ≤ _
  unfold Word.add
  omega

theorem tokens_fill_of_empty (h : b.tokens = 0) (rate now : Nat) :
    (b.fill rate now).tokens = min b.capacity (b.gained rate now) := by
  have hword : b.gained rate now ≤ Word.max64 := Word.wrap_le_max64 _
  change min (Word.add b.tokens (b.gained rate now)) b.capacity = _
  rw [h, Word.add_eq (by omega)]
  omega

/-! ## Runs -/

/-- One call at `now` that leaves the bucket `b'`: the sender only asks, or it sends the `n` bytes it
was told may leave at once. -/
inductive Call (rate rtt window : Nat) (b : TokenBucket) (now : Nat) : Nat → TokenBucket → Prop
  | ask (bytes : Nat) : Call rate rtt window b now 0 (b.schedule bytes rate rtt window now).1
  | send (bytes : Nat) (free : (b.schedule bytes rate rtt window now).2 = none) :
      Call rate rtt window b now bytes ((b.schedule bytes rate rtt window now).1.spend bytes)

/-- Calls at a constant rate, round-trip time and window, from `first` on and never back in time. The
latest was made at `last`; `sends` has the instant and the bytes of each. -/
inductive Paces (rate rtt window : Nat) (a : TokenBucket) (first : Nat) :
    Nat → List (Nat × Nat) → TokenBucket → Prop
  | refl : Paces rate rtt window a first first [] a
  | call {last now n : Nat} {sends : List (Nat × Nat)} {b b' : TokenBucket}
      (before : Paces rate rtt window a first last sends b) (later : last ≤ now)
      (call : Call rate rtt window b now n b') :
      Paces rate rtt window a first now ((now, n) :: sends) b'

/-- The bytes of all sends. -/
def total (sends : List (Nat × Nat)) : Nat := Number.total (sends.map Prod.snd)

/-- The bytes sent from `t₁` to `t₂`, both included. -/
def sentWithin (sends : List (Nat × Nat)) (t₁ t₂ : Nat) : Nat :=
  total (sends.filter fun s => t₁ ≤ s.1 ∧ s.1 ≤ t₂)

theorem total_cons (s : Nat × Nat) (sends : List (Nat × Nat)) :
    total (s :: sends) = total sends + s.2 := by
  unfold total
  rw [List.map_cons, Number.total_cons, Nat.add_comm]

theorem sentWithin_cons_of_mem (h₁ : t₁ ≤ now) (h₂ : now ≤ t₂) :
    sentWithin ((now, n) :: sends) t₁ t₂ = sentWithin sends t₁ t₂ + n := by
  unfold sentWithin
  rw [List.filter_cons_of_pos (by simp [h₁, h₂]), total_cons]

theorem sentWithin_cons_of_notMem (h : now < t₁ ∨ t₂ < now) :
    sentWithin ((now, n) :: sends) t₁ t₂ = sentWithin sends t₁ t₂ := by
  unfold sentWithin
  rw [List.filter_cons_of_neg (by simp only [decide_eq_true_eq]; omega)]

/-- A constant rate, round-trip time and window, none of them zero. -/
structure Steady (rate rtt window : Nat) : Prop where
  rate : 0 < rate
  rtt : 0 < rtt
  window : 0 < window

/-- With the window it was made for, a bucket answers from the tokens that are there, and is filled only
if they are too few. -/
theorem schedule_eq (hs : Steady rate rtt window) (hw : b.window = window) (bytes now : Nat) :
    b.schedule bytes rate rtt window now =
      if bytes ≤ b.tokens then (b, none)
      else if bytes ≤ (b.fill rate now).tokens then (b.fill rate now, none)
      else (b.fill rate now, some ((b.fill rate now).filled
        + Word.wrap ((bytes - (b.fill rate now).tokens) * Time.second / rate))) := by
  have hrate := hs.rate
  have hrtt := hs.rtt
  have hwindow := hs.window
  have hresize : b.resize rtt window = b := if_pos hw.symm
  rw [schedule, if_neg (by omega)]
  dsimp only
  rw [hresize]

/-- A call leaves the bucket as it is or fills it, and takes out what is sent, which is in it. -/
theorem Call.cases (h : Call rate rtt window b now n b') (hs : Steady rate rtt window)
    (hw : b.window = window) :
    (n ≤ b.tokens ∧ b' = b.spend n) ∨
    (n ≤ (b.fill rate now).tokens ∧ b' = (b.fill rate now).spend n) := by
  cases h with
  | ask bytes =>
    rw [schedule_eq hs hw]
    split
    · exact .inl ⟨Nat.zero_le _, rfl⟩
    · split <;> exact .inr ⟨Nat.zero_le _, rfl⟩
  | send bytes free =>
    rw [schedule_eq hs hw] at free ⊢
    by_cases hkept : n ≤ b.tokens
    · rw [if_pos hkept]
      exact .inl ⟨hkept, rfl⟩
    · by_cases hfilled : n ≤ (b.fill rate now).tokens
      · rw [if_neg hkept, if_pos hfilled]
        exact .inr ⟨hfilled, rfl⟩
      · rw [if_neg hkept, if_neg hfilled] at free
        cases free

/-- The bucket of a run: its capacity and window are those it had at first, it holds no more than its
capacity, and it was filled by the latest call at the latest. -/
structure Kept (window size : Nat) (b : TokenBucket) (last : Nat) : Prop where
  window : b.window = window
  capacity : b.capacity = size
  tokens : b.tokens ≤ size
  filled : b.filled ≤ last

theorem Kept.call {size : Nat} (h : Kept window size b last) (later : last ≤ now)
    (hs : Steady rate rtt window) (call : Call rate rtt window b now n b') :
    Kept window size b' now := by
  have htokens := h.tokens
  obtain ⟨-, rfl⟩ | ⟨-, rfl⟩ := call.cases hs h.window
  · refine ⟨h.window, h.capacity, ?_, Nat.le_trans h.filled later⟩
    exact Nat.le_trans (Nat.sub_le _ _) htokens
  · refine ⟨h.window, h.capacity, ?_, Nat.le_refl _⟩
    have hfill := b.tokens_fill_le rate now
    have hcapacity := h.capacity
    exact Nat.le_trans (Nat.sub_le _ _) (by omega)

theorem Kept.start (window granularity rtt₀ mss first : Nat) :
    Kept window (start granularity rtt₀ window mss first).capacity
      (start granularity rtt₀ window mss first) first :=
  ⟨rfl, rfl, Nat.le_refl _, Nat.le_refl _⟩

theorem Kept.later {size : Nat} (h : Kept window size b last) (later : last ≤ now) :
    Kept window size b now :=
  ⟨h.window, h.capacity, h.tokens, Nat.le_trans h.filled later⟩

theorem Paces.le (h : Paces rate rtt window a first last sends b) : first ≤ last := by
  induction h with
  | refl => exact Nat.le_refl _
  | call _ later _ ih => exact Nat.le_trans ih later

theorem Paces.kept {size : Nat} (h : Paces rate rtt window a first last sends b)
    (hs : Steady rate rtt window) (ha : Kept window size a first) :
    Kept window size b last := by
  induction h with
  | refl => exact ha
  | call _ later call ih => exact ih.call later hs call

/-! ## What is drawn from a bucket -/

/-- The most that may leave at one instant: the tokens that are there, and what a fill brings into the
empty bucket. -/
def burst (b : TokenBucket) (rate now : Nat) : Nat :=
  b.tokens + min b.capacity (b.gained rate now)

/-- What was drawn from the bucket `a` by calls from `first` on, which left `b`: tokens that were there,
as long as the bucket was not filled; since a first fill, no more than the burst at that instant and
what the rate gives after it. -/
inductive Drawn (rate : Nat) (a : TokenBucket) (first sent : Nat) (b : TokenBucket) : Prop
  | unfilled (since : b.filled = a.filled) (within : sent + b.tokens ≤ a.tokens)
  | filled (f : Nat) (begun : first ≤ f) (since : f ≤ b.filled)
      (within : (sent + b.tokens) * Time.second
        ≤ a.burst rate f * Time.second + rate * (b.filled - f))

theorem Drawn.call {sent : Nat} (h : Drawn rate a first sent b) (hs : Steady rate rtt window)
    (hw : b.window = window) (hc : b.capacity = a.capacity) (hfirst : first ≤ now)
    (hfilled : b.filled ≤ now) (call : Call rate rtt window b now n b') :
    Drawn rate a first (sent + n) b' := by
  obtain ⟨hn, rfl⟩ | ⟨hn, rfl⟩ := call.cases hs hw
  · have hspent : sent + n + (b.spend n).tokens = sent + b.tokens := by
      change sent + n + (b.tokens - n) = sent + b.tokens
      omega
    cases h with
    | unfilled since within => exact .unfilled since (by omega)
    | filled f begun since within => exact .filled f begun since (by rw [hspent]; exact within)
  · have hspent : sent + n + ((b.fill rate now).spend n).tokens
        = sent + (b.fill rate now).tokens := by
      change sent + n + ((b.fill rate now).tokens - n) = sent + (b.fill rate now).tokens
      omega
    have hfill := b.tokens_fill_le rate now
    cases h with
    | unfilled since within =>
      -- The first fill: what was sent so far were tokens of `a`.
      have hgained : b.gained rate now = a.gained rate now := by
        unfold gained
        rw [since]
      refine .filled now hfirst (Nat.le_refl _) ?_
      rw [hspent]
      refine Nat.le_trans (Nat.mul_le_mul_right _ ?_) (Nat.le_add_right _ _)
      unfold burst
      omega
    | filled f begun since within =>
      refine .filled f begun (Nat.le_trans since hfilled) ?_
      rw [hspent]
      change _ ≤ a.burst rate f * Time.second + rate * (now - f)
      have hgained := b.gained_le rate now
      have hmore : rate * (now - f) = rate * (b.filled - f) + rate * (now - b.filled) := by
        rw [← Nat.mul_add]
        congr 1
        omega
      have hle : (sent + (b.fill rate now).tokens) * Time.second
          ≤ (sent + b.tokens + b.gained rate now) * Time.second :=
        Nat.mul_le_mul_right _ (by omega)
      rw [Nat.add_mul (sent + b.tokens)] at hle
      omega

/-- The run lemma: calls from `first` on, to a bucket filled before. -/
theorem Paces.drawn {size : Nat} (h : Paces rate rtt window a first last sends b)
    (hs : Steady rate rtt window) (ha : Kept window size a first) :
    Drawn rate a first (total sends) b := by
  induction h with
  | refl => exact .unfilled rfl (by simp [total])
  | call before later call ih =>
    have hb := before.kept hs ha
    rw [total_cons]
    exact ih.call hs hb.window (hb.capacity.trans ha.capacity.symm)
      (Nat.le_trans before.le later) (Nat.le_trans hb.filled later) call

/-- Over any time, no more leaves than the tokens that were there, what the rate gave before, up to the
capacity, and what it gives meanwhile. -/
theorem Paces.total_le {size : Nat} (h : Paces rate rtt window a first last sends b)
    (hs : Steady rate rtt window) (ha : Kept window size a first) :
    total sends * Time.second ≤ a.tokens * Time.second
      + min (size * Time.second) (rate * (first - a.filled)) + rate * (last - first) := by
  have hb := h.kept hs ha
  have hbefore := hb.filled
  cases h.drawn hs ha with
  | unfilled since within =>
    have hle := Nat.mul_le_mul_right Time.second (Nat.le_trans (Nat.le_add_right _ _) within)
    omega
  | filled f begun since within =>
    have hgained := a.gained_le rate f
    have hcapacity := ha.capacity
    have hfilled := ha.filled
    have hf : rate * (f - a.filled) = rate * (first - a.filled) + rate * (f - first) := by
      rw [← Nat.mul_add]
      congr 1
      omega
    have hlast : rate * (last - first)
        = rate * (f - first) + rate * (b.filled - f) + rate * (last - b.filled) := by
      rw [← Nat.mul_add, ← Nat.mul_add]
      congr 1
      omega
    have hburst : a.burst rate f * Time.second = a.tokens * Time.second
        + min (size * Time.second) (a.gained rate f * Time.second) := by
      rw [burst, Nat.add_mul, hcapacity, Nat.mul_min_mul_right]
    have hle := Nat.mul_le_mul_right Time.second (Nat.le_add_right (total sends) b.tokens)
    generalize Time.second = second at *
    omega

/-- At one instant exactly the burst may leave: first the tokens that are there, then those a fill
brings into the empty bucket. -/
theorem burst_isGreatest {size : Nat} (hs : Steady rate rtt window)
    (ha : Kept window size a first) :
    IsGreatest {n | ∃ sends b, Paces rate rtt window a first first sends b ∧ total sends = n}
      (a.burst rate first) := by
  constructor
  · have hnone : (a.schedule a.tokens rate rtt window first).2 = none := by
      rw [schedule_eq hs ha.window, if_pos (Nat.le_refl _)]
    have hkept : (a.schedule a.tokens rate rtt window first).1 = a := by
      rw [schedule_eq hs ha.window, if_pos (Nat.le_refl _)]
    have old := Paces.refl.call (Nat.le_refl first) (.send a.tokens hnone)
    rw [hkept] at old
    let empty := a.spend a.tokens
    have hempty : empty.tokens = 0 := Nat.sub_self _
    let brought := min a.capacity (a.gained rate first)
    have hbrought : brought ≤ (empty.fill rate first).tokens :=
      Nat.le_of_eq (tokens_fill_of_empty hempty rate first).symm
    have hfree : (empty.schedule brought rate rtt window first).2 = none := by
      rw [schedule_eq hs (show empty.window = window from ha.window), if_pos hbrought]
      split <;> rfl
    have filled := old.call (Nat.le_refl first) (.send brought hfree)
    refine ⟨_, _, filled, ?_⟩
    rw [total_cons, total_cons]
    exact congrArg (· + brought) (Nat.zero_add a.tokens)
  · rintro n ⟨sends, b, h, rfl⟩
    have hb := (h.kept hs ha).filled
    cases h.drawn hs ha with
    | unfilled _ within =>
      unfold burst
      omega
    | filled f begun since within =>
      have hf : f = first := by omega
      subst hf
      rw [show b.filled - f = 0 by omega, Nat.mul_zero, Nat.add_zero] at within
      have hle := Nat.le_of_mul_le_mul_right within (by decide)
      omega

/-! ## The bound over a whole run -/

/-- Of the sends of a run, those from `t₁` to `t₂` belong to a run of their own, which begins with the
bucket that the calls before `t₁` left. -/
theorem Paces.split (h : Paces rate rtt window a first last sends b) (h₁ : first ≤ t₁)
    (h₂ : t₁ ≤ t₂) :
    (last < t₁ ∧ sentWithin sends t₁ t₂ = 0) ∨
    ∃ earlier before m stop later b', Paces rate rtt window a first earlier before m ∧
      earlier ≤ t₁ ∧ Paces rate rtt window m t₁ stop later b' ∧ stop ≤ t₂ ∧
      sentWithin sends t₁ t₂ = total later ∧ (last ≤ t₂ → stop = last ∧ b' = b) := by
  induction h with
  | refl =>
    by_cases hlt : first < t₁
    · exact .inl ⟨hlt, rfl⟩
    · have heq : t₁ = first := by omega
      subst heq
      exact .inr ⟨_, _, _, _, _, _, .refl, Nat.le_refl _, .refl, h₂, rfl, fun _ => ⟨rfl, rfl⟩⟩
  | @call last now n sends b b' before later call ih =>
    rcases ih with ⟨hlast, hnone⟩ | ⟨earlier, past, m, stop, since, c, hpast, hle, hsince, hstop, hsum, hend⟩
    · by_cases hlt : now < t₁
      · exact .inl ⟨hlt, (sentWithin_cons_of_notMem (.inl hlt)).trans hnone⟩
      · by_cases hgt : t₂ < now
        · refine .inr ⟨_, _, _, _, _, _, before, Nat.le_of_lt hlast, .refl, h₂, ?_, ?_⟩
          · exact (sentWithin_cons_of_notMem (.inr hgt)).trans hnone
          · intro hle
            omega
        · refine .inr ⟨_, _, _, _, _, _, before, Nat.le_of_lt hlast,
            .call .refl (Nat.le_of_not_lt hlt) call, Nat.le_of_not_lt hgt, ?_, ?_⟩
          · rw [sentWithin_cons_of_mem (Nat.le_of_not_lt hlt) (Nat.le_of_not_lt hgt), hnone,
              total_cons]
            rfl
          · exact fun _ => ⟨rfl, rfl⟩
    · by_cases hgt : t₂ < now
      · refine .inr ⟨_, _, _, _, _, _, hpast, hle, hsince, hstop, ?_, ?_⟩
        · exact (sentWithin_cons_of_notMem (.inr hgt)).trans hsum
        · intro hle
          omega
      · obtain ⟨rfl, rfl⟩ := hend (by omega)
        refine .inr ⟨_, _, _, _, _, _, hpast, hle, .call hsince later call, Nat.le_of_not_lt hgt, ?_,
          fun _ => ⟨rfl, rfl⟩⟩
        have hmem : t₁ ≤ now := Nat.le_trans hsince.le later
        rw [sentWithin_cons_of_mem hmem (Nat.le_of_not_lt hgt), hsum, total_cons]

/-- Over any time, a run sends no more than two capacities and what the rate gives meanwhile. From a
bucket that would not run over, were it filled, it sends no more than one capacity and what the rate
gives. At one instant the most that leaves is the tokens that are there and what a fill brings into the
empty bucket, which is more than a capacity after a rest. -/
theorem Paces.bursts {granularity rtt₀ mss : Nat}
    (h : Paces rate rtt window (start granularity rtt₀ window mss first) first last sends b)
    (hs : Steady rate rtt window) :
    (∀ t₁ t₂, first ≤ t₁ → t₁ ≤ t₂ →
      sentWithin sends t₁ t₂ * Time.second
        ≤ 2 * b.capacity * Time.second + rate * (t₂ - t₁)) ∧
    (∀ t₁ t₂ later b', last ≤ t₁ → Paces rate rtt window b t₁ t₂ later b' →
      b.tokens * Time.second + rate * (t₁ - b.filled) ≤ b.capacity * Time.second →
      total later * Time.second ≤ b.capacity * Time.second + rate * (t₂ - t₁)) ∧
    ∀ t, last ≤ t →
      IsGreatest {n | ∃ later b', Paces rate rtt window b t t later b' ∧ total later = n}
        (b.burst rate t) := by
  have hstart := Kept.start window granularity rtt₀ mss first
  have hb := h.kept hs hstart
  have hsize := hb.capacity
  refine ⟨?_, ?_, ?_⟩
  · intro t₁ t₂ h₁ h₂
    rcases h.split h₁ h₂ with ⟨-, hnone⟩ | ⟨earlier, before, m, stop, later, b', hbefore, hle, hlater,
      hstop, hsum, -⟩
    · rw [hnone, Nat.zero_mul]
      exact Nat.zero_le _
    · have hm := (hbefore.kept hs hstart).later hle
      have htotal := hlater.total_le hs hm
      have htokens := Nat.mul_le_mul_right Time.second hm.tokens
      have hmeanwhile : rate * (stop - t₁) ≤ rate * (t₂ - t₁) :=
        Nat.mul_le_mul_left _ (by omega)
      rw [hsum, hsize, Nat.mul_assoc]
      generalize Time.second = second at *
      omega
  · intro t₁ t₂ later b' hlast hlater hroom
    have htotal := hlater.total_le hs (hb.later hlast)
    rw [hsize] at hroom ⊢
    generalize Time.second = second at *
    omega
  · intro t hlast
    exact burst_isGreatest hs (hb.later hlast)

/-- From a bucket of 128 segments a full burst is sent after ten seconds at a megabyte a second. As much
again may leave in the same instant. -/
theorem bursts_after_rest : ∃ (sends : List (Nat × Nat)) (b : TokenBucket),
    (Paces 1000000 1000000 200000 (start 1000000 1000000 200000 1000 0) 0 (10 * Time.second) sends b ∧
      Steady 1000000 1000000 200000) ∧
    (∀ t₁ t₂, 0 ≤ t₁ → t₁ ≤ t₂ →
      sentWithin sends t₁ t₂ * Time.second
        ≤ 2 * b.capacity * Time.second + 1000000 * (t₂ - t₁)) ∧
    sentWithin sends (10 * Time.second) (10 * Time.second) = b.capacity ∧
    IsGreatest {n | ∃ later b', Paces 1000000 1000000 200000 b (10 * Time.second) (10 * Time.second)
      later b' ∧ total later = n} b.capacity := by
  have one : Paces 1000000 1000000 200000 _ 0 (10 * Time.second) _ _ :=
    .call (a := start 1000000 1000000 200000 1000 0) .refl (by decide) (.send 128000 rfl)
  have hs : Steady 1000000 1000000 200000 := ⟨by decide, by decide, by decide⟩
  obtain ⟨hany, -, hinstant⟩ := one.bursts hs
  exact ⟨_, _, ⟨one, hs⟩, hany, rfl, hinstant (10 * Time.second) (Nat.le_refl _)⟩

/-- So a run may send more in some time than a capacity and what the rate gives meanwhile. -/
theorem not_conforming : ¬ ∀ (rate rtt window granularity rtt₀ mss first last t₁ t₂ : Nat)
    (sends : List (Nat × Nat)) (b : TokenBucket),
    Paces rate rtt window (start granularity rtt₀ window mss first) first last sends b →
    Steady rate rtt window → first ≤ t₁ → t₁ ≤ t₂ →
    sentWithin sends t₁ t₂ * Time.second ≤ b.capacity * Time.second + rate * (t₂ - t₁) := by
  intro conforms
  have one : Paces 1000000 1000000 200000 _ 0 (10 * Time.second) _ _ :=
    .call (a := start 1000000 1000000 200000 1000 0) .refl (by decide) (.send 128000 rfl)
  have two := one.call (Nat.le_refl _) (.send 128000 rfl)
  have hle := conforms _ _ _ _ _ _ _ _ (10 * Time.second) (10 * Time.second) _ _ two
    ⟨by decide, by decide, by decide⟩ (Nat.zero_le _) (Nat.le_refl _)
  exact absurd hle (by decide +kernel)

end TokenBucket

end LossRecovery
