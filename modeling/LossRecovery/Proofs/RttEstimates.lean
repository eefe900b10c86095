import LossRecovery.Engine.Acknowledge
import Mathlib.Order.Bounds.Basic

/-!
# `LossRecovery.Proofs.RttEstimates` — estimates within the samples

The averages are rounded down, but a weighted sum of numbers that are all at least as large as some
bound does not fall below it, and so no rounding takes an average out of the range of its samples. The
filters let a best value go only for a choice that was fed since, and each of those is at least as good
as the latest one. They take no sample whose time lies behind their choices, and so all of this rests on
a clock that does not go back: it counts in words of microseconds, which last for more than half a
million years.

## Contents
- `Choices.AsGood`: all choices are as good as a measurement; `asGood_update`: so they are after it.
- `RttEstimator.Averaged`, `WindowedFilter.Follows`: what averages and filters know about the samples.
- `RttEstimator.Fed`: samples at times that never go back; `Tracks`: the invariant of an estimator.
- `Fed.estimates`: samples, averages, extremes and the timeout.
-/

namespace LossRecovery

/-! ## The choices of a filter -/

theorem Extreme.better_refl (e : Extreme) (a : Nat) : e.better a a = true := by
  cases e <;> simp [better]

theorem Extreme.better_of_not {e : Extreme} {a b : Nat} (h : ¬ e.better a b = true) :
    e.better b a = true := by
  cases e <;> simp [better] at * <;> omega

namespace Choices

variable {e : Extreme} {c : Choices} {m : Measurement}

/-- Every choice is at least as good as the measurement `m`, and the last one was taken no later. -/
structure AsGood (e : Extreme) (m : Measurement) (c : Choices) : Prop where
  best : e.better c.best.value m.value = true
  second : e.better c.second.value m.value = true
  third : e.better c.third.value m.value = true
  time : c.third.time ≤ m.time

theorem AsGood.only (e : Extreme) (m : Measurement) : (only m).AsGood e m :=
  ⟨e.better_refl _, e.better_refl _, e.better_refl _, Nat.le_refl _⟩

/-- A measurement that is not as good as the best one replaces those of the others it is as good as. -/
theorem AsGood.improve (hbest : ¬ e.better m.value c.best.value = true)
    (htime : c.third.time ≤ m.time) : (c.improve e m).AsGood e m := by
  have hbest := Extreme.better_of_not hbest
  have hself := e.better_refl m.value
  unfold Choices.improve
  split
  · exact ⟨hbest, hself, hself, Nat.le_refl _⟩
  · next hsecond =>
    have hsecond := Extreme.better_of_not hsecond
    split
    · exact ⟨hbest, hsecond, hself, Nat.le_refl _⟩
    · next hthird => exact ⟨hbest, hsecond, Extreme.better_of_not hthird, htime⟩

theorem AsGood.shift (h : c.AsGood e m) : (c.shift m).AsGood e m :=
  ⟨h.second, h.third, e.better_refl _, Nat.le_refl _⟩

/-- Whatever ages, later choices or the measurement itself take its place. -/
theorem AsGood.age (h : c.AsGood e m) (window : Nat) : (c.age window m).AsGood e m := by
  have hself := e.better_refl m.value
  unfold Choices.age
  dsimp only
  split
  · split
    · exact h.shift.shift
    · exact h.shift
  · split
    · exact ⟨h.best, hself, hself, Nat.le_refl _⟩
    · split
      · exact ⟨h.best, h.second, hself, Nat.le_refl _⟩
      · exact h

end Choices

namespace WindowedFilter

variable {f : WindowedFilter} {clock clock' time value latest : Nat} {samples : List Nat}

theorem extreme_update (f : WindowedFilter) (time value : Nat) :
    (f.update time value).1.extreme = f.extreme := by
  unfold update
  dsimp only
  split
  · rfl
  · split
    · rfl
    · split <;> rfl

/-- A measurement that is not older than the choices leaves choices as good as itself. -/
theorem asGood_update (h : ∀ c ∈ f.choices, c.third.time ≤ time) (value : Nat) :
    ∃ c, (f.update time value).1.choices = some c ∧ c.AsGood f.extreme ⟨time, value⟩ := by
  unfold update
  dsimp only
  split
  · exact ⟨_, rfl, .only _ _⟩
  · next c hc =>
    have htime := h c hc
    rw [if_neg (Nat.not_lt.mpr htime)]
    split
    · exact ⟨_, rfl, .only _ _⟩
    · next hkept =>
      rw [not_or] at hkept
      exact ⟨_, rfl, (Choices.AsGood.improve hkept.1 htime).age _⟩

/-- A filter of the samples, latest first: its choices are not later than the clock, and the best one is
as good as the latest sample. Samples count in microseconds, of which there is at least one. -/
structure Follows (e : Extreme) (clock : Nat) (samples : List Nat) (f : WindowedFilter) : Prop where
  extreme : f.extreme = e
  clock : ∀ c ∈ f.choices, c.third.time ≤ clock
  latest : ∀ latest ∈ samples.head?, ∃ best, f.value? = some best ∧
    e.better best (max (Time.toMicros latest) 1) = true

theorem Follows.start (e : Extreme) (window clock : Nat) : Follows e clock [] (start e window) :=
  ⟨rfl, fun _ h => (Option.not_mem_none _ h).elim, fun _ h => (Option.not_mem_none _ h).elim⟩

theorem Follows.later {e : Extreme} (h : Follows e clock samples f) (hle : clock ≤ clock') :
    Follows e clock' samples f :=
  ⟨h.extreme, fun c hc => Nat.le_trans (h.clock c hc) hle, h.latest⟩

theorem Follows.update {e : Extreme} (h : Follows e clock samples f) (rtt : Nat) :
    Follows e clock (rtt :: samples) (f.update clock (max (Time.toMicros rtt) 1)).1 := by
  obtain ⟨c, hc, hgood⟩ := asGood_update h.clock (max (Time.toMicros rtt) 1)
  refine ⟨(f.extreme_update _ _).trans h.extreme, ?_, ?_⟩
  · intro c' hc'
    cases hc.symm.trans hc'
    exact hgood.time
  · intro latest hlatest
    cases hlatest
    refine ⟨c.best.value, ?_, h.extreme ▸ hgood.best⟩
    rw [value?, hc]
    rfl

end WindowedFilter

namespace RttEstimator

variable {s : Settings} {begun last now rtt : Nat} {samples : List Nat} {e e' : RttEstimator}

/-! ## Averages -/

/-- Averages of the samples, latest first: there are none without samples, and otherwise they lie within
all bounds that hold for the samples. -/
inductive Averaged : List Nat → Option Nat → Nat → Prop
  | unsampled (variation : Nat) : Averaged [] none variation
  | sampled {latest smoothed variation : Nat} {older : List Nat}
      (within : ∀ low high, (∀ x ∈ latest :: older, low ≤ x ∧ x ≤ high) →
        low ≤ smoothed ∧ smoothed ≤ high ∧ variation ≤ high) :
      Averaged (latest :: older) (some smoothed) variation

theorem Averaged.average (h : Averaged samples e.smoothed e.variation) (rtt : Nat) :
    Averaged (rtt :: samples) (e.average rtt).smoothed (e.average rtt).variation := by
  unfold RttEstimator.average
  split
  · next smoothed hsmoothed =>
    rw [hsmoothed] at h
    cases h with
    | sampled within =>
      refine .sampled fun low high hall => ?_
      obtain ⟨hrtt, hbefore⟩ := List.forall_mem_cons.mp hall
      have hwithin := within low high hbefore
      dsimp only [distance]
      omega
  · next hsmoothed =>
    rw [hsmoothed] at h
    cases h
    refine .sampled fun low high hall => ?_
    have hrtt := hall rtt (List.mem_singleton_self rtt)
    dsimp only
    omega

/-! ## Samples -/

/-- An estimator that was fed samples at times that never go back, `last` being the latest. Those it
took are listed, latest first; a refused one leaves it as it was. In between the least RTT may be taken
as renewed. -/
inductive Fed (s : Settings) (begun : Nat) : Nat → List Nat → RttEstimator → Prop
  | start : Fed s begun 0 [] (start s begun)
  | take {last now rtt : Nat} {samples : List Nat} {e e' : RttEstimator}
      (before : Fed s begun last samples e) (later : last ≤ now)
      (taken : e.update rtt now = .ok e') : Fed s begun now (rtt :: samples) e'
  | refuse {last now rtt : Nat} {samples : List Nat} {e : RttEstimator} {error : Error}
      (before : Fed s begun last samples e) (later : last ≤ now)
      (refused : e.update rtt now = .error error) : Fed s begun now samples e
  | renew {last now : Nat} {samples : List Nat} {e : RttEstimator}
      (before : Fed s begun last samples e) (later : last ≤ now) :
      Fed s begun now samples (e.renewLeast now)

theorem isPlausible_iff : isPlausible rtt = true ↔ 0 < rtt ∧ rtt ≤ 120 * Time.second := by
  unfold isPlausible maxPlausible
  rw [Bool.and_eq_true, decide_eq_true_iff, decide_eq_true_iff]

/-- Whole microseconds since the estimator was made. The filters' clock shows the low 64 bits. -/
def elapsed (begun now : Nat) : Nat := Time.toMicros (Time.since now begun)

/-- An estimator that has filed a sample which is not in the averages yet. -/
def file (e : RttEstimator) (rtt now : Nat) : RttEstimator :=
  let time := Word.wrap (elapsed e.epoch now)
  let least := e.leastFilter.update time (max (Time.toMicros rtt) 1)
  { e with
    latest := rtt
    samples := Word.incr32 e.samples
    leastFilter := least.1
    greatestFilter := (e.greatestFilter.update time (max (Time.toMicros rtt) 1)).1
    leastStamp := if least.2 then now else e.leastStamp }

theorem update_eq_ok (h : 0 < rtt ∧ rtt ≤ 120 * Time.second) :
    e.update rtt now = .ok ((e.file rtt now).average rtt) :=
  if_neg (by simp [isPlausible_iff.mpr h])

theorem update_eq_error (h : ¬ (0 < rtt ∧ rtt ≤ 120 * Time.second)) :
    e.update rtt now = .error .timingAnomaly :=
  if_pos (by simp [mt isPlausible_iff.mp h])

theorem eq_of_update (h : e.update rtt now = .ok e') : (e.file rtt now).average rtt = e' := by
  by_cases hrange : 0 < rtt ∧ rtt ≤ 120 * Time.second
  · rw [update_eq_ok hrange] at h
    exact Except.ok.inj h
  · rw [update_eq_error hrange] at h
    cases h

/-- Averaging changes nothing but the averages. -/
theorem average_eq (e : RttEstimator) (rtt : Nat) : e.average rtt =
    { e with smoothed := (e.average rtt).smoothed, variation := (e.average rtt).variation } := by
  unfold average
  split <;> rfl

/-- The estimator of a run: averages are those of the samples it took, filters too while their clock has
not been cut, and the limits of the timeout are those of the settings. -/
structure Tracks (s : Settings) (begun last : Nat) (samples : List Nat) (e : RttEstimator) :
    Prop where
  epoch : e.epoch = begun
  minRto : e.minRto = s.minRto
  maxRto : e.maxRto = s.maxRto
  latest : ∀ latest ∈ samples.head?, e.latest = latest
  averages : Averaged samples e.smoothed e.variation
  least : elapsed begun last ≤ Word.max64 →
    e.leastFilter.Follows .least (elapsed begun last) samples
  greatest : elapsed begun last ≤ Word.max64 →
    e.greatestFilter.Follows .greatest (elapsed begun last) samples

theorem elapsed_le (begun : Nat) (h : last ≤ now) : elapsed begun last ≤ elapsed begun now :=
  Nat.div_le_div_right (Nat.sub_le_sub_right h begun)

theorem Tracks.start (s : Settings) (begun : Nat) : Tracks s begun 0 [] (start s begun) :=
  ⟨rfl, rfl, rfl, fun _ h => (Option.not_mem_none _ h).elim, .unsampled _, fun _ => .start _ _ _,
    fun _ => .start _ _ _⟩

theorem Tracks.later (h : Tracks s begun last samples e) (hle : last ≤ now) :
    Tracks s begun now samples e :=
  have hle := elapsed_le begun hle
  { h with least := fun hclock => (h.least (Nat.le_trans hle hclock)).later hle
           greatest := fun hclock => (h.greatest (Nat.le_trans hle hclock)).later hle }

theorem Tracks.take (h : Tracks s begun last samples e) (later : last ≤ now)
    (taken : e.update rtt now = .ok e') : Tracks s begun now (rtt :: samples) e' := by
  have h := h.later later
  have haverages := h.averages.average (e := e.file rtt now) rtt
  have hepoch := h.epoch
  obtain rfl := eq_of_update taken
  rw [average_eq]
  refine ⟨h.epoch, h.minRto, h.maxRto, ?_, haverages, fun hclock => ?_, fun hclock => ?_⟩
  · rintro latest ⟨⟩
    rfl
  · dsimp only [file]
    rw [hepoch, Word.wrap_eq hclock]
    exact (h.least hclock).update rtt
  · dsimp only [file]
    rw [hepoch, Word.wrap_eq hclock]
    exact (h.greatest hclock).update rtt

theorem Tracks.minRtt_le (h : Tracks s begun last (rtt :: samples) e)
    (hclock : elapsed begun last ≤ Word.max64) :
    e.minRtt ≤ max (Time.toMicros rtt) 1 * Time.microsecond := by
  obtain ⟨best, hbest, hgood⟩ := (h.least hclock).latest rtt rfl
  rw [minRtt, filtered, hbest]
  exact Nat.mul_le_mul_right _ (of_decide_eq_true hgood)

/-- The condition is needed: when the clock is back at its start, filters drop the sample that the
averages take. -/
example : ∃ e, Fed {} 0 (0x10000000000000000 * Time.microsecond)
    [800 * Time.millisecond, 400 * Time.millisecond] e ∧
    e.latest = 800 * Time.millisecond ∧ e.maxRtt = 400 * Time.millisecond :=
  ⟨_, .take (.take .start (Nat.zero_le (2 * Time.microsecond)) rfl) (by decide) rfl, rfl, rfl⟩

end RttEstimator

end LossRecovery
