import LossRecovery.Proofs.RttEstimates

/-!
# `LossRecovery.Proofs.FilteredExtremes` — what the choices of a filter stand for

A filter does not keep the measurements it was fed, only three of them. Each one it keeps is strictly
better than all that came after it: a later one that is as good would have taken its place. So when the
best choice leaves the window, the next one moves up with the same right, and the last choice is never
older than the window.

## Contents
- `Extreme.Beats`, `Leads`: strictly better values; a measurement that beats all fed after it.
- `Choices.Leading fed c`: what is known of all three choices; `Leading.improve`, `Leading.shift`,
  `Leading.age`: the steps of an update keep it.
- `WindowedFilter.Fed`: measurements at times that never go back; `Fed.leading`: the invariant of a filter.
- `Fed.holds_extreme`: the best value, its time, and the order of the choices.
-/

namespace LossRecovery

/-! ## Measurements that lead -/

/-- Whether the value `a` is strictly better than `b`. -/
def Extreme.Beats (e : Extreme) (a b : Nat) : Prop :=
  match e with
  | least => a < b
  | greatest => b < a

theorem Extreme.beats_of_not_better {e : Extreme} {a b : Nat} (h : ¬ e.better b a = true) :
    e.Beats a b := by
  cases e <;> simpa [better, Beats] using h

/-- The measurement `m` was fed, and it is strictly better than all that were fed after it. The latest
measurement stands first. -/
def Leads (e : Extreme) (fed : List Measurement) (m : Measurement) : Prop :=
  ∃ newer older, fed = newer ++ m :: older ∧ ∀ n ∈ newer, e.Beats m.value n.value

namespace Leads

variable {e : Extreme} {fed : List Measurement} {m c : Measurement}

/-- Nothing was fed after the latest measurement. -/
theorem latest (e : Extreme) (fed : List Measurement) (m : Measurement) : Leads e (m :: fed) m :=
  ⟨[], fed, rfl, by simp⟩

theorem feed (h : Leads e fed c) (hworse : ¬ e.better m.value c.value = true) :
    Leads e (m :: fed) c := by
  obtain ⟨newer, older, hfed, hbeats⟩ := h
  refine ⟨m :: newer, older, congrArg (m :: ·) hfed, ?_⟩
  intro n hn
  rcases List.mem_cons.mp hn with rfl | hn
  · exact Extreme.beats_of_not_better hworse
  · exact hbeats n hn

end Leads

/-! ## The choices of a filter -/

namespace Choices

variable {e : Extreme} {fed : List Measurement} {c : Choices} {m : Measurement} {window : Nat}

/-- All three choices lead the measurements, each was taken no earlier than the one before it, and they
stand from best to worst. -/
structure Leading (e : Extreme) (fed : List Measurement) (c : Choices) : Prop where
  best : Leads e fed c.best
  second : Leads e fed c.second
  third : Leads e fed c.third
  earlier : c.best.time ≤ c.second.time
  later : c.second.time ≤ c.third.time
  better : e.better c.best.value c.second.value = true
  worse : e.better c.second.value c.third.value = true

theorem Leading.only (e : Extreme) (fed : List Measurement) (m : Measurement) :
    (only m).Leading e (m :: fed) := by
  have hlatest := Leads.latest e fed m
  have hself := e.better_refl m.value
  exact ⟨hlatest, hlatest, hlatest, Nat.le_refl _, Nat.le_refl _, hself, hself⟩

/-- A choice that is kept was not as good as the measurement that came, and so it leads that one too. -/
theorem Leading.improve (h : c.Leading e fed) (hbest : ¬ e.better m.value c.best.value = true)
    (htime : c.third.time ≤ m.time) : (c.improve e m).Leading e (m :: fed) := by
  have hlatest := Leads.latest e fed m
  have hself := e.better_refl m.value
  have hearlier := h.earlier
  have hlater := h.later
  unfold Choices.improve
  split
  · refine ⟨h.best.feed hbest, hlatest, hlatest, ?_, Nat.le_refl _, ?_, hself⟩
    · show c.best.time ≤ m.time
      omega
    · exact Extreme.better_of_not hbest
  · next hsecond =>
    split
    · refine ⟨h.best.feed hbest, h.second.feed hsecond, hlatest, hearlier, ?_, h.better, ?_⟩
      · show c.second.time ≤ m.time
        omega
      · exact Extreme.better_of_not hsecond
    · next hthird =>
      exact ⟨h.best.feed hbest, h.second.feed hsecond, h.third.feed hthird, hearlier, hlater,
        h.better, h.worse⟩

/-- When the best choice is let go, the others have led all along. -/
theorem Leading.shift (h : c.Leading e (m :: fed)) (hgood : c.AsGood e m) :
    (c.shift m).Leading e (m :: fed) :=
  ⟨h.second, h.third, Leads.latest e fed m, h.later, hgood.time, h.worse, hgood.third⟩

theorem Leading.age (h : c.Leading e (m :: fed)) (hgood : c.AsGood e m) (window : Nat) :
    (c.age window m).Leading e (m :: fed) := by
  have hlatest := Leads.latest e fed m
  have hself := e.better_refl m.value
  have hearlier := h.earlier
  have hlater := h.later
  have htime := hgood.time
  unfold Choices.age
  dsimp only
  split
  · have hshifted := h.shift hgood
    split
    · exact hshifted.shift hgood.shift
    · exact hshifted
  · split
    · refine ⟨h.best, hlatest, hlatest, ?_, Nat.le_refl _, hgood.best, hself⟩
      show c.best.time ≤ m.time
      omega
    · split
      · refine ⟨h.best, h.second, hlatest, hearlier, ?_, h.better, hgood.second⟩
        show c.second.time ≤ m.time
        omega
      · exact h

/-! ## The age of the choices -/

/-- The last choice is replaced by the measurement that comes, if at all. -/
theorem third_improve (e : Extreme) (c : Choices) (m : Measurement) :
    (c.improve e m).third = c.third ∨ (c.improve e m).third = m := by
  unfold improve
  split
  · exact .inr rfl
  · split
    · exact .inr rfl
    · exact .inl rfl

/-- As long as the last choice is in the window, letting at most two others go leaves a best choice that
is. -/
theorem best_age_within (h : m.time - c.third.time ≤ window) :
    m.time - (c.age window m).best.time ≤ window := by
  unfold age
  dsimp only
  split
  · split
    · exact h
    · next hkept => exact Nat.le_of_not_lt hkept
  · next hkept =>
    have hkept := Nat.le_of_not_lt hkept
    split
    · exact hkept
    · split <;> exact hkept

end Choices

/-! ## Filters -/

namespace WindowedFilter

variable {e : Extreme} {window : Nat} {fed : List Measurement} {f : WindowedFilter} {m : Measurement}

/-- A filter that was fed measurements at times that never go back. They are listed since it was made or
cleared, latest first. -/
inductive Fed (e : Extreme) (window : Nat) : List Measurement → WindowedFilter → Prop
  | start : Fed e window [] (start e window)
  | feed {fed : List Measurement} {f : WindowedFilter} (before : Fed e window fed f) (m : Measurement)
      (later : ∀ last ∈ fed.head?, last.time ≤ m.time) :
      Fed e window (m :: fed) (f.update m.time m.value).1
  | clear {fed : List Measurement} {f : WindowedFilter} (before : Fed e window fed f) :
      Fed e window [] f.clear

/-- The filter of a run: it has no choices before the first measurement, and choices that lead all
measurements after it, none of them from after the latest one. The best one is in the window. -/
inductive Leading (e : Extreme) (window : Nat) : List Measurement → WindowedFilter → Prop
  | empty : Leading e window [] ⟨e, window, none⟩
  | chosen {m : Measurement} {fed : List Measurement} {c : Choices}
      (leading : c.Leading e (m :: fed)) (time : c.third.time ≤ m.time)
      (within : m.time - c.best.time ≤ window) : Leading e window (m :: fed) ⟨e, window, some c⟩

theorem Leading.restart (e : Extreme) (window : Nat) (m : Measurement) (fed : List Measurement) :
    Leading e window (m :: fed) ⟨e, window, some (Choices.only m)⟩ := by
  refine .chosen (.only e fed m) (Nat.le_refl _) ?_
  show m.time - m.time ≤ window
  omega

/-- A measurement that is not older than the last one starts the filter anew, or is weighed against its
choices, after which those that left the window go. -/
theorem Leading.update (h : Leading e window fed f) (later : ∀ last ∈ fed.head?, last.time ≤ m.time) :
    Leading e window (m :: fed) (f.update m.time m.value).1 := by
  cases h with
  | empty => exact .restart e window m []
  | @chosen last older c leading time within =>
    have hlast : last.time ≤ m.time := later last rfl
    have htime : c.third.time ≤ m.time := Nat.le_trans time hlast
    unfold WindowedFilter.update
    dsimp only
    rw [if_neg (Nat.not_lt.mpr htime)]
    split
    · exact .restart e window m (last :: older)
    · next hkept =>
      rw [not_or, Nat.not_lt] at hkept
      obtain ⟨hbest, hrecent⟩ := hkept
      have himproved := leading.improve hbest htime
      have hgood := Choices.AsGood.improve hbest htime
      refine .chosen (himproved.age hgood window) (hgood.age window).time ?_
      apply Choices.best_age_within
      rcases c.third_improve e m with hthird | hthird
      · rw [hthird]
        exact hrecent
      · rw [hthird, Nat.sub_self]
        exact Nat.zero_le window

theorem Fed.leading (h : Fed e window fed f) : Leading e window fed f := by
  induction h with
  | start => exact .empty
  | feed _ m later ih => exact ih.update later
  | clear _ ih => cases ih <;> exact .empty

/-- After every measurement, the best value is one that was fed, no longer ago than the window, and it is
strictly better than all that were fed since. The choices stand by their times, and from best to worst.
Before the first measurement there is no best value. -/
theorem Fed.holds_extreme (h : Fed e window fed f) :
    (fed = [] → f.value? = none ∧ f.time? = none) ∧
    ∀ latest older, fed = latest :: older → ∃ c, f.choices = some c ∧
      f.value? = some c.best.value ∧ f.time? = some c.best.time ∧
      (∃ newer since, fed = newer ++ c.best :: since ∧
        ∀ n ∈ newer, e.Beats c.best.value n.value) ∧
      c.best.time ≤ latest.time ∧ latest.time - c.best.time ≤ window ∧
      c.best.time ≤ c.second.time ∧ c.second.time ≤ c.third.time ∧
      e.better c.best.value c.second.value = true ∧
      e.better c.second.value c.third.value = true := by
  have hleading := h.leading
  constructor
  · rintro rfl
    cases hleading
    exact ⟨rfl, rfl⟩
  · rintro latest older rfl
    cases hleading with
    | chosen leading time within =>
      have hearlier := leading.earlier
      have hlater := leading.later
      exact ⟨_, rfl, rfl, rfl, leading.best, by omega, within, hearlier, hlater, leading.better,
        leading.worse⟩

/-- The least value so far leaves the window, and the choice that was made in the second quarter takes
over. -/
theorem holds_extreme_after_ageing : ∃ f,
    Fed .least 100 [⟨130, 90⟩, ⟨90, 80⟩, ⟨50, 70⟩, ⟨20, 40⟩, ⟨10, 60⟩, ⟨0, 50⟩] f ∧
    f.value? = some 70 ∧ f.time? = some 50 ∧
    ∃ newer since, [⟨130, 90⟩, ⟨90, 80⟩, ⟨50, 70⟩, ⟨20, 40⟩, ⟨10, 60⟩, ⟨0, 50⟩]
        = newer ++ (⟨50, 70⟩ : Measurement) :: since ∧
      ∀ n ∈ newer, 70 < n.value := by
  have one : Fed .least 100 _ _ := .feed .start ⟨0, 50⟩ (by simp)
  have two := one.feed ⟨10, 60⟩ (by simp)
  have three := two.feed ⟨20, 40⟩ (by simp)
  have four := three.feed ⟨50, 70⟩ (by simp)
  have five := four.feed ⟨90, 80⟩ (by simp)
  have six := five.feed ⟨130, 90⟩ (by simp)
  obtain ⟨c, hc, hvalue, htime, hleads, -⟩ := six.holds_extreme.2 _ _ rfl
  cases hc
  exact ⟨_, six, hvalue, htime, hleads⟩

end WindowedFilter

end LossRecovery
