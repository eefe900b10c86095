import Mathlib.Data.Finset.Card
import Mathlib.Data.List.Pairwise
import Mathlib.Data.Set.Card
import Mathlib.Order.Interval.Finset.Nat
import LossRecovery.Number.Total
import LossRecovery.Sequence.Range

/-!
# `LossRecovery.Proofs.RangeLists` — lists of ranges and the numbers they hold

Ranges that leave gaps cannot share out what one range holds: a range whose numbers are all in some of
them lies in a single one. So the ranges are the runs of the numbers they hold, they are determined by
these numbers once they ascend, and no fewer ranges hold the same numbers.

## Contents
- `Apart`, `Separate rs`: ranges that neither overlap nor touch, none of them empty;
  `Separate.exists_within_iff`.
- `IsRun p r`: a range of numbers with `p` that cannot be extended.
- `Runs p rs`: the runs of the numbers with `p`, ascending; `Runs.mem_iff`, `Runs.unique`,
  `Runs.length_le`, `Runs.encard_eq`, `Runs.head?_iff`, `Runs.getLast?_iff`.
-/

namespace LossRecovery

namespace SeqRange

variable {q r x : SeqRange} {rs vs ws : List SeqRange} {k : Nat} {p : Nat → Prop}

theorem within_iff : x.within r = true ↔ r.start ≤ x.start ∧ x.stop ≤ r.stop := by
  simp [within]

/-! ## Ranges that leave gaps -/

/-- Two ranges neither overlap nor touch. -/
def Apart (a b : SeqRange) : Prop := a.stop < b.start ∨ b.stop < a.start

theorem Apart.symm (h : Apart q r) : Apart r q := Or.symm h

instance : Std.Symm Apart := ⟨fun _ _ => Apart.symm⟩

/-- A number is in one of the ranges. -/
def AnyHolds (rs : List SeqRange) (k : Nat) : Prop := ∃ r ∈ rs, r.contains k = true

/-- No range is empty, and any two are apart. -/
structure Separate (rs : List SeqRange) : Prop where
  apart : rs.Pairwise Apart
  filled : ∀ r ∈ rs, r.start < r.stop

namespace Separate

theorem eq_of_touch (h : Separate rs) (hq : q ∈ rs) (hr : r ∈ rs) (hqr : q.start ≤ r.stop)
    (hrq : r.start ≤ q.stop) : q = r := by
  by_contra hne
  rcases h.apart.forall hq hr hne with hlt | hlt
  · omega
  · omega

/-- The number at which a range ends is in none of them. -/
theorem not_anyHolds_stop (h : Separate rs) (hr : r ∈ rs) : ¬ AnyHolds rs r.stop := by
  rintro ⟨q, hq, hc⟩
  rw [contains_iff] at hc
  have hfilled := h.filled r hr
  obtain rfl := h.eq_of_touch hq hr hc.1 (by omega)
  omega

/-- A range lies in one of the ranges if all its numbers do: it cannot reach over a gap. -/
theorem exists_within_iff (h : Separate rs) (hx : x.start < x.stop) :
    (∃ q ∈ rs, x.within q = true) ↔ ∀ k, x.contains k = true → AnyHolds rs k := by
  constructor
  · rintro ⟨q, hq, hin⟩ k hk
    refine ⟨q, hq, ?_⟩
    rw [within_iff] at hin
    rw [contains_iff] at hk ⊢
    omega
  · intro hall
    obtain ⟨q, hq, hfirst⟩ := hall x.start (contains_iff.mpr ⟨Nat.le_refl _, hx⟩)
    rw [contains_iff] at hfirst
    refine ⟨q, hq, within_iff.mpr ⟨hfirst.1, ?_⟩⟩
    by_contra hstop
    -- Otherwise the end of that range would be one of the numbers.
    apply h.not_anyHolds_stop hq
    apply hall
    rw [contains_iff]
    omega

end Separate

/-! ## Runs -/

/-- All numbers of the range have `p`, and its neighbours on both sides do not. -/
structure IsRun (p : Nat → Prop) (r : SeqRange) : Prop where
  filled : r.start < r.stop
  all : ∀ k, r.contains k = true → p k
  first : ∀ k, k + 1 = r.start → ¬ p k
  last : ¬ p r.stop

/-- The ranges ascend, leave gaps, and hold the numbers with `p`. -/
structure Runs (p : Nat → Prop) (rs : List SeqRange) : Prop where
  ascending : rs.Pairwise fun x y => x.stop < y.start
  filled : ∀ r ∈ rs, r.start < r.stop
  exact : ∀ k, p k ↔ AnyHolds rs k

namespace Runs

theorem separate (h : Runs p rs) : Separate rs := ⟨h.ascending.imp Or.inl, h.filled⟩

theorem congr {p' : Nat → Prop} (h : Runs p rs) (hp : ∀ k, p' k ↔ p k) : Runs p' rs :=
  ⟨h.ascending, h.filled, fun k => (hp k).trans (h.exact k)⟩

theorem nodup (h : Runs p rs) : rs.Nodup := by
  refine h.ascending.imp_of_mem ?_
  rintro x y hx - hlt rfl
  have hfilled := h.filled x hx
  omega

theorem isRun (h : Runs p rs) (hr : r ∈ rs) : IsRun p r := by
  refine ⟨h.filled r hr, fun k hk => (h.exact k).mpr ⟨r, hr, hk⟩, ?_, ?_⟩
  · intro k hk hp
    obtain ⟨q, hq, hc⟩ := (h.exact k).mp hp
    rw [contains_iff] at hc
    have hfilled := h.filled r hr
    obtain rfl := h.separate.eq_of_touch hq hr (by omega) (by omega)
    omega
  · rw [h.exact]
    exact h.separate.not_anyHolds_stop hr

theorem mem_of_isRun (h : Runs p rs) (hrun : IsRun p r) : r ∈ rs := by
  have hall : ∀ k, r.contains k = true → AnyHolds rs k := fun k hk =>
    (h.exact k).mp (hrun.all k hk)
  obtain ⟨q, hq, hin⟩ := (h.separate.exists_within_iff hrun.filled).mpr hall
  rw [within_iff] at hin
  have hfilled := hrun.filled
  have hholds : ∀ k, q.start ≤ k → k < q.stop → p k := fun k h1 h2 =>
    (h.exact k).mpr ⟨q, hq, contains_iff.mpr ⟨h1, h2⟩⟩
  -- Were the range any longer, a neighbour of the run would have the property.
  have hstart : q.start = r.start := by
    by_contra hne
    exact hrun.first (r.start - 1) (by omega) (hholds _ (by omega) (by omega))
  have hstop : q.stop = r.stop := by
    by_contra hne
    exact hrun.last (hholds _ (by omega) (by omega))
  obtain ⟨start, stop⟩ := q
  obtain rfl : start = r.start := hstart
  obtain rfl : stop = r.stop := hstop
  exact hq

/-- The ranges are all the runs there are. -/
theorem mem_iff (h : Runs p rs) : r ∈ rs ↔ IsRun p r := ⟨h.isRun, h.mem_of_isRun⟩

/-- There is only one way to write numbers as ascending ranges that leave gaps. -/
theorem unique (h : Runs p rs) (h' : Runs p vs) : rs = vs := by
  have hperm : rs.Perm vs := by
    rw [List.perm_ext_iff_of_nodup h.nodup h'.nodup]
    intro r
    rw [h.mem_iff, h'.mem_iff]
  refine hperm.eq_of_pairwise ?_ h.ascending h'.ascending
  intro x y hx hy hxy hyx
  have h1 := h.filled x hx
  have h2 := h'.filled y hy
  omega

/-- No shorter list of ranges holds the same numbers: each range of a list lies in one of the runs, and
each run needs one. -/
theorem length_le (h : Runs p rs) (hws : ∀ k, p k ↔ AnyHolds ws k) : rs.length ≤ ws.length := by
  classical
  have hpart : ∀ r ∈ rs, ∃ w ∈ ws, w.contains r.start = true := by
    intro r hr
    apply (hws r.start).mp
    apply (h.exact r.start).mpr
    exact ⟨r, hr, contains_iff.mpr ⟨Nat.le_refl _, h.filled r hr⟩⟩
  choose! part hmem hstart using hpart
  have hinjective : Set.InjOn part (rs.toFinset : Set SeqRange) := by
    intro q hq r hr heq
    rw [List.coe_toFinset, Set.mem_ofPred_eq] at hq hr
    have hqs := contains_iff.mp (hstart q hq)
    have hrs := contains_iff.mp (hstart r hr)
    rw [heq] at hqs
    -- The common part would hold the number at which the lower of two runs ends.
    have hgap : ∀ t ∈ rs, ¬ (part r).contains t.stop = true := fun t ht hc =>
      h.separate.not_anyHolds_stop ht ((h.exact _).mp ((hws _).mpr ⟨part r, hmem r hr, hc⟩))
    have hqgap := hgap q hq
    have hrgap := hgap r hr
    rw [contains_iff] at hqgap hrgap
    have hqf := h.filled q hq
    have hrf := h.filled r hr
    exact h.separate.eq_of_touch hq hr (by omega) (by omega)
  calc rs.length = rs.toFinset.card := (List.toFinset_card_of_nodup h.nodup).symm
    _ ≤ ws.toFinset.card := by
      refine Finset.card_le_card_of_injOn part ?_ hinjective
      intro r hr
      simp only [List.coe_toFinset, Set.mem_ofPred_eq] at hr ⊢
      exact hmem r hr
    _ ≤ ws.length := List.toFinset_card_le ws

/-- Without one of the runs, its numbers and no others are missing. -/
theorem anyHolds_erase_iff (h : Runs p rs) (hq : q ∈ rs) :
    AnyHolds (rs.erase q) k ↔ p k ∧ ¬ q.contains k = true := by
  unfold AnyHolds
  simp only [h.nodup.mem_erase_iff]
  constructor
  · rintro ⟨r, ⟨hne, hr⟩, hc⟩
    refine ⟨(h.exact k).mpr ⟨r, hr, hc⟩, ?_⟩
    intro hqc
    rw [contains_iff] at hc hqc
    exact hne (h.separate.eq_of_touch hr hq (by omega) (by omega))
  · rintro ⟨hp, hnot⟩
    obtain ⟨r, hr, hc⟩ := (h.exact k).mp hp
    refine ⟨r, ⟨?_, hr⟩, hc⟩
    rintro rfl
    exact hnot hc

/-! ### Reading the numbers -/

/-- Behind the first run stand the runs of what lies above it. -/
theorem tail (h : Runs p (r :: rs)) : Runs (fun k => p k ∧ r.stop < k) rs := by
  obtain ⟨hfirst, hrest⟩ := List.pairwise_cons.mp h.ascending
  refine ⟨hrest, fun q hq => h.filled q (List.mem_cons_of_mem r hq), fun k => ?_⟩
  constructor
  · rintro ⟨hp, hlt⟩
    obtain ⟨q, hq, hc⟩ := (h.exact k).mp hp
    rcases List.mem_cons.mp hq with rfl | hq
    · rw [contains_iff] at hc
      omega
    · exact ⟨q, hq, hc⟩
  · rintro ⟨q, hq, hc⟩
    refine ⟨(h.exact k).mpr ⟨q, List.mem_cons_of_mem r hq, hc⟩, ?_⟩
    have hlt := hfirst q hq
    rw [contains_iff] at hc
    omega

/-- The lengths of the runs add up to how many numbers there are. -/
theorem encard_eq (h : Runs p rs) : Set.encard {k | p k} = Number.total (rs.map length) := by
  induction rs generalizing p with
  | nil =>
    have hempty : {k | p k} = ∅ := by
      ext k
      simp [h.exact k, AnyHolds]
    simp [hempty]
  | cons r rest ih =>
    have hsplit : {k | p k} = ↑(Finset.Ico r.start r.stop) ∪ {k | p k ∧ r.stop < k} := by
      ext k
      simp only [Set.mem_union, Set.mem_ofPred_eq, Finset.coe_Ico, Set.mem_Ico]
      have hrun := h.isRun (List.mem_cons_self (a := r) (l := rest))
      have habove := h.tail.exact k
      constructor
      · intro hp
        obtain ⟨q, hq, hc⟩ := (h.exact k).mp hp
        rcases List.mem_cons.mp hq with rfl | hq
        · exact .inl (contains_iff.mp hc)
        · exact .inr (habove.mpr ⟨q, hq, hc⟩)
      · rintro (hin | hout)
        · exact hrun.all k (contains_iff.mpr hin)
        · exact hout.1
    have hdisjoint : Disjoint (↑(Finset.Ico r.start r.stop) : Set Nat) {k | p k ∧ r.stop < k} := by
      rw [Set.disjoint_left]
      intro k hin hout
      simp only [Finset.coe_Ico, Set.mem_Ico] at hin
      have hlt := hout.2
      omega
    rw [hsplit, Set.encard_union_eq hdisjoint, ih h.tail, Set.encard_coe_eq_coe_finsetCard,
      Nat.card_Ico]
    simp [length]

/-- The first run begins with the least number. -/
theorem head?_iff (h : Runs p rs) : rs.head?.map (·.start) = some k ↔ IsLeast {k | p k} k := by
  cases rs with
  | nil =>
    have hnone : ∀ n, ¬ p n := fun n hp => by simpa [AnyHolds] using (h.exact n).mp hp
    simp [IsLeast, hnone]
  | cons r rest =>
    have hrun := h.isRun (List.mem_cons_self (a := r) (l := rest))
    have hleast : IsLeast {k | p k} r.start := by
      refine ⟨hrun.all _ (contains_iff.mpr ⟨Nat.le_refl _, hrun.filled⟩), ?_⟩
      intro n hp
      obtain ⟨q, hq, hc⟩ := (h.exact n).mp hp
      rw [contains_iff] at hc
      rcases List.mem_cons.mp hq with rfl | hq
      · exact hc.1
      · have hlt := (List.pairwise_cons.mp h.ascending).1 q hq
        have hfilled := hrun.filled
        omega
    rw [List.head?_cons, Option.map_some, Option.some.injEq]
    constructor
    · rintro rfl
      exact hleast
    · intro hk
      exact hleast.unique hk

/-- The last run ends with the greatest number. -/
theorem getLast?_iff (h : Runs p rs) :
    rs.getLast?.map (·.stop - 1) = some k ↔ IsGreatest {k | p k} k := by
  rcases List.eq_nil_or_concat rs with rfl | ⟨below, r, rfl⟩
  · have hnone : ∀ n, ¬ p n := fun n hp => by simpa [AnyHolds] using (h.exact n).mp hp
    simp [IsGreatest, hnone]
  · rw [List.concat_eq_append] at h ⊢
    have hrun := h.isRun (List.mem_append_right below (List.mem_singleton_self r))
    have hfilled := hrun.filled
    have hgreatest : IsGreatest {k | p k} (r.stop - 1) := by
      refine ⟨hrun.all _ (contains_iff.mpr (by omega)), ?_⟩
      intro n hp
      obtain ⟨q, hq, hc⟩ := (h.exact n).mp hp
      rw [contains_iff] at hc
      rcases List.mem_append.mp hq with hq | hq
      · have hlt := (List.pairwise_append.mp h.ascending).2.2 q hq r (List.mem_singleton_self r)
        omega
      · obtain rfl := List.mem_singleton.mp hq
        omega
    rw [List.getLast?_append, List.getLast?_singleton, Option.some_or, Option.map_some,
      Option.some.injEq]
    constructor
    · rintro rfl
      exact hgreatest
    · intro hk
      exact hgreatest.unique hk

end Runs

end SeqRange

end LossRecovery
