import LossRecovery.Proofs.RangeLists
import LossRecovery.Proofs.RangeSets

/-!
# `LossRecovery.Proofs.RangeUnions` — a bounded set of ranges as a set of numbers

A set of ranges is the set of the numbers put in and not removed, written in as few ranges as there
can be, as long as these fit. When they do not, there is exactly one range too many, none of those held
was joined, and the lowest one held is given up. That is the lowest of all unless the new range lies
below it.

## Contents
- `Joins s r us`: the ranges that the numbers of the set and of a range need together.
- `Canonical.covers_iff`, `holds_removeBelow_iff`: the operations on the numbers of the set.
- `Canonical.insert_fits`, `Canonical.insert_overflows`: an insertion with and without room.
- `Reachable capacity s`: any sequence of operations on a set that was empty.
- `Bounded capacity s`: what the operations preserve; `Bounded.holds_insert_fits`,
  `Bounded.holds_insert_overflows`, `Bounded.eq_of_holds`.
- `Reachable.stores_numbers`: every operation and every view is exact.
- `Reachable.gives_up_lowest_held`: what a full set loses; `loses_second_lowest`: and when that is not
  the lowest range.
-/

namespace LossRecovery

namespace RangeSet

variable {s t : RangeSet} {r q : SeqRange} {us rest : List SeqRange} {k seq capacity : Nat}

/-- The ranges that the numbers of the set and of `r` need together. -/
def Joins (s : RangeSet) (r : SeqRange) (us : List SeqRange) : Prop :=
  SeqRange.Runs (fun k => s.Holds k ∨ r.contains k = true) us

/-! ## The numbers of a set -/

namespace Canonical

theorem runs (h : s.Canonical) : SeqRange.Runs s.Holds s.ranges :=
  ⟨h.apart, h.filled, fun _ => Iff.rfl⟩

theorem covers_iff (h : s.Canonical) :
    s.covers r = true ↔ ∀ k, r.contains k = true → s.Holds k := by
  unfold covers
  rw [Bool.or_eq_true, SeqRange.isEmpty_iff, List.any_eq_true]
  by_cases hr : r.stop ≤ r.start
  · have hnone : ∀ k, ¬ r.contains k = true := by
      intro k hk
      rw [SeqRange.contains_iff] at hk
      omega
    simp [hr, hnone]
  · rw [or_iff_right hr]
    exact h.runs.separate.exists_within_iff (Nat.lt_of_not_le hr)

end Canonical

theorem holds_removeBelow_iff : (s.removeBelow seq).Holds k ↔ s.Holds k ∧ seq ≤ k := by
  constructor
  · intro hk
    refine ⟨of_removeBelow hk, ?_⟩
    obtain ⟨q, hq, hc⟩ := hk
    obtain ⟨x, -, rfl⟩ := List.mem_map.mp hq
    rw [SeqRange.contains_iff] at hc
    exact Nat.le_trans (Nat.le_max_left _ _) hc.1
  · rintro ⟨⟨x, hx, hc⟩, hle⟩
    rw [SeqRange.contains_iff] at hc
    have hkept : x ∈ s.ranges.filter (seq < ·.stop) := by
      apply List.mem_filter.mpr
      refine ⟨hx, ?_⟩
      rw [decide_eq_true_eq]
      omega
    refine ⟨_, List.mem_map_of_mem hkept, ?_⟩
    rw [SeqRange.contains_iff]
    exact ⟨Nat.max_le.mpr ⟨hle, hc.1⟩, hc.2⟩

theorem not_holds_clear : ¬ s.clear.Holds k := by
  rintro ⟨q, hq, -⟩
  exact List.not_mem_nil hq

/-! ## Insertion -/

theorem length_join : (s.join r).ranges.length =
    (s.endingBelow r).length + (s.startingAbove r).length + 1 := by
  unfold join
  rw [List.length_append, List.length_cons]
  omega

/-- Joining makes at most one range more, and one more only if it joins none. -/
theorem touching_eq_nil (h : s.ranges.length < (s.join r).ranges.length) : s.touching r = [] := by
  have hlength := congrArg List.length (s.ranges_eq r)
  rw [List.length_append, List.length_append] at hlength
  rw [length_join] at h
  apply List.eq_nil_of_length_eq_zero
  omega

namespace Canonical

theorem joins_self (h : s.Canonical) (hc : s.covers r = true) : s.Joins r s.ranges :=
  h.runs.congr fun k => or_iff_left_of_imp (h.covers_iff.mp hc k)

theorem joins_join (h : s.Canonical) (hc : s.covers r = false) : s.Joins r (s.join r).ranges :=
  (h.join (filled_of_not_covers hc)).runs.congr fun _ => h.holds_join_iff.symm

/-- The ranges that are needed are the stored ones, or those with the new one joined in. -/
theorem joins_iff (h : s.Canonical) :
    s.Joins r us ↔ us = if s.covers r = true then s.ranges else (s.join r).ranges := by
  have hjoins : s.Joins r (if s.covers r = true then s.ranges else (s.join r).ranges) := by
    split
    · next hc => exact h.joins_self hc
    · next hc => exact h.joins_join (eq_false_of_ne_true hc)
  constructor
  · intro hus
    exact hus.unique hjoins
  · rintro rfl
    exact hjoins

theorem exists_joins (h : s.Canonical) (r : SeqRange) : ∃ us, s.Joins r us :=
  ⟨_, h.joins_iff.mpr rfl⟩

/-- If the ranges that are needed fit, they are what the set holds. -/
theorem insert_fits (h : s.Canonical) (hus : s.Joins r us) (hfits : us.length ≤ s.capacity) :
    (s.insert r).ranges = us := by
  rw [h.joins_iff] at hus
  cases hc : s.covers r with
  | true =>
    rw [hc, if_pos rfl] at hus
    rw [insert_of_covers hc, hus]
  | false =>
    rw [hc, if_neg Bool.false_ne_true] at hus
    have hlength := s.length_join (r := r)
    rw [hus] at hfits ⊢
    rw [insert_ranges_eq hc, if_pos (by omega)]

/-- If they do not fit, the new range is one too many: it stands apart from the stored ones, and these
fill the set. -/
theorem stands_apart (h : s.Canonical) (hsize : s.size ≤ s.capacity) (hus : s.Joins r us)
    (hover : s.capacity < us.length) :
    s.covers r = false ∧ s.touching r = [] ∧ s.ranges = s.endingBelow r ++ s.startingAbove r ∧
      us = s.endingBelow r ++ r :: s.startingAbove r ∧
      (s.endingBelow r).length + (s.startingAbove r).length = s.capacity := by
  have hstored : s.ranges.length ≤ s.capacity := hsize
  rw [h.joins_iff] at hus
  cases hc : s.covers r with
  | true =>
    rw [hc, if_pos rfl] at hus
    rw [hus] at hover
    omega
  | false =>
    rw [hc, if_neg Bool.false_ne_true] at hus
    rw [hus] at hover
    have hnone := touching_eq_nil (Nat.lt_of_le_of_lt hstored hover)
    have hsplit := s.ranges_eq r
    rw [hnone, List.nil_append] at hsplit
    have hcount := congrArg List.length hsplit
    rw [List.length_append] at hcount
    rw [length_join] at hover
    refine ⟨rfl, hnone, hsplit, ?_, by omega⟩
    rw [hus]
    unfold RangeSet.join
    rw [hnone]
    rfl

/-- If there is one range too many, the lowest one held is not in the set any more. It is the lowest of
those needed, or the one above the new range. -/
theorem insert_overflows (h : s.Canonical) (hsize : s.size ≤ s.capacity) (hpos : 1 ≤ s.capacity)
    (hus : s.Joins r us) (hover : s.capacity < us.length) :
    ∃ q rest, s.ranges = q :: rest ∧ q ∈ us ∧ (s.insert r).ranges = us.erase q ∧
      (q.stop < r.start ∧ (s.insert r).ranges = us.tail ∨
        r.stop < q.start ∧ us = r :: q :: rest ∧ (s.insert r).ranges = r :: rest) := by
  obtain ⟨hc, hnone, hsplit, hjoin, hcount⟩ := h.stands_apart hsize hus hover
  have hinsert := insert_ranges_eq hc
  rw [if_neg (by omega), hnone] at hinsert
  cases hbelow : s.endingBelow r with
  | cons q below =>
    have hends : q.stop < r.start := by
      apply ends_below (s := s)
      rw [hbelow]
      exact List.mem_cons_self
    rw [hbelow] at hsplit hjoin hinsert
    have hlost : (s.insert r).ranges = below ++ r :: s.startingAbove r := hinsert
    refine ⟨q, _, hsplit, ?_, ?_, .inl ⟨hends, ?_⟩⟩
    · rw [hjoin]
      exact List.mem_cons_self
    · rw [hlost, hjoin, List.cons_append, List.erase_cons_head]
    · rw [hlost, hjoin, List.cons_append, List.tail_cons]
  | nil =>
    cases habove : s.startingAbove r with
    | nil =>
      -- A set that holds nothing has room for a range.
      rw [hbelow, habove] at hcount
      have hzero : 0 = s.capacity := hcount
      omega
    | cons q above =>
      have hstarts : r.stop < q.start := by
        apply h.starts_above
        rw [habove]
        exact List.mem_cons_self
      rw [hbelow, habove] at hsplit hjoin hinsert
      have hlost : (s.insert r).ranges = r :: above := hinsert
      have hne : ¬ (r == q) = true := by
        have hfilled := filled_of_not_covers hc
        rw [beq_iff_eq]
        rintro rfl
        omega
      refine ⟨q, above, hsplit, ?_, ?_, .inr ⟨hstarts, hjoin, hlost⟩⟩
      · rw [hjoin]
        exact List.mem_cons_of_mem r List.mem_cons_self
      · rw [hlost, hjoin, List.nil_append, List.erase_cons_tail hne, List.erase_cons_head]

end Canonical

/-! ## Sequences of operations -/

/-- Any insertions, removals and clearings of a set that was empty. -/
inductive Reachable (capacity : Nat) : RangeSet → Prop
  | empty : Reachable capacity (empty capacity)
  | insert {s : RangeSet} (before : Reachable capacity s) (r : SeqRange) :
      Reachable capacity (s.insert r)
  | removeBelow {s : RangeSet} (before : Reachable capacity s) (seq : Nat) :
      Reachable capacity (s.removeBelow seq)
  | clear {s : RangeSet} (before : Reachable capacity s) : Reachable capacity s.clear

/-- The set is in canonical form and holds no more ranges than it may. -/
structure Bounded (capacity : Nat) (s : RangeSet) : Prop where
  canonical : s.Canonical
  capacity_eq : s.capacity = capacity
  size_le : s.size ≤ capacity

theorem capacity_insert (s : RangeSet) (r : SeqRange) : (s.insert r).capacity = s.capacity := by
  unfold insert
  split
  · rfl
  · dsimp only
    split
    · rfl
    · split <;> rfl

namespace Bounded

theorem empty (capacity : Nat) : Bounded capacity (empty capacity) :=
  ⟨canonical_empty capacity, rfl, Nat.zero_le capacity⟩

theorem insert (h : Bounded capacity s) (hcap : 1 ≤ capacity) (r : SeqRange) :
    Bounded capacity (s.insert r) := by
  obtain ⟨hcanonical, rfl, hsize⟩ := h
  refine ⟨hcanonical.insert, capacity_insert s r, ?_⟩
  obtain ⟨us, hus⟩ := hcanonical.exists_joins r
  show (s.insert r).ranges.length ≤ s.capacity
  rcases Nat.lt_or_ge s.capacity us.length with hover | hfits
  · obtain ⟨-, -, -, hjoin, hcount⟩ := hcanonical.stands_apart hsize hus hover
    obtain ⟨q, rest, -, hq, hlost, -⟩ := hcanonical.insert_overflows hsize hcap hus hover
    have hlength := congrArg List.length hjoin
    rw [List.length_append, List.length_cons] at hlength
    rw [hlost, List.length_erase_of_mem hq]
    omega
  · rw [hcanonical.insert_fits hus hfits]
    exact hfits

theorem removeBelow (h : Bounded capacity s) (seq : Nat) :
    Bounded capacity (s.removeBelow seq) := by
  refine ⟨h.canonical.removeBelow seq, h.capacity_eq, ?_⟩
  have hfilter := List.length_filter_le (fun x => seq < x.stop) s.ranges
  have hsize : s.ranges.length ≤ capacity := h.size_le
  show ((s.ranges.filter _).map _).length ≤ capacity
  rw [List.length_map]
  omega

theorem clear (h : Bounded capacity s) : Bounded capacity s.clear :=
  ⟨⟨List.Pairwise.nil, fun _ hq => absurd hq List.not_mem_nil⟩, h.capacity_eq, Nat.zero_le capacity⟩

/-- With room for the ranges that are needed, an insertion adds the numbers of the range. -/
theorem holds_insert_fits (h : Bounded capacity s) (hus : s.Joins r us)
    (hfits : us.length ≤ capacity) : (s.insert r).Holds k ↔ s.Holds k ∨ r.contains k = true := by
  obtain ⟨hcanonical, rfl, -⟩ := h
  unfold Holds
  rw [hcanonical.insert_fits hus hfits]
  exact (hus.exact k).symm

/-- Without room, the numbers of one of the ranges that are needed are missing. -/
theorem holds_insert_overflows (h : Bounded capacity s) (hcap : 1 ≤ capacity) (hus : s.Joins r us)
    (hover : capacity < us.length) : ∃ q ∈ us, ∀ k,
      (s.insert r).Holds k ↔ (s.Holds k ∨ r.contains k = true) ∧ ¬ q.contains k = true := by
  obtain ⟨hcanonical, rfl, hsize⟩ := h
  obtain ⟨q, rest, -, hq, hlost, -⟩ := hcanonical.insert_overflows hsize hcap hus hover
  refine ⟨q, hq, fun k => ?_⟩
  unfold Holds
  rw [hlost]
  exact hus.anyHolds_erase_iff hq

theorem eq_of_holds (hs : Bounded capacity s) (ht : Bounded capacity t)
    (hsame : ∀ k, s.Holds k ↔ t.Holds k) : s = t := by
  have hranges := hs.canonical.runs.unique (ht.canonical.runs.congr hsame)
  have hcapacity := hs.capacity_eq.trans ht.capacity_eq.symm
  cases s
  cases t
  exact congr (congrArg RangeSet.mk hranges) hcapacity

end Bounded

theorem Reachable.bounded (h : Reachable capacity s) (hcap : 1 ≤ capacity) : Bounded capacity s := by
  induction h with
  | empty => exact .empty capacity
  | insert _ r ih => exact ih.insert hcap r
  | removeBelow _ seq ih => exact ih.removeBelow seq
  | clear _ ih => exact ih.clear

/-- Whatever is done to it, a set is made of ranges that are not empty, ascend, and leave gaps, no more
of them than its capacity. Inserting a range adds its numbers, and if that makes more ranges than fit,
the numbers of exactly one of them are missing; removing leaves the numbers from `seq` on; and covering,
count, least and greatest number are those of the numbers held. So the numbers determine the set. -/
theorem Reachable.stores_numbers (hcap : 1 ≤ capacity) (h : Reachable capacity s) :
    (∀ q ∈ s.ranges, q.start < q.stop) ∧
    s.ranges.Pairwise (fun x y => x.stop < y.start) ∧ s.size ≤ capacity ∧
    (∀ r, ∃ us, s.Joins r us ∧
      (∀ ws, (∀ k, s.Holds k ∨ r.contains k = true ↔ SeqRange.AnyHolds ws k) →
        us.length ≤ ws.length) ∧
      (us.length ≤ capacity → ∀ k, (s.insert r).Holds k ↔ s.Holds k ∨ r.contains k = true) ∧
      (capacity < us.length → ∃ q ∈ us, ∀ k,
        (s.insert r).Holds k ↔ (s.Holds k ∨ r.contains k = true) ∧ ¬ q.contains k = true)) ∧
    (∀ seq k, (s.removeBelow seq).Holds k ↔ s.Holds k ∧ seq ≤ k) ∧
    (∀ k, ¬ s.clear.Holds k) ∧
    (∀ r, s.covers r = true ↔ ∀ k, r.contains k = true → s.Holds k) ∧
    Set.encard {k | s.Holds k} = s.covered ∧
    (∀ k, s.minimum = some k ↔ IsLeast {k | s.Holds k} k) ∧
    (∀ k, s.maximum = some k ↔ IsGreatest {k | s.Holds k} k) ∧
    ∀ t, Reachable capacity t → (∀ k, s.Holds k ↔ t.Holds k) → s = t := by
  have hbounded := h.bounded hcap
  have hruns := hbounded.canonical.runs
  refine ⟨hruns.filled, hruns.ascending, hbounded.size_le, ?_, fun seq k => holds_removeBelow_iff,
    fun k => not_holds_clear, fun r => hbounded.canonical.covers_iff, hruns.encard_eq,
    fun k => hruns.head?_iff, fun k => hruns.getLast?_iff, ?_⟩
  · intro r
    obtain ⟨us, hus⟩ := hbounded.canonical.exists_joins r
    refine ⟨us, hus, fun ws hws => hus.length_le hws, ?_, ?_⟩
    · intro hfits k
      exact hbounded.holds_insert_fits hus hfits
    · intro hover
      exact hbounded.holds_insert_overflows hcap hus hover
  · intro t ht hsame
    exact hbounded.eq_of_holds (ht.bounded hcap) hsame

/-- A set that is full after a join gives up a whole range for the next one. -/
theorem stores_numbers_after_join : 1 ≤ 2 ∧ ∃ s, Reachable 2 s ∧
    s.ranges = [⟨10, 25⟩, ⟨30, 40⟩] ∧ Set.encard {k | s.Holds k} = 25 ∧
    ∃ q ∈ [(⟨10, 25⟩ : SeqRange), ⟨30, 40⟩, ⟨50, 60⟩], ∀ k, (s.insert ⟨50, 60⟩).Holds k ↔
      (s.Holds k ∨ (⟨50, 60⟩ : SeqRange).contains k = true) ∧ ¬ q.contains k = true := by
  have hreachable : Reachable 2 _ :=
    ((Reachable.empty.insert ⟨10, 20⟩).insert ⟨30, 40⟩).insert ⟨20, 25⟩
  obtain ⟨hfilled, hapart, -, hinsert, -, -, -, hcount, -⟩ := hreachable.stores_numbers (by decide)
  obtain ⟨us, hus, -, -, hover⟩ := hinsert ⟨50, 60⟩
  rw [Canonical.joins_iff ⟨hapart, hfilled⟩] at hus
  have hneeded : us = [⟨10, 25⟩, ⟨30, 40⟩, ⟨50, 60⟩] := by
    rw [hus]
    decide
  rw [hneeded] at hover
  exact ⟨by decide, _, hreachable, by decide, hcount, hover (by decide)⟩

/-! ## What a full set loses -/

/-- If inserting a range makes one range too many, the set loses the lowest of those it held. That is
the lowest of all exactly if it lies below the new range; otherwise the new range becomes the lowest,
and the one above it is lost. -/
theorem Reachable.gives_up_lowest_held (hcap : 1 ≤ capacity) (h : Reachable capacity s)
    (hus : s.Joins r us) (hover : us.length = capacity + 1) :
    ∃ q rest, s.ranges = q :: rest ∧ (s.insert r).ranges = us.erase q ∧
      ((s.insert r).ranges = us.tail ↔ q.stop < r.start) ∧
      (¬ q.stop < r.start → us = r :: q :: rest ∧ (s.insert r).ranges = r :: rest) := by
  obtain ⟨hcanonical, rfl, hsize⟩ := h.bounded hcap
  obtain ⟨q, rest, hranges, -, hlost, hcases⟩ :=
    hcanonical.insert_overflows hsize hcap hus (by omega)
  refine ⟨q, rest, hranges, hlost, ?_⟩
  rcases hcases with ⟨hbelow, htail⟩ | ⟨habove, hneeded, hrest⟩
  · exact ⟨iff_of_true htail hbelow, fun hnot => absurd hbelow hnot⟩
  · have hq : q.start < q.stop := by
      apply hcanonical.filled
      rw [hranges]
      exact List.mem_cons_self
    have hr : r.start < r.stop := by
      apply hus.filled
      rw [hneeded]
      exact List.mem_cons_self
    have hnot : ¬ q.stop < r.start := by omega
    have hne : (s.insert r).ranges ≠ us.tail := by
      rw [hrest, hneeded, List.tail_cons]
      intro heq
      obtain ⟨rfl, -⟩ := List.cons.inj heq
      omega
    exact ⟨iff_of_false hne hnot, fun _ => ⟨hneeded, hrest⟩⟩

/-- A range above the others pushes the lowest one out. -/
theorem gives_up_lowest_below : ∃ s us, Reachable 2 s ∧ s.Joins ⟨30, 31⟩ us ∧ us.length = 2 + 1 ∧
    s.ranges = [⟨10, 11⟩, ⟨20, 21⟩] ∧ (s.insert ⟨30, 31⟩).ranges = us.tail := by
  have hreachable : Reachable 2 _ := (Reachable.empty.insert ⟨10, 11⟩).insert ⟨20, 21⟩
  have hus := (hreachable.bounded (by decide)).canonical.joins_join (r := ⟨30, 31⟩) (by decide)
  obtain ⟨q, rest, hranges, -, htail, -⟩ :=
    hreachable.gives_up_lowest_held (by decide) hus (by decide)
  obtain ⟨rfl, -⟩ := List.cons.inj hranges
  exact ⟨_, _, hreachable, hus, by decide, by decide, htail.mpr (by decide)⟩

/-- A range below the others stays, and the second lowest of the ranges that are needed is lost. -/
theorem loses_second_lowest : Reachable 2 ⟨[⟨10, 11⟩, ⟨20, 21⟩], 2⟩ ∧
    Joins ⟨[⟨10, 11⟩, ⟨20, 21⟩], 2⟩ ⟨0, 1⟩ [⟨0, 1⟩, ⟨10, 11⟩, ⟨20, 21⟩] ∧
    (insert ⟨[⟨10, 11⟩, ⟨20, 21⟩], 2⟩ ⟨0, 1⟩).ranges = [⟨0, 1⟩, ⟨20, 21⟩] ∧
    [(⟨0, 1⟩ : SeqRange), ⟨20, 21⟩] ≠ List.tail [⟨0, 1⟩, ⟨10, 11⟩, ⟨20, 21⟩] := by
  have hheld : ((empty 2).insert ⟨10, 11⟩).insert ⟨20, 21⟩ = ⟨[⟨10, 11⟩, ⟨20, 21⟩], 2⟩ := by decide
  have hreachable : Reachable 2 ⟨[⟨10, 11⟩, ⟨20, 21⟩], 2⟩ := by
    rw [← hheld]
    exact (Reachable.empty.insert ⟨10, 11⟩).insert ⟨20, 21⟩
  refine ⟨hreachable, ?_, by decide, by decide⟩
  exact (hreachable.bounded (by decide)).canonical.joins_join (r := ⟨0, 1⟩) (by decide)

end RangeSet

end LossRecovery
