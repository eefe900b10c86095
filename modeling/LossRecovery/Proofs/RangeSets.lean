import Mathlib.Data.List.TakeWhile
import LossRecovery.Sequence.RangeSet

/-!
# `LossRecovery.Proofs.RangeSets` — a set of ranges holds what was put in

The set joins ranges that overlap or touch, so that a joined range never reaches over a number that
neither of the two holds. When the set is full, numbers are given up, but none are made up.

## Contents
- `RangeSet.Canonical`: the ranges are not empty, ascend, and leave gaps; kept by every operation.
- `RangeSet.Holds`: a number of the set; what `insert`, `removeBelow` and `covers` say about it.
- `RangeSet.join`: the set with a range joined in, before anything is given up.
-/

namespace LossRecovery

namespace SeqRange

variable {a : SeqRange} {ts : List SeqRange} {k : Nat}

/-! ## Hulls of several ranges -/

theorem lt_foldl_hull_start (ha : k < a.start) (hts : ∀ q ∈ ts, k < q.start) :
    k < (ts.foldl hull a).start := by
  induction ts generalizing a with
  | nil => exact ha
  | cons q rest ih =>
    have hq := hts q List.mem_cons_self
    refine ih ?_ fun p hp => hts p (List.mem_cons_of_mem _ hp)
    show k < min a.start q.start
    omega

theorem foldl_hull_stop_lt (ha : a.stop < k) (hts : ∀ q ∈ ts, q.stop < k) :
    (ts.foldl hull a).stop < k := by
  induction ts generalizing a with
  | nil => exact ha
  | cons q rest ih =>
    have hq := hts q List.mem_cons_self
    refine ih ?_ fun p hp => hts p (List.mem_cons_of_mem _ hp)
    show max a.stop q.stop < k
    omega

theorem foldl_hull_filled (ha : a.start < a.stop) :
    (ts.foldl hull a).start < (ts.foldl hull a).stop := by
  induction ts generalizing a with
  | nil => exact ha
  | cons q rest ih =>
    refine ih ?_
    show min a.start q.start < max a.stop q.stop
    omega

/-- The hull of a range with ranges that overlap or touch it holds no other numbers than they do. -/
theorem contains_of_foldl_hull (hts : ∀ q ∈ ts, q.start ≤ a.stop ∧ a.start ≤ q.stop)
    (hk : (ts.foldl hull a).contains k = true) :
    a.contains k = true ∨ ∃ q ∈ ts, q.contains k = true := by
  induction ts generalizing a with
  | nil => exact Or.inl hk
  | cons q rest ih =>
    have hq := hts q List.mem_cons_self
    have hrest : ∀ p ∈ rest, p.start ≤ (hull a q).stop ∧ (hull a q).start ≤ p.stop := by
      intro p hp
      have := hts p (List.mem_cons_of_mem _ hp)
      show p.start ≤ max a.stop q.stop ∧ min a.start q.start ≤ p.stop
      omega
    rcases ih hrest hk with h | ⟨p, hp, hpk⟩
    · rw [contains_iff] at h
      have h1 : min a.start q.start ≤ k := h.1
      have h2 : k < max a.stop q.stop := h.2
      -- The two ranges leave no gap, so a number of their hull that is not in one is in the other.
      by_cases hka : a.contains k = true
      · exact Or.inl hka
      · refine Or.inr ⟨q, List.mem_cons_self, ?_⟩
        rw [contains_iff] at hka ⊢
        omega
    · exact Or.inr ⟨p, List.mem_cons_of_mem _ hp, hpk⟩

/-- The hull of ranges holds all their numbers. -/
theorem contains_foldl_hull (hk : a.contains k = true ∨ ∃ q ∈ ts, q.contains k = true) :
    (ts.foldl hull a).contains k = true := by
  induction ts generalizing a with
  | nil => simpa using hk
  | cons q rest ih =>
    have hhull : ∀ x : SeqRange, x = a ∨ x = q → x.contains k = true →
        (hull a q).contains k = true := by
      intro x hx hc
      rw [contains_iff] at hc ⊢
      show min a.start q.start ≤ k ∧ k < max a.stop q.stop
      rcases hx with rfl | rfl
      · omega
      · omega
    apply ih
    rcases hk with hk | ⟨x, hx, hc⟩
    · exact .inl (hhull a (.inl rfl) hk)
    · rcases List.mem_cons.mp hx with rfl | hx
      · exact .inl (hhull x (.inr rfl) hc)
      · exact .inr ⟨x, hx, hc⟩

end SeqRange

namespace RangeSet

variable {s : RangeSet} {r : SeqRange} {k : Nat}

/-- The ranges are not empty, ascend, and leave a gap between each two. -/
structure Canonical (s : RangeSet) : Prop where
  apart : s.ranges.Pairwise fun x y => x.stop < y.start
  filled : ∀ r ∈ s.ranges, r.start < r.stop

/-- A number is in the set. -/
def Holds (s : RangeSet) (k : Nat) : Prop := ∃ r ∈ s.ranges, r.contains k = true

theorem canonical_empty (capacity : Nat) : (empty capacity).Canonical :=
  ⟨List.Pairwise.nil, fun _ h => absurd h List.not_mem_nil⟩

theorem not_holds_empty (capacity : Nat) : ¬ (empty capacity).Holds k := by
  rintro ⟨r, hr, -⟩
  exact absurd hr List.not_mem_nil

/-! ## Insertion -/

/-- The ranges that end below the start of a range. -/
def endingBelow (s : RangeSet) (r : SeqRange) : List SeqRange :=
  s.ranges.takeWhile (·.stop < r.start)

/-- The other ranges that overlap or touch a range. -/
def touching (s : RangeSet) (r : SeqRange) : List SeqRange :=
  (s.ranges.dropWhile (·.stop < r.start)).takeWhile (·.start ≤ r.stop)

/-- The ranges that start above the end of a range. -/
def startingAbove (s : RangeSet) (r : SeqRange) : List SeqRange :=
  (s.ranges.dropWhile (·.stop < r.start)).dropWhile (·.start ≤ r.stop)

theorem ranges_eq (s : RangeSet) (r : SeqRange) :
    s.ranges = s.endingBelow r ++ (s.touching r ++ s.startingAbove r) := by
  unfold endingBelow touching startingAbove
  rw [List.takeWhile_append_dropWhile, List.takeWhile_append_dropWhile]

/-- The set with a range joined in, however many ranges that makes. -/
def join (s : RangeSet) (r : SeqRange) : RangeSet :=
  { s with
    ranges := s.endingBelow r ++ (s.touching r).foldl SeqRange.hull r :: s.startingAbove r }

theorem filled_of_not_covers (hc : s.covers r = false) : r.start < r.stop := by
  unfold covers at hc
  rw [Bool.or_eq_false_iff] at hc
  simpa [SeqRange.isEmpty] using hc.1

theorem insert_of_covers (hc : s.covers r = true) : s.insert r = s := by
  unfold insert
  rw [if_pos hc]

/-- What an insertion makes of a range that is not covered, by the ranges around it. -/
theorem insert_ranges_eq (hc : s.covers r = false) : (s.insert r).ranges =
    if (s.endingBelow r).length + (s.startingAbove r).length < s.capacity then (s.join r).ranges
    else match s.endingBelow r, s.startingAbove r with
      | _ :: below, above => below ++ (s.touching r).foldl SeqRange.hull r :: above
      | [], _ :: above => (s.touching r).foldl SeqRange.hull r :: above
      | [], [] => [(s.touching r).foldl SeqRange.hull r] := by
  unfold insert
  rw [if_neg (by rw [hc]; exact Bool.false_ne_true)]
  unfold join endingBelow touching startingAbove
  dsimp only
  generalize s.ranges.takeWhile (·.stop < r.start) = below
  generalize (s.ranges.dropWhile (·.stop < r.start)).dropWhile (·.start ≤ r.stop) = above
  split
  · rfl
  · cases below with
    | cons q below => rfl
    | nil => cases above <;> rfl

/-- An insertion leaves the joined range with the ranges apart from it, or all but one of them. -/
theorem insert_sublist (hc : s.covers r = false) :
    (s.insert r).ranges.Sublist (s.join r).ranges := by
  rw [insert_ranges_eq hc]
  unfold join
  dsimp only
  split
  · exact List.Sublist.refl _
  · split
    · next hbelow =>
      rw [hbelow]
      exact List.sublist_cons_self _ _
    · next hbelow habove =>
      rw [hbelow, habove]
      exact List.Sublist.cons_cons _ (List.sublist_cons_self _ _)
    · next hbelow habove =>
      rw [hbelow, habove]
      exact List.Sublist.refl _

section Ascending

variable {rs : List SeqRange} {q : SeqRange}

/-- In ascending ranges, those after the first one that reaches a number reach it too. -/
theorem le_stop_of_mem_dropWhile (hp : rs.Pairwise fun x y => x.stop < y.start)
    (hf : ∀ t ∈ rs, t.start < t.stop) (hq : q ∈ rs.dropWhile (·.stop < k)) : k ≤ q.stop := by
  induction rs with
  | nil => exact absurd hq List.not_mem_nil
  | cons p rest ih =>
    obtain ⟨hfirst, hrest⟩ := List.pairwise_cons.mp hp
    rw [List.dropWhile_cons] at hq
    split at hq
    · exact ih hrest (fun t ht => hf t (List.mem_cons_of_mem _ ht)) hq
    · next hstop =>
      rw [decide_eq_true_eq] at hstop
      rcases List.mem_cons.mp hq with rfl | hq
      · exact Nat.le_of_not_lt hstop
      · have h1 := hfirst q hq
        have h2 := hf q (List.mem_cons_of_mem _ hq)
        omega

/-- In ascending ranges, those after the first one that starts above a number start above it too. -/
theorem lt_start_of_mem_dropWhile (hp : rs.Pairwise fun x y => x.stop < y.start)
    (hf : ∀ t ∈ rs, t.start < t.stop) (hq : q ∈ rs.dropWhile (·.start ≤ k)) : k < q.start := by
  induction rs with
  | nil => exact absurd hq List.not_mem_nil
  | cons p rest ih =>
    obtain ⟨hfirst, hrest⟩ := List.pairwise_cons.mp hp
    rw [List.dropWhile_cons] at hq
    split at hq
    · exact ih hrest (fun t ht => hf t (List.mem_cons_of_mem _ ht)) hq
    · next hstart =>
      rw [decide_eq_true_eq] at hstart
      rcases List.mem_cons.mp hq with rfl | hq
      · exact Nat.lt_of_not_le hstart
      · have h1 := hfirst q hq
        have h2 := hf p List.mem_cons_self
        omega

end Ascending

namespace Canonical

variable {q : SeqRange}

theorem ends_below (hq : q ∈ s.endingBelow r) : q.stop < r.start := by
  unfold endingBelow at hq
  simpa using List.mem_takeWhile_imp hq

/-- The touching ranges leave no gap to the range. -/
theorem touches (h : s.Canonical) (hq : q ∈ s.touching r) :
    q.start ≤ r.stop ∧ r.start ≤ q.stop := by
  unfold touching at hq
  refine ⟨by simpa using List.mem_takeWhile_imp hq, ?_⟩
  exact le_stop_of_mem_dropWhile h.apart h.filled ((List.takeWhile_sublist _).subset hq)

theorem starts_above (h : s.Canonical) (hq : q ∈ s.startingAbove r) : r.stop < q.start := by
  have hsub : (s.ranges.dropWhile (·.stop < r.start)).Sublist s.ranges := List.dropWhile_sublist _
  exact lt_start_of_mem_dropWhile (h.apart.sublist hsub) (fun t ht => h.filled t (hsub.subset ht)) hq

theorem join (h : s.Canonical) (hr : r.start < r.stop) : (s.join r).Canonical := by
  have hp := h.apart
  rw [s.ranges_eq r, List.pairwise_append, List.pairwise_append] at hp
  obtain ⟨hbelow, ⟨-, habove, htouch⟩, hcross⟩ := hp
  have hsplit := s.ranges_eq r
  refine ⟨?_, ?_⟩
  · refine List.pairwise_append.mpr ⟨hbelow, List.pairwise_cons.mpr ⟨?_, habove⟩, ?_⟩
    · intro q hq
      exact SeqRange.foldl_hull_stop_lt (h.starts_above hq) fun t ht => htouch t ht q hq
    · intro q hq p hp
      rcases List.mem_cons.mp hp with rfl | hp
      · exact SeqRange.lt_foldl_hull_start (ends_below hq)
          fun t ht => hcross q hq t (List.mem_append_left _ ht)
      · exact hcross q hq p (List.mem_append_right _ hp)
  · intro q hq
    rcases List.mem_append.mp hq with hq | hq
    · exact h.filled q (hsplit ▸ List.mem_append_left _ hq)
    · rcases List.mem_cons.mp hq with rfl | hq
      · exact SeqRange.foldl_hull_filled hr
      · exact h.filled q (hsplit ▸ List.mem_append_right _ (List.mem_append_right _ hq))

/-- The joined range holds the numbers of the range and of those it was joined from. -/
theorem contains_joined_iff (h : s.Canonical) :
    ((s.touching r).foldl SeqRange.hull r).contains k = true ↔
      r.contains k = true ∨ ∃ q ∈ s.touching r, q.contains k = true :=
  ⟨SeqRange.contains_of_foldl_hull fun _ ht => h.touches ht, SeqRange.contains_foldl_hull⟩

theorem holds_join_iff (h : s.Canonical) :
    (s.join r).Holds k ↔ s.Holds k ∨ r.contains k = true := by
  have hjoined := h.contains_joined_iff (r := r) (k := k)
  unfold Holds
  rw [s.ranges_eq r]
  unfold RangeSet.join
  simp only [List.mem_append, List.mem_cons, or_and_right, exists_or, exists_eq_left, hjoined]
  simp only [or_left_comm, or_comm]

theorem insert (h : s.Canonical) : (s.insert r).Canonical := by
  cases hc : s.covers r with
  | true =>
    rw [insert_of_covers hc]
    exact h
  | false =>
    -- What is given up when the set is full leaves the rest apart.
    have hsub := insert_sublist hc
    have hjoin := h.join (filled_of_not_covers hc)
    exact ⟨hjoin.apart.sublist hsub, fun q hq => hjoin.filled q (hsub.subset hq)⟩

/-- An insertion adds no other numbers than those of the range. -/
theorem of_insert (h : s.Canonical) (hk : (s.insert r).Holds k) :
    s.Holds k ∨ r.contains k = true := by
  cases hc : s.covers r with
  | true =>
    rw [insert_of_covers hc] at hk
    exact Or.inl hk
  | false =>
    obtain ⟨q, hq, hqk⟩ := hk
    exact h.holds_join_iff.mp ⟨q, (insert_sublist hc).subset hq, hqk⟩

/-! ## Removal -/

theorem removeBelow (h : s.Canonical) (edge : Nat) : (s.removeBelow edge).Canonical := by
  refine ⟨List.pairwise_map.mpr ((h.apart.sublist List.filter_sublist).imp_of_mem ?_), ?_⟩
  · intro x y hx hy hxy
    have hx' : edge < x.stop := of_decide_eq_true (List.mem_filter.mp hx).2
    show x.stop < max edge y.start
    omega
  · intro q hq
    obtain ⟨x, hx, rfl⟩ := List.mem_map.mp hq
    obtain ⟨hxs, hxe⟩ := List.mem_filter.mp hx
    have h1 := h.filled x hxs
    have h2 : edge < x.stop := of_decide_eq_true hxe
    show max edge x.start < x.stop
    omega

end Canonical

theorem of_removeBelow {edge : Nat} (hk : (s.removeBelow edge).Holds k) : s.Holds k := by
  obtain ⟨q, hq, hqk⟩ := hk
  obtain ⟨x, hx, rfl⟩ := List.mem_map.mp hq
  refine ⟨x, (List.mem_filter.mp hx).1, ?_⟩
  rw [SeqRange.contains_iff] at hqk ⊢
  have h1 : max edge x.start ≤ k := hqk.1
  exact ⟨by omega, hqk.2⟩

/-- All numbers of a covered range are in the set. -/
theorem holds_of_covers (hc : s.covers r = true) (hk : r.contains k = true) : s.Holds k := by
  rw [SeqRange.contains_iff] at hk
  unfold covers at hc
  rw [Bool.or_eq_true, SeqRange.isEmpty_iff, List.any_eq_true] at hc
  rcases hc with hc | ⟨q, hq, hw⟩
  · omega
  · refine ⟨q, hq, SeqRange.contains_iff.mpr ?_⟩
    simp only [SeqRange.within, Bool.and_eq_true, decide_eq_true_eq] at hw
    omega

end RangeSet

end LossRecovery
