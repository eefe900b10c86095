import Mathlib.Data.List.Basic
import LossRecovery.Scoreboard.Edit

/-!
# `LossRecovery.Proofs.Tiling` — records that lie end to end

A scoreboard is right only if its records cover the outstanding numbers without a gap and without an
overlap. Everything a record list can be asked by sequence number rests on that.

## Contents
- `Tiles lo rs hi`: the records `rs` lie end to end from `lo` to `hi`, and none is empty.
- What follows: bounds, one record for each number (`Tiles.exists_contains`, `Tiles.eq_of_contains`),
  distinct starts (`Tiles.nodup_starts`).
- What keeps it: changing records in place, dividing them (`Tiles.flatMap`), releasing the lower ones
  (`Tiles.dropBelow`), joining neighbours (`Tiles.coalesceRecords`).
-/

namespace LossRecovery

/-- The records lie end to end from `lo` to `hi`, and none of them is empty. -/
def Tiles : Nat → List SendRecord → Nat → Prop
  | lo, [], hi => lo = hi
  | lo, r :: rest, hi => r.start = lo ∧ r.start < r.stop ∧ Tiles r.stop rest hi

/-- The part of a record at and above an edge. -/
def SendRecord.above (edge : Nat) (r : SendRecord) : SendRecord :=
  { r with start := max r.start edge }

theorem SendRecord.above_eq_self {edge : Nat} {r : SendRecord} (h : edge ≤ r.start) :
    r.above edge = r := by
  unfold SendRecord.above
  rw [Nat.max_eq_left h]

theorem SendRecord.contains_iff {r : SendRecord} {seq : Nat} :
    r.contains seq = true ↔ r.start ≤ seq ∧ seq < r.stop := by
  simp [SendRecord.contains]

namespace Tiles

variable {lo mid hi : Nat} {r p : SendRecord} {rs a b : List SendRecord}

/-! ## Bounds -/

theorem le (h : Tiles lo rs hi) : lo ≤ hi := by
  induction rs generalizing lo with
  | nil => exact Nat.le_of_eq h
  | cons r rest ih =>
    obtain ⟨hs, hne, ht⟩ := h
    have := ih ht
    omega

/-- A member of a tiling is not empty and stays inside it. -/
theorem bounds (h : Tiles lo rs hi) (hr : r ∈ rs) :
    lo ≤ r.start ∧ r.start < r.stop ∧ r.stop ≤ hi := by
  induction rs generalizing lo with
  | nil => exact absurd hr (by simp)
  | cons q rest ih =>
    obtain ⟨hs, hne, ht⟩ := h
    have hle := ht.le
    rcases List.mem_cons.mp hr with rfl | hr
    · omega
    · have := ih ht hr
      omega

theorem append (ha : Tiles lo a mid) (hb : Tiles mid b hi) : Tiles lo (a ++ b) hi := by
  induction a generalizing lo with
  | nil =>
    rw [show lo = mid from ha]
    exact hb
  | cons r rest ih =>
    obtain ⟨hs, hne, ht⟩ := ha
    exact ⟨hs, hne, ih ht⟩

/-- A tiling by two lists after one another is cut where the first one ends. -/
theorem of_append (h : Tiles lo (a ++ b) hi) : ∃ mid, Tiles lo a mid ∧ Tiles mid b hi := by
  induction a generalizing lo with
  | nil => exact ⟨lo, rfl, h⟩
  | cons r rest ih =>
    obtain ⟨hs, hne, ht⟩ := h
    obtain ⟨mid, h1, h2⟩ := ih ht
    exact ⟨mid, ⟨hs, hne, h1⟩, h2⟩

theorem singleton (hne : r.start < r.stop) : Tiles r.start [r] r.stop := ⟨rfl, hne, rfl⟩

/-! ## One record for each number -/

theorem pairwise (h : Tiles lo rs hi) : rs.Pairwise fun x y => x.stop ≤ y.start := by
  induction rs generalizing lo with
  | nil => exact List.Pairwise.nil
  | cons r rest ih =>
    obtain ⟨_, _, ht⟩ := h
    exact List.pairwise_cons.mpr ⟨fun q hq => (ht.bounds hq).1, ih ht⟩

/-- Every number of the tiled range lies in a record. -/
theorem exists_contains (h : Tiles lo rs hi) {seq : Nat} (hlo : lo ≤ seq) (hhi : seq < hi) :
    ∃ r ∈ rs, r.contains seq = true := by
  induction rs generalizing lo with
  | nil =>
    rw [show lo = hi from h] at hlo
    omega
  | cons r rest ih =>
    obtain ⟨hs, hne, ht⟩ := h
    by_cases hseq : seq < r.stop
    · exact ⟨r, List.mem_cons_self, SendRecord.contains_iff.mpr ⟨by omega, hseq⟩⟩
    · obtain ⟨q, hq, hc⟩ := ih ht (Nat.le_of_not_lt hseq)
      exact ⟨q, List.mem_cons_of_mem _ hq, hc⟩

/-- No number lies in two records. -/
theorem eq_of_contains (h : Tiles lo rs hi) (hr : r ∈ rs) (hp : p ∈ rs) {seq : Nat}
    (hrc : r.contains seq = true) (hpc : p.contains seq = true) : r = p := by
  induction rs generalizing lo with
  | nil => exact absurd hr (by simp)
  | cons q rest ih =>
    obtain ⟨_, _, ht⟩ := h
    rw [SendRecord.contains_iff] at hrc hpc
    -- Two different records would be the first one and one of the rest, which starts above its end.
    rcases List.mem_cons.mp hr with h1 | h1 <;> rcases List.mem_cons.mp hp with h2 | h2
    · exact h1.trans h2.symm
    · have := ht.bounds h2
      subst h1
      omega
    · have := ht.bounds h1
      subst h2
      omega
    · exact ih ht h1 h2

/-- Records are known by their starts. -/
theorem eq_of_start (h : Tiles lo rs hi) (hr : r ∈ rs) (hp : p ∈ rs) (hs : r.start = p.start) :
    r = p := by
  have hrb := h.bounds hr
  have hpb := h.bounds hp
  have hrc : r.contains r.start = true := SendRecord.contains_iff.mpr ⟨Nat.le_refl _, hrb.2.1⟩
  have hpc : p.contains r.start = true := SendRecord.contains_iff.mpr (by omega)
  exact h.eq_of_contains hr hp hrc hpc

theorem nodup_starts (h : Tiles lo rs hi) : (rs.map (·.start)).Nodup := by
  induction rs generalizing lo with
  | nil => exact List.nodup_nil
  | cons r rest ih =>
    obtain ⟨_, hne, ht⟩ := h
    refine List.nodup_cons.mpr ⟨?_, ih ht⟩
    intro hmem
    obtain ⟨q, hq, hqs⟩ := List.mem_map.mp hmem
    have := ht.bounds hq
    have : q.start = r.start := hqs
    omega

/-- The record that starts at a given number is found by it. -/
theorem find?_start (h : Tiles lo rs hi) (hr : r ∈ rs) :
    rs.find? (·.start == r.start) = some r := by
  induction rs generalizing lo with
  | nil => exact absurd hr (by simp)
  | cons q rest ih =>
    obtain ⟨hs, hne, ht⟩ := h
    rcases List.mem_cons.mp hr with rfl | hr
    · simp
    · have := ht.bounds hr
      rw [List.find?_cons_of_neg (by simp; omega)]
      exact ih ht hr

/-- The record that holds a given number is found by it. -/
theorem find?_contains (h : Tiles lo rs hi) (hr : r ∈ rs) {seq : Nat}
    (hc : r.contains seq = true) : rs.find? (·.contains seq) = some r := by
  induction rs generalizing lo with
  | nil => exact absurd hr (by simp)
  | cons q rest ih =>
    obtain ⟨hs, hne, ht⟩ := h
    rcases List.mem_cons.mp hr with rfl | hr
    · simp [hc]
    · have hb := ht.bounds hr
      rw [SendRecord.contains_iff] at hc
      rw [List.find?_cons_of_neg (by simp [SendRecord.contains]; omega)]
      exact ih ht hr

/-! ## Changing and dividing records -/

/-- Dividing every record into parts that tile it keeps the tiling. -/
theorem flatMap (h : Tiles lo rs hi) {f : SendRecord → List SendRecord}
    (hf : ∀ r ∈ rs, Tiles r.start (f r) r.stop) : Tiles lo (rs.flatMap f) hi := by
  induction rs generalizing lo with
  | nil => exact h
  | cons r rest ih =>
    obtain ⟨hs, _, ht⟩ := h
    rw [List.flatMap_cons]
    refine append ?_ (ih ht fun q hq => hf q (List.mem_cons_of_mem _ hq))
    rw [← hs]
    exact hf r List.mem_cons_self

/-- Changing records without moving their ends keeps the tiling. -/
theorem map (h : Tiles lo rs hi) {f : SendRecord → SendRecord}
    (hf : ∀ r ∈ rs, (f r).start = r.start ∧ (f r).stop = r.stop) : Tiles lo (rs.map f) hi := by
  induction rs generalizing lo with
  | nil => exact h
  | cons r rest ih =>
    obtain ⟨hs, hne, ht⟩ := h
    obtain ⟨h1, h2⟩ := hf r List.mem_cons_self
    refine ⟨h1.trans hs, by omega, ?_⟩
    rw [h2]
    exact ih ht fun q hq => hf q (List.mem_cons_of_mem _ hq)

/-! ## Releasing the lower records -/

/-- What `dropBelow` keeps of a tiling: the records reaching over the edge, without their part below
it. -/
theorem dropBelow_eq (h : Tiles lo rs hi) (edge : Nat) :
    Scoreboard.dropBelow edge rs = (rs.filter (edge < ·.stop)).map (·.above edge) := by
  induction rs generalizing lo with
  | nil => rfl
  | cons r rest ih =>
    obtain ⟨hs, hne, ht⟩ := h
    -- Above the first record kept, all records start at or above the edge.
    have whole : edge ≤ r.stop → (rest.filter (edge < ·.stop)).map (·.above edge) = rest := by
      intro he
      rw [List.filter_eq_self.mpr fun q hq => decide_eq_true (by have := ht.bounds hq; omega)]
      refine (List.map_congr_left fun q hq => ?_).trans (List.map_id rest)
      have := ht.bounds hq
      exact SendRecord.above_eq_self (by omega)
    unfold Scoreboard.dropBelow
    by_cases h1 : edge ≤ r.start
    · rw [if_pos h1, List.filter_cons, if_pos (decide_eq_true (by omega)), List.map_cons,
        whole (by omega), SendRecord.above_eq_self h1]
    · rw [if_neg h1]
      by_cases h2 : r.stop ≤ edge
      · rw [if_pos h2, List.filter_cons, if_neg (by simpa using h2)]
        exact ih ht
      · rw [if_neg h2, List.filter_cons, if_pos (decide_eq_true (by omega)), List.map_cons,
          whole (by omega), SendRecord.above, Nat.max_eq_right (by omega)]

theorem dropBelow (h : Tiles lo rs hi) {edge : Nat} (hlo : lo ≤ edge) (hhi : edge ≤ hi) :
    Tiles edge (Scoreboard.dropBelow edge rs) hi := by
  induction rs generalizing lo with
  | nil =>
    rw [show lo = hi from h] at hlo
    exact Nat.le_antisymm hhi hlo
  | cons r rest ih =>
    obtain ⟨hs, hne, ht⟩ := h
    -- The first record is kept whole with all others, released, or trimmed.
    unfold Scoreboard.dropBelow
    by_cases h1 : edge ≤ r.start
    · rw [if_pos h1]
      exact ⟨by omega, hne, ht⟩
    · rw [if_neg h1]
      by_cases h2 : r.stop ≤ edge
      · rw [if_pos h2]
        exact ih ht h2
      · rw [if_neg h2]
        exact ⟨rfl, by simpa using h2, ht⟩

/-! ## Joining neighbours -/

theorem coalesceFrom {near : SendRecord → Bool} {l : SendRecord} {rest : List SendRecord}
    (h : Tiles lo (l :: rest) hi) : Tiles lo (Scoreboard.coalesceFrom near l rest).1 hi := by
  -- Along the records still to be visited; `l` is what was joined so far.
  induction rest generalizing lo l with
  | nil => exact h
  | cons r rest ih =>
    obtain ⟨hs, hne, hr, hrne, ht⟩ := h
    unfold Scoreboard.coalesceFrom
    split
    · exact ih ⟨hs, by show l.start < r.stop; omega, ht⟩
    · exact ⟨hs, hne, ih ⟨hr, hrne, ht⟩⟩

theorem coalesceRecords {near : SendRecord → Bool} (h : Tiles lo rs hi) :
    Tiles lo (Scoreboard.coalesceRecords near rs).1 hi := by
  cases rs with
  | nil => exact h
  | cons l rest => exact h.coalesceFrom

end Tiles

end LossRecovery
