import LossRecovery.Engine.State
import LossRecovery.Proofs.Carving

/-!
# `LossRecovery.Proofs.Totals` — byte totals under operations on records

The engine keeps the total length of the SACKed records and of the holes as counters. Each operation
on the records has to change a counter by what it changes the total by.

## Contents
- `Engine.totalLength` over lists, and over a tiling (`Tiles.totalLength_add_le`).
- `countBytes`: the bytes of a stretch with a property; `Tiles.countBytes_eq` ties both together.
- `totalLength_flatMap`: an operation that works record by record.
- `totalLength_released`: releasing what lies below an edge.
-/

namespace LossRecovery

open Engine (totalLength)

variable {p q : SendRecord → Bool} {lo hi : Nat} {rs : List SendRecord}

/-! ## Lists -/

@[simp] theorem totalLength_nil : totalLength p [] = 0 := rfl

@[simp] theorem totalLength_cons (r : SendRecord) :
    totalLength p (r :: rs) = (if p r then r.length else 0) + totalLength p rs := by
  unfold totalLength
  by_cases h : p r = true <;> simp [h]

@[simp] theorem totalLength_append (a b : List SendRecord) :
    totalLength p (a ++ b) = totalLength p a + totalLength p b := by
  unfold totalLength
  simp

/-- A change that keeps lengths and the choice of records keeps the total. -/
theorem totalLength_map {f : SendRecord → SendRecord}
    (hf : ∀ r ∈ rs, p (f r) = q r ∧ (f r).length = r.length) :
    totalLength p (rs.map f) = totalLength q rs := by
  induction rs with
  | nil => rfl
  | cons r rest ih =>
    obtain ⟨h1, h2⟩ := hf r List.mem_cons_self
    rw [List.map_cons, totalLength_cons, totalLength_cons, h1, h2,
      ih fun s hs => hf s (List.mem_cons_of_mem _ hs)]

/-- Records chosen by neither of two exclusive choices fill the rest of a tiling. -/
theorem Tiles.totalLength_add_le (h : Tiles lo rs hi) (hpq : ∀ r ∈ rs, p r = true → q r = false) :
    totalLength p rs + totalLength q rs ≤ hi - lo := by
  induction rs generalizing lo with
  | nil => exact Nat.zero_le _
  | cons r rest ih =>
    obtain ⟨hs, hne, ht⟩ := h
    have hle := ht.le
    have hrest := ih ht fun s hs => hpq s (List.mem_cons_of_mem _ hs)
    have hr := hpq r List.mem_cons_self
    rw [totalLength_cons, totalLength_cons]
    unfold SendRecord.length
    -- The first record counts for at most one of the two totals.
    cases hpr : p r with
    | true =>
      rw [hr hpr, if_pos rfl, if_neg (by simp)]
      omega
    | false =>
      rw [if_neg (by simp)]
      split <;> omega

/-- The total over records that are all chosen, or all left out. -/
theorem totalLength_const {c : Bool} (h : ∀ r ∈ rs, p r = c) :
    totalLength p rs = if c then Number.total (rs.map (·.length)) else 0 := by
  induction rs with
  | nil => cases c <;> rfl
  | cons r rest ih =>
    rw [totalLength_cons, h r List.mem_cons_self, ih fun s hs => h s (List.mem_cons_of_mem _ hs)]
    cases c <;> simp

/-! ## Counting bytes -/

/-- How many numbers from `lo` up to, but not including, `hi` satisfy `g`. -/
def countBytes (g : Nat → Bool) (lo hi : Nat) : Nat := (List.range' lo (hi - lo)).countP g

section CountBytes

variable {g g' : Nat → Bool} {mid : Nat}

theorem countBytes_congr (h : ∀ s, lo ≤ s → s < hi → g s = g' s) :
    countBytes g lo hi = countBytes g' lo hi := by
  apply List.countP_congr
  intro s hs
  rw [List.mem_range'_1] at hs
  rw [h s hs.1 (by omega)]

theorem countBytes_append (h1 : lo ≤ mid) (h2 : mid ≤ hi) :
    countBytes g lo mid + countBytes g mid hi = countBytes g lo hi := by
  have hlen : hi - lo = (mid - lo) + (hi - mid) := by omega
  unfold countBytes
  rw [hlen, ← List.range'_append_1, List.countP_append, show lo + (mid - lo) = mid by omega]

/-- A number satisfies a property or does not. -/
theorem countBytes_not (g : Nat → Bool) (lo hi : Nat) :
    countBytes g lo hi + countBytes (fun s => !g s) lo hi = hi - lo := by
  unfold countBytes
  have h := List.length_eq_countP_add_countP g (l := List.range' lo (hi - lo))
  rw [List.length_range'] at h
  simpa using h.symm

/-- Of two properties, one of which implies the other. -/
theorem countBytes_of_imp (g g' : Nat → Bool) (lo hi : Nat)
    (h : ∀ s, lo ≤ s → s < hi → g s = true → g' s = true) :
    countBytes g lo hi + countBytes (fun s => g' s && !g s) lo hi = countBytes g' lo hi := by
  have key : ∀ l : List Nat, (∀ s ∈ l, g s = true → g' s = true) →
      l.countP g + l.countP (fun s => g' s && !g s) = l.countP g' := by
    intro l hl
    induction l with
    | nil => rfl
    | cons s rest ih =>
      have hrest := ih fun t ht => hl t (List.mem_cons_of_mem _ ht)
      have hs := hl s List.mem_cons_self
      rw [List.countP_cons, List.countP_cons, List.countP_cons]
      cases hg : g s <;> cases hg' : g' s <;> simp [hg, hg'] at hs ⊢ <;> omega
  apply key _
  intro s hs
  rw [List.mem_range'_1] at hs
  exact h s hs.1 (by omega)

/-- The total of the chosen records is the number of bytes in them. -/
theorem Tiles.countBytes_eq (h : Tiles lo rs hi)
    (hg : ∀ r ∈ rs, ∀ s, r.contains s = true → g s = p r) :
    countBytes g lo hi = totalLength p rs := by
  induction rs generalizing lo with
  | nil =>
    rw [show lo = hi from h]
    simp [countBytes]
  | cons r rest ih =>
    obtain ⟨hs, hne, ht⟩ := h
    have hle := ht.le
    have hr := hg r List.mem_cons_self
    -- The property is the same for all bytes of one record.
    have hconst : countBytes g r.start r.stop = if p r then r.length else 0 := by
      have hall : ∀ s, r.start ≤ s → s < r.stop → g s = (fun _ => p r) s := fun s h1 h2 =>
        hr s (SendRecord.contains_iff.mpr ⟨h1, h2⟩)
      rw [countBytes_congr hall]
      unfold countBytes SendRecord.length
      cases p r <;> simp
    rw [← countBytes_append (by omega : lo ≤ r.stop) hle, totalLength_cons,
      ih ht fun q hq => hg q (List.mem_cons_of_mem _ hq), ← hs, hconst]

/-- The records of a tiling hold all of its bytes. -/
theorem Tiles.totalLength_all (h : Tiles lo rs hi) : totalLength (fun _ => true) rs = hi - lo := by
  rw [← h.countBytes_eq (g := fun _ => true) fun _ _ _ _ => rfl]
  simp [countBytes]

end CountBytes

/-! ## Dividing records around a range -/

/-- The parts of a record carved around a range hold as much as the record. -/
theorem SendRecord.length_carve {r : SendRecord} {x : SeqRange} (hr : r.start < r.stop)
    (hx : x.start < x.stop) (ho : r.overlaps x = true) :
    Number.total ((r.carve x).lower.toList.map (·.length)) + (r.carve x).middle.length
      + Number.total ((r.carve x).upper.toList.map (·.length)) = r.length := by
  rw [SendRecord.overlaps_iff hr hx] at ho
  unfold SendRecord.carve
  by_cases h1 : r.start < x.start <;> by_cases h2 : x.stop < r.stop <;>
    simp [h1, h2, SendRecord.cut, SendRecord.length] <;> omega

/-- The parts of a record carved around a range, the middle one changed, against the record: what
they hold changes by the middle part alone. -/
theorem totalLength_parts {r : SendRecord} {x : SeqRange} (hr : r.start < r.stop)
    (hx : x.start < x.stop) (ho : r.overlaps x = true) {f : SendRecord → SendRecord}
    (hp : ∀ s, s.IsPart r → p s = p r) (hf : ∀ s, (f s).length = s.length) :
    totalLength p { r.carve x with middle := f (r.carve x).middle }.parts
        + (if p r then (r.carve x).middle.length else 0)
      = (if p r then r.length else 0)
        + (if p (f (r.carve x).middle) then (r.carve x).middle.length else 0) := by
  have hlen := SendRecord.length_carve hr hx ho
  have hlower : ∀ s ∈ (r.carve x).lower.toList, p s = p r := fun s hs =>
    hp s (SendRecord.isPart_carve hr hx ho
      (SendRecord.Carved.mem_parts.mpr (Or.inl (by simpa using hs))))
  have hupper : ∀ s ∈ (r.carve x).upper.toList, p s = p r := fun s hs =>
    hp s (SendRecord.isPart_carve hr hx ho
      (SendRecord.Carved.mem_parts.mpr (Or.inr (Or.inr (by simpa using hs)))))
  unfold SendRecord.Carved.parts
  rw [totalLength_append, totalLength_cons, totalLength_const hlower, totalLength_const hupper, hf]
  cases p r with
  | true =>
    simp only [if_true]
    omega
  | false =>
    simp only [Bool.false_eq_true, if_false]
    omega

/-- What an operation that works record by record does to a total, if it touches the records chosen
by `hit` only: `gone` leaves the total for each of them, and `come` joins it. -/
theorem totalLength_flatMap {hit : SendRecord → Bool} {f : SendRecord → List SendRecord}
    {gone come : SendRecord → Nat} (hother : ∀ r ∈ rs, hit r = false → f r = [r])
    (hhit : ∀ r ∈ rs, hit r = true →
      totalLength p (f r) + gone r = (if p r then r.length else 0) + come r) :
    totalLength p (rs.flatMap f) + Number.total ((rs.filter hit).map gone)
      = totalLength p rs + Number.total ((rs.filter hit).map come) := by
  induction rs with
  | nil => rfl
  | cons r rest ih =>
    have hrest := ih (fun s hs => hother s (List.mem_cons_of_mem _ hs))
      (fun s hs => hhit s (List.mem_cons_of_mem _ hs))
    rw [List.flatMap_cons, totalLength_append, totalLength_cons, List.filter_cons]
    cases h : hit r with
    | true =>
      have hr := hhit r List.mem_cons_self h
      simp only [if_true, List.map_cons, Number.total_cons]
      omega
    | false =>
      rw [hother r List.mem_cons_self h, totalLength_cons, totalLength_nil]
      simp only [Bool.false_eq_true, if_false]
      omega

/-! ## Releasing what lies below an edge -/

/-- Releasing what lies below an edge takes from a total what the chosen records hold below it. -/
theorem totalLength_released (h : Tiles lo rs hi) {edge : Nat} (hlo : lo < edge)
    (hp : ∀ r ∈ rs, ∀ s, s.IsPart r → p s = p r) :
    totalLength p (Scoreboard.dropBelow edge rs)
        + Number.total ((rs.filter (·.overlaps ⟨lo, edge⟩)).map fun r =>
            if p r then min r.stop edge - r.start else 0)
      = totalLength p rs := by
  have hx : (⟨lo, edge⟩ : SeqRange).start < (⟨lo, edge⟩ : SeqRange).stop := hlo
  -- The records to visit are those that start below the edge.
  have hover : ∀ r ∈ rs, r.overlaps ⟨lo, edge⟩ = decide (r.start < edge) := by
    intro r hr
    have hb := h.bounds hr
    rw [Bool.eq_iff_iff, SendRecord.overlaps_iff hb.2.1 hx, decide_eq_true_eq]
    show r.start < edge ∧ lo < r.stop ↔ r.start < edge
    omega
  rw [List.filter_congr hover]
  -- From here the left edge moves with the induction, so that it need not stay below the edge.
  clear hover hx hlo
  induction rs generalizing lo with
  | nil => rfl
  | cons r rest ih =>
    obtain ⟨hs, hne, ht⟩ := h
    have hrest := ih ht fun s hs => hp s (List.mem_cons_of_mem _ hs)
    have hpart := hp r List.mem_cons_self
    have beyond : edge ≤ r.stop → rest.filter (fun s => decide (s.start < edge)) = [] := by
      intro he
      rw [List.filter_eq_nil_iff]
      intro s hs
      have := ht.bounds hs
      simp only [decide_eq_true_eq]
      omega
    unfold Scoreboard.dropBelow
    by_cases h1 : edge ≤ r.start
    · rw [if_pos h1, List.filter_cons, if_neg (by simpa using h1), beyond (by omega)]
      rfl
    · have below : decide (r.start < edge) = true := decide_eq_true (Nat.lt_of_not_le h1)
      rw [if_neg h1, List.filter_cons, if_pos below, List.map_cons, Number.total_cons,
        totalLength_cons]
      by_cases h2 : r.stop ≤ edge
      · rw [if_pos h2, Nat.min_eq_left h2]
        unfold SendRecord.length
        omega
      · have habove := hpart (r.above edge) (SendRecord.isPart_above edge r)
        unfold SendRecord.above at habove
        rw [Nat.max_eq_right (by omega)] at habove
        rw [if_neg h2, totalLength_cons, habove, beyond (by omega), Nat.min_eq_right (by omega)]
        simp only [List.map_nil, Number.total_nil, SendRecord.length]
        split <;> omega

end LossRecovery
