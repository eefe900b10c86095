import LossRecovery.Proofs.Tiling

/-!
# `LossRecovery.Proofs.Carving` — the parts of a divided record

Dividing a record changes neither what is known about its bytes nor which bytes it holds.

## Contents
- `SendRecord.IsPart p r`: `p` lies inside `r` and shares its history.
- `SendRecord.overlaps_iff`: sharing a number, in terms of the ends.
- `carve`: the ends of the part inside a range, the parts tile the record, and all of them are parts.
-/

namespace LossRecovery

namespace SendRecord

variable {p q r : SendRecord} {x : SeqRange} {seq : Nat}

/-! ## Parts -/

/-- `p` lies inside `r` and differs from it at most in its ends, in the bytes counted as sent again,
and in the marks for the ends of the stream. -/
structure IsPart (p r : SendRecord) : Prop where
  start_le : r.start ≤ p.start
  stop_le : p.stop ≤ r.stop
  same : p = { r with
    start := p.start
    stop := p.stop
    resentBytes := p.resentBytes
    flags := { r.flags with fin := p.flags.fin, syn := p.flags.syn } }

namespace IsPart

theorem refl (r : SendRecord) : IsPart r r := ⟨Nat.le_refl _, Nat.le_refl _, rfl⟩

theorem trans (h : IsPart p q) (h' : IsPart q r) : IsPart p r := by
  refine ⟨Nat.le_trans h'.start_le h.start_le, Nat.le_trans h.stop_le h'.stop_le, ?_⟩
  have e := h.same
  rw [h'.same] at e
  exact e

theorem times (h : IsPart p r) : p.times = r.times := by rw [h.same]
theorem resends (h : IsPart p r) : p.resends = r.resends := by rw [h.same]
theorem hole (h : IsPart p r) : p.hole = r.hole := by rw [h.same]
theorem linked (h : IsPart p r) : p.linked = r.linked := by rw [h.same]
theorem acked (h : IsPart p r) : p.flags.acked = r.flags.acked := by rw [h.same]
theorem sacked (h : IsPart p r) : p.flags.sacked = r.flags.sacked := by rw [h.same]

theorem lastSent (h : IsPart p r) : p.lastSent = r.lastSent := by
  unfold SendRecord.lastSent
  rw [h.times, h.resends]

theorem contains (h : IsPart p r) (hc : p.contains seq = true) : r.contains seq = true := by
  rw [contains_iff] at hc ⊢
  have h1 := h.start_le
  have h2 := h.stop_le
  omega

end IsPart

theorem isPart_above (edge : Nat) (r : SendRecord) : IsPart (r.above edge) r :=
  ⟨Nat.le_max_left _ _, Nat.le_refl _, rfl⟩

theorem isPart_cut_lower {point : Nat} (h : point ≤ r.stop) : IsPart (r.cut point).1 r :=
  ⟨Nat.le_refl _, h, rfl⟩

theorem isPart_cut_upper {point : Nat} (h : r.start ≤ point) : IsPart (r.cut point).2 r :=
  ⟨h, Nat.le_refl _, rfl⟩

/-! ## Overlaps -/

/-- A record and a range, neither of them empty, share a number if each starts below the other's
stop. -/
theorem overlaps_iff (hr : r.start < r.stop) (hx : x.start < x.stop) :
    r.overlaps x = true ↔ r.start < x.stop ∧ x.start < r.stop := by
  simp only [overlaps, contains, Bool.or_eq_true, Bool.and_eq_true, decide_eq_true_eq]
  omega

/-- A record overlaps every range that shares a number with it. -/
theorem overlaps_of_contains (hc : r.contains seq = true) (hx : x.contains seq = true) :
    r.overlaps x = true := by
  rw [contains_iff] at hc
  rw [SeqRange.contains_iff] at hx
  exact (overlaps_iff (by omega) (by omega)).mpr (by omega)

theorem straddles_iff {point : Nat} :
    r.straddles point = true ↔ r.start < point ∧ point < r.stop := by
  simp [straddles]

/-! ## Carving -/

namespace Carved

variable {c : Carved}

theorem mem_parts : p ∈ c.parts ↔ c.lower = some p ∨ p = c.middle ∨ c.upper = some p := by
  simp [parts]

end Carved

theorem carve_middle_start : (r.carve x).middle.start = max r.start x.start := by
  unfold carve
  by_cases h1 : r.start < x.start <;> by_cases h2 : x.stop < r.stop <;> simp [h1, h2, cut] <;> omega

theorem carve_middle_stop : (r.carve x).middle.stop = min r.stop x.stop := by
  unfold carve
  by_cases h1 : r.start < x.start <;> by_cases h2 : x.stop < r.stop <;> simp [h1, h2, cut] <;> omega

/-- What is cut off below a range ends where the range starts. -/
theorem carve_lower (h : (r.carve x).lower = some p) :
    r.start < x.start ∧ p = (r.cut x.start).1 := by
  unfold carve at h
  by_cases h1 : r.start < x.start <;> by_cases h2 : x.stop < r.stop <;> simp [h1, h2] at h
  all_goals exact ⟨h1, h.symm⟩

/-- What is cut off above a range starts where the range ends. -/
theorem carve_upper (h : (r.carve x).upper = some p) :
    x.stop < r.stop ∧ p.start = x.stop ∧ p.stop = r.stop := by
  unfold carve at h
  by_cases h1 : r.start < x.start <;> by_cases h2 : x.stop < r.stop <;>
    simp [h1, h2, cut] at h <;> subst h <;> exact ⟨h2, rfl, rfl⟩

/-- All parts of a record carved around a range it overlaps are parts of it. -/
theorem isPart_carve (hr : r.start < r.stop) (hx : x.start < x.stop) (ho : r.overlaps x = true)
    (hp : p ∈ (r.carve x).parts) : IsPart p r := by
  rw [overlaps_iff hr hx] at ho
  unfold carve at hp
  -- The record is cut at both ends of the range, at its start, at its end, or not at all.
  by_cases h1 : r.start < x.start <;> by_cases h2 : x.stop < r.stop <;>
    simp [h1, h2, Carved.parts] at hp
  · rcases hp with rfl | rfl | rfl
    · exact isPart_cut_lower (by omega)
    · exact (isPart_cut_lower (by show x.stop ≤ r.stop; omega)).trans (isPart_cut_upper (by omega))
    · exact (isPart_cut_upper (by show x.start ≤ x.stop; omega)).trans (isPart_cut_upper (by omega))
  · rcases hp with rfl | rfl
    · exact isPart_cut_lower (by omega)
    · exact isPart_cut_upper (by omega)
  · rcases hp with rfl | rfl
    · exact isPart_cut_lower (by omega)
    · exact isPart_cut_upper (by omega)
  · rw [hp]
    exact IsPart.refl r

theorem isPart_carve_middle (hr : r.start < r.stop) (hx : x.start < x.stop)
    (ho : r.overlaps x = true) : IsPart (r.carve x).middle r :=
  isPart_carve hr hx ho (Carved.mem_parts.mpr (Or.inr (Or.inl rfl)))

/-- After a change of the middle one, every other part of a record carved around a range it overlaps is
still a part of it. -/
theorem isPart_of_mem_carved (hr : r.start < r.stop) (hx : x.start < x.stop)
    (ho : r.overlaps x = true) {f : SendRecord → SendRecord}
    (hp : p ∈ { r.carve x with middle := f (r.carve x).middle }.parts) :
    p = f (r.carve x).middle ∨ IsPart p r := by
  rcases Carved.mem_parts.mp hp with hq | hq | hq
  · exact .inr (isPart_carve hr hx ho (Carved.mem_parts.mpr (.inl hq)))
  · exact .inl hq
  · exact .inr (isPart_carve hr hx ho (Carved.mem_parts.mpr (.inr (.inr hq))))

/-- The parts of a record carved around a range tile the record, also after a change of the middle
one that does not move its ends. -/
theorem tiles_carve (hr : r.start < r.stop) (hx : x.start < x.stop) (ho : r.overlaps x = true)
    {f : SendRecord → SendRecord} (hs : ∀ q, (f q).start = q.start) (he : ∀ q, (f q).stop = q.stop) :
    Tiles r.start { r.carve x with middle := f (r.carve x).middle }.parts r.stop := by
  rw [overlaps_iff hr hx] at ho
  unfold carve
  by_cases h1 : r.start < x.start <;> by_cases h2 : x.stop < r.stop <;>
    simp only [h1, h2, Carved.parts, cut, if_true, if_false, Option.toList, List.nil_append,
      List.cons_append, Tiles, hs, he, true_and, and_true] <;> omega

end SendRecord

end LossRecovery
