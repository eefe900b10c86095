import Mathlib.Data.List.Perm.Basic
import LossRecovery.Proofs.Carving
import LossRecovery.Scoreboard.Audit

/-!
# `LossRecovery.Proofs.Coherence` — what keeps a scoreboard in order

A scoreboard holds its records twice: by sequence, where they have to tile the outstanding numbers,
and in sending order, where each linked record has to stand once. `Scoreboard.Coherent` says both,
and what the marks of a single record may say together. It is kept by the operations that all others
are made of.

## Contents
- `SendRecord.Coherent`, `Scoreboard.Coherent`.
- `SendRecord.Relabels f`: `f` changes marks and counts of a record only.
- Operations: `Coherent.modify`, `Coherent.refine`, `Coherent.carveMissing`, `Coherent.moveLast`,
  `Coherent.coalesce`.
-/

namespace LossRecovery

/-! ## Records -/

namespace SendRecord

/-- What the marks of a record may say together: nothing released is kept, the linked records are
the missing ones, and a hole is a missing record that was sent again. -/
structure Coherent (r : SendRecord) : Prop where
  acked : r.flags.acked = false
  linked : r.linked = !r.flags.sacked
  hole : r.hole = true → r.flags.sacked = false ∧ 0 < r.resends

/-- `f` changes neither the range of a record nor how often and when it was sent nor whether it has
arrived, and makes no holes. -/
structure Relabels (f : SendRecord → SendRecord) : Prop where
  start : ∀ r, (f r).start = r.start
  stop : ∀ r, (f r).stop = r.stop
  resends : ∀ r, (f r).resends = r.resends
  times : ∀ r, (f r).times = r.times
  acked : ∀ r, (f r).flags.acked = r.flags.acked
  sacked : ∀ r, (f r).flags.sacked = r.flags.sacked
  linked : ∀ r, (f r).linked = r.linked
  hole : ∀ r, (f r).hole = true → r.hole = true

variable {r p : SendRecord} {f : SendRecord → SendRecord}

namespace Relabels

/-- What only changes flags other than those of delivery, counts acks, and forgets holes. -/
theorem of_eq
    (h : ∀ r, f r =
      { r with flags := (f r).flags, dupacks := (f r).dupacks, hole := (f r).hole })
    (ha : ∀ r, (f r).flags.acked = r.flags.acked) (hs : ∀ r, (f r).flags.sacked = r.flags.sacked)
    (hh : ∀ r, (f r).hole = true → r.hole = true) : Relabels f := by
  refine ⟨?_, ?_, ?_, ?_, ha, hs, ?_, hh⟩ <;>
  · intro r
    rw [h r]

theorem id : Relabels id :=
  of_eq (fun _ => rfl) (fun _ => rfl) (fun _ => rfl) fun _ hh => hh

theorem comp {g : SendRecord → SendRecord} (hg : Relabels g) (hf : Relabels f) :
    Relabels (g ∘ f) where
  start r := (hg.start _).trans (hf.start r)
  stop r := (hg.stop _).trans (hf.stop r)
  resends r := (hg.resends _).trans (hf.resends r)
  times r := (hg.times _).trans (hf.times r)
  acked r := (hg.acked _).trans (hf.acked r)
  sacked r := (hg.sacked _).trans (hf.sacked r)
  linked r := (hg.linked _).trans (hf.linked r)
  hole r hh := hf.hole r (hg.hole _ hh)

/-- Relabelling some records only. -/
theorem ite {c : SendRecord → Prop} [DecidablePred c] (hf : Relabels f) :
    Relabels fun r => if c r then f r else r := by
  constructor <;> intro r <;> by_cases hc : c r <;> simp only [hc, if_true, if_false]
  · exact hf.start r
  · exact hf.stop r
  · exact hf.resends r
  · exact hf.times r
  · exact hf.acked r
  · exact hf.sacked r
  · exact hf.linked r
  · exact hf.hole r
  · exact fun hh => hh

theorem length (hf : Relabels f) (r : SendRecord) : (f r).length = r.length := by
  unfold SendRecord.length
  rw [hf.start, hf.stop]

end Relabels

namespace Coherent

theorem isDelivered (h : r.Coherent) : r.isDelivered = r.flags.sacked := by
  unfold SendRecord.isDelivered
  rw [h.acked, Bool.false_or]

theorem of_isPart (h : r.Coherent) (hp : p.IsPart r) : p.Coherent := by
  refine ⟨hp.acked.trans h.acked, ?_, ?_⟩
  · rw [hp.linked, hp.sacked]
    exact h.linked
  · intro hh
    rw [hp.sacked, hp.resends]
    exact h.hole (hp.hole ▸ hh)

theorem relabel (h : r.Coherent) (hf : Relabels f) : (f r).Coherent := by
  refine ⟨(hf.acked r).trans h.acked, ?_, ?_⟩
  · rw [hf.linked, hf.sacked]
    exact h.linked
  · intro hh
    rw [hf.sacked, hf.resends]
    exact h.hole (hf.hole r hh)

/-- Joining two records that have arrived gives one. -/
theorem absorb (h : r.Coherent) (h' : p.Coherent) (ha : r.canAbsorb p = true) :
    (r.absorb p).Coherent := by
  simp only [canAbsorb, Bool.and_eq_true, Bool.not_eq_true', h.isDelivered] at ha
  refine ⟨?_, ?_, ?_⟩
  · show (r.flags.acked || p.flags.acked) = false
    rw [h.acked, h'.acked]
    rfl
  · show r.linked = !(r.flags.sacked || p.flags.sacked)
    rw [h.linked, ha.1.1.1, Bool.true_or]
  · intro hh
    exact absurd (show r.hole = true from hh) (by rw [ha.1.2]; simp)

end Coherent

end SendRecord

/-! ## Scoreboards -/

namespace Scoreboard

/-- The starts of the linked records, in ascending sequence. -/
def linkedStarts (records : List SendRecord) : List Nat :=
  (records.filter (·.linked)).map (·.start)

/-- The records tile the outstanding numbers, the sending order lists exactly the linked records,
each once, and the marks of every record agree. -/
structure Coherent (b : Scoreboard) : Prop where
  tiles : Tiles b.una b.records b.top
  order : b.order.Perm (linkedStarts b.records)
  records : ∀ r ∈ b.records, r.Coherent

variable {b : Scoreboard} {r : SendRecord} {x : SeqRange}

theorem mem_linkedStarts {rs : List SendRecord} {s : Nat} :
    s ∈ linkedStarts rs ↔ ∃ r ∈ rs, r.linked = true ∧ r.start = s := by
  simp [linkedStarts, and_assoc]

theorem linkedStarts_map {rs : List SendRecord} {f : SendRecord → SendRecord}
    (hf : ∀ r ∈ rs, (f r).start = r.start ∧ (f r).linked = r.linked) :
    linkedStarts (rs.map f) = linkedStarts rs := by
  induction rs with
  | nil => rfl
  | cons r rest ih =>
    obtain ⟨hs, hl⟩ := hf r List.mem_cons_self
    have hrest := ih fun q hq => hf q (List.mem_cons_of_mem _ hq)
    unfold linkedStarts at hrest ⊢
    rw [List.map_cons, List.filter_cons, List.filter_cons, hl]
    cases r.linked with
    | true => rw [if_pos rfl, if_pos rfl, List.map_cons, List.map_cons, hs, hrest]
    | false => rw [if_neg Bool.false_ne_true, if_neg Bool.false_ne_true, hrest]

/-- Records that are not linked may be left out where they contribute nothing. -/
theorem flatMap_filter_linked {α : Type} {rs : List SendRecord} {f : SendRecord → List α}
    (hf : ∀ r ∈ rs, r.linked = false → f r = []) :
    (rs.filter (·.linked)).flatMap f = rs.flatMap f := by
  induction rs with
  | nil => rfl
  | cons r rest ih =>
    have hrest := ih fun q hq => hf q (List.mem_cons_of_mem _ hq)
    rw [List.filter_cons, List.flatMap_cons]
    cases hl : r.linked with
    | true => rw [if_pos rfl, List.flatMap_cons, hrest]
    | false => rw [if_neg Bool.false_ne_true, hf r List.mem_cons_self hl, hrest, List.nil_append]

theorem linkedStarts_append (a c : List SendRecord) :
    linkedStarts (a ++ c) = linkedStarts a ++ linkedStarts c := by
  simp [linkedStarts]

namespace Coherent

theorem empty (una limit : Nat) : (Scoreboard.empty una limit).Coherent :=
  ⟨rfl, List.Perm.refl _, fun _ h => absurd h (by simp [Scoreboard.empty])⟩

theorem le (h : b.Coherent) : b.una ≤ b.top := h.tiles.le

theorem nodup_order (h : b.Coherent) : b.order.Nodup := by
  rw [h.order.nodup_iff]
  exact h.tiles.nodup_starts.sublist (List.Sublist.map _ List.filter_sublist)

/-- A record is found by its start. -/
theorem record?_eq (h : b.Coherent) (hr : r ∈ b.records) : b.record? r.start = some r :=
  h.tiles.find?_start hr

/-- The record of a number is found by the number. -/
theorem containing?_eq_some (h : b.Coherent) {seq : Nat} :
    b.containing? seq = some r ↔ r ∈ b.records ∧ r.contains seq = true := by
  constructor
  · intro hf
    exact ⟨List.mem_of_find?_eq_some hf, by simpa using List.find?_some hf⟩
  · rintro ⟨hr, hc⟩
    exact h.tiles.find?_contains hr hc

/-! ## Changing and dividing records -/

/-- Changing records in place keeps order if it moves no record and links or unlinks none. -/
theorem modifyRecords (h : b.Coherent) {f : SendRecord → SendRecord}
    (hr : ∀ r ∈ b.records, (f r).start = r.start ∧ (f r).stop = r.stop ∧ (f r).linked = r.linked)
    (hc : ∀ r ∈ b.records, (f r).Coherent) : (b.modify f).Coherent := by
  refine ⟨h.tiles.map fun r hm => ⟨(hr r hm).1, (hr r hm).2.1⟩, ?_, ?_⟩
  · exact h.order.trans (List.Perm.of_eq (linkedStarts_map fun r hm =>
      ⟨(hr r hm).1, (hr r hm).2.2⟩).symm)
  · intro r hm
    obtain ⟨q, hq, rfl⟩ := List.mem_map.mp hm
    exact hc q hq

theorem modify (h : b.Coherent) {f : SendRecord → SendRecord} (hf : SendRecord.Relabels f) :
    (b.modify f).Coherent :=
  h.modifyRecords (fun r _ => ⟨hf.start r, hf.stop r, hf.linked r⟩)
    fun r hr => (h.records r hr).relabel hf

/-- Dividing linked records in place leaves the linked parts in the sending order. -/
theorem order_refine (h : b.Coherent) {f : SendRecord → List SendRecord}
    (hf : ∀ r ∈ b.records, r.linked = false → ∀ p ∈ f r, p.linked = false) :
    (b.refine f).order.Perm (linkedStarts (b.records.flatMap f)) := by
  refine (h.order.flatMap_right _).trans (List.Perm.of_eq ?_)
  unfold linkedStarts
  rw [List.flatMap_map, List.filter_flatMap, List.map_flatMap]
  have sub : ∀ r ∈ b.records.filter (·.linked), r ∈ b.records := fun r hr =>
    (List.mem_filter.mp hr).1
  rw [List.flatMap_congr (g := fun r => ((f r).filter (·.linked)).map (·.start)) fun r hr => by
    rw [h.record?_eq (sub r hr)]]
  refine flatMap_filter_linked fun r hr hl => ?_
  rw [List.filter_eq_nil_iff.mpr fun p hp => by rw [hf r hr hl p hp]; exact Bool.false_ne_true]
  rfl

theorem refine (h : b.Coherent) {f : SendRecord → List SendRecord}
    (ht : ∀ r ∈ b.records, Tiles r.start (f r) r.stop)
    (hl : ∀ r ∈ b.records, r.linked = false → ∀ p ∈ f r, p.linked = false)
    (hc : ∀ r ∈ b.records, ∀ p ∈ f r, p.Coherent) : (b.refine f).Coherent := by
  refine ⟨h.tiles.flatMap ht, h.order_refine hl, ?_⟩
  intro p hp
  obtain ⟨r, hr, hpr⟩ := List.mem_flatMap.mp hp
  exact hc r hr p hpr

/-- Carving a range out of the missing records, and changing what lies inside. -/
theorem carveMissing (h : b.Coherent) (hx : x.start < x.stop) {f : SendRecord → SendRecord}
    (hs : ∀ q, (f q).start = q.start) (he : ∀ q, (f q).stop = q.stop)
    (hc : ∀ q, q.Coherent → q.flags.sacked = false → (f q).Coherent) :
    (b.carveMissing x f).Coherent := by
  refine h.refine ?_ ?_ ?_
  · intro r hr
    split
    · next hit =>
      rw [Bool.and_eq_true] at hit
      exact SendRecord.tiles_carve (h.tiles.bounds hr).2.1 hx hit.1 hs he
    · exact Tiles.singleton (h.tiles.bounds hr).2.1
  · -- An unlinked record has arrived, so that it is left alone.
    intro r hr hl
    have hco := h.records r hr
    rw [hco.linked, Bool.not_eq_false'] at hl
    rw [if_neg (by rw [hco.isDelivered, hl]; simp)]
    intro p hp
    rw [List.mem_singleton.mp hp, hco.linked, hl]
    rfl
  · intro r hr p hp
    have hco := h.records r hr
    split at hp
    · next hit =>
      rw [Bool.and_eq_true, hco.isDelivered, Bool.not_eq_true'] at hit
      rcases SendRecord.isPart_of_mem_carved (h.tiles.bounds hr).2.1 hx hit.1 hp with he | hpart
      · have hm := SendRecord.isPart_carve_middle (h.tiles.bounds hr).2.1 hx hit.1
        rw [he]
        exact hc _ (hco.of_isPart hm) (hm.sacked.trans hit.2)
      · exact hco.of_isPart hpart
    · rw [List.mem_singleton.mp hp]
      exact hco

/-! ## The sending order -/

/-- Moving linked records to the end of the sending order, where the most recently sent ones
stand. -/
theorem moveLast (h : b.Coherent) {starts : List Nat} (hn : starts.Nodup)
    (hs : ∀ s ∈ starts, s ∈ b.order) :
    ({ b with order := b.order.filter (fun s => !starts.contains s) ++ starts } :
      Scoreboard).Coherent := by
  refine ⟨h.tiles, List.Perm.trans ?_ h.order, h.records⟩
  have hl := h.nodup_order
  -- Neither list repeats a start, so that the same members make a permutation.
  refine (List.perm_ext_iff_of_nodup ?_ hl).mpr ?_
  · refine List.nodup_append.mpr ⟨hl.filter _, hn, ?_⟩
    intro s hf t ht hst
    have hnot := (List.mem_filter.mp hf).2
    rw [hst] at hnot
    simp [ht] at hnot
  · intro s
    rw [List.mem_append, List.mem_filter]
    constructor
    · rintro (h1 | h1)
      · exact h1.1
      · exact hs s h1
    · intro h1
      by_cases hmem : s ∈ starts
      · exact Or.inr hmem
      · exact Or.inl ⟨h1, by simpa using hmem⟩

end Coherent

/-! ## Joining neighbours -/

section Joining

variable {near : SendRecord → Bool} {l : SendRecord} {rest : List SendRecord}

/-- What is true of all records, and of each join of two records for which it is true, is true after
joining. -/
theorem forall_coalesceFrom {P : SendRecord → Prop}
    (hP : ∀ a c, P a → P c → a.canAbsorb c = true → P (a.absorb c)) (hl : P l)
    (hrest : ∀ r ∈ rest, P r) : ∀ p ∈ (coalesceFrom near l rest).1, P p := by
  -- Along the records still to be visited; `l` is what was joined so far.
  induction rest generalizing l with
  | nil =>
    intro p hp
    rw [List.mem_singleton.mp hp]
    exact hl
  | cons r rest ih =>
    have hr := hrest r List.mem_cons_self
    have htail := fun q hq => hrest q (List.mem_cons_of_mem r hq)
    unfold coalesceFrom
    split
    · next hc =>
      rw [Bool.and_eq_true] at hc
      exact ih (hP l r hl hr hc.2) htail
    · intro p hp
      rcases List.mem_cons.mp hp with rfl | hp
      · exact hl
      · exact ih hr htail p hp

theorem forall_coalesceRecords {P : SendRecord → Prop} {rs : List SendRecord}
    (hP : ∀ a c, P a → P c → a.canAbsorb c = true → P (a.absorb c)) (h : ∀ r ∈ rs, P r) :
    ∀ p ∈ (coalesceRecords near rs).1, P p := by
  cases rs with
  | nil => exact h
  | cons l rest =>
    exact forall_coalesceFrom hP (h l List.mem_cons_self)
      fun r hr => h r (List.mem_cons_of_mem _ hr)

/-- Records that may be joined are not linked. -/
theorem unlinked_of_canAbsorb {l r : SendRecord} (hl : l.Coherent) (hr : r.Coherent)
    (hc : l.canAbsorb r = true) : l.linked = false ∧ r.linked = false := by
  simp only [SendRecord.canAbsorb, Bool.and_eq_true, hl.isDelivered, hr.isDelivered] at hc
  rw [hl.linked, hr.linked, hc.1.1.1, hc.1.1.2]
  exact ⟨rfl, rfl⟩

theorem linkedStarts_coalesceFrom (hl : l.Coherent) (hrest : ∀ r ∈ rest, r.Coherent) :
    linkedStarts (coalesceFrom near l rest).1 = linkedStarts (l :: rest) := by
  induction rest generalizing l with
  | nil => rfl
  | cons r rest ih =>
    have hr := hrest r List.mem_cons_self
    have htail := fun q hq => hrest q (List.mem_cons_of_mem r hq)
    unfold coalesceFrom
    split
    · next hc =>
      rw [Bool.and_eq_true] at hc
      -- Neither a joined record nor what it is joined to is linked.
      obtain ⟨h1, h2⟩ := unlinked_of_canAbsorb hl hr hc.2
      have h3 : (l.absorb r).linked = false := h1
      rw [ih (hl.absorb hr hc.2) htail]
      simp [linkedStarts, h1, h2, h3]
    · have h1 := ih hr htail
      show linkedStarts ([l] ++ _) = linkedStarts ([l] ++ r :: rest)
      rw [linkedStarts_append, linkedStarts_append, h1]

theorem linkedStarts_coalesceRecords {rs : List SendRecord} (h : ∀ r ∈ rs, r.Coherent) :
    linkedStarts (coalesceRecords near rs).1 = linkedStarts rs := by
  cases rs with
  | nil => rfl
  | cons l rest =>
    exact linkedStarts_coalesceFrom (h l List.mem_cons_self)
      fun r hr => h r (List.mem_cons_of_mem _ hr)

/-- A record that vanishes in a join was not linked. -/
theorem unlinked_of_vanished (hl : l.Coherent) (hrest : ∀ r ∈ rest, r.Coherent) :
    ∀ j ∈ (coalesceFrom near l rest).2, ∃ r ∈ rest, r.start = j.vanished ∧ r.linked = false := by
  induction rest generalizing l with
  | nil => exact fun j hj => absurd hj (by simp [coalesceFrom])
  | cons r rest ih =>
    have hr := hrest r List.mem_cons_self
    have htail := fun q hq => hrest q (List.mem_cons_of_mem r hq)
    unfold coalesceFrom
    intro j hj
    split at hj
    · next hc =>
      rw [Bool.and_eq_true] at hc
      rcases List.mem_cons.mp hj with rfl | hj
      · exact ⟨r, List.mem_cons_self, rfl, (unlinked_of_canAbsorb hl hr hc.2).2⟩
      · obtain ⟨q, hq, hqs⟩ := ih (hl.absorb hr hc.2) htail j hj
        exact ⟨q, List.mem_cons_of_mem _ hq, hqs⟩
    · obtain ⟨q, hq, hqs⟩ := ih hr htail j hj
      exact ⟨q, List.mem_cons_of_mem _ hq, hqs⟩

/-- Nothing that is linked vanishes, so that the sending order stays as it is. -/
theorem Coherent.order_coalesce (h : b.Coherent) (x : SeqRange) :
    (b.coalesce x).1.order = b.order := by
  apply List.filter_eq_self.mpr
  intro s hs
  rw [Bool.not_eq_true', List.contains_eq_mem, decide_eq_false_iff_not]
  intro hv
  obtain ⟨j, hj, rfl⟩ := List.mem_map.mp hv
  obtain ⟨q, hq, hlinked, hqs⟩ := mem_linkedStarts.mp (h.order.mem_iff.mp hs)
  have hgone : ∃ r ∈ b.records, r.start = j.vanished ∧ r.linked = false := by
    have hco := h.records
    revert hj hco
    cases b.records with
    | nil => exact fun hj => absurd hj (by simp [coalesceRecords])
    | cons l rest =>
      intro hj hco
      obtain ⟨r, hr, hrs⟩ := unlinked_of_vanished (hco l List.mem_cons_self)
        (fun r hr => hco r (List.mem_cons_of_mem _ hr)) j hj
      exact ⟨r, List.mem_cons_of_mem _ hr, hrs⟩
  obtain ⟨r, hr, hrs, hunlinked⟩ := hgone
  rw [h.tiles.eq_of_start hr hq (hrs.trans hqs.symm), hlinked] at hunlinked
  exact Bool.noConfusion hunlinked

theorem Coherent.coalesce (h : b.Coherent) (x : SeqRange) : (b.coalesce x).1.Coherent := by
  refine ⟨h.tiles.coalesceRecords, ?_, forall_coalesceRecords
    (fun a c ha hc => ha.absorb hc) h.records⟩
  rw [h.order_coalesce x]
  show List.Perm b.order (linkedStarts (coalesceRecords (·.overlaps x) b.records).1)
  rw [linkedStarts_coalesceRecords h.records]
  exact h.order

end Joining

end Scoreboard

end LossRecovery
