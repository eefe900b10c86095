import LossRecovery.Engine.Send
import LossRecovery.Proofs.Coherence

/-!
# `LossRecovery.Proofs.Operations` — operations on a coherent scoreboard

## Contents
- `Coherent.release`: a new left edge.
- `Coherent.append`: new data; `append_eq_ok`: it is refused only if it is empty or misplaced.
- `Coherent.resendOnBoard`: missing data sent again; `resentInPlace`: before it is moved to the end of
  the sending order.
- `Coherent.meets_of_overlapping`, `straddles_start_above`, `straddles_stop_below`: the records of a range,
  and which of them may reach over its edges.
- `Coherent.mem_ordered`, `ordered_eq`, `ordered_refine`: the linked records, least recently sent
  first.
- `Coherent.audit`: a coherent scoreboard passes its audit.
-/

namespace LossRecovery

/-- What a caller may set on a send: the marks of delivery belong to the engine. -/
def Flags.IsFresh (f : Flags) : Prop := f.acked = false ∧ f.sacked = false

namespace Scoreboard

variable {b : Scoreboard} {r : SendRecord} {x : SeqRange}

/-! ## A new left edge -/

namespace Coherent

/-- The record that reaches over an edge is known by its start. -/
theorem reaching_iff (h : b.Coherent) (hr : r ∈ b.records) (edge : Nat) :
    (b.records.find? (·.straddles edge)).map (·.start) = some r.start
      ↔ r.straddles edge = true := by
  constructor
  · intro hf
    obtain ⟨q, hq, hqs⟩ := Option.map_eq_some_iff.mp hf
    rw [← h.tiles.eq_of_start (List.mem_of_find?_eq_some hq) hr hqs]
    simpa using List.find?_some hq
  · intro hs
    have hsome : (b.records.find? (·.straddles edge)).isSome := by
      rw [List.find?_isSome]
      exact ⟨r, hr, hs⟩
    obtain ⟨q, hq⟩ := Option.isSome_iff_exists.mp hsome
    have hqs := List.find?_some hq
    simp only [SendRecord.straddles, Bool.and_eq_true, decide_eq_true_eq] at hs hqs
    have hqr : q = r := h.tiles.eq_of_contains (List.mem_of_find?_eq_some hq) hr
      (SendRecord.contains_iff.mpr ⟨Nat.le_of_lt hqs.1, hqs.2⟩)
      (SendRecord.contains_iff.mpr ⟨Nat.le_of_lt hs.1, hs.2⟩)
    rw [hq, hqr]
    rfl

/-- Where a record stands in the sending order after releasing what lies below an edge. -/
theorem order_release_start (h : b.Coherent) (hr : r ∈ b.records) (edge : Nat) :
    (if edge ≤ r.start then some r.start
      else if (b.records.find? (·.straddles edge)).map (·.start) = some r.start then some edge
      else none)
      = if edge < r.stop then some (max r.start edge) else none := by
  -- A record above the edge keeps its place, one that reaches over the edge moves its start there,
  -- and one below it goes.
  have hne := (h.tiles.bounds hr).2.1
  by_cases he : edge ≤ r.start
  · rw [if_pos he, if_pos (by omega), Nat.max_eq_left he]
  · rw [if_neg he]
    by_cases hk : edge < r.stop
    · have hs : r.straddles edge = true := by
        simp only [SendRecord.straddles, Bool.and_eq_true, decide_eq_true_eq]
        omega
      rw [if_pos ((h.reaching_iff hr edge).mpr hs), if_pos hk, Nat.max_eq_right (by omega)]
    · have hs : ¬ r.straddles edge = true := by
        simp only [SendRecord.straddles, Bool.and_eq_true, decide_eq_true_eq]
        omega
      rw [if_neg (fun hf => hs ((h.reaching_iff hr edge).mp hf)), if_neg hk]

/-- Releasing keeps the linked records that reach above the edge, in their order. -/
theorem order_release (h : b.Coherent) (edge : Nat) :
    (b.release edge).order.Perm (linkedStarts (dropBelow edge b.records)) := by
  refine (h.order.filterMap _).trans (List.Perm.of_eq ?_)
  rw [h.tiles.dropBelow_eq edge]
  unfold linkedStarts
  rw [List.filterMap_map]
  refine (List.filterMap_congr fun r hr =>
    h.order_release_start (List.mem_filter.mp hr).1 edge).trans ?_
  -- Both sides visit the records in ascending sequence.
  clear h
  induction b.records with
  | nil => rfl
  | cons r rest ih =>
    have hlink : (r.above edge).linked = r.linked := rfl
    have hstart : (r.above edge).start = max r.start edge := rfl
    rw [List.filter_cons, List.filter_cons]
    by_cases hk : edge < r.stop
    · rw [if_pos (show decide (edge < r.stop) = true from decide_eq_true hk), List.map_cons,
        List.filter_cons, hlink]
      cases r.linked with
      | false =>
        rw [if_neg Bool.false_ne_true, if_neg Bool.false_ne_true]
        exact ih
      | true =>
        rw [if_pos rfl, if_pos rfl, List.map_cons, hstart, ← ih]
        exact List.filterMap_cons_some (if_pos hk)
    · rw [if_neg (show ¬ decide (edge < r.stop) = true by simpa using hk), ← ih]
      cases r.linked with
      | false => rw [if_neg Bool.false_ne_true]
      | true =>
        rw [if_pos rfl]
        exact List.filterMap_cons_none (if_neg hk)

theorem release (h : b.Coherent) {edge : Nat} (hlo : b.una ≤ edge) (hhi : edge ≤ b.top) :
    (b.release edge).Coherent := by
  refine ⟨h.tiles.dropBelow hlo hhi, h.order_release edge, ?_⟩
  intro p hp
  have hp' : p ∈ dropBelow edge b.records := hp
  rw [h.tiles.dropBelow_eq edge] at hp'
  obtain ⟨r, hr, rfl⟩ := List.mem_map.mp hp'
  exact (h.records r (List.mem_filter.mp hr).1).of_isPart (SendRecord.isPart_above edge r)

end Coherent

/-! ## New data -/

/-- What recording new data at the right edge makes of a scoreboard: the highest record grows, or a
record of its own is added. -/
theorem append_eq_ok (flags : Flags) (now mark : Nat) (hx : x.start < x.stop)
    (hs : x.start = b.top) :
    (∃ last below, b.records = below ++ [last] ∧ continuesBurst last x flags now = true ∧
      b.append x flags now mark = .ok { b with
        records := below ++ [{ last.restamp now with stop := x.stop }]
        top := x.stop }) ∨
    b.append x flags now mark = .ok { b with
      records := b.records ++ [{ SendRecord.ofSend x flags now mark with linked := true }]
      order := b.order ++ [x.start]
      top := x.stop } := by
  have hne : ¬ x.isEmpty = true := by
    rw [SeqRange.isEmpty_iff]
    omega
  unfold append
  rw [if_neg hne, if_neg (by simpa using hs)]
  cases hl : b.records.getLast? with
  | none => exact Or.inr rfl
  | some last =>
    obtain ⟨below, hb⟩ := List.getLast?_eq_some_iff.mp hl
    by_cases hc : continuesBurst last x flags now = true
    · refine Or.inl ⟨last, below, hb, hc, ?_⟩
      simp only [hc, if_true]
      rw [hb, List.dropLast_concat]
    · refine Or.inr ?_
      simp only [hc]
      rfl

/-- A record that a send goes on with was sent at that instant, only once, and is missing. -/
theorem continuesBurst_iff {last : SendRecord} {flags : Flags} {now : Nat} :
    continuesBurst last x flags now = true ↔
      last.stop = x.start ∧ last.resends = 0 ∧ last.flags = flags ∧ flags.fin = false ∧
        last.lastSent = now ∧ last.linked = true := by
  simp [continuesBurst, and_assoc]

theorem append_edges {b' : Scoreboard} {flags : Flags} {now mark : Nat} (hx : x.start < x.stop)
    (hs : x.start = b.top) (hb : b.append x flags now mark = .ok b') :
    b'.una = b.una ∧ b'.top = x.stop := by
  rcases append_eq_ok flags now mark hx hs with
    ⟨last, below, -, -, he⟩ | he <;>
  · rw [he] at hb
    injection hb with hb
    rw [← hb]
    exact ⟨rfl, rfl⟩

theorem Coherent.append (h : b.Coherent) {flags : Flags} {now mark : Nat} (hx : x.start < x.stop)
    (hs : x.start = b.top) (hf : flags.IsFresh) {b' : Scoreboard}
    (hb : b.append x flags now mark = .ok b') : b'.Coherent := by
  rcases append_eq_ok flags now mark hx hs with
    ⟨last, below, hrec, hc, he⟩ | he
  · -- The highest record grows: its start, and with it the sending order, stays.
    rw [he] at hb
    injection hb with hb
    rw [← hb]
    obtain ⟨hstop, -⟩ := continuesBurst_iff.mp hc
    have hlast := h.records last (by rw [hrec]; exact List.mem_append_right _ (by simp))
    have ht := h.tiles
    have ho := h.order
    rw [hrec] at ht ho
    obtain ⟨mid, hbelow, hm, hne, -⟩ := ht.of_append
    refine ⟨hbelow.append ⟨hm, ?_, rfl⟩, ?_, ?_⟩
    · show last.start < x.stop
      omega
    · have same : linkedStarts [{ last.restamp now with stop := x.stop }] = linkedStarts [last] := by
        cases hl : last.linked <;> simp [linkedStarts, SendRecord.restamp, hl]
      rw [linkedStarts_append] at ho ⊢
      rw [same]
      exact ho
    · intro r hr
      rcases List.mem_append.mp hr with hr | hr
      · exact h.records r (by rw [hrec]; exact List.mem_append_left _ hr)
      · rw [List.mem_singleton.mp hr]
        exact ⟨hlast.acked, hlast.linked, hlast.hole⟩
  · -- A new record stands last by sequence and in the sending order.
    rw [he] at hb
    injection hb with hb
    rw [← hb]
    refine ⟨h.tiles.append ⟨hs, hx, rfl⟩, ?_, ?_⟩
    · rw [linkedStarts_append]
      exact h.order.append (List.Perm.refl _)
    · intro r hr
      rcases List.mem_append.mp hr with hr | hr
      · exact h.records r hr
      · rw [List.mem_singleton.mp hr]
        refine ⟨hf.1, ?_, fun hh => Bool.noConfusion hh⟩
        show true = !flags.sacked
        rw [hf.2]
        rfl

/-! ## Bytes newly SACKed -/

theorem sackedRecord_coherent {now : Nat} (h : r.Coherent) :
    (AckPass.sackedRecord now r).Coherent :=
  ⟨h.acked, rfl, fun hh => Bool.noConfusion hh⟩

theorem Coherent.sack (h : b.Coherent) (hx : x.start < x.stop) (now : Nat) :
    (b.carveMissing x (AckPass.sackedRecord now)).Coherent :=
  h.carveMissing hx (fun _ => rfl) (fun _ => rfl) fun _ hq _ => sackedRecord_coherent hq

/-! ## Data sent again -/

section Resend

variable {flags : Flags} {afterTimeout fits : Bool} {now : Nat}

/-- A missing record that was sent again is a hole. -/
theorem resentRecord_coherent (h : r.Coherent) (hm : r.flags.sacked = false) :
    (Engine.resentRecord flags afterTimeout now r).Coherent := by
  refine ⟨h.acked, ?_, fun _ => ⟨hm, ?_⟩⟩
  · show true = !r.flags.sacked
    rw [hm]
    rfl
  · show 0 < min (r.resends + 1) Word.max32
    exact Nat.lt_min.mpr ⟨Nat.succ_pos _, by decide⟩

theorem mem_overlapping (hx : x.start < x.stop) :
    r ∈ b.overlapping x ↔ r ∈ b.records ∧ r.overlaps x = true := by
  unfold overlapping
  rw [if_neg (by rw [SeqRange.isEmpty_iff]; omega), List.mem_filter]

theorem overlapping_sublist (b : Scoreboard) (x : SeqRange) :
    (b.overlapping x).Sublist b.records := by
  unfold overlapping
  split
  · exact List.nil_sublist _
  · exact List.filter_sublist

namespace Coherent

theorem meets_of_overlapping (h : b.Coherent) (hx : x.start < x.stop) (hr : r ∈ b.overlapping x) :
    r.start < x.stop ∧ x.start < r.stop := by
  obtain ⟨hrb, ho⟩ := (mem_overlapping hx).mp hr
  exact (SendRecord.overlaps_iff (h.tiles.bounds hrb).2.1 hx).mp ho

/-- Above another record of a range, a record starts inside of the range. -/
theorem straddles_start_above (h : b.Coherent) (hx : x.start < x.stop) :
    (b.overlapping x).Pairwise fun _ r => r.straddles x.start = false := by
  have hapart := h.tiles.pairwise.sublist (b.overlapping_sublist x)
  refine hapart.imp_of_mem fun {l r} hl _ habove => ?_
  have hmeets := h.meets_of_overlapping hx hl
  rw [Bool.eq_false_iff, Ne, SendRecord.straddles_iff]
  omega

/-- Below another record of a range, a record stops inside of the range. -/
theorem straddles_stop_below (h : b.Coherent) (hx : x.start < x.stop) :
    (b.overlapping x).Pairwise fun l _ => l.straddles x.stop = false := by
  have hapart := h.tiles.pairwise.sublist (b.overlapping_sublist x)
  refine hapart.imp_of_mem fun {l r} _ hr hbelow => ?_
  have hmeets := h.meets_of_overlapping hx hr
  rw [Bool.eq_false_iff, Ne, SendRecord.straddles_iff]
  omega

end Coherent

/-- Where the part of a record starts that a resend stands for. -/
theorem resentPart_start :
    (Engine.resentPart x fits r).start = if fits then max r.start x.start else r.start := by
  unfold Engine.resentPart
  split
  · exact SendRecord.carve_middle_start
  · rfl

/-- The parts that a resend stands for start at different numbers. -/
theorem Coherent.nodup_resent (h : b.Coherent) (hx : x.start < x.stop) :
    (((b.overlapping x).filter fun r => !r.isDelivered).map
      fun r => (Engine.resentPart x fits r).start).Nodup := by
  have hsub := List.Sublist.trans (List.filter_sublist (p := fun r => !r.isDelivered))
    (b.overlapping_sublist x)
  refine List.pairwise_map.mpr ((h.tiles.pairwise.sublist hsub).imp_of_mem ?_)
  intro r q hr hq hrq
  have hr' := (mem_overlapping hx).mp (List.mem_filter.mp hr).1
  have hq' := (mem_overlapping hx).mp (List.mem_filter.mp hq).1
  have hrne := (h.tiles.bounds hr'.1).2.1
  have hov := (SendRecord.overlaps_iff hrne hx).mp hr'.2
  rw [resentPart_start, resentPart_start]
  split <;> omega

/-- Where the records start that a resend moves to the end of the sending order. -/
def resentStarts (b : Scoreboard) (x : SeqRange) (fits : Bool) : List Nat :=
  ((b.overlapping x).filter fun r => !r.isDelivered).map fun r => (Engine.resentPart x fits r).start

/-- The missing records of a range marked as sent again, in the places they had: the parts carved
out or, where cuts do not fit, whole records. -/
def resentInPlace (b : Scoreboard) (x : SeqRange) (fits : Bool) (change : SendRecord → SendRecord) :
    Scoreboard :=
  if fits then b.carveMissing x change
  else b.modify fun r => if r.overlaps x && !r.isDelivered then change r else r

theorem resendOnBoard_eq {change : SendRecord → SendRecord} :
    Engine.resendOnBoard b x fits change =
      { b.resentInPlace x fits change with
        order := (b.resentInPlace x fits change).order.filter
          (fun s => !(b.resentStarts x fits).contains s) ++ b.resentStarts x fits } := rfl

theorem Coherent.resentInPlace (h : b.Coherent) (hx : x.start < x.stop) :
    (b.resentInPlace x fits (Engine.resentRecord flags afterTimeout now)).Coherent := by
  have hmissing : ∀ r ∈ b.records, (r.overlaps x && !r.isDelivered) = true →
      r.flags.sacked = false := by
    intro r hr hit
    rw [Bool.and_eq_true, (h.records r hr).isDelivered, Bool.not_eq_true'] at hit
    exact hit.2
  have hlink : ∀ r ∈ b.records, (r.overlaps x && !r.isDelivered) = true → r.linked = true := by
    intro r hr hit
    rw [(h.records r hr).linked, hmissing r hr hit]
    rfl
  cases fits with
  | true =>
    exact h.carveMissing hx (fun _ => rfl) (fun _ => rfl) fun q hq hm => resentRecord_coherent hq hm
  | false =>
    apply h.modifyRecords
    · intro r hr
      split
      · next hit => exact ⟨rfl, rfl, (hlink r hr hit).symm⟩
      · exact ⟨rfl, rfl, rfl⟩
    · intro r hr
      split
      · next hit => exact resentRecord_coherent (h.records r hr) (hmissing r hr hit)
      · exact h.records r hr

/-- What was sent again of a record starts where its middle part, or the whole of it, started. -/
theorem mem_resentInPlace (hx : x.start < x.stop)
    (hr : r ∈ (b.overlapping x).filter fun r => !r.isDelivered) :
    Engine.resentRecord flags afterTimeout now (Engine.resentPart x fits r)
      ∈ (b.resentInPlace x fits (Engine.resentRecord flags afterTimeout now)).records := by
  obtain ⟨hrx, hrm⟩ := List.mem_filter.mp hr
  obtain ⟨hrb, hov⟩ := (mem_overlapping hx).mp hrx
  have hit : (r.overlaps x && !r.isDelivered) = true := by
    rw [hov, hrm]
    rfl
  cases fits with
  | true =>
    refine List.mem_flatMap.mpr ⟨r, hrb, ?_⟩
    rw [if_pos hit]
    exact SendRecord.Carved.mem_parts.mpr (Or.inr (Or.inl rfl))
  | false =>
    refine List.mem_map.mpr ⟨r, hrb, ?_⟩
    rw [if_pos hit]
    rfl

/-- Sending missing data again, with the parts of records carved out or, where cuts do not fit, with
whole records. -/
theorem Coherent.resendOnBoard (h : b.Coherent) (hx : x.start < x.stop) :
    (Engine.resendOnBoard b x fits (Engine.resentRecord flags afterTimeout now)).Coherent := by
  have hchanged : (b.resentInPlace x fits (Engine.resentRecord flags afterTimeout now)).Coherent :=
    h.resentInPlace hx
  refine hchanged.moveLast (h.nodup_resent hx) fun s hs => ?_
  obtain ⟨r, hr, rfl⟩ := List.mem_map.mp hs
  exact hchanged.order.mem_iff.mpr (mem_linkedStarts.mpr ⟨_, mem_resentInPlace hx hr, rfl, rfl⟩)

end Resend

/-! ## The linked records -/

namespace Coherent

/-- A number in the sending order is the start of a linked record, and that record is found. -/
theorem record?_of_mem_order (h : b.Coherent) {s : Nat} (hs : s ∈ b.order) :
    ∃ r ∈ b.records, r.linked = true ∧ r.start = s ∧ b.record? s = some r := by
  obtain ⟨r, hr, hl, rfl⟩ := mem_linkedStarts.mp (h.order.mem_iff.mp hs)
  exact ⟨r, hr, hl, rfl, h.record?_eq hr⟩

theorem mem_ordered (h : b.Coherent) : r ∈ b.ordered ↔ r ∈ b.records ∧ r.linked = true := by
  unfold ordered
  rw [List.mem_filterMap]
  constructor
  · rintro ⟨s, hs, hf⟩
    obtain ⟨q, hq, hl, -, hfound⟩ := h.record?_of_mem_order hs
    rw [hfound] at hf
    injection hf with hf
    rw [← hf]
    exact ⟨hq, hl⟩
  · rintro ⟨hr, hl⟩
    exact ⟨r.start, h.order.mem_iff.mpr (mem_linkedStarts.mpr ⟨r, hr, hl, rfl⟩), h.record?_eq hr⟩

/-- The linked records stand in the sending order by their starts. -/
theorem ordered_starts (h : b.Coherent) : b.ordered.map (·.start) = b.order := by
  unfold ordered
  rw [List.map_filterMap]
  refine (List.filterMap_congr fun s hs => ?_).trans List.filterMap_some
  obtain ⟨r, -, -, hstart, hfound⟩ := h.record?_of_mem_order hs
  rw [hfound, Option.map_some, hstart]

theorem mem_records_of_ordered (h : b.Coherent) (hr : r ∈ b.ordered) : r ∈ b.records :=
  (h.mem_ordered.mp hr).1

/-- Records are found again by their starts. -/
theorem filterMap_record? (h : b.Coherent) {rs : List SendRecord} (hrs : ∀ r ∈ rs, r ∈ b.records) :
    (rs.map (·.start)).filterMap b.record? = rs := by
  rw [List.filterMap_map]
  exact (List.filterMap_congr fun r hr => h.record?_eq (hrs r hr)).trans List.filterMap_some

/-- The linked records are those whose starts the sending order lists. -/
theorem ordered_eq (h : b.Coherent) {rs : List SendRecord} (hrs : ∀ r ∈ rs, r ∈ b.records)
    (horder : b.order = rs.map (·.start)) : b.ordered = rs := by
  unfold ordered
  rw [horder]
  exact h.filterMap_record? hrs

/-- The sending order after dividing records lists the linked parts in the place of each of them. -/
theorem order_refine_eq (h : b.Coherent) (f : SendRecord → List SendRecord) :
    (b.refine f).order = b.ordered.flatMap fun r => ((f r).filter (·.linked)).map (·.start) := by
  show b.order.flatMap _ = _
  rw [← h.ordered_starts, List.flatMap_map]
  refine List.flatMap_congr fun r hr => ?_
  rw [h.record?_eq (h.mem_records_of_ordered hr)]

/-- The linked parts of a record take its place. -/
theorem ordered_refine (h : b.Coherent) {f : SendRecord → List SendRecord}
    (h' : (b.refine f).Coherent) :
    (b.refine f).ordered = b.ordered.flatMap fun r => (f r).filter (·.linked) := by
  apply h'.ordered_eq
  · intro p hp
    obtain ⟨r, hr, hpr⟩ := List.mem_flatMap.mp hp
    exact List.mem_flatMap.mpr ⟨r, h.mem_records_of_ordered hr, (List.mem_filter.mp hpr).1⟩
  · rw [h.order_refine_eq, List.map_flatMap]

end Coherent

/-! ## The audit -/

theorem tilingEnd_eq_ok {lo hi : Nat} {rs : List SendRecord} (h : Tiles lo rs hi) :
    tilingEnd lo rs = .ok hi := by
  induction rs generalizing lo with
  | nil => exact congrArg Except.ok (show lo = hi from h)
  | cons r rest ih =>
    obtain ⟨hs, hne, ht⟩ := h
    have hok : ¬ (r.start ≠ lo ∨ r.isEmpty = true) := by
      simp only [SendRecord.isEmpty, decide_eq_true_eq]
      omega
    unfold tilingEnd
    rw [if_neg hok]
    exact ih ht

/-- Linked records with different starts, none of them met before, pass. -/
theorem firstMisordered_eq_none {seen : List Nat} {rs : List SendRecord}
    (hl : ∀ r ∈ rs, r.linked = true) (hs : ∀ r ∈ rs, r.start ∉ seen)
    (hn : (rs.map (·.start)).Nodup) : firstMisordered seen rs = none := by
  induction rs generalizing seen with
  | nil => rfl
  | cons r rest ih =>
    obtain ⟨hfirst, hrest⟩ := List.nodup_cons.mp hn
    have hpass : ¬ (!r.linked || seen.contains r.start) = true := by
      simp [hl r List.mem_cons_self, hs r List.mem_cons_self]
    unfold firstMisordered
    rw [if_neg hpass]
    refine ih (fun q hq => hl q (List.mem_cons_of_mem _ hq)) (fun q hq hmem => ?_) hrest
    rcases List.mem_cons.mp hmem with hmem | hmem
    · exact hfirst (List.mem_map.mpr ⟨q, hq, hmem⟩)
    · exact hs q (List.mem_cons_of_mem _ hq) hmem

namespace Coherent

theorem length_ordered (h : b.Coherent) :
    b.ordered.length = b.order.length ∧ b.order.length = b.records.countP (·.linked) := by
  constructor
  · have := congrArg List.length h.ordered_starts
    rwa [List.length_map] at this
  · rw [h.order.length_eq, linkedStarts, List.length_map, List.countP_eq_length_filter]

theorem auditTiling (h : b.Coherent) : b.auditTiling = .ok () := by
  unfold Scoreboard.auditTiling
  rw [tilingEnd_eq_ok h.tiles]
  exact if_neg (fun hne => hne rfl)

theorem auditOrder (h : b.Coherent) : b.auditOrder = .ok () := by
  obtain ⟨hwalked, hlinked⟩ := h.length_ordered
  have hpass : firstMisordered [] b.ordered = none :=
    firstMisordered_eq_none (fun r hr => (h.mem_ordered.mp hr).2) (fun _ _ => List.not_mem_nil)
      (by rw [h.ordered_starts]; exact h.nodup_order)
  unfold Scoreboard.auditOrder
  rw [hpass]
  exact if_neg (by rw [hwalked, hlinked]; simp)

/-- A coherent scoreboard passes its audit. -/
theorem audit (h : b.Coherent) : b.audit = .ok () := by
  unfold Scoreboard.audit
  rw [h.auditTiling]
  exact h.auditOrder

end Coherent

end Scoreboard

end LossRecovery
