import Mathlib.Data.List.Nodup
import LossRecovery.Proofs.AckAccounts

/-!
# `LossRecovery.Proofs.RecordCuts` — records divided by single cuts

Where a range is carved out of the missing records, all of them are divided in one step here. Where
records are divided one at a time, each of them is cut below the range if it begins there and above it
if it ends there, and each of these cuts may be refused at the record limit. What a single cut does is
told by the parts it puts in the place of the record, so that the cuts of a walk over many records add
up to the one step.

## Contents
- `granted`: a result for which there has to be room; `granted_bind`: two of them, one after the other.
- `divide`: parts in the place of one record; `Coherent.divide`, `size_divide`, `divide_divide`.
- `Coherent.splitIf_eq`, `divide_carve`: the cuts of one record leave the parts carved out of it.
- `carvedParts`: these parts with a change inside; `coherent_carvedParts`, `divide_carvedParts`: made
  where the part stands.
- `Coherent.modifyAt_unlink`, `modifyAt_relink`: a change of one record that leaves or joins the order;
  `unlink_carve`, `relink_carve`: of the part that was carved out.
- `divideAll`: parts in the places of many records; `Coherent.divideAll_cons_of_missing`: one after
  another; `divideAll_overlapping`: all those of a range.
- `cutsOf_overlapping`, `size_carveMissing`: the cuts of a range, and its new records, are those reckoned.
-/

namespace LossRecovery

/-! ## Room for records -/

/-- A result that takes `more` records beside the `size` there are, refused if that would go beyond
the limit. -/
def granted {α : Type} (limit size more : Nat) (a : α) : Except Error α :=
  if more = 0 ∨ size + more ≤ limit then .ok a else .error .exhausted

/-- What is made of a granted result is granted. -/
theorem granted_map {α β : Type} {limit size more : Nat} {a : α} (g : α → β) :
    (granted limit size more a >>= fun a => .ok (g a)) = granted limit size more (g a) := by
  unfold granted
  split <;> rfl

/-- Two steps that ask for room one after the other are granted if there is room for both. -/
theorem granted_bind {α β : Type} {limit size more further : Nat} {a : α} {c : β}
    {f : α → Except Error β} (hf : f a = granted limit (size + more) further c) :
    (granted limit size more a >>= f) = granted limit size (more + further) c := by
  unfold granted at hf ⊢
  by_cases hroom : more = 0 ∨ size + more ≤ limit
  · rw [if_pos hroom]
    show f a = _
    rw [hf]
    by_cases hroom' : further = 0 ∨ size + more + further ≤ limit
    · rw [if_pos hroom', if_pos (by omega)]
    · rw [if_neg hroom', if_neg (by omega)]
  · rw [if_neg hroom, if_neg (by omega)]
    rfl

/-! ## Parts of a record -/

namespace SendRecord

variable {r : SendRecord} {reaches : Bool} {point : Nat}

/-- The parts of a record that is cut at `point` if it `reaches` over it. -/
def cutParts (r : SendRecord) (reaches : Bool) (point : Nat) : List SendRecord :=
  if reaches then [(r.cut point).1, (r.cut point).2] else [r]

theorem length_cutParts : (r.cutParts reaches point).length = 1 + reaches.toNat := by
  cases reaches <;> rfl

theorem tiles_cutParts (hne : r.start < r.stop) (hs : reaches = true → r.straddles point = true) :
    Tiles r.start (r.cutParts reaches point) r.stop := by
  cases reaches with
  | false => exact Tiles.singleton hne
  | true =>
    obtain ⟨hlo, hhi⟩ := straddles_iff.mp (hs rfl)
    exact ⟨rfl, hlo, rfl, hhi, rfl⟩

theorem isPart_of_mem_cutParts (hs : reaches = true → r.straddles point = true) {q : SendRecord}
    (hq : q ∈ r.cutParts reaches point) : q.IsPart r := by
  cases reaches with
  | false =>
    rw [List.mem_singleton.mp hq]
    exact .refl r
  | true =>
    obtain ⟨hlo, hhi⟩ := straddles_iff.mp (hs rfl)
    rcases List.mem_pair.mp hq with rfl | rfl
    · exact isPart_cut_lower (Nat.le_of_lt hhi)
    · exact isPart_cut_upper (Nat.le_of_lt hlo)

/-- What is left of a record after what lies below `x` was cut off. -/
def lowered (x : SeqRange) (r : SendRecord) : SendRecord :=
  if r.start < x.start then (r.cut x.start).2 else r

variable {x : SeqRange}

theorem lowered_start : (r.lowered x).start = max r.start x.start := by
  unfold lowered
  split
  · exact (Nat.max_eq_right (Nat.le_of_lt ‹_›)).symm
  · exact (Nat.max_eq_left (Nat.le_of_not_lt ‹_›)).symm

theorem lowered_stop : (r.lowered x).stop = r.stop := by
  unfold lowered
  split <;> rfl

theorem mem_lowered : r.lowered x ∈ r.cutParts (r.start < x.start) x.start := by
  unfold lowered cutParts
  by_cases h : r.start < x.start <;> simp [h]

theorem carve_cuts : (r.carve x).cuts
    = (decide (r.start < x.start)).toNat + (decide (x.stop < r.stop)).toNat := by
  unfold carve Carved.cuts
  by_cases h1 : r.start < x.start <;> by_cases h2 : x.stop < r.stop <;> simp [h1, h2]

variable (hne : r.start < r.stop) (hx : x.start < x.stop) (ho : r.overlaps x = true)

include hne hx ho

theorem straddles_start (hlo : decide (r.start < x.start) = true) : r.straddles x.start = true :=
  straddles_iff.mpr ⟨of_decide_eq_true hlo, ((overlaps_iff hne hx).mp ho).2⟩

theorem lowered_straddles (hhi : decide (x.stop < r.stop) = true) :
    (r.lowered x).straddles x.stop = true := by
  have hov := (overlaps_iff hne hx).mp ho
  have hhi := of_decide_eq_true hhi
  rw [straddles_iff, lowered_start, lowered_stop]
  omega

omit hne hx ho

theorem middle_mem_parts : (r.carve x).middle ∈ (r.carve x).parts :=
  Carved.mem_parts.mpr (.inr (.inl rfl))

theorem Carved.length_parts {c : Carved} : c.parts.length = c.cuts + 1 := by
  simp only [Carved.parts, Carved.cuts, List.length_append, List.length_cons]
  omega

/-- The parts of a record carved around `x`, after a change of the one inside. -/
def carvedParts (f : SendRecord → SendRecord) (x : SeqRange) (r : SendRecord) : List SendRecord :=
  { r.carve x with middle := f (r.carve x).middle }.parts

end SendRecord

namespace Scoreboard

variable {b : Scoreboard} {p r : SendRecord} {x : SeqRange} {parts : List SendRecord} {now : Nat}
  {f : SendRecord → SendRecord}

/-! ## Parts in the place of a record -/

/-- Put parts in the place of the record that starts at `start`. -/
def divide (b : Scoreboard) (start : Nat) (parts : List SendRecord) : Scoreboard :=
  b.refine fun q => if q.start = start then parts else [q]

/-- Move a linked record to the end of the sending order. -/
def moved (b : Scoreboard) (start : Nat) : Scoreboard :=
  { b with order := b.order.filter (· != start) ++ [start] }

theorem mem_divide {q : SendRecord} (hr : r ∈ b.records) (hq : q ∈ parts) :
    q ∈ (b.divide r.start parts).records :=
  List.mem_flatMap.mpr ⟨r, hr, by rwa [if_pos rfl]⟩

/-- Divide the record that starts at `start` at `point` if it `reaches` over it. -/
def splitIf (b : Scoreboard) (reaches : Bool) (start point : Nat) : Except Error Scoreboard :=
  if reaches then b.split start point else .ok b

namespace Coherent

theorem refine_congr (h : b.Coherent) {f g : SendRecord → List SendRecord}
    (hfg : ∀ r ∈ b.records, f r = g r) : b.refine f = b.refine g := by
  have horder : (b.refine f).order = (b.refine g).order := by
    rw [h.order_refine_eq, h.order_refine_eq]
    exact List.flatMap_congr fun r hr => by rw [hfg r (h.mem_records_of_ordered hr)]
  exact congrArg₂ (fun records order => { b with records := records, order := order })
    (List.flatMap_congr hfg) horder

/-- Dividing twice divides into the parts of the parts. -/
theorem refine_refine (h : b.Coherent) {f g : SendRecord → List SendRecord}
    (h' : (b.refine f).Coherent)
    (hg : ∀ p ∈ (b.refine f).records, p.linked = false → ∀ q ∈ g p, q.linked = false) :
    (b.refine f).refine g = b.refine fun r => (f r).flatMap g := by
  have horder : ((b.refine f).refine g).order = (b.refine fun r => (f r).flatMap g).order := by
    rw [h'.order_refine_eq, h.ordered_refine h', h.order_refine_eq, List.flatMap_assoc]
    refine List.flatMap_congr fun r hr => ?_
    rw [List.filter_flatMap, List.map_flatMap]
    refine flatMap_filter_linked fun p hp hl => ?_
    have hmem : p ∈ (b.refine f).records :=
      List.mem_flatMap.mpr ⟨r, h.mem_records_of_ordered hr, hp⟩
    rw [List.filter_eq_nil_iff.mpr fun q hq => by
      rw [hg p hmem hl q hq]
      exact Bool.false_ne_true]
    rfl
  exact congrArg₂ (fun records order => { b with records := records, order := order })
    List.flatMap_assoc horder

/-- Records that are replaced by single ones where they stand. -/
theorem refine_map (h : b.Coherent) {f : SendRecord → SendRecord}
    (hf : ∀ r ∈ b.records, (f r).start = r.start ∧ (f r).linked = r.linked) :
    b.refine (fun r => [f r]) = b.modify f := by
  have horder : (b.refine fun r => [f r]).order = b.order := by
    rw [h.order_refine_eq, ← h.ordered_starts, List.map_eq_flatMap]
    refine List.flatMap_congr fun r hr => ?_
    obtain ⟨hmem, hl⟩ := h.mem_ordered.mp hr
    obtain ⟨hs, hkept⟩ := hf r hmem
    simp [hs, hkept.trans hl]
  exact congrArg₂ (fun records order => { b with records := records, order := order })
    List.map_eq_flatMap.symm horder

/-- Nothing is divided where every record stands for itself. -/
theorem refine_singleton (h : b.Coherent) : b.refine (fun r => [r]) = b := by
  refine (h.refine_map (f := id) fun r _ => ⟨rfl, rfl⟩).trans ?_
  unfold Scoreboard.modify
  rw [List.map_id]

variable (h : b.Coherent) (hr : r ∈ b.records)

include h hr

theorem eq_of_start (hp : p ∈ b.records) (hs : p.start = r.start) : p = r :=
  h.tiles.eq_of_start hp hr hs

theorem divide_self : b.divide r.start [r] = b := by
  refine (h.refine_congr fun q hq => ?_).trans h.refine_singleton
  split
  · next hs => rw [h.eq_of_start hr hq hs]
  · rfl

/-- Parts that tile a record, keep its marks in agreement, and are linked only if it was. -/
theorem divide (ht : Tiles r.start parts r.stop)
    (hl : r.linked = false → ∀ q ∈ parts, q.linked = false) (hc : ∀ q ∈ parts, q.Coherent) :
    (b.divide r.start parts).Coherent := by
  refine h.refine ?_ ?_ ?_
  · intro q hq
    split
    · next hs => rwa [h.eq_of_start hr hq hs]
    · exact Tiles.singleton (h.tiles.bounds hq).2.1
  · intro q hq hlink
    split
    · next hs => exact hl (h.eq_of_start hr hq hs ▸ hlink)
    · intro p hp
      rwa [List.mem_singleton.mp hp]
  · intro q hq
    split
    · exact hc
    · intro p hp
      rw [List.mem_singleton.mp hp]
      exact h.records q hq

theorem size_divide (parts : List SendRecord) :
    (b.divide r.start parts).size + 1 = b.size + parts.length := by
  -- Only one record starts there, and every other one stays.
  have hwalk : ∀ {lo hi : Nat} {rs : List SendRecord}, Tiles lo rs hi → r ∈ rs →
      (rs.flatMap fun q => if q.start = r.start then parts else [q]).length + 1
        = rs.length + parts.length := by
    intro lo hi rs ht hmem
    obtain ⟨below, above, rfl⟩ := List.append_of_mem hmem
    have hothers : ∀ l : List SendRecord, (∀ q ∈ l, q.start ≠ r.start) →
        l.flatMap (fun q => if q.start = r.start then parts else [q]) = l := by
      intro l hl
      rw [List.flatMap_congr (g := fun q => [q]) fun q hq => if_neg (hl q hq)]
      exact List.flatMap_singleton' l
    have hdistinct := ht.nodup_starts
    rw [List.map_append, List.map_cons, List.nodup_middle, List.nodup_cons, List.mem_append]
      at hdistinct
    rw [List.flatMap_append, List.flatMap_cons, if_pos rfl, hothers below, hothers above]
    · simp only [List.length_append, List.length_cons]
      omega
    · exact fun q hq hs => hdistinct.1 (.inr (List.mem_map.mpr ⟨q, hq, hs⟩))
    · exact fun q hq hs => hdistinct.1 (.inl (List.mem_map.mpr ⟨q, hq, hs⟩))
  exact hwalk h.tiles hr

/-- A part is divided where it stands. -/
theorem divide_divide {more : List SendRecord} {start : Nat} (h' : (b.divide r.start parts).Coherent)
    (hin : r.contains start = true)
    (hl : ∀ q ∈ parts, q.start = start → q.linked = false → ∀ p ∈ more, p.linked = false) :
    (b.divide r.start parts).divide start more
      = b.divide r.start (parts.flatMap fun q => if q.start = start then more else [q]) := by
  have alone : ∀ q ∈ b.records, q.start = start → q = r := by
    intro q hq hs
    refine h.tiles.eq_of_contains hq hr (SendRecord.contains_iff.mpr ?_) hin
    have := (h.tiles.bounds hq).2.1
    omega
  unfold Scoreboard.divide at h' ⊢
  rw [h.refine_refine h']
  · refine h.refine_congr fun q hq => ?_
    by_cases hs : q.start = r.start
    · rw [if_pos hs, if_pos hs]
    · rw [if_neg hs, if_neg hs, List.flatMap_singleton, if_neg]
      exact fun hq' => hs (congrArg SendRecord.start (alone q hq hq'))
  · intro p hp hlink
    obtain ⟨q, hq, hpq⟩ := List.mem_flatMap.mp hp
    split
    · next hs =>
      split at hpq
      · exact hl p hpq hs hlink
      · next hne =>
        rw [List.mem_singleton.mp hpq] at hs
        exact absurd (congrArg SendRecord.start (alone q hq hs)) hne
    · intro s hs
      rwa [List.mem_singleton.mp hs]

/-- A single cut is granted if there is room for a record. -/
theorem split_eq {point : Nat} (hs : r.straddles point = true) :
    b.split r.start point
      = granted b.limit b.size 1 (b.divide r.start [(r.cut point).1, (r.cut point).2]) := by
  have hsame : (b.refine fun q => if q.start = r.start then [(q.cut point).1, (q.cut point).2]
      else [q]) = b.divide r.start [(r.cut point).1, (r.cut point).2] :=
    h.refine_congr fun q hq => by
      split
      · next hs => rw [h.eq_of_start hr hq hs]
      · rfl
  unfold split granted
  rw [h.record?_eq hr]
  dsimp only
  rw [hs, Bool.not_true, if_neg Bool.false_ne_true, hsame]
  by_cases hroom : b.limit ≤ b.size
  · rw [if_pos hroom, if_neg (by omega)]
  · rw [if_neg hroom, if_pos (by omega)]

/-- Cutting a record if it reaches over a point. -/
theorem splitIf_eq {reaches : Bool} {point : Nat} (hs : reaches = true → r.straddles point = true) :
    b.splitIf reaches r.start point
      = granted b.limit b.size reaches.toNat (b.divide r.start (r.cutParts reaches point)) := by
  cases reaches with
  | false =>
    show Except.ok b = .ok (b.divide r.start [r])
    rw [h.divide_self hr]
  | true => exact h.split_eq hr (hs rfl)

theorem divide_cutParts {reaches : Bool} {point : Nat}
    (hs : reaches = true → r.straddles point = true) :
    (b.divide r.start (r.cutParts reaches point)).Coherent ∧
    (b.divide r.start (r.cutParts reaches point)).size = b.size + reaches.toNat := by
  have part := fun {q} hq => SendRecord.isPart_of_mem_cutParts (q := q) hs hq
  constructor
  · exact h.divide hr (SendRecord.tiles_cutParts (h.tiles.bounds hr).2.1 hs)
      (fun hl q hq => (part hq).linked.trans hl) fun q hq => (h.records r hr).of_isPart (part hq)
  · have hsize := h.size_divide hr (r.cutParts reaches point)
    rw [SendRecord.length_cutParts] at hsize
    omega

theorem linked_of_missing (hm : r.isDelivered = false) : r.linked = true := by
  rw [(h.records r hr).linked, ← (h.records r hr).isDelivered, hm]
  rfl

/-- The cuts below and above a range leave the parts of a record carved around it. -/
theorem divide_carve (hx : x.start < x.stop) (ho : r.overlaps x = true) :
    (b.divide r.start (r.cutParts (r.start < x.start) x.start)).divide (r.lowered x).start
        ((r.lowered x).cutParts (x.stop < r.stop) x.stop)
      = b.divide r.start (r.carve x).parts := by
  have hne := (h.tiles.bounds hr).2.1
  have hov := (SendRecord.overlaps_iff hne hx).mp ho
  obtain ⟨h1, -⟩ := h.divide_cutParts hr (SendRecord.straddles_start hne hx ho)
  have hlowered := mem_divide hr (SendRecord.mem_lowered (r := r) (x := x))
  have hin : r.contains (r.lowered x).start = true := by
    rw [SendRecord.contains_iff, SendRecord.lowered_start]
    omega
  rw [h.divide_divide hr h1 hin]
  · congr 1
    unfold SendRecord.cutParts SendRecord.lowered SendRecord.carve SendRecord.Carved.parts
    by_cases hlo : r.start < x.start <;> by_cases hhi : x.stop < r.stop <;>
      simp [hlo, hhi, SendRecord.cut, Nat.ne_of_lt]
  · intro q hq hs hl p hp
    rw [h1.eq_of_start hlowered (mem_divide hr hq) hs] at hl
    exact (SendRecord.isPart_of_mem_cutParts (SendRecord.lowered_straddles hne hx ho) hp).linked.trans hl

/-- The parts of a linked record carved around a range, after a change inside that moves no end. -/
theorem coherent_carvedParts (hs : ∀ q, (f q).start = q.start) (he : ∀ q, (f q).stop = q.stop)
    (hx : x.start < x.stop) (ho : r.overlaps x = true) (hl : r.linked = true)
    (hc : (f (r.carve x).middle).Coherent) :
    (b.divide r.start (r.carvedParts f x)).Coherent ∧
    (b.divide r.start (r.carvedParts f x)).size = b.size + (r.carve x).cuts := by
  have hne := (h.tiles.bounds hr).2.1
  constructor
  · refine h.divide hr (SendRecord.tiles_carve hne hx ho hs he) ?_ ?_
    · intro hunlinked
      rw [hl] at hunlinked
      cases hunlinked
    · intro q hq
      rcases SendRecord.isPart_of_mem_carved hne hx ho hq with rfl | hpart
      · exact hc
      · exact (h.records r hr).of_isPart hpart
  · have hsize := h.size_divide hr (r.carvedParts f x)
    rw [show (r.carvedParts f x).length = (r.carve x).cuts + 1 from
      SendRecord.Carved.length_parts] at hsize
    omega

/-- The part inside of a range is changed where it stands. -/
theorem divide_carvedParts (hx : x.start < x.stop) (ho : r.overlaps x = true)
    (hl : r.linked = true) (h1 : (b.divide r.start (r.carve x).parts).Coherent) :
    (b.divide r.start (r.carve x).parts).divide (r.carve x).middle.start [f (r.carve x).middle]
      = b.divide r.start (r.carvedParts f x) := by
  have hne := (h.tiles.bounds hr).2.1
  have hov := (SendRecord.overlaps_iff hne hx).mp ho
  have hin : r.contains (r.carve x).middle.start = true := by
    rw [SendRecord.contains_iff, SendRecord.carve_middle_start]
    omega
  rw [h.divide_divide hr h1 hin]
  · congr 1
    unfold SendRecord.carvedParts SendRecord.carve SendRecord.Carved.parts
    by_cases hlo : r.start < x.start <;> by_cases hhi : x.stop < r.stop <;>
      simp [hlo, hhi, SendRecord.cut, Nat.ne_of_lt, Nat.ne_of_gt, hx, hov.1]
  · -- Every part of the record is linked.
    intro q hq _ hunlinked
    rw [(SendRecord.isPart_carve hne hx ho hq).linked, hl] at hunlinked
    cases hunlinked

omit hr in
/-- What is put in the place of a record keeps its place in the sending order, if it is linked. -/
theorem order_divide_singleton {p : SendRecord} (hp : p.start = r.start) :
    (b.divide r.start [p]).order
      = if p.linked then b.order else b.order.filter (· != r.start) := by
  have hwalk : ∀ rs : List SendRecord, (∀ q ∈ rs, q.linked = true) →
      rs.flatMap (fun q => ((if q.start = r.start then [p] else [q]).filter (·.linked)).map (·.start))
        = if p.linked then rs.map (·.start) else (rs.map (·.start)).filter (· != r.start) := by
    intro rs hl
    induction rs with
    | nil => simp
    | cons q rest ih =>
      rw [List.flatMap_cons, ih fun a ha => hl a (List.mem_cons_of_mem _ ha)]
      by_cases hs : q.start = r.start <;> cases hlink : p.linked <;>
        simp [hs, hp, hlink, hl q List.mem_cons_self]
  unfold Scoreboard.divide
  rw [h.order_refine_eq, hwalk _ fun q hq => (h.mem_ordered.mp hq).2, h.ordered_starts]

/-- A change of one record puts the changed one in its place. -/
theorem records_modifyAt_linked {linked : Bool} (hs : (f r).start = r.start)
    (hl : (f r).linked = linked) :
    ((b.modifyAt r.start f).modifyAt r.start fun q => { q with linked := linked }).records
      = (b.divide r.start [f r]).records := by
  show (b.records.map _).map _ = b.records.flatMap _
  rw [List.map_map, List.map_eq_flatMap]
  refine List.flatMap_congr fun q hq => ?_
  by_cases hq' : q.start = r.start
  · rw [Function.comp_apply, if_pos hq', h.eq_of_start hr hq hq', if_pos hs, if_pos rfl, ← hl]
  · rw [Function.comp_apply, if_neg hq', if_neg hq', if_neg hq']

/-- A record that is changed and taken out of the sending order. -/
theorem modifyAt_unlink (hs : (f r).start = r.start) (hl : (f r).linked = false) :
    (b.modifyAt r.start f).unlink r.start = b.divide r.start [f r] := by
  have horder : ((b.modifyAt r.start f).unlink r.start).order = (b.divide r.start [f r]).order := by
    rw [h.order_divide_singleton hs, hl]
    rfl
  exact congrArg₂ (fun records order => { b with records := records, order := order })
    (h.records_modifyAt_linked hr hs hl) horder

/-- A record that is changed and moved to the end of the sending order. -/
theorem modifyAt_relink (hs : (f r).start = r.start) (hl : (f r).linked = true) :
    (b.modifyAt r.start f).relink r.start = (b.divide r.start [f r]).moved r.start := by
  have horder : ((b.modifyAt r.start f).relink r.start).order
      = ((b.divide r.start [f r]).moved r.start).order := by
    show b.order.filter _ ++ _ = (b.divide r.start [f r]).order.filter _ ++ _
    rw [h.order_divide_singleton hs, hl, if_pos rfl]
  exact congrArg₂ (fun records order => { b with records := records, order := order })
    (h.records_modifyAt_linked hr hs hl) horder

section Carved

variable (hx : x.start < x.stop) (ho : r.overlaps x = true) (hl : r.linked = true)

include hx ho hl

theorem coherent_carve : (b.divide r.start (r.carve x).parts).Coherent :=
  (h.coherent_carvedParts (f := id) hr (fun _ => rfl) (fun _ => rfl) hx ho hl
    ((h.records r hr).of_isPart
      (SendRecord.isPart_carve_middle (h.tiles.bounds hr).2.1 hx ho))).1

/-- After the cuts, the part inside of a range is found by its start. -/
theorem record?_carve :
    (b.divide r.start (r.carve x).parts).record? (max r.start x.start) = some (r.carve x).middle := by
  rw [← SendRecord.carve_middle_start]
  exact (h.coherent_carve hr hx ho hl).record?_eq (mem_divide hr SendRecord.middle_mem_parts)

/-- After the cuts, the part inside is changed and taken out of the sending order. -/
theorem unlink_carve (hs : (f (r.carve x).middle).start = (r.carve x).middle.start)
    (hf : (f (r.carve x).middle).linked = false) :
    ((b.divide r.start (r.carve x).parts).modifyAt (max r.start x.start) f).unlink
        (max r.start x.start)
      = b.divide r.start (r.carvedParts f x) := by
  have h1 := h.coherent_carve hr hx ho hl
  rw [← SendRecord.carve_middle_start,
    h1.modifyAt_unlink (mem_divide hr SendRecord.middle_mem_parts) hs hf,
    h.divide_carvedParts hr hx ho hl h1]

/-- After the cuts, the part inside is changed and moved to the end of the sending order. -/
theorem relink_carve (hs : (f (r.carve x).middle).start = (r.carve x).middle.start)
    (hf : (f (r.carve x).middle).linked = true) :
    ((b.divide r.start (r.carve x).parts).modifyAt (max r.start x.start) f).relink
        (max r.start x.start)
      = (b.divide r.start (r.carvedParts f x)).moved (r.carve x).middle.start := by
  have h1 := h.coherent_carve hr hx ho hl
  rw [← SendRecord.carve_middle_start,
    h1.modifyAt_relink (mem_divide hr SendRecord.middle_mem_parts) hs hf,
    h.divide_carvedParts hr hx ho hl h1]

end Carved

end Coherent

/-! ## Many records -/

/-- How many cuts it takes to carve `x` out of the missing ones among records, each of them on its own. -/
def cutsOf (x : SeqRange) (rs : List SendRecord) : Nat :=
  Number.total ((rs.filter fun r => !r.isDelivered).map fun r => (r.carve x).cuts)

variable {rest : List SendRecord}

theorem cutsOf_cons_of_delivered (hd : r.isDelivered = true) :
    cutsOf x (r :: rest) = cutsOf x rest := by
  simp [cutsOf, hd]

theorem cutsOf_cons_of_missing (hd : r.isDelivered = false) :
    cutsOf x (r :: rest) = (r.carve x).cuts + cutsOf x rest := by
  simp [cutsOf, hd]

/-- Put parts in the place of each missing one among records. -/
def divideAll (b : Scoreboard) (P : SendRecord → List SendRecord) (todo : List SendRecord) :
    Scoreboard :=
  b.refine fun q => if q ∈ todo ∧ q.isDelivered = false then P q else [q]

namespace Coherent

variable {P : SendRecord → List SendRecord}

theorem divideAll_nil (h : b.Coherent) : b.divideAll P [] = b :=
  (h.refine_congr fun _ _ => if_neg fun hq => List.not_mem_nil hq.1).trans h.refine_singleton

theorem divideAll_cons_of_delivered (h : b.Coherent) (hd : r.isDelivered = true) :
    b.divideAll P (r :: rest) = b.divideAll P rest := by
  refine h.refine_congr fun q _ => ?_
  by_cases hq : q = r
  · rw [if_neg, if_neg] <;> simp [hq, hd]
  · simp [hq]

/-- A record stays where another one is divided. -/
theorem mem_divide_of_ne (h : b.Coherent) (hr : r ∈ b.records) {q : SendRecord} (hq : q ∈ b.records)
    (hne : q ≠ r) : q ∈ (b.divide r.start parts).records := by
  refine List.mem_flatMap.mpr ⟨q, hq, ?_⟩
  rw [if_neg fun hs => hne (h.eq_of_start hr hq hs)]
  exact List.mem_singleton_self q

/-- After one record was divided, the others are divided where they stand. -/
theorem divideAll_cons_of_missing (h : b.Coherent) (hr : r ∈ b.records) (hd : r.isDelivered = false)
    (ht : Tiles r.start (P r) r.stop) (h1 : (b.divide r.start (P r)).Coherent)
    (hrest : ∀ q ∈ rest, q ∈ b.records) (hfresh : r ∉ rest) :
    b.divideAll P (r :: rest) = (b.divide r.start (P r)).divideAll P rest := by
  unfold divideAll Scoreboard.divide at *
  rw [h.refine_refine h1]
  · refine (h.refine_congr fun q hq => ?_).symm
    by_cases hs : q.start = r.start
    · -- No part of the record is one of the others, which share no byte with it.
      rw [if_pos hs, h.eq_of_start hr hq hs, if_pos ⟨List.mem_cons_self, hd⟩]
      rw [List.flatMap_congr (g := fun p => [p]) fun p hp => if_neg fun hin => hfresh ?_]
      · exact List.flatMap_singleton' _
      · have hb := ht.bounds hp
        have hsame : p = r := h.tiles.eq_of_contains (hrest p hin.1) hr
          (SendRecord.contains_iff.mpr ⟨Nat.le_refl p.start, hb.2.1⟩)
          (SendRecord.contains_iff.mpr (by omega))
        exact hsame ▸ hin.1
    · rw [if_neg hs, List.flatMap_singleton]
      have hqr : q ≠ r := fun he => hs (congrArg SendRecord.start he)
      simp [hqr]
  · -- A missing record is linked.
    intro p _ hl
    split
    · next hin =>
      rw [h.linked_of_missing (hrest p hin.1) hin.2] at hl
      cases hl
    · intro q hq
      rwa [List.mem_singleton.mp hq]

/-- Carving is to divide all records of a range. -/
theorem divideAll_overlapping (h : b.Coherent) (hx : x.start < x.stop) :
    b.divideAll (SendRecord.carvedParts f x) (b.overlapping x) = b.carveMissing x f := by
  refine h.refine_congr fun r hr => ?_
  simp [mem_overlapping hx, hr, SendRecord.carvedParts]

theorem nodup_overlapping (h : b.Coherent) (x : SeqRange) : (b.overlapping x).Nodup :=
  (List.Nodup.of_map (·.start) h.tiles.nodup_starts).sublist (b.overlapping_sublist x)

end Coherent

/-! ## The cuts of a range -/

/-- If at most the first of a list is counted, it is all that needs to be looked at. -/
theorem total_toNat_head {α : Type} {q : α → Bool} {l : List α}
    (h : l.Pairwise fun _ a => q a = false) :
    Number.total (l.map fun a => (q a).toNat) = (l.head?.any q).toNat := by
  cases l with
  | nil => rfl
  | cons a rest =>
    have hnone : Number.total (rest.map fun a => (q a).toNat) = 0 := by
      refine Number.total_eq_zero_iff.mpr fun n hn => ?_
      obtain ⟨c, hc, rfl⟩ := List.mem_map.mp hn
      rw [(List.pairwise_cons.mp h).1 c hc]
      rfl
    rw [List.map_cons, Number.total_cons, hnone]
    rfl

/-- If at most the last of a list is counted, it is all that needs to be looked at. -/
theorem total_toNat_last {α : Type} {q : α → Bool} {l : List α}
    (h : l.Pairwise fun a _ => q a = false) :
    Number.total (l.map fun a => (q a).toNat) = (l.getLast?.any q).toNat := by
  induction l with
  | nil => rfl
  | cons a rest ih =>
    obtain ⟨ha, hrest⟩ := List.pairwise_cons.mp h
    cases rest with
    | nil => rfl
    | cons c rest =>
      rw [List.map_cons, Number.total_cons, ih hrest, ha c List.mem_cons_self,
        List.getLast?_cons_cons]
      exact Nat.zero_add _

namespace Coherent

variable (h : b.Coherent) (hx : x.start < x.stop)

include h hx

/-- Only the lowest record of a range may begin below it, and only the highest one may end above it,
so that the cuts reckoned for these two are all there are. -/
theorem cutsOf_overlapping : cutsOf x (b.overlapping x) = b.cutsNeeded x := by
  have hbounds := fun r hr => h.meets_of_overlapping (r := r) hx hr
  have hlow : (b.overlapping x).Pairwise fun _ r => (!r.isDelivered && r.straddles x.start) = false :=
    (h.straddles_start_above hx).imp fun hnot => by rw [hnot, Bool.and_false]
  have hhigh : (b.overlapping x).Pairwise fun l _ => (!l.isDelivered && l.straddles x.stop) = false :=
    (h.straddles_stop_below hx).imp fun hnot => by rw [hnot, Bool.and_false]
  unfold cutsNeeded
  dsimp only
  generalize b.overlapping x = rs at hbounds hlow hhigh ⊢
  have hsum : cutsOf x rs = Number.total (rs.map fun r => (!r.isDelivered && r.straddles x.start).toNat
      + (!r.isDelivered && r.straddles x.stop).toNat) := by
    clear hlow hhigh
    induction rs with
    | nil => rfl
    | cons r rest ih =>
      have hrest := ih fun q hq => hbounds q (List.mem_cons_of_mem _ hq)
      have hr := hbounds r List.mem_cons_self
      rw [List.map_cons, Number.total_cons, ← hrest]
      cases hd : r.isDelivered with
      | true => simp [cutsOf_cons_of_delivered hd]
      | false =>
        simp [cutsOf_cons_of_missing hd, SendRecord.carve_cuts, SendRecord.straddles, hr.1, hr.2]
  rw [hsum, Number.total_map_add, total_toNat_head hlow, total_toNat_last hhigh]

/-- Carving makes as many new records as there are cuts. -/
theorem size_carveMissing (f : SendRecord → SendRecord) :
    (b.carveMissing x f).size = b.size + b.cutsNeeded x := by
  rw [← h.cutsOf_overlapping hx, cutsOf, missing_eq_filter hx]
  show (b.records.flatMap _).length = b.records.length + _
  induction b.records with
  | nil => rfl
  | cons r rest ih =>
    rw [List.flatMap_cons, List.length_append, ih, List.length_cons, List.filter_cons]
    by_cases hit : (r.overlaps x && !r.isDelivered) = true
    · rw [if_pos hit, if_pos hit, List.map_cons, Number.total_cons,
        SendRecord.Carved.length_parts]
      show (r.carve x).cuts + 1 + _ = _
      omega
    · rw [if_neg hit, if_neg hit, List.length_singleton]
      omega

end Coherent

end Scoreboard

end LossRecovery
