import LossRecovery.Proofs.Operations

/-!
# `LossRecovery.Proofs.Bytes` — the record of a byte

Records come and go: they grow, are cut, trimmed and joined. What stays is the byte, and each
operation on a scoreboard is known by what it makes of the record a byte belongs to.

## Contents
- `Scoreboard.Holds b seq r`: the record of the byte `seq` is `r`; there is one for each outstanding
  byte.
- `Scoreboard.sackedAt`: whether a byte is outstanding and SACKed.
- `Coherent.of_release`, `of_modify`, `of_carveMissing`, `of_coalesce`, `of_resendOnBoard`,
  `of_append`: where the record of a byte after an operation comes from.
- `Coherent.sackedAt_release` and its like: the SACKed bytes after an operation.
- `Inherits f b b'`: the missing bytes of `b'` come from missing bytes of `b` with the same `f`.
-/

namespace LossRecovery

namespace Scoreboard

variable {b b' : Scoreboard} {p r : SendRecord} {x : SeqRange} {seq : Nat}

/-- The byte `seq` belongs to the record `r`. -/
def Holds (b : Scoreboard) (seq : Nat) (r : SendRecord) : Prop :=
  r ∈ b.records ∧ r.contains seq = true

/-- Whether a byte is outstanding and SACKed. -/
def sackedAt (b : Scoreboard) (seq : Nat) : Bool := (b.containing? seq).any (·.flags.sacked)

namespace Coherent

theorem bounds_of_holds (h : b.Coherent) (hr : b.Holds seq r) : b.una ≤ seq ∧ seq < b.top := by
  have hb := h.tiles.bounds hr.1
  have hc := SendRecord.contains_iff.mp hr.2
  omega

theorem exists_holds (h : b.Coherent) (hlo : b.una ≤ seq) (hhi : seq < b.top) :
    ∃ r, b.Holds seq r := h.tiles.exists_contains hlo hhi

theorem sackedAt_eq (h : b.Coherent) (hr : b.Holds seq r) : b.sackedAt seq = r.flags.sacked := by
  unfold sackedAt
  rw [h.containing?_eq_some.mpr hr]
  rfl

theorem bounds_of_sackedAt (h : b.Coherent) (hs : b.sackedAt seq = true) :
    b.una ≤ seq ∧ seq < b.top := by
  unfold sackedAt at hs
  rw [Option.any_eq_true] at hs
  obtain ⟨r, hr, -⟩ := hs
  exact h.bounds_of_holds (h.containing?_eq_some.mp hr)

theorem sackedAt_eq_false (h : b.Coherent) (hout : seq < b.una ∨ b.top ≤ seq) :
    b.sackedAt seq = false := by
  cases hs : b.sackedAt seq with
  | false => rfl
  | true =>
    have := h.bounds_of_sackedAt hs
    omega

/-- Two scoreboards have the same byte SACKed if its records agree on that. -/
theorem sackedAt_congr (h : b.Coherent) (h' : b'.Coherent)
    (hout : (b.una ≤ seq ∧ seq < b.top) ↔ (b'.una ≤ seq ∧ seq < b'.top))
    (hin : ∀ p, b'.Holds seq p → ∃ r, b.Holds seq r ∧ p.flags.sacked = r.flags.sacked) :
    b'.sackedAt seq = b.sackedAt seq := by
  by_cases hb : b'.una ≤ seq ∧ seq < b'.top
  · obtain ⟨p, hp⟩ := h'.exists_holds hb.1 hb.2
    obtain ⟨r, hr, he⟩ := hin p hp
    rw [h'.sackedAt_eq hp, h.sackedAt_eq hr, he]
  · rw [h'.sackedAt_eq_false (by omega), h.sackedAt_eq_false (by omega)]

/-! ## A new left edge -/

theorem of_release (h : b.Coherent) {edge : Nat} (hp : (b.release edge).Holds seq p) :
    ∃ r, b.Holds seq r ∧ p = r.above edge ∧ edge ≤ seq := by
  obtain ⟨hmem, hc⟩ := hp
  have hmem' : p ∈ dropBelow edge b.records := hmem
  rw [h.tiles.dropBelow_eq edge] at hmem'
  obtain ⟨r, hr, rfl⟩ := List.mem_map.mp hmem'
  have hb := SendRecord.contains_iff.mp hc
  have h1 : max r.start edge ≤ seq := hb.1
  exact ⟨r, ⟨(List.mem_filter.mp hr).1, (SendRecord.isPart_above edge r).contains hc⟩, rfl,
    by omega⟩

theorem sackedAt_release (h : b.Coherent) {edge : Nat} (hlo : b.una ≤ edge) (hhi : edge ≤ b.top)
    (hseq : edge ≤ seq) : (b.release edge).sackedAt seq = b.sackedAt seq := by
  refine h.sackedAt_congr (h.release hlo hhi) ?_ ?_
  · show b.una ≤ seq ∧ seq < b.top ↔ edge ≤ seq ∧ seq < b.top
    omega
  · intro p hp
    obtain ⟨r, hr, rfl, -⟩ := h.of_release hp
    exact ⟨r, hr, rfl⟩

/-! ## Changing records in place -/

theorem of_modify {f : SendRecord → SendRecord}
    (hf : ∀ r, (f r).start = r.start ∧ (f r).stop = r.stop) (hp : (b.modify f).Holds seq p) :
    ∃ r, b.Holds seq r ∧ p = f r := by
  obtain ⟨hmem, hc⟩ := hp
  obtain ⟨r, hr, rfl⟩ := List.mem_map.mp hmem
  refine ⟨r, ⟨hr, ?_⟩, rfl⟩
  rw [SendRecord.contains_iff] at hc ⊢
  rw [(hf r).1, (hf r).2] at hc
  exact hc

theorem sackedAt_modify (h : b.Coherent) {f : SendRecord → SendRecord}
    (hf : SendRecord.Relabels f) : (b.modify f).sackedAt seq = b.sackedAt seq := by
  apply h.sackedAt_congr (h.modify hf) Iff.rfl
  intro p hp
  obtain ⟨r, hr, rfl⟩ := of_modify (fun r => ⟨hf.start r, hf.stop r⟩) hp
  exact ⟨r, hr, hf.sacked r⟩

/-! ## Carving -/

/-- After carving, a byte that was missing inside the range belongs to a changed middle part, and
every other byte to a part of the record it belonged to. -/
theorem of_carveMissing (h : b.Coherent) (hx : x.start < x.stop) {f : SendRecord → SendRecord}
    (hs : ∀ q, (f q).start = q.start) (he : ∀ q, (f q).stop = q.stop)
    (hp : (b.carveMissing x f).Holds seq p) :
    ∃ r, b.Holds seq r ∧
      ((r.flags.sacked = false ∧ x.contains seq = true ∧ r.overlaps x = true
          ∧ p = f (r.carve x).middle) ∨
        ((r.flags.sacked = true ∨ x.contains seq = false) ∧ p.IsPart r)) := by
  obtain ⟨hmem, hc⟩ := hp
  obtain ⟨r, hr, hpr⟩ := List.mem_flatMap.mp hmem
  have hne := (h.tiles.bounds hr).2.1
  have hsame := (h.records r hr).isDelivered
  split at hpr
  · next hit =>
    rw [Bool.and_eq_true, hsame, Bool.not_eq_true'] at hit
    have part : p.IsPart r → b.Holds seq r := fun hpart => ⟨hr, hpart.contains hc⟩
    -- The byte lies below the range, in it, or above it.
    rcases SendRecord.Carved.mem_parts.mp hpr with hl | hm | hu
    · have hpart := SendRecord.isPart_carve hne hx hit.1
        (SendRecord.Carved.mem_parts.mpr (Or.inl hl))
      have hb := SendRecord.contains_iff.mp hc
      have hstop : p.stop = x.start := by
        rw [(SendRecord.carve_lower hl).2]
        rfl
      refine ⟨r, part hpart, Or.inr ⟨Or.inr ?_, hpart⟩⟩
      rw [Bool.eq_false_iff, Ne, SeqRange.contains_iff]
      omega
    · have hpart := SendRecord.isPart_carve_middle hne hx hit.1
      have hb := SendRecord.contains_iff.mp hc
      have hm' : p = f (r.carve x).middle := hm
      rw [hm', hs, he] at hb
      have hmid : (r.carve x).middle.contains seq = true := SendRecord.contains_iff.mpr hb
      rw [SendRecord.carve_middle_start, SendRecord.carve_middle_stop] at hb
      exact ⟨r, ⟨hr, hpart.contains hmid⟩,
        Or.inl ⟨hit.2, SeqRange.contains_iff.mpr (by omega), hit.1, hm'⟩⟩
    · have hpart := SendRecord.isPart_carve hne hx hit.1
        (SendRecord.Carved.mem_parts.mpr (Or.inr (Or.inr hu)))
      have hb := SendRecord.contains_iff.mp hc
      have hstart := (SendRecord.carve_upper hu).2.1
      refine ⟨r, part hpart, Or.inr ⟨Or.inr ?_, hpart⟩⟩
      rw [Bool.eq_false_iff, Ne, SeqRange.contains_iff]
      omega
  · next hmiss =>
    -- A record that was left alone has arrived, or shares no byte with the range.
    rw [List.mem_singleton.mp hpr] at hc ⊢
    refine ⟨r, ⟨hr, hc⟩, Or.inr ⟨?_, SendRecord.IsPart.refl r⟩⟩
    cases hsk : r.flags.sacked with
    | true => exact Or.inl rfl
    | false =>
      refine Or.inr (Bool.eq_false_iff.mpr fun hxs => hmiss ?_)
      rw [SendRecord.overlaps_of_contains hc hxs, hsame, hsk]
      rfl

/-! ## Joining neighbours -/

theorem of_coalesceFrom {near : SendRecord → Bool} {lo hi : Nat} {l : SendRecord}
    {rest : List SendRecord} (ht : Tiles lo (l :: rest) hi) (hl : l.Coherent)
    (hrest : ∀ r ∈ rest, r.Coherent) (hp : p ∈ (coalesceFrom near l rest).1)
    (hc : p.contains seq = true) :
    ∃ r ∈ l :: rest, r.contains seq = true ∧
      (p = r ∨ p.flags.sacked = true ∧ r.flags.sacked = true) := by
  induction rest generalizing lo l with
  | nil =>
    rw [List.mem_singleton.mp hp] at hc ⊢
    exact ⟨l, List.mem_cons_self, hc, Or.inl rfl⟩
  | cons r rest ih =>
    obtain ⟨hls, hlne, hrs, hrne, htail⟩ := ht
    have hr := hrest r List.mem_cons_self
    have hrest' := fun q hq => hrest q (List.mem_cons_of_mem r hq)
    unfold coalesceFrom at hp
    split at hp
    · next hj =>
      rw [Bool.and_eq_true] at hj
      have habs := hl.absorb hr hj.2
      have hdel := hj.2
      simp only [SendRecord.canAbsorb, Bool.and_eq_true, hl.isDelivered, hr.isDelivered] at hdel
      have hjoined : (l.absorb r).flags.sacked = true := by
        show (l.flags.sacked || r.flags.sacked) = true
        rw [hdel.1.1.1, Bool.true_or]
      obtain ⟨q, hq, hqc, hpq⟩ :=
        ih (l := l.absorb r) ⟨hls, by show l.start < r.stop; omega, htail⟩ habs hrest' hp
      rcases List.mem_cons.mp hq with rfl | hq
      · -- The join reaches over the two records, which leave no gap.
        have hsk : p.flags.sacked = true := by
          rcases hpq with rfl | hpq
          · exact hjoined
          · exact hpq.1
        have hb := SendRecord.contains_iff.mp hqc
        have h1 : l.start ≤ seq := hb.1
        have h2 : seq < r.stop := hb.2
        by_cases hcut : seq < l.stop
        · exact ⟨l, List.mem_cons_self, SendRecord.contains_iff.mpr ⟨h1, hcut⟩,
            Or.inr ⟨hsk, hdel.1.1.1⟩⟩
        · exact ⟨r, List.mem_cons_of_mem _ List.mem_cons_self,
            SendRecord.contains_iff.mpr ⟨by omega, h2⟩, Or.inr ⟨hsk, hdel.1.1.2⟩⟩
      · exact ⟨q, List.mem_cons_of_mem _ (List.mem_cons_of_mem _ hq), hqc, hpq⟩
    · rcases List.mem_cons.mp hp with rfl | hp
      · exact ⟨p, List.mem_cons_self, hc, Or.inl rfl⟩
      · obtain ⟨q, hq, hqc, hpq⟩ := ih ⟨hrs, hrne, htail⟩ hr hrest' hp
        exact ⟨q, List.mem_cons_of_mem _ hq, hqc, hpq⟩

/-- Joining leaves a byte in its record, or in a SACKed one if that was SACKed. -/
theorem of_coalesce (h : b.Coherent) (hp : (b.coalesce x).1.Holds seq p) :
    ∃ r, b.Holds seq r ∧ (p = r ∨ p.flags.sacked = true ∧ r.flags.sacked = true) := by
  obtain ⟨hmem, hc⟩ := hp
  have hmem' : p ∈ (coalesceRecords (·.overlaps x) b.records).1 := hmem
  have ht := h.tiles
  have hco := h.records
  unfold Holds
  cases hrec : b.records with
  | nil =>
    rw [hrec] at hmem'
    exact absurd hmem' List.not_mem_nil
  | cons l rest =>
    rw [hrec] at hmem' ht hco
    obtain ⟨r, hr, hrc, he⟩ := of_coalesceFrom ht (hco l List.mem_cons_self)
      (fun r hr => hco r (List.mem_cons_of_mem _ hr)) hmem' hc
    exact ⟨r, ⟨hr, hrc⟩, he⟩

theorem sackedAt_coalesce (h : b.Coherent) : (b.coalesce x).1.sackedAt seq = b.sackedAt seq := by
  apply h.sackedAt_congr (h.coalesce x) Iff.rfl
  intro p hp
  obtain ⟨r, hr, he⟩ := h.of_coalesce hp
  refine ⟨r, hr, ?_⟩
  rcases he with rfl | ⟨h1, h2⟩
  · rfl
  · rw [h1, h2]

/-! ## Data sent again -/

/-- Whether a resend of a range is accounted to the byte `seq` of a missing record: to the bytes in
the range, or to all bytes of the record if cuts do not fit. -/
def resendReaches (x : SeqRange) (fits : Bool) (r : SendRecord) (seq : Nat) : Bool :=
  if fits then x.contains seq else r.overlaps x

theorem of_resendOnBoard (h : b.Coherent) (hx : x.start < x.stop) {fits : Bool}
    {f : SendRecord → SendRecord} (hs : ∀ q, (f q).start = q.start) (he : ∀ q, (f q).stop = q.stop)
    (hp : (Engine.resendOnBoard b x fits f).Holds seq p) :
    ∃ r, b.Holds seq r ∧
      ((r.flags.sacked = false ∧ resendReaches x fits r seq = true
          ∧ (Engine.resentPart x fits r).IsPart r ∧ p = f (Engine.resentPart x fits r)) ∨
        ((r.flags.sacked = true ∨ resendReaches x fits r seq = false) ∧ p.IsPart r)) := by
  cases fits with
  | true =>
    have hp' : (b.carveMissing x f).Holds seq p := hp
    obtain ⟨r, hr, hcase⟩ := h.of_carveMissing hx hs he hp'
    refine ⟨r, hr, hcase.imp_left fun ⟨h1, h2, h3, h4⟩ => ⟨h1, h2, ?_, h4⟩⟩
    exact SendRecord.isPart_carve_middle (h.tiles.bounds hr.1).2.1 hx h3
  | false =>
    have hp' : (b.modify fun r => if r.overlaps x && !r.isDelivered then f r else r).Holds seq p := hp
    have hends : ∀ r : SendRecord,
        (if r.overlaps x && !r.isDelivered then f r else r).start = r.start ∧
        (if r.overlaps x && !r.isDelivered then f r else r).stop = r.stop := by
      intro r
      split
      · exact ⟨hs r, he r⟩
      · exact ⟨rfl, rfl⟩
    obtain ⟨r, hr, rfl⟩ := of_modify hends hp'
    have hsame := (h.records r hr.1).isDelivered
    refine ⟨r, hr, ?_⟩
    by_cases hit : (r.overlaps x && !r.isDelivered) = true
    · rw [if_pos hit]
      rw [Bool.and_eq_true, hsame, Bool.not_eq_true'] at hit
      exact Or.inl ⟨hit.2, hit.1, SendRecord.IsPart.refl r, rfl⟩
    · rw [if_neg hit]
      refine Or.inr ⟨?_, SendRecord.IsPart.refl r⟩
      cases hsk : r.flags.sacked with
      | true => exact Or.inl rfl
      | false =>
        refine Or.inr (Bool.eq_false_iff.mpr fun ho => hit ?_)
        have ho' : r.overlaps x = true := ho
        rw [ho', hsame, hsk]
        rfl

theorem sackedAt_resendOnBoard (h : b.Coherent) (hx : x.start < x.stop) {fits : Bool}
    {flags : Flags} {afterTimeout : Bool} {now : Nat} :
    (Engine.resendOnBoard b x fits (Engine.resentRecord flags afterTimeout now)).sackedAt seq
      = b.sackedAt seq := by
  have hedges : (Engine.resendOnBoard b x fits (Engine.resentRecord flags afterTimeout now)).una
        = b.una ∧
      (Engine.resendOnBoard b x fits (Engine.resentRecord flags afterTimeout now)).top = b.top := by
    cases fits <;> exact ⟨rfl, rfl⟩
  refine h.sackedAt_congr (h.resendOnBoard hx) ?_ ?_
  · rw [hedges.1, hedges.2]
  · intro p hp
    obtain ⟨r, hr, hcase⟩ := h.of_resendOnBoard hx
      (f := Engine.resentRecord flags afterTimeout now) (fun _ => rfl) (fun _ => rfl) hp
    refine ⟨r, hr, ?_⟩
    rcases hcase with ⟨-, -, hpart, rfl⟩ | ⟨-, hpart⟩
    · exact hpart.sacked
    · exact hpart.sacked

/-! ## Bytes newly SACKed -/

/-- Marking a block makes exactly its bytes SACKed. -/
theorem sackedAt_sack (h : b.Coherent) (hx : x.start < x.stop) (hlo : b.una ≤ x.start)
    (hhi : x.stop ≤ b.top) {now : Nat} :
    (b.carveMissing x (AckPass.sackedRecord now)).sackedAt seq
      = (b.sackedAt seq || x.contains seq) := by
  have h' := h.sack hx now
  -- Outside the outstanding numbers nothing is SACKed, and the block does not reach there.
  by_cases hb : b.una ≤ seq ∧ seq < b.top
  · obtain ⟨p, hp⟩ := h'.exists_holds hb.1 hb.2
    obtain ⟨r, hr, hcase⟩ := h.of_carveMissing hx (f := AckPass.sackedRecord now)
      (fun _ => rfl) (fun _ => rfl) hp
    rw [h'.sackedAt_eq hp, h.sackedAt_eq hr]
    rcases hcase with ⟨-, hin, -, rfl⟩ | ⟨hout, hpart⟩
    · rw [hin, Bool.or_true]
      rfl
    · rw [hpart.sacked]
      rcases hout with hsk | hout
      · rw [hsk, Bool.true_or]
      · rw [hout, Bool.or_false]
  · have hout : x.contains seq = false := by
      rw [Bool.eq_false_iff, Ne, SeqRange.contains_iff]
      omega
    rw [h'.sackedAt_eq_false (by show seq < b.una ∨ b.top ≤ seq; omega),
      h.sackedAt_eq_false (by omega), hout]
    rfl

/-! ## New data -/

/-- After recording new data, a byte below it is in the record it was in, which may have grown, and
a new byte is in the grown record or in a record of its own. -/
theorem of_append {flags : Flags} {now mark : Nat} (hx : x.start < x.stop)
    (hs : x.start = b.top) (hb : b.append x flags now mark = .ok b') (hp : b'.Holds seq p) :
    (∃ r, b.Holds seq r ∧ p = r) ∨
    (∃ last ∈ b.records, continuesBurst last x flags now = true
      ∧ p = { last.restamp now with stop := x.stop }
      ∧ (last.contains seq = true ∨ x.contains seq = true)) ∨
    x.contains seq = true ∧ p = { SendRecord.ofSend x flags now mark with linked := true } := by
  obtain ⟨hmem, hc⟩ := hp
  have hcb := SendRecord.contains_iff.mp hc
  rcases append_eq_ok flags now mark hx hs with
    ⟨last, below, hrec, hcont, heq⟩ | heq
  · rw [heq] at hb
    injection hb with hb
    rw [← hb] at hmem
    rcases List.mem_append.mp hmem with hm | hm
    · exact Or.inl ⟨p, ⟨by rw [hrec]; exact List.mem_append_left _ hm, hc⟩, rfl⟩
    · have hp := List.mem_singleton.mp hm
      have hlast : last ∈ b.records := by
        rw [hrec]
        exact List.mem_append_right _ (List.mem_singleton_self last)
      refine Or.inr (Or.inl ⟨last, hlast, hcont, hp, ?_⟩)
      have hstop := (continuesBurst_iff.mp hcont).1
      rw [hp] at hcb
      have h1 : last.start ≤ seq := hcb.1
      have h2 : seq < x.stop := hcb.2
      rw [SendRecord.contains_iff, SeqRange.contains_iff]
      omega
  · rw [heq] at hb
    injection hb with hb
    rw [← hb] at hmem
    rcases List.mem_append.mp hmem with hm | hm
    · exact Or.inl ⟨p, ⟨hm, hc⟩, rfl⟩
    · have hp := List.mem_singleton.mp hm
      rw [hp] at hcb
      exact Or.inr (Or.inr ⟨SeqRange.contains_iff.mpr hcb, hp⟩)

theorem sackedAt_append (h : b.Coherent) {flags : Flags} {now mark : Nat} (hx : x.start < x.stop)
    (hs : x.start = b.top) (hf : flags.IsFresh) (hb : b.append x flags now mark = .ok b') :
    b'.sackedAt seq = b.sackedAt seq := by
  have h' := h.append hx hs hf hb
  have hedges := append_edges hx hs hb
  by_cases hin : b'.una ≤ seq ∧ seq < b'.top
  · obtain ⟨p, hp⟩ := h'.exists_holds hin.1 hin.2
    rw [h'.sackedAt_eq hp]
    rcases of_append hx hs hb hp with ⟨r, hr, rfl⟩ | ⟨last, hlast, hcont, rfl, hseq⟩ | ⟨hseq, rfl⟩
    · exact (h.sackedAt_eq hr).symm
    · -- The record that grew is linked, so none of its bytes has arrived.
      have hmiss : last.flags.sacked = false := by
        have hl := (h.records last hlast).linked
        rw [(continuesBurst_iff.mp hcont).2.2.2.2.2] at hl
        simpa using hl.symm
      rw [show ({ last.restamp now with stop := x.stop } : SendRecord).flags.sacked
        = last.flags.sacked from rfl, hmiss]
      rcases hseq with hseq | hseq
      · rw [h.sackedAt_eq ⟨hlast, hseq⟩, hmiss]
      · rw [SeqRange.contains_iff] at hseq
        rw [h.sackedAt_eq_false (by omega)]
    · rw [SeqRange.contains_iff] at hseq
      rw [h.sackedAt_eq_false (by omega)]
      exact hf.2
  · rw [hedges.1, hedges.2] at hin
    rw [h'.sackedAt_eq_false (by rw [hedges.1, hedges.2]; omega), h.sackedAt_eq_false (by omega)]

end Coherent

/-! ## What missing bytes inherit -/

section Inherits

variable {α : Type} {f : SendRecord → α} {b'' : Scoreboard} {c : SendRecord → SendRecord}

/-- The bytes missing in the second scoreboard were missing in the first, in records with the same
`f`. -/
def Inherits (f : SendRecord → α) (b b' : Scoreboard) : Prop :=
  ∀ seq p, b'.Holds seq p → p.flags.sacked = false →
    ∃ r, b.Holds seq r ∧ r.flags.sacked = false ∧ f p = f r

theorem Inherits.refl (f : SendRecord → α) (b : Scoreboard) : b.Inherits f b :=
  fun _ p hp hm => ⟨p, hp, hm, rfl⟩

theorem Inherits.trans (h : b.Inherits f b') (h' : b'.Inherits f b'') : b.Inherits f b'' := by
  intro seq p hp hm
  obtain ⟨q, hq, hqm, hpq⟩ := h' seq p hp hm
  obtain ⟨r, hr, hrm, hqr⟩ := h seq q hq hqm
  exact ⟨r, hr, hrm, hpq.trans hqr⟩

theorem inherits_modify (hc : ∀ r, (c r).start = r.start ∧ (c r).stop = r.stop)
    (hs : ∀ r, (c r).flags.sacked = r.flags.sacked) (hf : ∀ r, f (c r) = f r) :
    b.Inherits f (b.modify c) := by
  intro seq p hp hm
  obtain ⟨r, hr, rfl⟩ := Coherent.of_modify hc hp
  exact ⟨r, hr, (hs r).symm.trans hm, hf r⟩

namespace Coherent

theorem inherits_release (h : b.Coherent) (hf : ∀ {p r : SendRecord}, p.IsPart r → f p = f r)
    (edge : Nat) : b.Inherits f (b.release edge) := by
  intro seq p hp hm
  obtain ⟨r, hr, rfl, -⟩ := h.of_release hp
  exact ⟨r, hr, hm, hf (SendRecord.isPart_above edge r)⟩

/-- Bytes that are marked as SACKed are missing no more. -/
theorem inherits_sack (h : b.Coherent) (hf : ∀ {p r : SendRecord}, p.IsPart r → f p = f r)
    (hx : x.start < x.stop) (now : Nat) :
    b.Inherits f (b.carveMissing x (AckPass.sackedRecord now)) := by
  intro seq p hp hm
  obtain ⟨r, hr, ⟨-, -, -, rfl⟩ | ⟨-, hpart⟩⟩ := h.of_carveMissing hx
    (f := AckPass.sackedRecord now) (fun _ => rfl) (fun _ => rfl) hp
  · exact Bool.noConfusion hm
  · exact ⟨r, hr, hpart.sacked.symm.trans hm, hf hpart⟩

theorem inherits_coalesce (h : b.Coherent) (f : SendRecord → α) (x : SeqRange) :
    b.Inherits f (b.coalesce x).1 := by
  intro seq p hp hm
  obtain ⟨r, hr, rfl | ⟨hsk, -⟩⟩ := h.of_coalesce hp
  · exact ⟨p, hr, hm, rfl⟩
  · rw [hm] at hsk
    exact Bool.noConfusion hsk

end Coherent

end Inherits

end Scoreboard

end LossRecovery
