import Mathlib.Data.List.Nodup
import LossRecovery.Proofs.Persistence

/-!
# `LossRecovery.Proofs.SendingOrder` — the sending order is in the order of the sends

Detecting losses by time looks at the linked records only, least recently sent first, and stops at
the first one that is too recent. That finds every loss only if no missing record was dropped from
the order, and if the order is the one of the latest sends. Each change of a scoreboard either keeps
the places of the records, or puts what was sent just now at the end.

## Contents
- `Chronological now rs`: records by their latest sends, none of them after `now`.
- `Coherent.ordered_modify`, `ordered_coalesce`, `ordered_release`, `ordered_moveLast`,
  `ordered_append`: the linked records after each kind of change.
- `persists_chronological`, `Timely.in_sending_order`: the sending order in every state, as long as
  time does not go back.
-/

namespace LossRecovery

/-! ## Latest sends -/

namespace SendTimes

/-- The time remembered for a send is the one that was put down for it. -/
@[simp] theorem slot_put (t : SendTimes) (resends now : Nat) :
    (t.put resends now).slot resends = some now := by
  match resends with
  | 0 => rfl
  | 1 => rfl
  | _ + 2 => rfl

end SendTimes

namespace SendRecord

variable {f : SendRecord → SendRecord} {now : Nat} (r : SendRecord)

theorem Relabels.lastSent (hf : Relabels f) : (f r).lastSent = r.lastSent := by
  unfold SendRecord.lastSent
  rw [hf.times, hf.resends]

theorem lastSent_resend : (r.resend now).lastSent = now := by
  simp [SendRecord.lastSent, resend]

theorem lastSent_restamp : (r.restamp now).lastSent = now := by
  simp [SendRecord.lastSent, restamp]

end SendRecord

/-- The records stand by their latest sends, none of which came after `now`. -/
structure Chronological (now : Nat) (rs : List SendRecord) : Prop where
  pairwise : rs.Pairwise (·.lastSent ≤ ·.lastSent)
  sent : ∀ r ∈ rs, r.lastSent ≤ now

namespace Chronological

variable {last now : Nat} {rs more : List SendRecord}

theorem later (h : Chronological last rs) (hle : last ≤ now) : Chronological now rs :=
  ⟨h.pairwise, fun r hr => Nat.le_trans (h.sent r hr) hle⟩

/-- Records may be divided, left out, and changed apart from their latest sends. -/
theorem flatMap (h : Chronological now rs) {f : SendRecord → List SendRecord}
    (hf : ∀ r ∈ rs, ∀ p ∈ f r, p.lastSent = r.lastSent) : Chronological now (rs.flatMap f) := by
  constructor
  · refine List.pairwise_flatMap.mpr ⟨fun r hr => ?_, ?_⟩
    · refine List.pairwise_of_forall_mem_list fun p hp q hq => ?_
      rw [hf r hr p hp, hf r hr q hq]
    · refine h.pairwise.imp_of_mem fun {r s} hr hs hle p hp q hq => ?_
      rwa [hf r hr p hp, hf s hs q hq]
  · intro p hp
    obtain ⟨r, hr, hpr⟩ := List.mem_flatMap.mp hp
    rw [hf r hr p hpr]
    exact h.sent r hr

theorem map (h : Chronological now rs) {f : SendRecord → SendRecord}
    (hf : ∀ r ∈ rs, (f r).lastSent = r.lastSent) : Chronological now (rs.map f) := by
  rw [List.map_eq_flatMap]
  refine h.flatMap fun r hr p hp => ?_
  rw [List.mem_singleton.mp hp]
  exact hf r hr

theorem filter (h : Chronological now rs) (p : SendRecord → Bool) :
    Chronological now (rs.filter p) :=
  ⟨h.pairwise.filter _, fun r hr => h.sent r (List.mem_filter.mp hr).1⟩

/-- What was sent just now stands last. -/
theorem append (h : Chronological now rs) (hmore : ∀ r ∈ more, r.lastSent = now) :
    Chronological now (rs ++ more) := by
  constructor
  · refine List.pairwise_append.mpr ⟨h.pairwise, ?_, ?_⟩
    · refine List.pairwise_of_forall_mem_list fun p hp q hq => ?_
      rw [hmore p hp, hmore q hq]
    · intro p hp q hq
      rw [hmore q hq]
      exact h.sent p hp
  · intro r hr
    rcases List.mem_append.mp hr with hr | hr
    · exact h.sent r hr
    · exact Nat.le_of_eq (hmore r hr)

end Chronological

/-! ## The linked records after a change -/

namespace Scoreboard

variable {b b' : Scoreboard} {p r : SendRecord} {x : SeqRange}

namespace Coherent

theorem ordered_modify (h : b.Coherent) {f : SendRecord → SendRecord} (h' : (b.modify f).Coherent)
    (hf : ∀ r ∈ b.records, (f r).start = r.start) : (b.modify f).ordered = b.ordered.map f := by
  apply h'.ordered_eq
  · intro p hp
    obtain ⟨r, hr, rfl⟩ := List.mem_map.mp hp
    exact List.mem_map_of_mem (h.mem_records_of_ordered hr)
  · show b.order = _
    rw [← h.ordered_starts, List.map_map]
    exact List.map_congr_left fun r hr => (hf r (h.mem_records_of_ordered hr)).symm

/-- A record that is joined has arrived and is not linked. -/
theorem ordered_coalesce (h : b.Coherent) (x : SeqRange) :
    (b.coalesce x).1.ordered = b.ordered := by
  have h' := h.coalesce x
  apply h'.ordered_eq
  · intro r hr
    obtain ⟨hmem, hlinked⟩ := h.mem_ordered.mp hr
    obtain ⟨hlo, hne, hhi⟩ := h.tiles.bounds hmem
    have hc : r.contains r.start = true := SendRecord.contains_iff.mpr ⟨Nat.le_refl _, hne⟩
    obtain ⟨p, hp⟩ := h'.exists_holds (show b.una ≤ r.start from hlo)
      (show r.start < b.top by omega)
    obtain ⟨q, hq, hcase⟩ := h.of_coalesce hp
    have hqr : q = r := h.tiles.eq_of_contains hq.1 hmem hq.2 hc
    rcases hcase with rfl | ⟨-, hsacked⟩
    · exact hqr ▸ hp.1
    · rw [(h.records r hmem).linked, ← hqr, hsacked] at hlinked
      cases hlinked
  · rw [h.order_coalesce, h.ordered_starts]

/-- Releasing leaves the linked records that reach above the edge, in their places. -/
theorem ordered_release (h : b.Coherent) {edge : Nat} (hlo : b.una ≤ edge) (hhi : edge ≤ b.top) :
    (b.release edge).ordered = (b.ordered.filter (edge < ·.stop)).map (·.above edge) := by
  have hmem := fun {r} => h.mem_records_of_ordered (r := r)
  apply (h.release hlo hhi).ordered_eq
  · intro p hp
    obtain ⟨r, hr, rfl⟩ := List.mem_map.mp hp
    obtain ⟨hr, hedge⟩ := List.mem_filter.mp hr
    show r.above edge ∈ dropBelow edge b.records
    rw [h.tiles.dropBelow_eq edge]
    exact List.mem_map_of_mem (List.mem_filter.mpr ⟨hmem hr, hedge⟩)
  · show b.order.filterMap _ = _
    rw [← h.ordered_starts, List.filterMap_map, List.map_map]
    refine (List.filterMap_congr fun r hr => h.order_release_start (hmem hr) edge).trans ?_
    rw [← List.filterMap_eq_map, List.filterMap_filter]
    refine List.filterMap_congr fun r _ => ?_
    by_cases hedge : edge < r.stop <;> simp [hedge, SendRecord.above]

/-- What is moved to the end of the sending order is left out in its place and found at the end. -/
theorem ordered_moveLast (h : b.Coherent) (starts : List Nat) :
    ({ b with order := b.order.filter (fun s => !starts.contains s) ++ starts } :
        Scoreboard).ordered
      = (b.ordered.filter fun r => !starts.contains r.start) ++ starts.filterMap b.record? := by
  have hkept : (b.order.filter fun s => !starts.contains s).filterMap b.record?
      = b.ordered.filter fun r => !starts.contains r.start := by
    rw [← h.ordered_starts, List.filter_map]
    exact h.filterMap_record? fun r hr => h.mem_records_of_ordered (List.mem_filter.mp hr).1
  unfold ordered
  rw [List.filterMap_append]
  exact congrArg (· ++ _) hkept

/-- If the highest record is replaced, it keeps its place. -/
theorem ordered_replaceLast (h : b.Coherent) (h' : b'.Coherent) {last new : SendRecord}
    {below : List SendRecord} (hrec : b.records = below ++ [last])
    (hrec' : b'.records = below ++ [new]) (horder : b'.order = b.order)
    (hstart : new.start = last.start) :
    b'.ordered = b.ordered.map fun r => if r = last then new else r := by
  apply h'.ordered_eq
  · intro p hp
    obtain ⟨r, hr, rfl⟩ := List.mem_map.mp hp
    have hr := h.mem_records_of_ordered hr
    rw [hrec']
    split
    · exact List.mem_append_right _ (List.mem_singleton_self _)
    · next hne =>
      rw [hrec] at hr
      rcases List.mem_append.mp hr with hr | hr
      · exact List.mem_append_left _ hr
      · exact absurd (List.mem_singleton.mp hr) hne
  · rw [horder, ← h.ordered_starts, List.map_map]
    refine List.map_congr_left fun r _ => ?_
    rw [Function.comp_apply]
    split
    · next heq => rw [heq, hstart]
    · rfl

/-- New data makes the highest record grow, which was sent at the same instant, or stands last. -/
theorem ordered_append (h : b.Coherent) {flags : Flags} {now mark : Nat} (hx : x.start < x.stop)
    (hs : x.start = b.top) (hf : flags.IsFresh) (hb : b.append x flags now mark = .ok b') :
    (∃ f : SendRecord → SendRecord, (∀ r ∈ b.records, (f r).lastSent = r.lastSent) ∧
      b'.ordered = b.ordered.map f) ∨
    ∃ new : SendRecord, new.lastSent = now ∧ b'.ordered = b.ordered ++ [new] := by
  have h' := h.append hx hs hf hb
  rcases append_eq_ok flags now mark hx hs with ⟨last, below, hrec, hcont, he⟩ | he
  · injection he.symm.trans hb with hb
    subst hb
    refine .inl ⟨_, fun r _ => ?_, h.ordered_replaceLast h' hrec rfl rfl rfl⟩
    split
    · next heq =>
      rw [heq]
      exact last.lastSent_restamp.trans (continuesBurst_iff.mp hcont).2.2.2.2.1.symm
    · rfl
  · injection he.symm.trans hb with hb
    subst hb
    refine .inr ⟨{ SendRecord.ofSend x flags now mark with linked := true }, rfl, ?_⟩
    apply h'.ordered_eq
    · intro r hr
      rcases List.mem_append.mp hr with hr | hr
      · exact List.mem_append_left _ (h.mem_records_of_ordered hr)
      · exact List.mem_append_right _ hr
    · rw [List.map_append, h.ordered_starts]
      rfl

/-! ## What each change does to the order of the sends -/

variable {now : Nat}

theorem chronological_modify (h : b.Coherent) {f : SendRecord → SendRecord}
    (hf : SendRecord.Relabels f) (hc : Chronological now b.ordered) :
    Chronological now (b.modify f).ordered := by
  rw [h.ordered_modify (h.modify hf) fun r _ => hf.start r]
  exact hc.map fun r _ => hf.lastSent r

theorem chronological_release (h : b.Coherent) {edge : Nat} (hlo : b.una ≤ edge)
    (hhi : edge ≤ b.top) (hc : Chronological now b.ordered) :
    Chronological now (b.release edge).ordered := by
  rw [h.ordered_release hlo hhi]
  exact (hc.filter _).map fun r _ => (SendRecord.isPart_above edge r).lastSent

/-- What remains linked of a record that is marked in part lies outside of the block. -/
theorem chronological_mark (h : b.Coherent) (hx : x.start < x.stop)
    (hc : Chronological now b.ordered) {around : SeqRange} :
    Chronological now
      ((b.carveMissing x (AckPass.sackedRecord now)).coalesce around).1.ordered := by
  have hcarved := h.sack hx now
  rw [hcarved.ordered_coalesce]
  unfold Scoreboard.carveMissing at hcarved ⊢
  rw [h.ordered_refine hcarved]
  refine hc.flatMap fun r hr p hp => ?_
  obtain ⟨hpr, hlinked⟩ := List.mem_filter.mp hp
  have hne := (h.tiles.bounds (h.mem_records_of_ordered hr)).2.1
  split at hpr
  · next hit =>
    rw [Bool.and_eq_true] at hit
    rcases SendRecord.isPart_of_mem_carved hne hx hit.1 hpr with he | hpart
    · rw [he] at hlinked
      cases hlinked
    · exact hpart.lastSent
  · rw [List.mem_singleton.mp hpr]

section Resend

variable {flags : Flags} {afterTimeout fits : Bool}

/-- The linked records that were not sent again are what they were, or parts of it. -/
theorem chronological_resentInPlace (h : b.Coherent) (hx : x.start < x.stop)
    (hc : Chronological now b.ordered) :
    Chronological now
      ((b.resentInPlace x fits (Engine.resentRecord flags afterTimeout now)).ordered.filter
        fun r => !(b.resentStarts x fits).contains r.start) := by
  have hchanged : (b.resentInPlace x fits (Engine.resentRecord flags afterTimeout now)).Coherent :=
    h.resentInPlace hx
  have hstarts : ∀ r ∈ b.ordered, (r.overlaps x && !r.isDelivered) = true →
      (b.resentStarts x fits).contains (Engine.resentPart x fits r).start = true := by
    intro r hr hit
    rw [Bool.and_eq_true] at hit
    rw [List.contains_iff_mem]
    exact List.mem_map_of_mem (List.mem_filter.mpr
      ⟨(mem_overlapping hx).mpr ⟨h.mem_records_of_ordered hr, hit.1⟩, hit.2⟩)
  cases fits with
  | true =>
    unfold Scoreboard.resentInPlace Scoreboard.carveMissing at hchanged ⊢
    rw [if_pos rfl] at hchanged ⊢
    rw [h.ordered_refine hchanged, List.filter_flatMap]
    refine hc.flatMap fun r hr p hp => ?_
    obtain ⟨hp, hkept⟩ := List.mem_filter.mp hp
    have hpr := (List.mem_filter.mp hp).1
    have hne := (h.tiles.bounds (h.mem_records_of_ordered hr)).2.1
    split at hpr
    · next hit =>
      have ho := ((Bool.and_eq_true _ _).mp hit).1
      rcases SendRecord.isPart_of_mem_carved hne hx ho hpr with he | hpart
      · rw [he, show (Engine.resentRecord flags afterTimeout now (r.carve x).middle).start
          = (Engine.resentPart x true r).start from rfl, hstarts r hr hit] at hkept
        cases hkept
      · exact hpart.lastSent
    · rw [List.mem_singleton.mp hpr]
  | false =>
    unfold Scoreboard.resentInPlace at hchanged ⊢
    rw [if_neg Bool.false_ne_true] at hchanged ⊢
    rw [h.ordered_modify hchanged fun r _ => by split <;> rfl, List.filter_map]
    refine Chronological.map (hc.filter _) fun r hr => ?_
    obtain ⟨hr, hkept⟩ := List.mem_filter.mp hr
    split
    · next hit =>
      rw [Function.comp_apply, if_pos hit] at hkept
      rw [show (Engine.resentRecord flags afterTimeout now r).start
        = (Engine.resentPart x false r).start from rfl, hstarts r hr hit] at hkept
      cases hkept
    · rfl

theorem chronological_resendOnBoard (h : b.Coherent) (hx : x.start < x.stop)
    (hc : Chronological now b.ordered) :
    Chronological now
      (Engine.resendOnBoard b x fits (Engine.resentRecord flags afterTimeout now)).ordered := by
  have hchanged : (b.resentInPlace x fits (Engine.resentRecord flags afterTimeout now)).Coherent :=
    h.resentInPlace hx
  rw [resendOnBoard_eq, hchanged.ordered_moveLast]
  refine (h.chronological_resentInPlace hx hc).append fun p hp => ?_
  -- What stands at the end was sent just now.
  obtain ⟨s, hs, hfound⟩ := List.mem_filterMap.mp hp
  obtain ⟨r, hr, rfl⟩ := List.mem_map.mp hs
  rw [show (Engine.resentPart x fits r).start = (Engine.resentRecord flags afterTimeout now
    (Engine.resentPart x fits r)).start from rfl,
    hchanged.record?_eq (mem_resentInPlace hx hr)] at hfound
  injection hfound with hfound
  rw [← hfound]
  exact (Engine.resentPart x fits r).lastSent_resend

end Resend

theorem chronological_append (h : b.Coherent) {flags : Flags} {mark : Nat} (hx : x.start < x.stop)
    (hs : x.start = b.top) (hf : flags.IsFresh) (hb : b.append x flags now mark = .ok b')
    (hc : Chronological now b.ordered) : Chronological now b'.ordered := by
  rcases h.ordered_append hx hs hf hb with ⟨f, hlast, he⟩ | ⟨new, hnew, he⟩
  · rw [he]
    exact hc.map fun r hr => hlast r (h.mem_records_of_ordered hr)
  · rw [he]
    refine hc.append fun r hr => ?_
    rw [List.mem_singleton.mp hr]
    exact hnew

end Coherent

/-- Whatever an engine does at an instant keeps the sending order in the order of the sends. -/
theorem persists_chronological (now : Nat) : Persists now fun b => Chronological now b.ordered where
  relabel h hf hc := h.chronological_modify hf hc
  release h hlo hhi hc := h.chronological_release (Nat.le_of_lt hlo) hhi hc
  mark h hx _ _ hc := h.chronological_mark hx hc
  resend _ _ h hx hc := h.chronological_resendOnBoard hx hc
  append h hx hs hf hb hc := h.chronological_append hx hs hf hb hc

end Scoreboard

namespace Engine

variable {κ : Type} [CongestionLaw κ] {g : Engine κ} {first now : Nat}

/-- As long as time does not go back, the sending order links exactly the records that have not
arrived, each of them once, and lists them by their latest sends. -/
theorem Timely.in_sending_order (h : g.Timely first now) :
    (∀ r ∈ g.board.records, r.linked = true ↔ r.flags.sacked = false) ∧
    (∀ r, r ∈ g.board.ordered ↔ r ∈ g.board.records ∧ r.flags.sacked = false) ∧
    g.board.ordered.Nodup ∧ g.board.ordered.map (·.start) = g.board.order ∧
    g.board.ordered.Pairwise (·.lastSent ≤ ·.lastSent) := by
  obtain ⟨hb, hsent⟩ := h.persists Scoreboard.persists_chronological
    (fun hle hc => hc.later hle) fun _ => ⟨.nil, fun _ hr => absurd hr List.not_mem_nil⟩
  have hlinked : ∀ r ∈ g.board.records, r.linked = true ↔ r.flags.sacked = false := by
    intro r hr
    rw [(hb.records r hr).linked, Bool.not_eq_true']
  refine ⟨hlinked, fun r => ?_, ?_, hb.ordered_starts, hsent.pairwise⟩
  · rw [hb.mem_ordered]
    exact and_congr_right fun hr => hlinked r hr
  · refine List.Nodup.of_map (·.start) ?_
    rw [hb.ordered_starts]
    exact hb.nodup_order

/-- The middle of the second record has arrived, so that its two ends stand where it stood, and the
lower end of the first one was sent again and then delivered in part. -/
theorem in_sending_order_after_resend : ∃ g : Engine FixedWindow,
    (g.Timely 0 70 ∧ g.board.ordered.map (fun r => (r.start, r.stop, r.lastSent))
      = [(500, 1460, 0), (1460, 2000, 10), (3000, 4380, 10), (200, 500, 60)]) ∧
    (∀ r ∈ g.board.records, r.linked = true ↔ r.flags.sacked = false) ∧
    (∀ r, r ∈ g.board.ordered ↔ r ∈ g.board.records ∧ r.flags.sacked = false) ∧
    g.board.ordered.Nodup ∧ g.board.ordered.map (·.start) = g.board.order ∧
    g.board.ordered.Pairwise (·.lastSent ≤ ·.lastSent) := by
  have started : Engine.start {} (FixedWindow.ofSettings {}) .discard 0 0 = .ok _ := rfl
  have first := (Timely.start started).step (Nat.le_refl 0) (.send ⟨0, 1460⟩ {} ⟨rfl, rfl⟩)
  have second := first.step (show 0 ≤ 10 by decide) (.send ⟨1460, 4380⟩ {} ⟨rfl, rfl⟩)
  have sacked := second.step (show 10 ≤ 50 by decide)
    (.ack { cumulative := 0, blocks := [⟨2000, 3000⟩] })
  have resent := sacked.step (show 50 ≤ 60 by decide) (.send ⟨0, 500⟩ {} ⟨rfl, rfl⟩)
  have trimmed := resent.step (show 60 ≤ 70 by decide) (.ack { cumulative := 200, blocks := [] })
  exact ⟨_, ⟨trimmed, by decide +kernel⟩, Timely.in_sending_order trimmed⟩

end Engine

end LossRecovery
