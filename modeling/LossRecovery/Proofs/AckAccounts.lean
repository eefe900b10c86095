import LossRecovery.Proofs.Bytes
import LossRecovery.Proofs.RangeSets
import LossRecovery.Proofs.Totals

/-!
# `LossRecovery.Proofs.AckAccounts` — what a pass over an ack counts

A pass walks over records twice: over those below a new left edge, and over those a block marks.
Each walk changes the counters of the ledger and the outcome by what it finds, and leaves the
scoreboard alone. Beside that, this module says what the operations that follow a walk do to the
totals the counters stand for.

## Contents
- `coveredBytes`, `remember`: what a walk counts and keeps of one record.
- `releaseWalk_holes`, `sackWalk_sacked` and their like: the effect of a whole walk.
- `totalLength_carveMissing`, `totalLength_modifyMissing`, `totalLength_coalesce`,
  `totalLength_of_append`: the totals after an operation on the scoreboard.
-/

namespace LossRecovery

open Engine (totalLength)

/-! ## Folds -/

section Folds

variable {α β γ : Type}

/-- What is seen of the state of a walk is walked along. -/
theorem foldl_project (f : α → γ) {g : α → β → α} {h : γ → β → γ} (l : List β) (a : α)
    (H : ∀ a x, f (g a x) = h (f a) x) : f (l.foldl g a) = l.foldl h (f a) :=
  (List.foldl_hom f fun a x => (H a x).symm).symm

/-- What no step of a walk changes stays as it is. -/
theorem foldl_keep (f : α → γ) {g : α → β → α} (l : List β) (a : α) (H : ∀ a x, f (g a x) = f a) :
    f (l.foldl g a) = f a := by
  induction l generalizing a with
  | nil => rfl
  | cons x rest ih => exact (ih (g a x)).trans (H a x)

theorem foldl_add_eq (l : List β) (f : β → Nat) (n : Nat) :
    l.foldl (fun m x => m + f x) n = n + Number.total (l.map f) := by
  induction l generalizing n with
  | nil => rfl
  | cons x rest ih =>
    rw [List.foldl_cons, ih, List.map_cons, Number.total_cons, Nat.add_assoc]

theorem foldl_sub_eq (l : List β) (f : β → Nat) (n : Nat) :
    l.foldl (fun m x => m - f x) n = n - Number.total (l.map f) := by
  induction l generalizing n with
  | nil => rfl
  | cons x rest ih =>
    rw [List.foldl_cons, ih, List.map_cons, Number.total_cons, Nat.sub_sub]

end Folds

theorem Number.total_map_add {β : Type} (l : List β) (f g : β → Nat) :
    Number.total (l.map fun x => f x + g x) = Number.total (l.map f) + Number.total (l.map g) := by
  induction l with
  | nil => rfl
  | cons x rest ih =>
    simp only [List.map_cons, Number.total_cons, ih]
    omega

namespace AckPass

variable {i : AckInput} {p : AckPass} {r : SendRecord} {rs : List SendRecord} {block : SeqRange}

/-! ## Records below the new left edge -/

/-- How many bytes of a record the cumulative ack covers. -/
def coveredBytes (i : AckInput) (r : SendRecord) : Nat := min r.stop i.ack.cumulative - r.start

/-- Remember a delivered record, given as it was before. -/
def remember (i : AckInput) (a : RecentAck) (r : SendRecord) : RecentAck :=
  a.update (Delivery.ofRecord r) i.ack.echo i.minRtt i.now

theorem measure_counts (o : AckOutcome) (sent : Option Nat) (now : Nat) :
    (o.measure sent now).cumulative = o.cumulative ∧ (o.measure sent now).sacked = o.sacked
      ∧ (o.measure sent now).refused = o.refused := by
  unfold AckOutcome.measure
  split
  · exact ⟨rfl, rfl, rfl⟩
  · split <;> exact ⟨rfl, rfl, rfl⟩

@[simp] theorem deliver_cumulative : (deliver i p r).outcome.cumulative = p.outcome.cumulative :=
  (measure_counts _ _ _).1

@[simp] theorem deliver_sacked : (deliver i p r).outcome.sacked = p.outcome.sacked :=
  (measure_counts _ _ _).2.1

@[simp] theorem deliver_refused : (deliver i p r).outcome.refused = p.outcome.refused :=
  (measure_counts _ _ _).2.2

section ReleaseWalk

theorem releaseWalk_board : (rs.foldl (releaseRecord i) p).board = p.board :=
  foldl_keep (·.board) rs p fun a x => by
    unfold releaseRecord
    cases x.flags.sacked <;> rfl

theorem releaseWalk_tracker : (rs.foldl (releaseRecord i) p).tracker = p.tracker :=
  foldl_keep (·.tracker) rs p fun a x => by
    unfold releaseRecord
    cases x.flags.sacked <;> rfl

theorem releaseWalk_outcome :
    (rs.foldl (releaseRecord i) p).outcome.sacked = p.outcome.sacked
      ∧ (rs.foldl (releaseRecord i) p).outcome.refused = p.outcome.refused := by
  constructor
  · apply foldl_keep (·.outcome.sacked) rs p
    intro a x
    unfold releaseRecord
    cases x.flags.sacked with
    | true => rfl
    | false => exact deliver_sacked
  · apply foldl_keep (·.outcome.refused) rs p
    intro a x
    unfold releaseRecord
    cases x.flags.sacked with
    | true => rfl
    | false => exact deliver_refused

theorem releaseWalk_holes :
    (rs.foldl (releaseRecord i) p).ledger.holeBytes
      = p.ledger.holeBytes
        - Number.total (rs.map fun r => if r.hole then coveredBytes i r else 0) := by
  rw [← foldl_sub_eq]
  apply foldl_project (·.ledger.holeBytes) rs p
  intro a x
  unfold releaseRecord coveredBytes
  cases x.hole <;> cases x.flags.sacked <;> rfl

theorem releaseWalk_sacked :
    (rs.foldl (releaseRecord i) p).ledger.sackedBytes
      = p.ledger.sackedBytes
        - Number.total (rs.map fun r => if r.flags.sacked then coveredBytes i r else 0) := by
  rw [← foldl_sub_eq]
  apply foldl_project (·.ledger.sackedBytes) rs p
  intro a x
  unfold releaseRecord coveredBytes
  cases x.flags.sacked <;> rfl

theorem releaseWalk_cumulative :
    (rs.foldl (releaseRecord i) p).outcome.cumulative
      = p.outcome.cumulative
        + Number.total (rs.map fun r => if r.flags.sacked then 0 else coveredBytes i r) := by
  rw [← foldl_add_eq]
  apply foldl_project (·.outcome.cumulative) rs p
  intro a x
  unfold releaseRecord coveredBytes
  cases x.flags.sacked with
  | true => rfl
  | false => exact deliver_cumulative

theorem releaseWalk_recent :
    (rs.foldl (releaseRecord i) p).recent
      = (rs.filter fun r => !r.flags.sacked).foldl (remember i) p.recent := by
  rw [List.foldl_filter]
  apply foldl_project (·.recent) rs p
  intro a x
  unfold releaseRecord
  cases x.flags.sacked <;> rfl

end ReleaseWalk

/-! ## Records a block marks -/

section SackWalk

theorem sackWalk_filter :
    (rs.foldl (sackRecord i block) p).tracker.filter = p.tracker.filter :=
  foldl_keep (·.tracker.filter) (g := sackRecord i block) rs p fun _ _ => rfl

theorem sackWalk_outcome :
    (rs.foldl (sackRecord i block) p).outcome.cumulative = p.outcome.cumulative
      ∧ (rs.foldl (sackRecord i block) p).outcome.refused = p.outcome.refused :=
  ⟨foldl_keep (·.outcome.cumulative) (g := sackRecord i block) rs p fun _ _ => deliver_cumulative,
    foldl_keep (·.outcome.refused) (g := sackRecord i block) rs p fun _ _ => deliver_refused⟩

theorem sackWalk_holes :
    (rs.foldl (sackRecord i block) p).ledger.holeBytes
      = p.ledger.holeBytes
        - Number.total (rs.map fun r =>
            if (r.carve block).middle.hole then (r.carve block).middle.length else 0) := by
  rw [← foldl_sub_eq]
  apply foldl_project (·.ledger.holeBytes) rs p
  intro a x
  show (if (x.carve block).middle.hole then _ else _) = _
  cases (x.carve block).middle.hole <;> rfl

theorem sackWalk_sacked :
    (rs.foldl (sackRecord i block) p).ledger.sackedBytes
      = p.ledger.sackedBytes + Number.total (rs.map fun r => (r.carve block).middle.length) := by
  rw [← foldl_add_eq]
  apply foldl_project (·.ledger.sackedBytes) (g := sackRecord i block) rs p
  intro _ _
  rfl

theorem sackWalk_newly :
    (rs.foldl (sackRecord i block) p).outcome.sacked
      = p.outcome.sacked + Number.total (rs.map fun r => (r.carve block).middle.length) := by
  rw [← foldl_add_eq]
  apply foldl_project (·.outcome.sacked) (g := sackRecord i block) rs p
  intro _ _
  exact deliver_sacked

theorem sackWalk_highest :
    (rs.foldl (sackRecord i block) p).tracker.highest
      = rs.foldl (fun h r => max h (r.carve block).middle.stop) p.tracker.highest :=
  foldl_project (·.tracker.highest) (g := sackRecord i block) rs p fun _ _ => rfl

theorem sackWalk_recent :
    (rs.foldl (sackRecord i block) p).recent
      = rs.foldl (fun a r => remember i a (r.carve block).middle) p.recent :=
  foldl_project (·.recent) (g := sackRecord i block) rs p fun _ _ => rfl

end SackWalk

end AckPass

/-! ## Totals after an operation -/

namespace Scoreboard

variable {b : Scoreboard} {x : SeqRange} {p : SendRecord → Bool} {f : SendRecord → SendRecord}

/-- The missing records sharing a number with a range. -/
theorem missing_eq_filter (hx : x.start < x.stop) :
    (b.overlapping x).filter (fun r => !r.isDelivered)
      = b.records.filter fun r => r.overlaps x && !r.isDelivered := by
  unfold overlapping
  rw [if_neg (by rw [SeqRange.isEmpty_iff]; omega), List.filter_filter]
  exact List.filter_congr fun r _ => Bool.and_comm _ _

/-- Carving changes a total by what it changes about the middle parts. -/
theorem totalLength_carveMissing (h : b.Coherent) (hx : x.start < x.stop)
    (hp : ∀ r ∈ b.records, ∀ s, s.IsPart r → p s = p r) (hf : ∀ s, (f s).length = s.length) :
    totalLength p (b.carveMissing x f).records
        + Number.total (((b.overlapping x).filter fun r => !r.isDelivered).map fun r =>
            if p r then (r.carve x).middle.length else 0)
      = totalLength p b.records
        + Number.total (((b.overlapping x).filter fun r => !r.isDelivered).map fun r =>
            if p (f (r.carve x).middle) then (r.carve x).middle.length else 0) := by
  rw [missing_eq_filter hx]
  refine totalLength_flatMap ?_ ?_
  · intro r _ hmiss
    rw [if_neg (by rw [hmiss]; exact Bool.false_ne_true)]
  · intro r hr hit
    rw [if_pos hit]
    rw [Bool.and_eq_true] at hit
    exact totalLength_parts (h.tiles.bounds hr).2.1 hx hit.1 (hp r hr) hf

/-- Changing whole records changes a total by what it changes about them. -/
theorem totalLength_modifyMissing (hx : x.start < x.stop) (hf : ∀ s, (f s).length = s.length) :
    totalLength p (b.modify fun r => if r.overlaps x && !r.isDelivered then f r else r).records
        + Number.total (((b.overlapping x).filter fun r => !r.isDelivered).map fun r =>
            if p r then r.length else 0)
      = totalLength p b.records
        + Number.total (((b.overlapping x).filter fun r => !r.isDelivered).map fun r =>
            if p (f r) then r.length else 0) := by
  rw [missing_eq_filter hx]
  unfold modify
  rw [← List.flatMap_singleton' b.records, List.map_flatMap]
  simp only [List.map_cons, List.map_nil]
  rw [List.flatMap_singleton']
  refine totalLength_flatMap ?_ ?_
  · intro r _ hmiss
    rw [if_neg (by rw [hmiss]; exact Bool.false_ne_true)]
  · intro r _ hit
    rw [if_pos hit, totalLength_cons, totalLength_nil, hf]
    omega

/-- Sending missing data again changes a total by what it changes about the parts sent. -/
theorem totalLength_resendOnBoard (h : b.Coherent) (hx : x.start < x.stop) (fits : Bool)
    (hp : ∀ r ∈ b.records, ∀ s, s.IsPart r → p s = p r) (hf : ∀ s, (f s).length = s.length) :
    totalLength p (Engine.resendOnBoard b x fits f).records
        + Number.total (((b.overlapping x).filter fun r => !r.isDelivered).map fun r =>
            if p r then (Engine.resentPart x fits r).length else 0)
      = totalLength p b.records
        + Number.total (((b.overlapping x).filter fun r => !r.isDelivered).map fun r =>
            if p (f (Engine.resentPart x fits r)) then (Engine.resentPart x fits r).length
            else 0) := by
  cases fits with
  | true => exact totalLength_carveMissing h hx hp hf
  | false => exact totalLength_modifyMissing hx hf

/-- Joining keeps a total if it chooses both records of a join or neither. -/
theorem totalLength_coalesceFrom {near : SendRecord → Bool} {lo hi : Nat} {l : SendRecord}
    {rest : List SendRecord} (ht : Tiles lo (l :: rest) hi) (hl : l.Coherent)
    (hrest : ∀ r ∈ rest, r.Coherent)
    (hp : ∀ a c : SendRecord, a.Coherent → c.Coherent → a.canAbsorb c = true →
      p a = p c ∧ p (a.absorb c) = p a) :
    totalLength p (coalesceFrom near l rest).1 = totalLength p (l :: rest) := by
  induction rest generalizing lo l with
  | nil => rfl
  | cons r rest ih =>
    obtain ⟨hls, hlne, hrs, hrne, htail⟩ := ht
    have hr := hrest r List.mem_cons_self
    have hrest' := fun q hq => hrest q (List.mem_cons_of_mem r hq)
    unfold coalesceFrom
    split
    · next hj =>
      -- The two records lie end to end, so the join is as long as both.
      rw [Bool.and_eq_true] at hj
      obtain ⟨h1, h2⟩ := hp l r hl hr hj.2
      have hlen : (l.absorb r).length = l.length + r.length := by
        show r.stop - l.start = (l.stop - l.start) + (r.stop - r.start)
        omega
      rw [ih (l := l.absorb r) ⟨hls, by show l.start < r.stop; omega, htail⟩ (hl.absorb hr hj.2)
        hrest', totalLength_cons, totalLength_cons, totalLength_cons, h2, ← h1, hlen]
      cases p l with
      | false =>
        simp only [Bool.false_eq_true, if_false]
        omega
      | true =>
        simp only [if_true]
        omega
    · show totalLength p (l :: (coalesceFrom near r rest).1) = _
      rw [totalLength_cons, totalLength_cons, ih ⟨hrs, hrne, htail⟩ hr hrest']

theorem totalLength_coalesce (h : b.Coherent)
    (hp : ∀ a c : SendRecord, a.Coherent → c.Coherent → a.canAbsorb c = true →
      p a = p c ∧ p (a.absorb c) = p a) :
    totalLength p (b.coalesce x).1.records = totalLength p b.records := by
  show totalLength p (coalesceRecords (·.overlaps x) b.records).1 = totalLength p b.records
  have ht := h.tiles
  have hco := h.records
  cases hrec : b.records with
  | nil => rfl
  | cons l rest =>
    rw [hrec] at ht hco
    exact totalLength_coalesceFrom ht (hco l List.mem_cons_self)
      (fun r hr => hco r (List.mem_cons_of_mem _ hr)) hp

/-- New data neither has arrived nor was sent again. -/
theorem totalLength_of_append {b' : Scoreboard} {flags : Flags} {now mark : Nat}
    (hx : x.start < x.stop) (hs : x.start = b.top) (hb : b.append x flags now mark = .ok b')
    (hlast : ∀ last ∈ b.records, continuesBurst last x flags now = true →
      ∀ stop, p { last.restamp now with stop := stop } = false ∧ p last = false)
    (hnew : p { SendRecord.ofSend x flags now mark with linked := true } = false) :
    totalLength p b'.records = totalLength p b.records := by
  rcases append_eq_ok flags now mark hx hs with
    ⟨last, below, hrec, hcont, heq⟩ | heq
  · rw [heq] at hb
    injection hb with hb
    obtain ⟨h1, h2⟩ := hlast last (by rw [hrec]; exact List.mem_append_right _ (by simp)) hcont x.stop
    rw [← hb, hrec, totalLength_append, totalLength_append, totalLength_cons, totalLength_cons, h1,
      h2]
    rfl
  · rw [heq] at hb
    injection hb with hb
    rw [← hb]
    rw [totalLength_append, totalLength_cons, hnew]
    rfl

end Scoreboard

end LossRecovery
