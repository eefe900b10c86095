import LossRecovery.Proofs.RecordCuts

/-!
# `LossRecovery.Proofs.BlockCuts` — a block is marked one cut after another

Carving a block out of the missing records is one step here. Where records are divided one at a time,
it is a walk: each missing record is cut below the block if it begins there and above it if it ends
there, and each of these cuts may be refused at the record limit. The cuts are reckoned up before the
first one is made. That reckoning decides exactly how the walk ends, so that no walk that is begun
stops halfway.

## Contents
- `markRecord`, `markRecords`: one record, and a walk over records, by single cuts.
- `Coherent.markRecords_eq`: the walk makes the cuts of all of its records, if there is room for them.
- `Coherent.markRecords_overlapping`: what the walk over a block comes to.
-/

namespace LossRecovery

namespace Scoreboard

variable {b : Scoreboard} {r : SendRecord} {x : SeqRange} {now : Nat}

/-! ## Marking by single cuts -/

/-- Mark the part inside `x` of the record that starts at `start`: cut it off below and above, as far
as the record reaches there, and take it out of the sending order. Tells how many cuts were made. A
record that is gone, or has arrived, is passed over. -/
def markRecord (now : Nat) (x : SeqRange) (b : Scoreboard) (start : Nat) :
    Except Error (Scoreboard × Nat) :=
  match b.record? start with
  | none => .ok (b, 0)
  | some r =>
    if r.isDelivered then .ok (b, 0)
    else do
      let inside := max r.start x.start
      let lowered ← b.splitIf (r.start < x.start) r.start x.start
      let cut ← lowered.splitIf (x.stop < r.stop) inside x.stop
      .ok ((cut.modifyAt inside (AckPass.sackedRecord now)).unlink inside, (r.carve x).cuts)

/-- Mark the parts inside `x` of the records with the given starts, one after another, until a cut is
refused. -/
def markRecords (now : Nat) (x : SeqRange) (b : Scoreboard) :
    List Nat → Except Error (Scoreboard × Nat)
  | [] => .ok (b, 0)
  | start :: rest => do
    let marked ← b.markRecord now x start
    let done ← markRecords now x marked.1 rest
    .ok (done.1, marked.2 + done.2)

namespace Coherent

section Marking

variable (h : b.Coherent) (hr : r ∈ b.records)

include h hr

/-- Marking one record makes its cuts, if there is room for them. -/
theorem markRecord_eq (now : Nat) (hx : x.start < x.stop) (ho : r.overlaps x = true)
    (hm : r.isDelivered = false) :
    b.markRecord now x r.start = granted b.limit b.size (r.carve x).cuts
      (b.divide r.start (r.carvedParts (AckPass.sackedRecord now) x), (r.carve x).cuts) := by
  have hne := (h.tiles.bounds hr).2.1
  have hl := h.linked_of_missing hr hm
  -- First what lies below the block is cut off, then what lies above it is cut off the rest.
  have hlo := SendRecord.straddles_start hne hx ho
  have hhi := SendRecord.lowered_straddles hne hx ho
  obtain ⟨h1, hsize⟩ := h.divide_cutParts hr hlo
  have hlowered := mem_divide hr (SendRecord.mem_lowered (r := r) (x := x))
  have hsecond := h1.splitIf_eq hlowered hhi
  rw [h.divide_carve hr hx ho, SendRecord.lowered_start, hsize] at hsecond
  -- What remains is marked, where it stands.
  have hmark := h.unlink_carve (f := AckPass.sackedRecord now) hr hx ho hl rfl rfl
  unfold markRecord
  rw [h.record?_eq hr]
  dsimp only
  rw [hm, if_neg Bool.false_ne_true, h.splitIf_eq hr hlo, SendRecord.carve_cuts]
  refine granted_bind ?_
  show (Scoreboard.splitIf _ _ _ _ >>= _) = _
  rw [hsecond, granted_map fun cut : Scoreboard => (_, _), hmark]
  rfl

/-- A record that has arrived is passed over. -/
theorem markRecord_delivered (now : Nat) (hd : r.isDelivered = true) :
    b.markRecord now x r.start = .ok (b, 0) := by
  unfold markRecord
  rw [h.record?_eq hr]
  exact if_pos hd

end Marking

/-- Marking records one after another makes all of their cuts, if there is room for them. -/
theorem markRecords_eq (h : b.Coherent) (now : Nat) (hx : x.start < x.stop)
    {todo : List SendRecord} (htodo : ∀ r ∈ todo, r ∈ b.records ∧ r.overlaps x = true)
    (hn : todo.Nodup) :
    b.markRecords now x (todo.map (·.start)) = granted b.limit b.size (cutsOf x todo)
      (b.divideAll (SendRecord.carvedParts (AckPass.sackedRecord now) x) todo, cutsOf x todo) := by
  -- Along the records still to be marked; the others stay where they are.
  induction todo generalizing b with
  | nil =>
    rw [h.divideAll_nil]
    rfl
  | cons r rest ih =>
    obtain ⟨hr, ho⟩ := htodo r List.mem_cons_self
    obtain ⟨hfresh, hrest⟩ := List.nodup_cons.mp hn
    have hothers := fun q hq => htodo q (List.mem_cons_of_mem r hq)
    show (b.markRecord now x r.start >>= _) = _
    cases hd : r.isDelivered with
    | true =>
      rw [h.markRecord_delivered hr now hd, h.divideAll_cons_of_delivered hd,
        cutsOf_cons_of_delivered hd]
      show (b.markRecords now x (rest.map (·.start)) >>= _) = _
      rw [ih h hothers hrest, granted_map fun done : Scoreboard × Nat => (_, _), Nat.zero_add]
    | false =>
      have hne := (h.tiles.bounds hr).2.1
      have hmiddle := (h.records r hr).of_isPart (SendRecord.isPart_carve_middle hne hx ho)
      obtain ⟨h1, hsize⟩ := h.coherent_carvedParts (f := AckPass.sackedRecord now) hr (fun _ => rfl)
        (fun _ => rfl) hx ho (h.linked_of_missing hr hd) (sackedRecord_coherent hmiddle)
      have hkept : ∀ q ∈ rest,
          q ∈ (b.divide r.start (r.carvedParts (AckPass.sackedRecord now) x)).records ∧
          q.overlaps x = true := fun q hq =>
        ⟨h.mem_divide_of_ne hr (hothers q hq).1 fun he => hfresh (he ▸ hq), (hothers q hq).2⟩
      rw [h.markRecord_eq hr now hx ho hd, cutsOf_cons_of_missing hd]
      refine granted_bind ?_
      show (Scoreboard.markRecords now x _ (rest.map (·.start)) >>= _) = _
      rw [ih h1 hkept hrest, granted_map fun done : Scoreboard × Nat => (_, _), hsize,
        h.divideAll_cons_of_missing hr hd (SendRecord.tiles_carve (f := AckPass.sackedRecord now) hne
          hx ho (fun _ => rfl) fun _ => rfl) h1 (fun q hq => (hothers q hq).1) hfresh]
      rfl

/-- The walk over a block, one cut after another, ends with the block carved out and marked, after
exactly the cuts that were reckoned up, if these fit; if they do not, it would run out of room. -/
theorem markRecords_overlapping (h : b.Coherent) (hx : x.start < x.stop) (now : Nat) :
    b.markRecords now x ((b.overlapping x).map (·.start))
      = if b.cutsFit x then
          .ok (b.carveMissing x (AckPass.sackedRecord now), b.cutsNeeded x)
        else .error .exhausted := by
  rw [h.markRecords_eq now hx (fun r hr => (mem_overlapping hx).mp hr) (h.nodup_overlapping x),
    h.cutsOf_overlapping hx, h.divideAll_overlapping hx]
  unfold granted cutsFit
  simp only [Bool.or_eq_true, beq_iff_eq, decide_eq_true_eq]

end Coherent

end Scoreboard

end LossRecovery
