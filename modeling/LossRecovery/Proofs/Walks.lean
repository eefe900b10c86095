import LossRecovery.Proofs.RecordCuts
import LossRecovery.Scoreboard.Narration

/-!
# `LossRecovery.Proofs.Walks` — operations that may stop halfway

A call changes its scoreboard in single steps: records are looked up, cut and joined one after another,
and each of these steps may fail. A walk spells the steps out. It ends with a result or with an error,
and in either case with the state as it was left, so that what a failure would leave behind can be seen.

## Contents
- `Walk`: steps that may fail, with `andThen`, and `each` for a list.
- `BoardWork`: a scoreboard being worked on, with the walks `cut`, `isolate`, `join` and `joinNear`.
- `Coherent.isolate_eq`: two cuts set the part of a record inside a range free.
- `Coherent.joinNear_eq`: joining neighbours one after another joins all of them.
-/

namespace LossRecovery

/-! ## Walks -/

/-- Steps on a state that may fail. A failure leaves the state as it is at that moment. -/
abbrev Walk (σ α : Type) : Type := σ → σ × Except Error α

namespace Walk

variable {σ α β : Type}

/-- Go on with what the first walk found, unless it failed. -/
def andThen (w : Walk σ α) (next : α → Walk σ β) : Walk σ β := fun s =>
  match w s with
  | (s, .ok a) => next a s
  | (s, .error e) => (s, .error e)

theorem andThen_of_ok {w : Walk σ α} {next : α → Walk σ β} {s s' : σ} {a : α}
    (h : w s = (s', .ok a)) : w.andThen next s = next a s' := by
  unfold andThen
  rw [h]

/-- Take a step for each item of a list. -/
def each {ι : Type} (step : ι → Walk σ Unit) : List ι → Walk σ Unit
  | [] => fun s => (s, .ok ())
  | item :: rest => (step item).andThen fun _ => each step rest

end Walk

/-! ## Work on a scoreboard -/

/-- A scoreboard being worked on. -/
structure BoardWork where
  board : Scoreboard
  /-- How many operations succeeded. -/
  done : Nat := 0
  /-- What there is to tell, in order. -/
  told : List Event := []

namespace BoardWork

variable {w : BoardWork} {b : Scoreboard} {e : Error}

/-- Take over the result of an operation. -/
def after (w : BoardWork) (result : Except Error Scoreboard) (events : List Event) :
    BoardWork × Except Error Unit :=
  let told := w.told ++ events
  match result with
  | .ok b => (⟨b, w.done + 1, told⟩, .ok ())
  | .error e => ({ w with told := told }, .error e)

/-- Cut the record that starts at `start` at `point`. -/
def cut (start point : Nat) : Walk BoardWork Unit := fun w =>
  let result := w.board.split start point
  w.after result (w.board.splitEvents start point result)

/-- Cut the record that starts at `start` at `point` if it `reaches` over it. -/
def cutIf (reaches : Bool) (start point : Nat) : Walk BoardWork Unit := fun w =>
  if reaches then cut start point w else (w, .ok ())

/-- Cut off what reaches over the ends of `x` from a record. The rest starts at the given number. -/
def isolate (r : SendRecord) (x : SeqRange) : Walk BoardWork Nat :=
  let inside := max r.start x.start
  (cutIf (r.start < x.start) r.start x.start).andThen fun _ =>
    (cutIf (x.stop < r.stop) inside x.stop).andThen fun _ w => (w, .ok inside)

/-- Join two neighbours. -/
def join (left right : Nat) : Walk BoardWork Unit := fun w =>
  let result := w.board.merge left right
  w.after result (Scoreboard.mergeEvents left result)

/-- Join the records with the given starts to the one that starts at `left`, as far up as it goes, and
start over from the first one that has nothing to join. -/
def joinUp (left : Nat) : List Nat → Walk BoardWork Unit
  | [], w => (w, .ok ())
  | right :: rest, w =>
    match join left right w with
    | (w, .ok ()) => joinUp left rest w
    | (w, .error .done) => joinUp right rest w
    | (w, .error e) => (w, .error e)

/-- Join neighbours among the records with the given starts. -/
def joinAll : List Nat → Walk BoardWork Unit
  | [], w => (w, .ok ())
  | left :: rest, w => joinUp left rest w

/-- Join the neighbours that overlap `x`. -/
def joinNear (x : SeqRange) : Walk BoardWork Unit := fun w =>
  joinAll ((w.board.overlapping x).map (·.start)) w

theorem cut_of_ok {start point : Nat} (h : w.board.split start point = .ok b) : cut start point w
    = (⟨b, w.done + 1, w.told ++ w.board.splitEvents start point (.ok b)⟩, .ok ()) := by
  unfold cut
  rw [h]
  rfl

theorem join_of_ok {left right : Nat} (h : w.board.merge left right = .ok b) : join left right w
    = (⟨b, w.done + 1, w.told ++ Scoreboard.mergeEvents left (.ok b)⟩, .ok ()) := by
  unfold join
  rw [h]
  rfl

theorem join_of_error {left right : Nat} (h : w.board.merge left right = .error e) :
    join left right w = (w, .error e) := by
  unfold join
  rw [h]
  exact congrArg (fun told => (({ w with told := told } : BoardWork), Except.error e))
    (List.append_nil _)

end BoardWork

/-! ## Cuts -/

namespace SendRecord

variable {r : SendRecord} {x : SeqRange}

/-- What there is to tell about cutting a record if it `reaches` over a point. -/
def cutEvents (r : SendRecord) (reaches : Bool) (point : Nat) : List Event :=
  if reaches then [.recordSplit (r.cut point).1 (r.cut point).2] else []

/-- What there is to tell about carving is what there is to tell about the cuts. -/
theorem carveEvents_eq : r.carveEvents x
    = r.cutEvents (r.start < x.start) x.start ++ (r.lowered x).cutEvents (x.stop < r.stop) x.stop := by
  unfold carveEvents cutEvents lowered carve
  by_cases hlo : r.start < x.start <;> by_cases hhi : x.stop < r.stop <;> simp [hlo, hhi]

end SendRecord

namespace Scoreboard

variable {b : Scoreboard} {l r : SendRecord} {x : SeqRange}

namespace Coherent

variable (h : b.Coherent) (hr : r ∈ b.records)

include h hr

theorem cutIf_eq {reaches : Bool} {point : Nat} (hs : reaches = true → r.straddles point = true)
    (room : reaches.toNat = 0 ∨ b.size + reaches.toNat ≤ b.limit) (done : Nat) (told : List Event) :
    BoardWork.cutIf reaches r.start point ⟨b, done, told⟩
      = (⟨b.divide r.start (r.cutParts reaches point), done + reaches.toNat,
          told ++ r.cutEvents reaches point⟩, .ok ()) := by
  cases reaches with
  | false =>
    rw [SendRecord.cutParts, if_neg Bool.false_ne_true, h.divide_self hr]
    simp [BoardWork.cutIf, SendRecord.cutEvents]
  | true =>
    obtain ⟨h1, -⟩ := h.divide_cutParts hr hs
    have hsplit := h.split_eq hr (hs rfl)
    unfold granted at hsplit
    rw [if_pos (show 1 = 0 ∨ b.size + 1 ≤ b.limit from room)] at hsplit
    -- Both halves are found again, each by its start.
    have hlower : (b.divide r.start (r.cutParts true point)).record? r.start = some (r.cut point).1 :=
      h1.record?_eq (mem_divide (q := (r.cut point).1) hr List.mem_cons_self)
    have hupper : (b.divide r.start (r.cutParts true point)).record? point = some (r.cut point).2 :=
      h1.record?_eq (mem_divide (q := (r.cut point).2) hr (List.mem_cons_of_mem _ List.mem_cons_self))
    have hevents : b.splitEvents r.start point (.ok (b.divide r.start (r.cutParts true point)))
        = r.cutEvents true point := by
      unfold splitEvents
      dsimp only
      rw [hlower, hupper]
      rfl
    show BoardWork.cut r.start point _ = _
    rw [BoardWork.cut_of_ok hsplit]
    exact congrArg (fun events => (BoardWork.mk _ _ (told ++ events), Except.ok ())) hevents

/-- Where there is room for the cuts, the part inside of a range is set free. -/
theorem isolate_eq (hx : x.start < x.stop) (ho : r.overlaps x = true)
    (room : (r.carve x).cuts = 0 ∨ b.size + (r.carve x).cuts ≤ b.limit) (done : Nat)
    (told : List Event) :
    BoardWork.isolate r x ⟨b, done, told⟩
      = (⟨b.divide r.start (r.carve x).parts, done + (r.carve x).cuts, told ++ r.carveEvents x⟩,
          .ok (max r.start x.start)) := by
  have hne := (h.tiles.bounds hr).2.1
  have hlo := SendRecord.straddles_start hne hx ho
  have hhi := SendRecord.lowered_straddles hne hx ho
  rw [SendRecord.carve_cuts] at room
  obtain ⟨h1, hsize⟩ := h.divide_cutParts hr hlo
  have hlowered := mem_divide hr (SendRecord.mem_lowered (r := r) (x := x))
  have hfirst := h.cutIf_eq hr hlo (by omega) done told
  have hsecond := h1.cutIf_eq hlowered hhi (by rw [hsize]; show _ ∨ b.size + _ + _ ≤ b.limit; omega)
    (done + (decide (r.start < x.start)).toNat)
    (told ++ r.cutEvents (r.start < x.start) x.start)
  unfold BoardWork.isolate
  rw [Walk.andThen_of_ok hfirst, ← SendRecord.lowered_start (r := r) (x := x),
    Walk.andThen_of_ok hsecond, h.divide_carve hr hx ho, SendRecord.carve_cuts,
    SendRecord.carveEvents_eq, ← Nat.add_assoc, ← List.append_assoc]

end Coherent

/-! ## Joins -/

/-- The records near an interval are coalesced by themselves: those below it stay as they are. -/
theorem coalesceRecords_cons_of_far {near : SendRecord → Bool} {rest : List SendRecord}
    (hl : near l = false) : coalesceRecords near (l :: rest)
      = (l :: (coalesceRecords near rest).1, (coalesceRecords near rest).2) := by
  cases rest with
  | nil => rfl
  | cons r rest =>
    show coalesceFrom near l (r :: rest) = _
    rw [coalesceFrom, hl, Bool.false_and, Bool.false_and, if_neg Bool.false_ne_true]
    rfl

/-- Nothing is joined where nothing is near. -/
theorem coalesceFrom_of_far {near : SendRecord → Bool} {rest : List SendRecord}
    (hrest : ∀ r ∈ rest, near r = false) : coalesceFrom near l rest = (l :: rest, []) := by
  induction rest generalizing l with
  | nil => rfl
  | cons r rest ih =>
    rw [coalesceFrom, hrest r List.mem_cons_self, Bool.and_false, Bool.false_and,
      if_neg Bool.false_ne_true, ih fun q hq => hrest q (List.mem_cons_of_mem _ hq)]

/-- Among records that start at different numbers, a pair of neighbours is replaced by their join. -/
theorem replace_pair {below rest : List SendRecord}
    (hn : ((below ++ l :: r :: rest).map (·.start)).Nodup) :
    ((below ++ l :: r :: rest).filter (·.start != r.start)).map
        (fun q => if q.start = (l.absorb r).start then l.absorb r else q)
      = below ++ l.absorb r :: rest := by
  simp only [List.map_append, List.map_cons, List.nodup_append, List.nodup_cons, List.mem_cons,
    List.mem_map, not_or, not_exists, not_and] at hn
  obtain ⟨-, ⟨⟨hlr, hlrest⟩, hrrest, -⟩, hbelow⟩ := hn
  -- Every other record starts elsewhere.
  have hothers : ∀ q, q ∈ below ∨ q ∈ rest → q.start ≠ l.start ∧ q.start ≠ r.start := by
    rintro q (hq | hq)
    · have hne := hbelow _ ⟨q, hq, rfl⟩
      exact ⟨hne l.start (.inl rfl), hne r.start (.inr (.inl rfl))⟩
    · exact ⟨hlrest q hq, hrrest q hq⟩
  have hkept : ∀ qs : List SendRecord, (∀ q ∈ qs, q.start ≠ l.start ∧ q.start ≠ r.start) →
      (qs.filter (·.start != r.start)).map
        (fun q => if q.start = (l.absorb r).start then l.absorb r else q) = qs := by
    intro qs hqs
    rw [List.filter_eq_self.mpr fun q hq => bne_iff_ne.mpr (hqs q hq).2]
    exact (List.map_congr_left fun q hq => if_neg (hqs q hq).1).trans (List.map_id _)
  have hpair : (l :: r :: rest).filter (·.start != r.start) = l :: rest.filter (·.start != r.start) := by
    simp [hlr]
  rw [List.filter_append, List.map_append, hkept below fun q hq => hothers q (.inl hq), hpair,
    List.map_cons, hkept rest fun q hq => hothers q (.inr hq)]
  exact congrArg (fun joined => below ++ joined :: rest) (if_pos rfl)

namespace Coherent

variable {below rest : List SendRecord}

/-- Two neighbours are joined if both have arrived, and otherwise there is nothing to do. -/
theorem merge_eq (h : b.Coherent) (hb : b.records = below ++ l :: r :: rest) :
    b.merge l.start r.start = if l.canAbsorb r then
      .ok { b with records := below ++ l.absorb r :: rest } else .error .done := by
  have ht := h.tiles
  rw [hb] at ht
  have hdistinct := ht.nodup_starts
  have hl : l ∈ b.records := by simp [hb]
  have hr : r ∈ b.records := by simp [hb]
  obtain ⟨mid, -, -, -, hstart, -⟩ := ht.of_append
  unfold merge
  rw [h.record?_eq hl, h.record?_eq hr]
  dsimp only
  rw [if_neg (not_not.mpr hstart.symm)]
  cases hc : l.canAbsorb r with
  | false => rfl
  | true =>
    rw [if_pos rfl, if_pos rfl]
    have hrecords : (b.replacePair (l.absorb r) r.start).records = below ++ l.absorb r :: rest := by
      show (b.records.filter (·.start != r.start)).map _ = _
      rw [hb]
      exact replace_pair hdistinct
    -- Nothing that has arrived stands in the sending order.
    have hunlinked := (unlinked_of_canAbsorb (h.records l hl) (h.records r hr) hc).2
    have horder : (b.replacePair (l.absorb r) r.start).order = b.order := by
      refine List.filter_eq_self.mpr fun s hs => ?_
      obtain ⟨q, hq, hlink, rfl⟩ := mem_linkedStarts.mp (h.order.mem_iff.mp hs)
      refine bne_iff_ne.mpr fun hqr => ?_
      rw [h.eq_of_start hr hq hqr, hunlinked] at hlink
      cases hlink
    exact congrArg₂ (fun records order => Except.ok { b with records := records, order := order })
      hrecords horder

/-- A scoreboard on which two neighbours were joined. -/
theorem joined (h : b.Coherent) (hb : b.records = below ++ l :: r :: rest)
    (hc : l.canAbsorb r = true) :
    ({ b with records := below ++ l.absorb r :: rest } : Scoreboard).Coherent := by
  have ht := h.tiles
  have horder := h.order
  have hl := h.records l (by simp [hb])
  have hr := h.records r (by simp [hb])
  rw [hb] at ht horder
  obtain ⟨mid, hbelow, hstart, hne, hnext, hne', habove⟩ := ht.of_append
  refine ⟨hbelow.append ⟨hstart, by show l.start < r.stop; omega, habove⟩, ?_, ?_⟩
  · obtain ⟨h1, h2⟩ := unlinked_of_canAbsorb hl hr hc
    have h3 : (l.absorb r).linked = false := h1
    refine horder.trans (List.Perm.of_eq ?_)
    simp [linkedStarts, h1, h2, h3]
  · intro q hq
    rcases List.mem_append.mp hq with hq | hq
    · exact h.records q (by simp [hb, hq])
    · rcases List.mem_cons.mp hq with rfl | hq
      · exact hl.absorb hr hc
      · exact h.records q (by simp [hb, hq])

theorem absorb_overlaps (h : b.Coherent) (hx : x.start < x.stop)
    (hb : b.records = below ++ l :: r :: rest) (hl : l.overlaps x = true) (hr : r.overlaps x = true) :
    (l.absorb r).overlaps x = true := by
  have hl' := (h.tiles.bounds (r := l) (by simp [hb])).2.1
  have hr' := (h.tiles.bounds (r := r) (by simp [hb])).2.1
  have ht := h.tiles
  rw [hb] at ht
  obtain ⟨mid, -, -, -, hnext, -⟩ := ht.of_append
  rw [SendRecord.overlaps_iff hl' hx] at hl
  rw [SendRecord.overlaps_iff hr' hx] at hr
  exact (SendRecord.overlaps_iff (show l.start < r.stop by omega) hx).mpr ⟨hl.1, hr.2⟩

/-- Above a record near an interval and one that is not, nothing is near. -/
theorem far_of_far (h : b.Coherent) (hx : x.start < x.stop)
    (hb : b.records = below ++ l :: r :: rest) (hl : l.overlaps x = true) (hr : r.overlaps x = false) :
    ∀ q ∈ r :: rest, q.overlaps x = false := by
  have ht := h.tiles
  rw [hb] at ht
  obtain ⟨mid, -, habove⟩ := ht.of_append
  have hpairs := habove.pairwise
  obtain ⟨-, hlne, hnext, hrne, hrest⟩ := habove
  rw [SendRecord.overlaps_iff hlne hx] at hl
  intro q hq
  have hbounds := hrest.bounds (r := q)
  rw [Bool.eq_false_iff, Ne] at hr ⊢
  rw [SendRecord.overlaps_iff hrne hx] at hr
  rcases List.mem_cons.mp hq with rfl | hq
  · rwa [SendRecord.overlaps_iff hrne hx]
  · have hq := hbounds hq
    rw [SendRecord.overlaps_iff hq.2.1 hx]
    omega

/-- Going up from a record near an interval, neighbours are joined one after another. -/
theorem joinUp_eq (h : b.Coherent) (hx : x.start < x.stop) (hb : b.records = below ++ l :: rest)
    (hl : l.overlaps x = true) (done : Nat) (told : List Event) :
    BoardWork.joinUp l.start ((rest.filter (·.overlaps x)).map (·.start)) ⟨b, done, told⟩
      = (⟨{ b with records := below ++ (coalesceFrom (·.overlaps x) l rest).1 },
          done + (coalesceFrom (·.overlaps x) l rest).2.length,
          told ++ joinEvents (coalesceFrom (·.overlaps x) l rest).2⟩, .ok ()) := by
  -- Along the records above; `l` is what was joined so far.
  induction rest generalizing b below l done told with
  | nil =>
    simp [BoardWork.joinUp, coalesceFrom, joinEvents, ← hb]
  | cons r rest ih =>
    cases hr : r.overlaps x with
    | false =>
      have hfar := h.far_of_far hx hb hl hr
      rw [List.filter_eq_nil_iff.mpr fun q hq => by simp [hfar q hq], coalesceFrom_of_far hfar, ← hb]
      simp [BoardWork.joinUp, joinEvents]
    | true =>
      have hmerge := h.merge_eq hb
      rw [List.filter_cons_of_pos (p := fun q : SendRecord => q.overlaps x) hr, List.map_cons,
        coalesceFrom, hl, hr, Bool.true_and, Bool.true_and]
      unfold BoardWork.joinUp
      cases hc : l.canAbsorb r with
      | true =>
        rw [hc, if_pos rfl] at hmerge
        have hjoined := h.joined hb hc
        have hevents : mergeEvents l.start (.ok { b with records := below ++ l.absorb r :: rest })
            = joinEvents [⟨l.absorb r, r.start⟩] := by
          unfold mergeEvents
          dsimp only
          rw [show l.start = (l.absorb r).start from rfl,
            hjoined.record?_eq (List.mem_append_right _ List.mem_cons_self)]
          rfl
        have hup := ih hjoined rfl (absorb_overlaps h hx hb hl hr) (done + 1)
          (told ++ joinEvents [⟨l.absorb r, r.start⟩])
        rw [BoardWork.join_of_ok hmerge, hevents, if_pos rfl]
        refine hup.trans ?_
        simp [joinEvents, Nat.add_assoc, Nat.add_comm 1]
      | false =>
        rw [hc, if_neg Bool.false_ne_true] at hmerge
        have hbelow : b.records = (below ++ [l]) ++ r :: rest := by simp [hb]
        have hup := ih h hbelow hr done told
        rw [BoardWork.join_of_error hmerge, if_neg Bool.false_ne_true]
        refine hup.trans ?_
        rw [List.append_assoc]
        rfl

theorem joinAll_eq (h : b.Coherent) (hx : x.start < x.stop) (hb : b.records = below ++ rest)
    (done : Nat) (told : List Event) :
    BoardWork.joinAll ((rest.filter (·.overlaps x)).map (·.start)) ⟨b, done, told⟩
      = (⟨{ b with records := below ++ (coalesceRecords (·.overlaps x) rest).1 },
          done + (coalesceRecords (·.overlaps x) rest).2.length,
          told ++ joinEvents (coalesceRecords (·.overlaps x) rest).2⟩, .ok ()) := by
  -- Along the records up to the first one that is near.
  induction rest generalizing below with
  | nil => simp [BoardWork.joinAll, coalesceRecords, joinEvents, ← hb]
  | cons l rest ih =>
    cases hl : l.overlaps x with
    | true =>
      rw [List.filter_cons_of_pos (p := fun q : SendRecord => q.overlaps x) hl]
      exact h.joinUp_eq hx hb hl done told
    | false =>
      have hbelow : b.records = (below ++ [l]) ++ rest := by simp [hb]
      rw [List.filter_cons_of_neg (p := fun q : SendRecord => q.overlaps x) (by simp [hl]),
        ih hbelow, coalesceRecords_cons_of_far hl, List.append_assoc]
      rfl

/-- Joining the neighbours near an interval one after another joins all of them. -/
theorem joinNear_eq (h : b.Coherent) (hx : x.start < x.stop) (done : Nat) (told : List Event) :
    BoardWork.joinNear x ⟨b, done, told⟩
      = (⟨(b.coalesce x).1, done + (b.coalesce x).2.length, told ++ joinEvents (b.coalesce x).2⟩,
          .ok ()) := by
  have hnonempty : ¬ x.isEmpty = true := by
    rw [SeqRange.isEmpty_iff]
    omega
  have hcoalesced : ({ b with records := (coalesceRecords (·.overlaps x) b.records).1 } : Scoreboard)
      = (b.coalesce x).1 :=
    congrArg (fun order => ({ b with
      records := (coalesceRecords (·.overlaps x) b.records).1, order := order } : Scoreboard))
      (h.order_coalesce x).symm
  have hall := h.joinAll_eq hx (show b.records = [] ++ b.records from rfl) done told
  unfold BoardWork.joinNear overlapping
  rw [if_neg hnonempty]
  refine hall.trans ?_
  rw [List.nil_append, hcoalesced]
  rfl

end Coherent

end Scoreboard

end LossRecovery
