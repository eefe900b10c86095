import LossRecovery.Proofs.Calls
import LossRecovery.Proofs.Walks

/-!
# `LossRecovery.Proofs.SendWalks` — sends taken in one record after another

A resend looks up the missing records of its range one by one, cuts each of them at the ends of the range,
and moves what lies inside to the end of the sending order. Every step of this may fail, and what was done
before it stays done. The cuts are reckoned up beforehand. If they fit, the walk makes exactly these, and
if they do not, it makes none, so that in either case it goes through and comes to the single step that
takes in the whole range.

## Contents
- `Scoreboard.resentOne`, `resentAll`: the scoreboard after one record and after some of them were sent
  again; `Coherent.resentAll_overlapping`: after all those of a range.
- `Engine.resendRecord`, `resendRangeByRecord`: the walk; `resendRecords_eq`, `resendRangeByRecord_eq`:
  what it comes to.
- `processSentByRecord`, `onPacketSentByRecord`, `sendRangeByRecord`, `dispatchByRecord`: the calls that
  take in sends.
- `Running.onPacketSentByRecord_eq`, `Running.dispatchByRecord_eq`: they end as the calls do.
-/

namespace LossRecovery

/-! ## Records sent again -/

namespace Scoreboard

variable {b : Scoreboard} {p r : SendRecord} {x : SeqRange} {rest todo : List SendRecord}

/-- Move linked records to the end of the sending order. -/
def movedAll (b : Scoreboard) (starts : List Nat) : Scoreboard :=
  { b with order := b.order.filter (fun s => !starts.contains s) ++ starts }

/-- What takes the place of a record that is sent again in `x`. -/
def resentParts (fits : Bool) (change : SendRecord → SendRecord) (x : SeqRange) (r : SendRecord) :
    List SendRecord :=
  if fits then r.carvedParts change x else [change r]

/-- The scoreboard after one record was sent again. -/
def resentOne (b : Scoreboard) (fits : Bool) (change : SendRecord → SendRecord) (x : SeqRange)
    (r : SendRecord) : Scoreboard :=
  (b.divide r.start (resentParts fits change x r)).moved (Engine.resentPart x fits r).start

/-- The scoreboard after the missing ones among records were sent again, each as far as it lies in `x`
or, where cuts do not fit, as a whole. -/
def resentAll (b : Scoreboard) (fits : Bool) (change : SendRecord → SendRecord) (x : SeqRange)
    (todo : List SendRecord) : Scoreboard :=
  (b.divideAll (resentParts fits change x) todo).movedAll
    ((todo.filter fun r => !r.isDelivered).map fun r => (Engine.resentPart x fits r).start)

theorem flatMap_moved {F : Nat → List Nat} {s : Nat} {l : List Nat} (hs : F s = [s])
    (hF : ∀ t ∈ l, t ≠ s → s ∉ F t) :
    (l.filter (· != s) ++ [s]).flatMap F = (l.flatMap F).filter (· != s) ++ [s] := by
  rw [List.flatMap_append, List.flatMap_singleton, hs]
  congr 1
  induction l with
  | nil => rfl
  | cons t rest ih =>
    have hrest := ih fun a ha => hF a (List.mem_cons_of_mem _ ha)
    rw [List.flatMap_cons, List.filter_append, ← hrest]
    by_cases ht : t = s
    · simp [ht, hs]
    · have hkept : (F t).filter (· != s) = F t := List.filter_eq_self.mpr fun a ha =>
        bne_iff_ne.mpr fun has => hF t List.mem_cons_self ht (has ▸ ha)
      rw [hkept]
      simp [ht]

theorem moved_movedAll {s : Nat} {starts : List Nat} (hs : s ∉ starts) :
    (b.moved s).movedAll starts = b.movedAll (s :: starts) := by
  have horder : ((b.moved s).movedAll starts).order = (b.movedAll (s :: starts)).order := by
    have hboth : (fun t => !starts.contains t && t != s) = fun t => !(s :: starts).contains t := by
      funext t
      by_cases ht : t = s <;> simp [ht]
    show (b.order.filter _ ++ [s]).filter _ ++ starts = b.order.filter _ ++ s :: starts
    rw [List.filter_append, List.filter_filter, List.append_assoc, hboth]
    simp [hs]
  exact congrArg (fun order => { b with order := order }) horder

/-- What changes a missing record into one that was sent again: it moves no end and links it. -/
structure Resends (change : SendRecord → SendRecord) : Prop where
  start : ∀ q, (change q).start = q.start
  stop : ∀ q, (change q).stop = q.stop
  linked : ∀ q, (change q).linked = true
  coherent : ∀ {q : SendRecord}, q.Coherent → q.flags.sacked = false → (change q).Coherent

theorem resends_resentRecord (flags : Flags) (afterTimeout : Bool) (now : Nat) :
    Resends (Engine.resentRecord flags afterTimeout now) :=
  ⟨fun _ => rfl, fun _ => rfl, fun _ => rfl, fun h hm => resentRecord_coherent h hm⟩

/-- The part that was sent again takes the place of the record, with others or alone. -/
theorem mem_resentParts (change : SendRecord → SendRecord) (fits : Bool) :
    change (Engine.resentPart x fits r) ∈ resentParts fits change x r := by
  cases fits with
  | true => exact SendRecord.Carved.mem_parts.mpr (.inr (.inl rfl))
  | false => exact List.mem_cons_self

namespace Coherent

/-- Moving a record that another division leaves alone. -/
theorem moved_divideAll {P : SendRecord → List SendRecord} (h : b.Coherent)
    (ht : ∀ r ∈ todo, r.isDelivered = false → Tiles r.start (P r) r.stop)
    (hp : p ∈ b.records) (hl : p.linked = true) (hfresh : p ∉ todo) :
    (b.moved p.start).divideAll P todo = (b.divideAll P todo).moved p.start := by
  have horder : ((b.moved p.start).divideAll P todo).order
      = ((b.divideAll P todo).moved p.start).order := by
    refine flatMap_moved ?_ fun t htorder hne hmem => ?_
    · have hfound : (b.moved p.start).record? p.start = some p := h.record?_eq hp
      rw [hfound]
      simp [hfresh, hl]
    · -- A part that starts there would share that byte with the record.
      obtain ⟨r, hr, -, rfl, hfound⟩ := h.record?_of_mem_order htorder
      replace hfound : (b.moved p.start).record? r.start = some r := hfound
      rw [hfound] at hmem
      obtain ⟨q, hq, hqs⟩ := List.mem_map.mp hmem
      have hq := (List.mem_filter.mp hq).1
      dsimp only at hq
      split at hq
      · next hin =>
        have hbounds := (ht r hin.1 hin.2).bounds hq
        have hpne := (h.tiles.bounds hp).2.1
        exact hne (congrArg SendRecord.start (h.tiles.eq_of_contains hr hp
          (SendRecord.contains_iff.mpr (by omega)) (SendRecord.contains_iff.mpr
            ⟨Nat.le_refl p.start, hpne⟩)))
      · exact hne (List.mem_singleton.mp hq ▸ hqs)
  exact congrArg (fun order => { b.divideAll P todo with order := order }) horder

section Resent

variable {change : SendRecord → SendRecord} {fits : Bool}

/-- What takes the place of a record covers it. -/
theorem tiles_resentParts (h : b.Coherent) (fits : Bool) (hc : Resends change) (hr : r ∈ b.records)
    (hx : x.start < x.stop) (ho : r.overlaps x = true) :
    Tiles r.start (resentParts fits change x r) r.stop := by
  have hne := (h.tiles.bounds hr).2.1
  cases fits with
  | true => exact SendRecord.tiles_carve hne hx ho hc.start hc.stop
  | false => exact ⟨hc.start r, by rw [hc.start, hc.stop]; exact hne, hc.stop r⟩

/-- One record is divided into the part that was sent again and what is left of it. -/
theorem divide_resentParts (h : b.Coherent) (fits : Bool) (hc : Resends change) (hr : r ∈ b.records)
    (hx : x.start < x.stop) (ho : r.overlaps x = true) (hd : r.isDelivered = false) :
    (b.divide r.start (resentParts fits change x r)).Coherent ∧
    (b.divide r.start (resentParts fits change x r)).size
      = b.size + if fits then (r.carve x).cuts else 0 := by
  have hl := h.linked_of_missing hr hd
  have hmissing := (h.records r hr).isDelivered.symm.trans hd
  cases fits with
  | true =>
    have hpart := SendRecord.isPart_carve_middle (h.tiles.bounds hr).2.1 hx ho
    exact h.coherent_carvedParts hr hc.start hc.stop hx ho hl
      (hc.coherent ((h.records r hr).of_isPart hpart) (hpart.sacked.trans hmissing))
  | false =>
    constructor
    · refine h.divide hr (h.tiles_resentParts false hc hr hx ho) ?_ ?_
      · intro hunlinked
        rw [hl] at hunlinked
        cases hunlinked
      · intro q hq
        rw [List.mem_singleton.mp hq]
        exact hc.coherent (h.records r hr) hmissing
    · exact Nat.succ.inj (h.size_divide hr [change r])

theorem resentAll_nil (h : b.Coherent) : b.resentAll fits change x [] = b := by
  unfold resentAll
  rw [h.divideAll_nil]
  simp [movedAll]

theorem resentAll_cons_of_delivered (h : b.Coherent) (hd : r.isDelivered = true) :
    b.resentAll fits change x (r :: rest) = b.resentAll fits change x rest := by
  unfold resentAll
  rw [h.divideAll_cons_of_delivered hd, List.filter_cons_of_neg (by simp [hd])]

/-- Where a record starts that is sent again lies in the record it was part of. -/
theorem contains_resentPart (h : b.Coherent) (fits : Bool) (hr : r ∈ b.records)
    (hx : x.start < x.stop) (ho : r.overlaps x = true) :
    r.contains (Engine.resentPart x fits r).start = true := by
  have hne := (h.tiles.bounds hr).2.1
  have hov := (SendRecord.overlaps_iff hne hx).mp ho
  rw [SendRecord.contains_iff, resentPart_start]
  split <;> omega

/-- Records are sent again one after another. -/
theorem resentAll_cons_of_missing (h : b.Coherent) (hc : Resends change) (hx : x.start < x.stop)
    (hr : r ∈ b.records) (ho : r.overlaps x = true) (hd : r.isDelivered = false)
    (hrest : ∀ q ∈ rest, q ∈ b.records ∧ q.overlaps x = true) (hfresh : r ∉ rest) :
    b.resentAll fits change x (r :: rest)
      = (b.resentOne fits change x r).resentAll fits change x rest := by
  have h1 := (h.divide_resentParts fits hc hr hx ho hd).1
  have hin := h.contains_resentPart fits hr hx ho
  have hpart := mem_divide hr (mem_resentParts change fits (x := x) (r := r))
  have hstart := hc.start (Engine.resentPart x fits r)
  -- None of the others holds the byte where the part begins that is moved.
  have hothers : ∀ q ∈ rest, q.contains (Engine.resentPart x fits r).start ≠ true := fun q hq hqc =>
    hfresh (h.tiles.eq_of_contains (hrest q hq).1 hr hqc hin ▸ hq)
  have hmoved := h1.moved_divideAll
    (fun q (hq : q ∈ rest) _ => h.tiles_resentParts fits hc (hrest q hq).1 hx (hrest q hq).2) hpart
    (hc.linked _)
    fun hmem => hothers _ hmem (SendRecord.contains_iff.mpr
      ⟨Nat.le_of_eq hstart, hstart ▸ (h1.tiles.bounds hpart).2.1⟩)
  rw [hstart] at hmoved
  unfold resentAll resentOne
  rw [h.divideAll_cons_of_missing hr hd (h.tiles_resentParts fits hc hr hx ho) h1
    (fun q hq => (hrest q hq).1) hfresh, hmoved, moved_movedAll, List.filter_cons_of_pos (by simp [hd])]
  · rfl
  · intro hmem
    obtain ⟨q, hq, hqs⟩ := List.mem_map.mp hmem
    have hq := (List.mem_filter.mp hq).1
    exact hothers q hq (hqs ▸ h.contains_resentPart fits (hrest q hq).1 hx (hrest q hq).2)

/-- One record sent again leaves the others, and a scoreboard in order. -/
theorem resentOne (h : b.Coherent) (hc : Resends change) (hx : x.start < x.stop) (hr : r ∈ b.records)
    (ho : r.overlaps x = true) (hd : r.isDelivered = false) :
    (b.resentOne fits change x r).Coherent := by
  have h1 := (h.divide_resentParts fits hc hr hx ho hd).1
  have hpart := mem_divide hr (mem_resentParts change fits (x := x) (r := r))
  have hmem : (Engine.resentPart x fits r).start
      ∈ (b.divide r.start (resentParts fits change x r)).order :=
    h1.order.mem_iff.mpr (mem_linkedStarts.mpr ⟨_, hpart, hc.linked _, hc.start _⟩)
  have hlast := h1.moveLast (List.nodup_singleton _) fun s hs => List.mem_singleton.mp hs ▸ hmem
  have hkept : (fun s => !List.contains [(Engine.resentPart x fits r).start] s)
      = fun s => s != (Engine.resentPart x fits r).start := by
    funext s
    by_cases hs : s = (Engine.resentPart x fits r).start <;> simp [hs]
  rw [hkept] at hlast
  exact hlast

/-- Sending all missing records of a range again is sending the range again. -/
theorem resentAll_overlapping (h : b.Coherent) (hc : Resends change) (hx : x.start < x.stop) :
    b.resentAll fits change x (b.overlapping x) = Engine.resendOnBoard b x fits change := by
  have hparts : b.divideAll (resentParts fits change x) (b.overlapping x)
      = b.resentInPlace x fits change := by
    cases fits with
    | true => exact h.divideAll_overlapping hx
    | false =>
      have hall : ∀ r ∈ b.records, (if r ∈ b.overlapping x ∧ r.isDelivered = false then [change r]
          else [r]) = [if r.overlaps x && !r.isDelivered then change r else r] := by
        intro r hr
        cases ho : r.overlaps x <;> cases hd : r.isDelivered <;>
          simp [Scoreboard.mem_overlapping hx, hr, ho]
      refine (h.refine_congr hall).trans (h.refine_map fun r hr => ?_)
      cases hit : r.overlaps x && !r.isDelivered with
      | false => exact ⟨rfl, rfl⟩
      | true =>
        rw [Bool.and_eq_true, Bool.not_eq_true'] at hit
        exact ⟨hc.start r, (hc.linked r).trans (h.linked_of_missing hr hit.2).symm⟩
  rw [resendOnBoard_eq]
  unfold resentAll
  rw [hparts]
  rfl

end Resent

end Coherent

end Scoreboard

/-! ## Data sent again -/

namespace Engine

variable {κ : Type} {g : Engine κ} {r : SendRecord} {x range : SeqRange} {flags : Flags} {now : Nat}
  {fits : Bool} {change : SendRecord → SendRecord}

/-- Work on the scoreboard of an engine that cuts records. Every cut is counted. -/
def cutting {α : Type} (cuts : Walk BoardWork α) : Walk (Engine κ) α := fun g =>
  let worked := cuts ⟨g.board, 0, []⟩
  ({ g with
    board := worked.1.board
    sink := Nat.repeat (fun s => s.add .segmentsSplit 1) worked.1.done g.sink }.tell worked.1.told,
    worked.2)

/-- Account for a record that was sent again as a whole, and tell how many bytes it holds. -/
def resendAt (change : SendRecord → SendRecord) (start : Nat) : Walk (Engine κ) Nat := fun g =>
  match g.board.record? start with
  | none => (g, .error (.structural (.recordVanished .resending start)))
  | some r =>
    ({ g with
      board := (g.board.modifyAt start change).relink start
      ledger := { g.ledger with
        holeBytes := if r.hole then g.ledger.holeBytes else g.ledger.holeBytes + r.length } }.tell
      [.recordResent (change r)], .ok r.length)

/-- Account for a record as far as it was sent again in `x`, and tell how many bytes that are. -/
def resendRecord (x : SeqRange) (fits : Bool) (change : SendRecord → SendRecord) (start : Nat) :
    Walk (Engine κ) Nat := fun g =>
  match g.board.record? start with
  | none => (g, .ok 0)
  | some r =>
    if r.isDelivered then (g, .ok 0)
    else if fits then (cutting (BoardWork.isolate r x)).andThen (resendAt change) g
    else resendAt change start g

/-- Take a step for each record, and add up what the steps tell. -/
def resendRecords (x : SeqRange) (fits : Bool) (change : SendRecord → SendRecord) :
    List Nat → Nat → Walk (Engine κ) Nat
  | [], total => fun g => (g, .ok total)
  | start :: rest, total =>
    (resendRecord x fits change start).andThen fun bytes =>
      resendRecords x fits change rest (total + bytes)

/-- Account for data sent again, one record after another. -/
def resendRangeByRecord (g : Engine κ) (range : SeqRange) (flags : Flags) (now : Nat) :
    Engine κ × Except Error Nat :=
  let x : SeqRange := ⟨max range.start g.board.una, range.stop⟩
  if x.isEmpty then (g.noteStale x, .ok 0)
  else
    let fits := g.board.resendFits x
    let change := resentRecord flags (g.schedule.stage == .rtoPending) now
    (resendRecords x fits change ((g.board.overlapping x).map (·.start)) 0).andThen
      (fun total g => (if total = 0 then g.noteStale x else g.countAgain total, .ok total))
      (if fits then g else g.noteWhole x)

theorem resendAt_of_found {start : Nat} (hf : g.board.record? start = some r) :
    resendAt change start g
      = ({ g with
          board := (g.board.modifyAt start change).relink start
          ledger := { g.ledger with
            holeBytes := if r.hole then g.ledger.holeBytes
              else g.ledger.holeBytes + r.length } }.tell [.recordResent (change r)],
        .ok r.length) := by
  unfold resendAt
  rw [hf]

/-- Counting records that were sent again does not look at the scoreboard. -/
theorem countResent_board {rs : List SendRecord} {b : Scoreboard} :
    rs.foldl (countResent x fits change) { g with board := b }
      = { rs.foldl (countResent x fits change) g with board := b } :=
  (foldl_project (fun g : Engine κ => { g with board := b }) rs g fun _ _ => rfl).symm

section Coherent

variable (h : g.board.Coherent) (hc : Scoreboard.Resends change) (hx : x.start < x.stop)

include h hc hx

/-- A missing record is accounted for as in the single step. -/
theorem resendRecord_eq (hr : r ∈ g.board.records) (ho : r.overlaps x = true)
    (hd : r.isDelivered = false)
    (room : fits = true → g.board.size + (r.carve x).cuts ≤ g.board.limit) :
    resendRecord x fits change r.start g
      = ({ countResent x fits change g r with board := g.board.resentOne fits change x r },
        .ok (resentPart x fits r).length) := by
  unfold resendRecord
  rw [h.record?_eq hr]
  dsimp only
  rw [hd, if_neg Bool.false_ne_true]
  have hl := h.linked_of_missing hr hd
  cases fits with
  | false =>
    rw [if_neg Bool.false_ne_true, resendAt_of_found (h.record?_eq hr),
      h.modifyAt_relink hr (hc.start r) (hc.linked r)]
    rfl
  | true =>
    have hboard : ((g.board.divide r.start (r.carve x).parts).modifyAt (max r.start x.start)
        change).relink (max r.start x.start) = g.board.resentOne true change x r :=
      h.relink_carve hr hx ho hl (hc.start _) (hc.linked _)
    have hcut := h.isolate_eq hr hx ho (.inr (room rfl)) 0 []
    have hcutting : cutting (BoardWork.isolate r x) g = ({ g with
        board := g.board.divide r.start (r.carve x).parts
        sink := Nat.repeat (fun s => s.add .segmentsSplit 1) (r.carve x).cuts g.sink }.tell
          (r.carveEvents x), .ok (max r.start x.start)) := by
      unfold cutting
      rw [hcut, Nat.zero_add]
      rfl
    rw [if_pos rfl, Walk.andThen_of_ok hcutting,
      resendAt_of_found (h.record?_carve hr hx ho hl)]
    have htold : [Event.recordResent (change (r.carve x).middle)].reverse
          ++ ((r.carveEvents x).reverse ++ g.journal)
        = (r.carveEvents x ++ [Event.recordResent (change (r.carve x).middle)]).reverse ++ g.journal := by
      simp
    exact congrArg₂ (fun board journal => (({ countResent x true change g r with
      board := board, journal := journal } : Engine κ), Except.ok (r.carve x).middle.length))
      hboard htold

/-- Records are accounted for one after another as in the single step. -/
theorem resendRecords_eq {todo : List SendRecord} {total : Nat}
    (htodo : ∀ r ∈ todo, r ∈ g.board.records ∧ r.overlaps x = true) (hn : todo.Nodup)
    (room : fits = true → g.board.size + Scoreboard.cutsOf x todo ≤ g.board.limit) :
    resendRecords x fits change (todo.map (·.start)) total g
      = ({ (todo.filter fun r => !r.isDelivered).foldl (countResent x fits change) g with
          board := g.board.resentAll fits change x todo },
        .ok (total + Number.total ((todo.filter fun r => !r.isDelivered).map fun r =>
          (resentPart x fits r).length))) := by
  -- Along the records; each of them leaves room for the cuts of the others.
  induction todo generalizing g total with
  | nil =>
    rw [h.resentAll_nil]
    rfl
  | cons r rest ih =>
    obtain ⟨hfresh, hn⟩ := List.nodup_cons.mp hn
    obtain ⟨hr, ho⟩ := htodo r List.mem_cons_self
    have hrest := fun q hq => htodo q (List.mem_cons_of_mem _ hq)
    rw [List.map_cons, resendRecords]
    cases hd : r.isDelivered with
    | true =>
      rw [Scoreboard.cutsOf_cons_of_delivered hd] at room
      have hone : resendRecord x fits change r.start g = (g, .ok 0) := by
        unfold resendRecord
        rw [h.record?_eq hr]
        dsimp only
        rw [hd, if_pos rfl]
      rw [Walk.andThen_of_ok hone, Nat.add_zero, ih h hrest hn room,
        h.resentAll_cons_of_delivered hd, List.filter_cons_of_neg (by simp [hd])]
    | false =>
      rw [Scoreboard.cutsOf_cons_of_missing hd] at room
      have hone := resendRecord_eq h hc hx hr ho hd fun hfits : fits = true => by
        have := room hfits
        omega
      have hsize := (h.divide_resentParts fits hc hr hx ho hd).2
      rw [Walk.andThen_of_ok hone, ih (h.resentOne hc hx hr ho hd) ?_ hn ?_, countResent_board,
        h.resentAll_cons_of_missing hc hx hr ho hd hrest hfresh,
        List.filter_cons_of_pos (by simp [hd]), List.map_cons, Number.total_cons, Nat.add_assoc]
      · rfl
      · intro q hq
        have hqr : q ≠ r := fun he => hfresh (he ▸ hq)
        exact ⟨h.mem_divide_of_ne hr (hrest q hq).1 hqr, (hrest q hq).2⟩
      · intro hfits
        have := room hfits
        rw [if_pos hfits] at hsize
        show (g.board.divide r.start _).size + _ ≤ g.board.limit
        omega

/-- Accounting for all records of a range is the single step, if the cuts fit or none is made. -/
theorem resendRecords_overlapping
    (room : fits = true → g.board.size + g.board.cutsNeeded x ≤ g.board.limit) :
    resendRecords x fits change ((g.board.overlapping x).map (·.start)) 0 g
      = ({ ((g.board.overlapping x).filter fun r => !r.isDelivered).foldl
            (countResent x fits change) g with board := resendOnBoard g.board x fits change },
        .ok (Number.total (((g.board.overlapping x).filter fun r => !r.isDelivered).map fun r =>
          (resentPart x fits r).length))) := by
  rw [resendRecords_eq h hc hx (fun r hr => (Scoreboard.mem_overlapping hx).mp hr)
    (h.nodup_overlapping x) (by rwa [h.cutsOf_overlapping hx]), h.resentAll_overlapping hc hx,
    Nat.zero_add]

end Coherent

/-- Sending again one record after another is sending again in one step. -/
theorem resendRangeByRecord_eq (h : g.board.Coherent) :
    g.resendRangeByRecord range flags now
      = ((g.resendRange range flags now).1, .ok (g.resendRange range flags now).2) := by
  unfold resendRangeByRecord
  dsimp only
  by_cases hx : max range.start g.board.una < range.stop
  · rw [if_neg (by rw [SeqRange.isEmpty_iff]; exact Nat.not_le.mpr hx),
      resendRange_eq g range flags now hx]
    generalize hdef : (⟨max range.start g.board.una, range.stop⟩ : SeqRange) = x
    have hx : x.start < x.stop := hdef ▸ hx
    have hboard : (if g.board.resendFits x then g else g.noteWhole x).board = g.board := by
      split <;> rfl
    have hwalk : resendRecords x (g.board.resendFits x)
        (resentRecord flags (g.schedule.stage == .rtoPending) now)
        ((g.board.overlapping x).map (·.start)) 0 (if g.board.resendFits x then g else g.noteWhole x)
        = (g.resentEngine x flags now, .ok (g.resentBytes x)) := by
      have hall := resendRecords_overlapping (hboard.symm ▸ h)
        (Scoreboard.resends_resentRecord flags (g.schedule.stage == .rtoPending) now) hx
        (show g.board.resendFits x = true → _ by rw [hboard]; exact of_decide_eq_true)
      rwa [hboard] at hall
    rw [Walk.andThen_of_ok hwalk]
    dsimp only
    split
    · next hnone => rw [hnone]
    · rfl
  · rw [if_pos (SeqRange.isEmpty_iff.mpr (Nat.le_of_not_lt hx)),
      resendRange_of_le g range flags now (Nat.le_of_not_lt hx)]

/-! ## Reports of sends -/

/-- Take in the report of a send, one record after another. -/
def processSentByRecord (g : Engine κ) (range : SeqRange) (flags : Flags) (now : Nat) :
    Engine κ × Except Error Actions :=
  if range.isEmpty then (g, .error (.malformed (.emptySend range)))
  else
    let top := g.board.top
    let below : Walk (Engine κ) Nat := fun g =>
      if range.start < top then g.resendRangeByRecord ⟨range.start, min range.stop top⟩ flags now
      else (g, .ok 0)
    let fresh : SeqRange := ⟨max range.start top, range.stop⟩
    let above : Walk (Engine κ) Nat :=
      if range.stop ≤ top then fun g => (g, .ok 0)
      else Walk.andThen (fun g => g.appendNew fresh flags now) fun _ g => (g, .ok fresh.length)
    below.andThen (fun resent => above.andThen fun appended g =>
      let done := g.accountSent (resent + appended) now
      (done.1, done.1.audited done.2)) g

/-- Report that `range` was sent. -/
def onPacketSentByRecord (g : Engine κ) (range : SeqRange) (flags : Flags) (now : Nat) :
    Engine κ × Except Error Actions :=
  g.guarded fun g => g.processSentByRecord range flags now

/-- A report is taken in as it is in single steps. -/
theorem processSentByRecord_eq (h : g.board.Coherent) :
    g.processSentByRecord range flags now = g.processSent range flags now := by
  unfold processSentByRecord processSent
  by_cases hempty : range.isEmpty = true
  · rw [if_pos hempty, if_pos hempty]
  · rw [if_neg hempty, if_neg hempty]
    dsimp only
    have hbelow : (if range.start < g.board.top then
          g.resendRangeByRecord ⟨range.start, min range.stop g.board.top⟩ flags now
        else (g, .ok 0)) = ((g.resendBelow range flags now).1, .ok (g.resendBelow range flags now).2) := by
      unfold resendBelow
      split
      · exact resendRangeByRecord_eq h
      · rfl
    have hfold : (if range.start < g.board.top then
          g.resendRange ⟨range.start, min range.stop g.board.top⟩ flags now else (g, 0))
        = g.resendBelow range flags now := rfl
    rw [Walk.andThen_of_ok hbelow, hfold]
    generalize g.resendBelow range flags now = resent
    split
    · rfl
    · unfold Walk.andThen
      dsimp only
      rcases resent.1.appendNew ⟨max range.start g.board.top, range.stop⟩ flags now with
        ⟨g', _ | _⟩ <;> rfl

/-- A report of a send ends as it does in single steps. -/
theorem Running.onPacketSentByRecord_eq (h : g.Running) :
    g.onPacketSentByRecord range flags now = g.onPacketSent range flags now := by
  unfold onPacketSentByRecord onPacketSent
  rw [guarded_eq h.isAborted, guarded_eq h.isAborted, processSentByRecord_eq h.sound.board]

/-! ## Carrying out actions -/

section Dispatch

variable {σ : Type} (host : Host σ)

/-- Carry out a send, and take in its report one record after another. -/
def sendRangeByRecord (g : Engine κ) (w : σ) (range : SeqRange) (kind : SendKind) (now : Nat) :
    Engine κ × σ × Except Error Nat :=
  if !g.stillWanted range kind then (g.noteStale range, w, .ok 0)
  else
    let transmission := host.transmit w range kind.flags
    let g := g.tell transmission.events
    match transmission.result with
    | .error e => (g, transmission.host, .error e.asTransmitFailure)
    | .ok count =>
      let sent := min count range.length
      if sent = 0 then (g, transmission.host, .ok 0)
      else
        let processed := g.processSentByRecord ⟨range.start, range.start + sent⟩ kind.flags now
        match processed.2 with
        | .error e => (processed.1, transmission.host, .error e)
        | .ok follow =>
          (processed.1, follow.foldl (applyTimer host processed.1) transmission.host, .ok sent)

/-- Carry out actions in order, with every report taken in one record after another. -/
def dispatchAllByRecord (now : Nat) (g : Engine κ) (w : σ) (total : Nat) :
    Actions → Engine κ × σ × Except Error Nat
  | [] => (g, w, .ok total)
  | .send range _ kind :: rest =>
    let sent := g.sendRangeByRecord host w range kind now
    match sent.2.2 with
    | .error e => (sent.1, sent.2.1, .error e)
    | .ok bytes => dispatchAllByRecord now sent.1 sent.2.1 (total + bytes) rest
  | action :: rest => dispatchAllByRecord now g (applyTimer host g w action) total rest

/-- Carry out the actions of a call, with every report taken in one record after another. -/
def dispatchByRecord (g : Engine κ) (w : σ) (actions : Actions) (now : Nat) :
    (Engine κ × σ) × Except Error Nat :=
  if g.isAborted then ((g, w), .error .aborted)
  else
    let done := dispatchAllByRecord host now g w 0 actions
    match done.2.2 with
    | .ok total => ((done.1, done.2.1), .ok total)
    | .error e => ((done.1.fail e, done.2.1), .error e)

theorem sendRangeByRecord_eq (h : g.board.Coherent) (w : σ) (kind : SendKind) :
    g.sendRangeByRecord host w range kind now = g.sendRange host w range kind now := by
  have hreport : ∀ x, (g.tell (host.transmit w range kind.flags).events).processSentByRecord x
      kind.flags now = (g.tell (host.transmit w range kind.flags).events).processSent x kind.flags now :=
    fun _ => processSentByRecord_eq h
  unfold sendRangeByRecord
  simp only [hreport]
  rfl

variable [CongestionLaw κ]

theorem Running.dispatchAllByRecord_eq (h : g.Running) (w : σ) (total : Nat) (actions : Actions) :
    g.dispatchAllByRecord host now w total actions = g.dispatchAll host now w total actions := by
  -- Along the actions; an engine that goes on after a send still runs.
  induction actions generalizing g w total with
  | nil => rfl
  | cons action rest ih =>
    cases action with
    | send range n kind =>
      have hone := Sustains.sendRange host now maintained_true.aside.sends isFresh_flags
        ⟨h, trivial⟩ w range kind
      unfold Engine.dispatchAllByRecord Engine.dispatchAll
      rw [sendRangeByRecord_eq host h.sound.board]
      dsimp only
      cases hres : (g.sendRange host w range kind now).2.2 with
      | error e => rfl
      | ok bytes =>
        rcases hone with ⟨hs, -⟩ | ⟨c, hc, -⟩
        · exact ih hs.1 _ _
        · cases hc.symm.trans hres
    | arm timer duration generation => exact ih h _ _
    | cancel => exact ih h _ _

/-- Carrying out actions ends as it does in single steps. -/
theorem Running.dispatchByRecord_eq (h : g.Running) (w : σ) (actions : Actions) :
    g.dispatchByRecord host w actions now = g.dispatch host w actions now := by
  unfold Engine.dispatchByRecord
  rw [h.dispatchAllByRecord_eq host]
  rfl

end Dispatch

end Engine

end LossRecovery
