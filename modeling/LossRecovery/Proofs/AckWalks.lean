import LossRecovery.Proofs.Sessions
import LossRecovery.Proofs.Walks

/-!
# `LossRecovery.Proofs.AckWalks` — acks taken in one record after another

An ack releases records one by one, and every block looks up the missing records it covers, cuts each of
them at its own ends, and joins what has arrived around it. Every step of this may fail. A block that
runs out of room is passed over, wherever that happens, and any other error ends the call with the
engine as it is at that moment. On a sound engine no step fails but the one that reckons up the cuts of a
block, before any of them is made, so that the walk comes to the pass in single steps.

## Contents
- `AckPass.releaseAt`, `markRecord`, `markBlockByRecord`, `applyBlockByRecord`, `processByRecord`: the walk
  over an ack.
- `advanceByRecord_eq`, `markRecords_eq`, `applyBlockByRecord_eq`, `processByRecord_eq`: what each part of
  it comes to.
- `Engine.processAckByRecord`, `onAckByRecord`: the call; `Running.onAckByRecord_eq`: it ends as the call
  in single steps does.
-/

namespace LossRecovery

namespace AckPass

variable {i : AckInput} {p : AckPass} {r : SendRecord} {x : SeqRange}

/-! ## The walk over an ack -/

/-- Account for the record that starts at `start`, below the new left edge. -/
def releaseAt (i : AckInput) (start : Nat) : Walk AckPass Unit := fun p =>
  match p.board.record? start with
  | none => (p, .error (.structural (.recordVanished .releasing start)))
  | some r => (releaseRecord i p r, .ok ())

/-- Release what lies below the cumulative ack. -/
def trim (i : AckInput) : Walk AckPass Unit := fun p =>
  match p.board.trim i.ack.cumulative with
  | .error e => (p, .error e)
  | .ok released =>
    ({ p with
      board := released.1
      tracker := { p.tracker with
        filter := p.tracker.filter.removeBelow i.ack.cumulative
        highest := max p.tracker.highest i.ack.cumulative }
      outcome := { p.outcome with advanced := true } }, .ok ())

/-- Move the left edge up to the cumulative ack, one record after another. -/
def advanceByRecord (i : AckInput) : Walk AckPass Unit := fun p =>
  (Walk.each (releaseAt i)
    ((p.board.overlapping ⟨p.board.una, i.ack.cumulative⟩).map (·.start))).andThen
    (fun _ => trim i) p

/-- Work on the scoreboard of a pass that cuts records. Every cut is counted. -/
def cutting {α : Type} (cuts : Walk BoardWork α) : Walk AckPass α := fun p =>
  let worked := cuts ⟨p.board, 0, []⟩
  ({ p with
    board := worked.1.board
    outcome := { p.outcome with splits := p.outcome.splits + worked.1.done } }.tell worked.1.told,
    worked.2)

/-- Work on the scoreboard of a pass that joins records. The joins are counted at the end. -/
def joining (joins : Walk BoardWork Unit) : Walk AckPass Unit := fun p =>
  let worked := joins ⟨p.board, 0, []⟩
  let joined := { p with board := worked.1.board }.tell worked.1.told
  match worked.2 with
  | .error e => (joined, .error e)
  | .ok () =>
    ({ joined with
      outcome := { joined.outcome with merged := joined.outcome.merged + worked.1.done } }, .ok ())

/-- Mark the record that starts at `start`, all of which has arrived. -/
def markAt (i : AckInput) (start : Nat) : Walk AckPass Unit := fun p =>
  match p.board.record? start with
  | none => (p, .error (.structural (.recordVanished .marking start)))
  | some r =>
    ({ p with
      board := (p.board.modifyAt start (sackedRecord i.now)).unlink start
      tracker := { p.tracker with highest := max p.tracker.highest r.stop }
      ledger := { p.ledger with
        holeBytes := if r.hole then p.ledger.holeBytes - r.length else p.ledger.holeBytes
        sackedBytes := p.ledger.sackedBytes + r.length }
      outcome := { p.outcome with sacked := p.outcome.sacked + r.length } }.deliver i r
      |>.tell [.recordSacked (sackedRecord i.now r)], .ok ())

/-- Mark a record as far as it lies in a block. -/
def markRecord (i : AckInput) (block : SeqRange) (start : Nat) : Walk AckPass Unit := fun p =>
  match p.board.record? start with
  | none => (p, .ok ())
  | some r =>
    if r.isDelivered then (p, .ok ())
    else (cutting (BoardWork.isolate r block)).andThen (markAt i) p

/-- Mark the missing bytes of a block, one record after another, and join what has arrived around it. -/
def markBlockByRecord (i : AckInput) (block : SeqRange) : Walk AckPass Unit := fun p =>
  if !p.board.cutsFit block then (p, .error .exhausted)
  else
    (Walk.each (markRecord i block) ((p.board.overlapping block).map (·.start))).andThen
      (fun _ => joining (BoardWork.joinNear ⟨block.start - 1, block.stop + 1⟩)) p

/-- Apply one block. If there is no room for it, wherever this turns out, it is passed over. -/
def applyBlockByRecord (i : AckInput) (block : SeqRange) : Walk AckPass Unit := fun p =>
  if !isProper p.board block then
    ({ p with outcome := { p.outcome with malformed := p.outcome.malformed + 1 } }.tell
      [.blockMalformed block p.board.una p.board.top], .ok ())
  else
    let block : SeqRange := ⟨max block.start p.board.una, block.stop⟩
    if p.tracker.filter.covers block then
      ({ p with outcome := { p.outcome with filtered := p.outcome.filtered + 1 } }, .ok ())
    else
      match markBlockByRecord i block p with
      | (p, .ok ()) =>
        ({ p with tracker := { p.tracker with filter := p.tracker.filter.insert block } }, .ok ())
      | (p, .error .exhausted) =>
        ({ p with outcome := { p.outcome with refused := p.outcome.refused + 1 } }.tell
          [.blockRefused block p.board.size], .ok ())
      | (p, .error e) => (p, .error e)

/-- The steps of a pass over an ack that lies within the data sent. -/
def runByRecord (i : AckInput) : Walk AckPass Unit := fun p =>
  let edge : Walk AckPass Unit :=
    if p.board.una < i.ack.cumulative then advanceByRecord i else fun p => (p, .ok ())
  edge.andThen (fun _ p =>
    (Walk.each (applyBlockByRecord i) (Sorting.sortByKey (·.start) i.ack.blocks)).andThen
      (fun _ p =>
        let p := p.countAgainst
        match i.ack.duplicate with
        | some x => (p.applyDuplicate i x, .ok ())
        | none => (p, .ok ()))
      ((p.noteDuplicateAck i).checkWindow i)) p

/-- Apply an ack, one record after another. -/
def processByRecord (i : AckInput) : Walk AckPass Unit := fun p =>
  if p.board.top < i.ack.cumulative then
    (p, .error (.malformed (.ackBeyond i.ack.cumulative p.board.top)))
  else runByRecord i p

/-! ## A new left edge -/

theorem releaseRecord_board : (releaseRecord i p r).board = p.board := by
  unfold releaseRecord
  cases r.flags.sacked <;> rfl

/-- Every record is found when it is released. -/
theorem releaseRecords_eq (h : p.board.Coherent) {todo : List SendRecord}
    (htodo : ∀ r ∈ todo, r ∈ p.board.records) :
    Walk.each (releaseAt i) (todo.map (·.start)) p = (todo.foldl (releaseRecord i) p, .ok ()) := by
  induction todo generalizing p with
  | nil => rfl
  | cons r rest ih =>
    have hone : releaseAt i r.start p = (releaseRecord i p r, .ok ()) := by
      unfold releaseAt
      rw [h.record?_eq (htodo r List.mem_cons_self)]
    rw [List.map_cons, Walk.each, Walk.andThen_of_ok hone, List.foldl_cons, ih]
    · rwa [releaseRecord_board]
    · intro q hq
      rw [releaseRecord_board]
      exact htodo q (List.mem_cons_of_mem _ hq)

/-- Moving the left edge up, one record after another. -/
theorem advanceByRecord_eq (h : p.board.Coherent) (hlo : p.board.una < i.ack.cumulative)
    (hhi : i.ack.cumulative ≤ p.board.top) : advanceByRecord i p = (p.advance i, .ok ()) := by
  have hwalk := releaseRecords_eq (i := i) h
    fun r (hr : r ∈ p.board.overlapping ⟨p.board.una, i.ack.cumulative⟩) =>
      ((Scoreboard.mem_overlapping hlo).mp hr).1
  unfold advanceByRecord
  rw [Walk.andThen_of_ok hwalk]
  unfold trim Scoreboard.trim
  rw [releaseWalk_board, if_neg (Nat.not_le.mpr hlo), if_neg (Nat.not_lt.mpr hhi)]
  dsimp only
  unfold advance
  dsimp only
  rw [releaseWalk_board]

/-! ## One block -/

/-- What is counted of marked records does not depend on the scoreboard. -/
theorem sackRecord_board {rs : List SendRecord} {b : Scoreboard} :
    rs.foldl (sackRecord i x) { p with board := b } = { rs.foldl (sackRecord i x) p with board := b } :=
  (foldl_project (fun p : AckPass => { p with board := b }) rs p fun _ _ => rfl).symm

theorem markAt_of_found {start : Nat} (hf : p.board.record? start = some r) :
    markAt i start p
      = ({ p with
          board := (p.board.modifyAt start (sackedRecord i.now)).unlink start
          tracker := { p.tracker with highest := max p.tracker.highest r.stop }
          ledger := { p.ledger with
            holeBytes := if r.hole then p.ledger.holeBytes - r.length else p.ledger.holeBytes
            sackedBytes := p.ledger.sackedBytes + r.length }
          outcome := { p.outcome with sacked := p.outcome.sacked + r.length } }.deliver i r
          |>.tell [.recordSacked (sackedRecord i.now r)], .ok ()) := by
  unfold markAt
  rw [hf]

section Marking

variable (h : p.board.Coherent) (hx : x.start < x.stop)

include h hx

/-- The part of a missing record inside a block is marked as in the single step. -/
theorem markRecord_eq (hr : r ∈ p.board.records) (ho : r.overlaps x = true)
    (hd : r.isDelivered = false)
    (room : (r.carve x).cuts = 0 ∨ p.board.size + (r.carve x).cuts ≤ p.board.limit) :
    markRecord i x r.start p
      = ({ sackRecord i x p r with
          board := p.board.divide r.start (r.carvedParts (sackedRecord i.now) x) }, .ok ()) := by
  have hl := h.linked_of_missing hr hd
  have hboard := h.unlink_carve (f := sackedRecord i.now) hr hx ho hl rfl rfl
  have hcut := h.isolate_eq hr hx ho room 0 []
  have hcutting : cutting (BoardWork.isolate r x) p = ({ p with
      board := p.board.divide r.start (r.carve x).parts
      outcome := { p.outcome with splits := p.outcome.splits + (r.carve x).cuts } }.tell
        (r.carveEvents x), .ok (max r.start x.start)) := by
    unfold cutting
    rw [hcut, Nat.zero_add]
    rfl
  have htold : [Event.recordSacked (sackedRecord i.now (r.carve x).middle)].reverse
        ++ ((r.carveEvents x).reverse ++ p.journal)
      = (r.carveEvents x ++ [Event.recordSacked (sackedRecord i.now (r.carve x).middle)]).reverse
        ++ p.journal := by
    simp
  unfold markRecord
  rw [h.record?_eq hr]
  dsimp only
  rw [hd, if_neg Bool.false_ne_true, Walk.andThen_of_ok hcutting,
    markAt_of_found (h.record?_carve hr hx ho hl)]
  exact congrArg₂ (fun board journal => (({ sackRecord i x p r with
    board := board, journal := journal } : AckPass), Except.ok ())) hboard htold

/-- Records are marked one after another as in the single step. -/
theorem markRecords_eq {todo : List SendRecord}
    (htodo : ∀ r ∈ todo, r ∈ p.board.records ∧ r.overlaps x = true) (hn : todo.Nodup)
    (room : Scoreboard.cutsOf x todo = 0 ∨ p.board.size + Scoreboard.cutsOf x todo ≤ p.board.limit) :
    Walk.each (markRecord i x) (todo.map (·.start)) p
      = ({ (todo.filter fun r => !r.isDelivered).foldl (sackRecord i x) p with
          board := p.board.divideAll (SendRecord.carvedParts (sackedRecord i.now) x) todo },
        .ok ()) := by
  -- Along the records; each of them leaves room for the cuts of the others.
  induction todo generalizing p with
  | nil =>
    rw [h.divideAll_nil]
    rfl
  | cons r rest ih =>
    obtain ⟨hfresh, hn⟩ := List.nodup_cons.mp hn
    obtain ⟨hr, ho⟩ := htodo r List.mem_cons_self
    have hrest := fun q hq => htodo q (List.mem_cons_of_mem _ hq)
    rw [List.map_cons, Walk.each]
    cases hd : r.isDelivered with
    | true =>
      rw [Scoreboard.cutsOf_cons_of_delivered hd] at room
      have hone : markRecord i x r.start p = (p, .ok ()) := by
        unfold markRecord
        rw [h.record?_eq hr]
        dsimp only
        rw [hd, if_pos rfl]
      rw [Walk.andThen_of_ok hone, ih h hrest hn room, h.divideAll_cons_of_delivered hd,
        List.filter_cons_of_neg (by simp [hd])]
    | false =>
      rw [Scoreboard.cutsOf_cons_of_missing hd] at room
      have hne := (h.tiles.bounds hr).2.1
      have hmiddle := (h.records r hr).of_isPart (SendRecord.isPart_carve_middle hne hx ho)
      obtain ⟨h1, hsize⟩ := h.coherent_carvedParts (f := sackedRecord i.now) hr (fun _ => rfl)
        (fun _ => rfl) hx ho (h.linked_of_missing hr hd) (Scoreboard.sackedRecord_coherent hmiddle)
      have hone := markRecord_eq (i := i) h hx hr ho hd (by omega)
      rw [Walk.andThen_of_ok hone, ih h1 ?_ hn ?_, sackRecord_board,
        h.divideAll_cons_of_missing hr hd (SendRecord.tiles_carve (f := sackedRecord i.now) hne
          hx ho (fun _ => rfl) fun _ => rfl) h1 (fun q hq => (hrest q hq).1) hfresh,
        List.filter_cons_of_pos (by simp [hd])]
      · rfl
      · intro q hq
        have hqr : q ≠ r := fun he => hfresh (he ▸ hq)
        exact ⟨h.mem_divide_of_ne hr (hrest q hq).1 hqr, (hrest q hq).2⟩
      · show _ ∨ (p.board.divide r.start _).size + _ ≤ p.board.limit
        omega

/-- Where the cuts of a block fit, all steps of the walk over it succeed. -/
theorem markBlockByRecord_eq (hfits : p.board.cutsFit x = true) :
    markBlockByRecord i x p = (p.markBlock i x, .ok ()) := by
  have hroom : p.board.cutsNeeded x = 0 ∨ p.board.size + p.board.cutsNeeded x ≤ p.board.limit := by
    simpa [Scoreboard.cutsFit] using hfits
  have hwalk := markRecords_eq (i := i) h hx (fun r hr => (Scoreboard.mem_overlapping hx).mp hr)
    (h.nodup_overlapping x) (by rwa [h.cutsOf_overlapping hx])
  rw [h.divideAll_overlapping hx] at hwalk
  unfold markBlockByRecord
  rw [hfits, Bool.not_true, if_neg Bool.false_ne_true, Walk.andThen_of_ok hwalk]
  unfold joining
  dsimp only
  rw [(h.sack hx i.now).joinNear_eq (by show x.start - 1 < x.stop + 1; omega), Nat.zero_add]
  rfl

end Marking

/-- Where the cuts of a block do not fit, none of them is made. -/
theorem markBlockByRecord_of_unfit (hfits : p.board.cutsFit x = false) :
    markBlockByRecord i x p = (p, .error .exhausted) := by
  unfold markBlockByRecord
  rw [hfits]
  rfl

/-- A block is applied as in the single step. -/
theorem applyBlockByRecord_eq (h : p.board.Coherent) :
    applyBlockByRecord i x p = (p.applyBlock i x, .ok ()) := by
  unfold applyBlockByRecord applyBlock
  cases hproper : isProper p.board x with
  | false => rfl
  | true =>
    have hx : (⟨max x.start p.board.una, x.stop⟩ : SeqRange).start < x.stop :=
      start_lt_outstandingPart hproper
    rw [Bool.not_true, if_neg Bool.false_ne_true, if_neg Bool.false_ne_true]
    dsimp only
    split
    · rfl
    · cases hfits : p.board.cutsFit ⟨max x.start p.board.una, x.stop⟩ with
      | false =>
        rw [markBlockByRecord_of_unfit hfits]
        rfl
      | true =>
        rw [markBlockByRecord_eq h hx hfits]
        rfl

/-! ## The whole ack -/

theorem applyBlocksByRecord_eq (h : p.Sound) (blocks : List SeqRange) :
    Walk.each (applyBlockByRecord i) blocks p = (blocks.foldl (applyBlock i) p, .ok ()) := by
  induction blocks generalizing p with
  | nil => rfl
  | cons x rest ih =>
    rw [Walk.each, Walk.andThen_of_ok (applyBlockByRecord_eq h.board), List.foldl_cons,
      ih (h.applyBlock i x).1]

/-- On a sound scoreboard, the walk over an ack that lies within the data sent comes to the pass. -/
theorem runByRecord_eq (h : p.Sound) (hhi : i.ack.cumulative ≤ p.board.top) :
    runByRecord i p = (p.run i, .ok ()) := by
  have hedge : (if p.board.una < i.ack.cumulative then advanceByRecord i
      else fun p => (p, .ok ())) p = (p.atEdge i, .ok ()) := by
    unfold AckPass.atEdge
    split
    · next hlo => exact advanceByRecord_eq h.board hlo hhi
    · rfl
  have hbefore : (p.beforeBlocks i).Sound :=
    quiet_checkWindow.sound (quiet_noteDuplicateAck.sound (h.atEdge hhi).1)
  have hblocks := applyBlocksByRecord_eq (i := i) hbefore
    (Sorting.sortByKey (·.start) i.ack.blocks)
  unfold runByRecord
  dsimp only
  rw [Walk.andThen_of_ok hedge]
  show Walk.andThen _ _ (p.beforeBlocks i) = _
  rw [Walk.andThen_of_ok hblocks, run_eq]
  unfold applyBlocks
  cases i.ack.duplicate <;> rfl

theorem processByRecord_eq (h : p.Sound) (hhi : i.ack.cumulative ≤ p.board.top) :
    processByRecord i p = (p.run i, .ok ()) := by
  unfold processByRecord
  rw [if_neg (Nat.not_lt.mpr hhi), runByRecord_eq h hhi]

end AckPass

/-! ## The call -/

namespace Engine

variable {κ : Type} [CongestionLaw κ] {g : Engine κ} {now : Nat}

/-- Take in an ack, one record after another. If that fails, the ack was not taken over, but what it
changed until then stays. -/
def processAckByRecord (g : Engine κ) (ack : Ack) (now : Nat) : Engine κ × Except Error Actions :=
  let pass := AckPass.processByRecord (g.ackInput ack now) g.passState
  match pass.2 with
  | .error e => ({ g.adopt pass.1 ack with window := g.window }, .error e)
  | .ok () =>
    let concluded := (g.adopt pass.1 ack).conclude ack pass.1.outcome now
    let done := concluded.1.respond g.schedule.stage ack pass.1.outcome concluded.2 now
    (done.1, done.1.audited done.2)

/-- Report an arriving ack. -/
def onAckByRecord (g : Engine κ) (ack : Ack) (now : Nat) : Engine κ × Except Error Actions :=
  g.guarded fun g => g.processAckByRecord ack now

/-- An ack is taken in as it is in single steps. -/
theorem Sound.processAckByRecord_eq (h : g.Sound) (ack : Ack) (now : Nat) :
    g.processAckByRecord ack now = g.processAck ack now := by
  by_cases hle : ack.cumulative ≤ g.board.top
  · have hp : g.passOf ack now = .ok (g.passState.run (g.ackInput ack now)) :=
      AckPass.process_eq_ok hle
    unfold processAckByRecord Engine.processAck
    rw [AckPass.processByRecord_eq (i := g.ackInput ack now) h.passState hle, hp]
  · have hlt := Nat.lt_of_not_le hle
    rw [processAck_of_beyond hlt]
    unfold processAckByRecord
    rw [show AckPass.processByRecord (g.ackInput ack now) g.passState = (g.passState, _) from
      if_pos hlt]
    rfl

/-- A report of an ack ends as it does in single steps. -/
theorem Running.onAckByRecord_eq (h : g.Running) (ack : Ack) (now : Nat) :
    g.onAckByRecord ack now = g.onAck ack now := by
  unfold onAckByRecord Engine.onAck
  rw [guarded_eq h.isAborted, guarded_eq h.isAborted, h.sound.processAckByRecord_eq]

end Engine

end LossRecovery
