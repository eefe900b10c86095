import LossRecovery.Proofs.EngineSteps

/-!
# `LossRecovery.Proofs.SendSteps` — what a report of a send does to the scoreboard

The part of a sent range that is outstanding was sent again, the part above the right edge is new. A
report that starts at or below the right edge and is not empty is always taken in.

## Contents
- `Engine.Sound.audit`: a sound engine passes its audit.
- `Scoreboard.Resent`, `Scoreboard.Extended`, `Scoreboard.Sent`: what a report makes of a scoreboard.
- `resendRange_eq`, `resendRange_of_le`: what sending a range again does and counts.
- `Sound.resendRange`, `Sound.appendNew`, `kept_accountSent`: the parts of a report.
- `Sound.processSent`: the report as a whole.
-/

namespace LossRecovery

open Engine (totalLength)

/-! ## The audit -/

namespace Engine

variable {κ : Type} {g : Engine κ}

/-- SACKed bytes and bytes counted as holes are different bytes. -/
theorem Sound.counted_le (h : g.Sound) :
    g.ledger.sackedBytes + g.ledger.holeBytes ≤ g.board.outstanding := by
  rw [h.counts.sacked, h.counts.holes]
  apply h.board.tiles.totalLength_add_le
  intro r hr hs
  rw [Bool.eq_false_iff]
  intro hh
  have := ((h.board.records r hr).hole hh).1
  rw [hs] at this
  exact Bool.noConfusion this

theorem Sound.audit (h : g.Sound) : g.audit = .ok () := by
  have hle := h.counted_le
  unfold Engine.audit
  rw [h.board.audit]
  show (if _ then _ else _) = _
  rw [if_neg (by rw [← h.counts.sacked]; omega)]
  exact if_neg (by rw [← h.counts.holes]; simp)

theorem Sound.audited {α : Type} (h : g.Sound) (a : α) : g.audited a = .ok a := by
  unfold Engine.audited
  rw [h.audit]

end Engine

/-! ## Sends on the scoreboard -/

namespace Scoreboard

/-- Whether the cuts a resend of a range needs fit under the record limit. -/
def resendFits (b : Scoreboard) (x : SeqRange) : Bool := b.size + b.cutsNeeded x ≤ b.limit

/-- `b'` is `b` after the outstanding range `x` was sent again. -/
def Resent (b : Scoreboard) (x : SeqRange) (now : Nat) (b' : Scoreboard) : Prop :=
  (x.stop ≤ x.start ∧ b' = b) ∨
  (x.start < x.stop ∧ ∃ flags afterTimeout, b' = Engine.resendOnBoard b x (b.resendFits x)
    (Engine.resentRecord flags afterTimeout now))

/-- `b'` is `b` after the new range `x` was sent. -/
def Extended (b : Scoreboard) (x : SeqRange) (now : Nat) (b' : Scoreboard) : Prop :=
  (x.stop ≤ x.start ∧ b' = b) ∨
  (x.start < x.stop ∧ ∃ flags mark, Flags.IsFresh flags ∧ b.append x flags now mark = .ok b')

/-- The part of a sent range that is outstanding. -/
def resentPart (b : Scoreboard) (x : SeqRange) : SeqRange := ⟨max x.start b.una, min x.stop b.top⟩

/-- `b'` is `b` after the range `x` was sent. -/
def Sent (b : Scoreboard) (x : SeqRange) (now : Nat) (b' : Scoreboard) : Prop :=
  ∃ mid, b.Resent (b.resentPart x) now mid ∧ mid.Extended ⟨b.top, x.stop⟩ now b'

variable {b b' : Scoreboard} {x : SeqRange} {now : Nat}

theorem Resent.coherent (h : b.Resent x now b') (hb : b.Coherent) : b'.Coherent := by
  rcases h with ⟨-, rfl⟩ | ⟨hx, flags, afterTimeout, rfl⟩
  · exact hb
  · exact hb.resendOnBoard hx

theorem Resent.edges (h : b.Resent x now b') : b'.una = b.una ∧ b'.top = b.top := by
  rcases h with ⟨-, rfl⟩ | ⟨-, flags, afterTimeout, rfl⟩
  · exact ⟨rfl, rfl⟩
  · cases hf : b.resendFits x <;> exact ⟨rfl, rfl⟩

theorem Resent.sackedAt (h : b.Resent x now b') (hb : b.Coherent) (seq : Nat) :
    b'.sackedAt seq = b.sackedAt seq := by
  rcases h with ⟨-, rfl⟩ | ⟨hx, flags, afterTimeout, rfl⟩
  · rfl
  · exact hb.sackedAt_resendOnBoard hx

theorem Extended.coherent (h : b.Extended x now b') (hb : b.Coherent) (hs : x.start = b.top) :
    b'.Coherent := by
  rcases h with ⟨-, rfl⟩ | ⟨hx, flags, mark, hf, ha⟩
  · exact hb
  · exact hb.append hx hs hf ha

theorem Extended.edges (h : b.Extended x now b') (hs : x.start = b.top) :
    b'.una = b.una ∧ b'.top = max b.top x.stop := by
  rcases h with ⟨hx, rfl⟩ | ⟨hx, flags, mark, -, ha⟩
  · exact ⟨rfl, by omega⟩
  · obtain ⟨h1, h2⟩ := append_edges hx hs ha
    exact ⟨h1, by omega⟩

theorem Extended.sackedAt (h : b.Extended x now b') (hb : b.Coherent) (hs : x.start = b.top)
    (seq : Nat) : b'.sackedAt seq = b.sackedAt seq := by
  rcases h with ⟨-, rfl⟩ | ⟨hx, flags, mark, hf, ha⟩
  · rfl
  · exact hb.sackedAt_append hx hs hf ha

theorem Sent.edges (h : b.Sent x now b') : b'.una = b.una ∧ b'.top = max b.top x.stop := by
  obtain ⟨mid, h1, h2⟩ := h
  have e1 := h1.edges
  have e2 := h2.edges e1.2.symm
  rw [e1.1, e1.2] at e2
  exact e2

/-- A send changes nothing about what has arrived. -/
theorem Sent.sackedAt (h : b.Sent x now b') (hb : b.Coherent) (seq : Nat) :
    b'.sackedAt seq = b.sackedAt seq := by
  obtain ⟨mid, h1, h2⟩ := h
  rw [h2.sackedAt (h1.coherent hb) h1.edges.2.symm, h1.sackedAt hb]

end Scoreboard

namespace Engine

variable {κ : Type} {g g' : Engine κ} {range x : SeqRange} {flags : Flags} {now : Nat}

theorem tracker_of_same {t : SackTracker} {b b' : Scoreboard} (h : t.Sound b)
    (hu : b'.una = b.una) (hs : ∀ seq, b'.sackedAt seq = b.sackedAt seq) : t.Sound b' := by
  refine ⟨h.canonical, ?_, ?_, ?_, ?_⟩
  · intro seq hf hlo
    rw [hu] at hlo
    rw [hs]
    exact h.filter seq hf hlo
  · rw [hu]
    exact h.una_le
  · intro seq hseq
    rw [hs] at hseq
    exact h.sacked_lt seq hseq
  · rw [hu, hs]
    exact h.reached

/-! ## Data sent again -/

theorem kept_noteStale (g : Engine κ) (range : SeqRange) : Kept g (g.noteStale range) :=
  rfl

section ResendWalk

variable {fits : Bool} {change : SendRecord → SendRecord} {rs : List SendRecord}

theorem resendWalk_kept (range : SeqRange) (fits : Bool) (change : SendRecord → SendRecord)
    (rs : List SendRecord) (g : Engine κ) :
    (rs.foldl (countResent range fits change) g).board = g.board
      ∧ (rs.foldl (countResent range fits change) g).tracker = g.tracker
      ∧ (rs.foldl (countResent range fits change) g).ledger.sackedBytes = g.ledger.sackedBytes
      ∧ (rs.foldl (countResent range fits change) g).recent = g.recent
      ∧ (rs.foldl (countResent range fits change) g).isAborted = g.isAborted := by
  refine ⟨?_, ?_, ?_, ?_, ?_⟩
  · exact foldl_keep (·.board) (g := countResent range fits change) rs g fun _ _ => rfl
  · exact foldl_keep (·.tracker) (g := countResent range fits change) rs g fun _ _ => rfl
  · exact foldl_keep (·.ledger.sackedBytes) (g := countResent range fits change) rs g fun _ _ => rfl
  · exact foldl_keep (·.recent) (g := countResent range fits change) rs g fun _ _ => rfl
  · exact foldl_keep (·.isAborted) (g := countResent range fits change) rs g fun _ _ => rfl

theorem resendWalk_holes (g : Engine κ) :
    (rs.foldl (countResent range fits change) g).ledger.holeBytes = g.ledger.holeBytes
      + Number.total (rs.map fun r =>
          if (resentPart range fits r).hole then 0 else (resentPart range fits r).length) := by
  rw [← foldl_add_eq]
  apply foldl_project (·.ledger.holeBytes) rs g
  intro a r
  show (if (resentPart range fits r).hole then _ else _) = _
  cases (resentPart range fits r).hole <;> rfl

end ResendWalk

/-- An engine after the records of a range were counted and marked as sent again. -/
def resentEngine (g : Engine κ) (x : SeqRange) (flags : Flags) (now : Nat) : Engine κ :=
  let fits := g.board.resendFits x
  let told := if fits then g else g.noteWhole x
  let change := resentRecord flags (g.schedule.stage == .rtoPending) now
  { ((g.board.overlapping x).filter fun r => !r.isDelivered).foldl (countResent x fits change) told with
    board := resendOnBoard g.board x fits change }

/-- How many bytes a resend of a range counts. -/
def resentBytes (g : Engine κ) (x : SeqRange) : Nat :=
  Number.total (((g.board.overlapping x).filter fun r => !r.isDelivered).map fun r =>
    (resentPart x (g.board.resendFits x) r).length)

/-- Count bytes that were sent again. -/
def countAgain (g : Engine κ) (n : Nat) : Engine κ :=
  { g with stats := { g.stats with
      retransmittedBytes := Word.add g.stats.retransmittedBytes n } }.count .retransmittedBytes n

/-- A resend that reaches over the left edge is counted, if it finds something missing. -/
theorem resendRange_eq (g : Engine κ) (range : SeqRange) (flags : Flags) (now : Nat)
    (hx : max range.start g.board.una < range.stop) :
    g.resendRange range flags now =
      let x : SeqRange := ⟨max range.start g.board.una, range.stop⟩
      let resent := g.resentEngine x flags now
      if g.resentBytes x = 0 then (resent.noteStale x, 0)
      else (resent.countAgain (g.resentBytes x), g.resentBytes x) := by
  have hne : ¬ (⟨max range.start g.board.una, range.stop⟩ : SeqRange).isEmpty = true := by
    rw [SeqRange.isEmpty_iff]
    exact Nat.not_le.mpr hx
  unfold resendRange
  dsimp only
  rw [if_neg hne]
  unfold resentEngine resentBytes Scoreboard.resendFits
  cases hfits : decide (g.board.size + g.board.cutsNeeded ⟨max range.start g.board.una, range.stop⟩
      ≤ g.board.limit) <;> rfl

theorem resendRange_of_le (g : Engine κ) (range : SeqRange) (flags : Flags) (now : Nat)
    (hx : range.stop ≤ max range.start g.board.una) :
    g.resendRange range flags now
      = (g.noteStale ⟨max range.start g.board.una, range.stop⟩, 0) :=
  if_pos (SeqRange.isEmpty_iff.mpr hx)

theorem kept_resendRange (g : Engine κ) (range : SeqRange) (flags : Flags) (now : Nat)
    (hx : max range.start g.board.una < range.stop) :
    Kept (g.resentEngine ⟨max range.start g.board.una, range.stop⟩ flags now)
      (g.resendRange range flags now).1 := by
  rw [resendRange_eq g range flags now hx]
  dsimp only
  split <;> exact rfl

theorem resentEngine_kept (g : Engine κ) (x : SeqRange) (flags : Flags) (now : Nat) :
    (g.resentEngine x flags now).tracker = g.tracker
      ∧ (g.resentEngine x flags now).ledger.sackedBytes = g.ledger.sackedBytes
      ∧ (g.resentEngine x flags now).recent = g.recent
      ∧ (g.resentEngine x flags now).isAborted = g.isAborted := by
  unfold resentEngine
  dsimp only
  cases g.board.resendFits x <;>
  · obtain ⟨-, h2, h3, h4, h5⟩ := resendWalk_kept x _ _ _ _
    exact ⟨h2, h3, h4, h5⟩

theorem resentEngine_board (g : Engine κ) (x : SeqRange) (flags : Flags) (now : Nat) :
    (g.resentEngine x flags now).board = resendOnBoard g.board x (g.board.resendFits x)
      (resentRecord flags (g.schedule.stage == .rtoPending) now) := rfl

theorem resentEngine_holes (g : Engine κ) (x : SeqRange) (flags : Flags) (now : Nat) :
    (g.resentEngine x flags now).ledger.holeBytes = g.ledger.holeBytes
      + Number.total (((g.board.overlapping x).filter fun r => !r.isDelivered).map fun r =>
          if (resentPart x (g.board.resendFits x) r).hole then 0
          else (resentPart x (g.board.resendFits x) r).length) := by
  unfold resentEngine
  dsimp only
  rw [resendWalk_holes]
  cases g.board.resendFits x <;> rfl

/-- The part of a record that a resend stands for shares its history. -/
theorem isPart_resentPart {b : Scoreboard} (h : b.Coherent) (hx : x.start < x.stop) (fits : Bool)
    {r : SendRecord} (hr : r ∈ b.records) (ho : r.overlaps x = true) :
    (resentPart x fits r).IsPart r := by
  cases fits with
  | true => exact SendRecord.isPart_carve_middle (h.tiles.bounds hr).2.1 hx ho
  | false => exact SendRecord.IsPart.refl r

/-- Sending missing data again leaves the count of SACKed bytes right. -/
theorem Sound.resentEngine_sackedBytes (h : g.Sound) (hx : x.start < x.stop) :
    (g.resentEngine x flags now).ledger.sackedBytes
      = totalLength (·.flags.sacked) (g.resentEngine x flags now).board.records := by
  have hsk := Scoreboard.totalLength_resendOnBoard (p := fun r => r.flags.sacked)
    (f := resentRecord flags (g.schedule.stage == .rtoPending) now) h.board hx
    (g.board.resendFits x) (fun _ _ _ hpart => hpart.sacked) fun _ => rfl
  -- What is sent again was missing, and still is.
  have hcome : ((g.board.overlapping x).filter fun r => !r.isDelivered).map
      (fun r => if (resentRecord flags (g.schedule.stage == .rtoPending) now
          (resentPart x (g.board.resendFits x) r)).flags.sacked then
        (resentPart x (g.board.resendFits x) r).length else 0)
      = ((g.board.overlapping x).filter fun r => !r.isDelivered).map
        fun r => if r.flags.sacked then (resentPart x (g.board.resendFits x) r).length else 0 := by
    apply List.map_congr_left
    intro r hr
    obtain ⟨hrb, hro, -⟩ := (AckPass.mem_missing h.board hx).mp hr
    rw [← (isPart_resentPart h.board hx (g.board.resendFits x) hrb hro).sacked]
    rfl
  rw [hcome, AckPass.total_missing_sacked h.board hx] at hsk
  rw [resentEngine_board, (resentEngine_kept g x flags now).2.1, h.counts.sacked]
  exact hsk.symm

/-- Sending missing data again makes holes of all that was sent, whether it counted as one before or
not. -/
theorem Sound.resentEngine_holeBytes (h : g.Sound) (hx : x.start < x.stop) :
    (g.resentEngine x flags now).ledger.holeBytes
      = totalLength (·.hole) (g.resentEngine x flags now).board.records := by
  have hmem := fun r => (AckPass.mem_missing (r := r) h.board hx).mp
  have hh := Scoreboard.totalLength_resendOnBoard (p := fun r => r.hole)
    (f := resentRecord flags (g.schedule.stage == .rtoPending) now) h.board hx
    (g.board.resendFits x) (fun _ _ _ hpart => hpart.hole) fun _ => rfl
  -- A part counted before stays counted, and every other one joins the holes.
  have hsplit := Number.total_map_add ((g.board.overlapping x).filter fun r => !r.isDelivered)
    (fun r => if r.hole then (resentPart x (g.board.resendFits x) r).length else 0)
    (fun r => if r.hole then 0 else (resentPart x (g.board.resendFits x) r).length)
  have hwhole : (fun r : SendRecord =>
      (if r.hole then (resentPart x (g.board.resendFits x) r).length else 0)
        + (if r.hole then 0 else (resentPart x (g.board.resendFits x) r).length))
      = fun r => (resentPart x (g.board.resendFits x) r).length := by
    funext r
    cases r.hole <;> simp
  have hnew : ((g.board.overlapping x).filter fun r => !r.isDelivered).map
      (fun r => if (resentPart x (g.board.resendFits x) r).hole then 0
        else (resentPart x (g.board.resendFits x) r).length)
      = ((g.board.overlapping x).filter fun r => !r.isDelivered).map
        fun r => if r.hole then 0 else (resentPart x (g.board.resendFits x) r).length := by
    apply List.map_congr_left
    intro r hr
    rw [(isPart_resentPart h.board hx (g.board.resendFits x) (hmem r hr).1 (hmem r hr).2.1).hole]
  have hcome : (fun r : SendRecord => if (resentRecord flags (g.schedule.stage == .rtoPending) now
      (resentPart x (g.board.resendFits x) r)).hole then
        (resentPart x (g.board.resendFits x) r).length else 0)
      = fun r => (resentPart x (g.board.resendFits x) r).length := rfl
  rw [hwhole] at hsplit
  rw [resentEngine_board, resentEngine_holes, hnew, h.counts.holes]
  rw [hcome] at hh
  omega

theorem Sound.resentEngine (h : g.Sound) (hx : x.start < x.stop) :
    (g.resentEngine x flags now).Sound := by
  have hr : g.board.Resent x now (g.resentEngine x flags now).board := Or.inr ⟨hx, _, _, rfl⟩
  refine ⟨hr.coherent h.board, ⟨h.resentEngine_sackedBytes hx, h.resentEngine_holeBytes hx⟩, ?_⟩
  rw [(resentEngine_kept g x flags now).1]
  exact tracker_of_same h.tracker hr.edges.1 (hr.sackedAt h.board)

/-- From `g` to `g'`, nothing was delivered and the engine was not stopped. -/
structure SameDelivery (g g' : Engine κ) : Prop where
  sentAt : g'.recent.sentAt = g.recent.sentAt
  stop : g'.recent.stop = g.recent.stop
  isAborted : g'.isAborted = g.isAborted

namespace SameDelivery

theorem refl (g : Engine κ) : SameDelivery g g := ⟨rfl, rfl, rfl⟩

theorem trans {g'' : Engine κ} (h : SameDelivery g g') (h' : SameDelivery g' g'') :
    SameDelivery g g'' :=
  ⟨h'.sentAt.trans h.sentAt, h'.stop.trans h.stop, h'.isAborted.trans h.isAborted⟩

end SameDelivery

theorem Kept.sameDelivery (h : Kept g g') : SameDelivery g g' := ⟨h.sentAt, h.stop, h.isAborted⟩

theorem Kept.sound (h : Kept g g') (hg : g.Sound) : g'.Sound := (Relabelled.of_kept h).sound hg

theorem Sound.resendRange (h : g.Sound) (range : SeqRange) (flags : Flags) (now : Nat) :
    g.board.Resent ⟨max range.start g.board.una, range.stop⟩ now
        (g.resendRange range flags now).1.board
      ∧ (g.resendRange range flags now).1.Sound
      ∧ SameDelivery g (g.resendRange range flags now).1 := by
  by_cases hx : max range.start g.board.una < range.stop
  · have hk := kept_resendRange g range flags now hx
    obtain ⟨-, -, hr, ha⟩ := resentEngine_kept g ⟨max range.start g.board.una, range.stop⟩ flags now
    refine ⟨?_, hk.sound (h.resentEngine hx), SameDelivery.trans ⟨?_, ?_, ha⟩ hk.sameDelivery⟩
    · rw [hk.board]
      exact Or.inr ⟨hx, _, _, rfl⟩
    · rw [hr]
    · rw [hr]
  · have hk := kept_noteStale g ⟨max range.start g.board.una, range.stop⟩
    rw [resendRange_of_le g range flags now (Nat.le_of_not_lt hx)]
    exact ⟨Or.inl ⟨Nat.le_of_not_lt hx, rfl⟩, hk.sound h, hk.sameDelivery⟩

/-! ## New data -/

/-- A scoreboard that took in new data fits what went with it before. -/
theorem Sound.of_append (h : g.Sound) {b' : Scoreboard} {mark : Nat} (hx : x.start < x.stop)
    (hs : x.start = g.board.top) (hf : flags.IsFresh)
    (ha : g.board.append x flags now mark = .ok b') : Sound { g with board := b' } := by
  have he : g.board.Extended x now b' := Or.inr ⟨hx, flags, mark, hf, ha⟩
  refine ⟨he.coherent h.board hs, ⟨?_, ?_⟩, tracker_of_same h.tracker (he.edges hs).1
    (he.sackedAt h.board hs)⟩
  · -- The highest record grows only while it is linked, so that it has not arrived.
    refine h.counts.sacked.trans (Scoreboard.totalLength_of_append hx hs ha
      (fun last hl hc stop => ?_) hf.2).symm
    have hlast := (h.board.records last hl).linked
    rw [(Scoreboard.continuesBurst_iff.mp hc).2.2.2.2.2] at hlast
    have hsk : last.flags.sacked = false := by simpa using hlast.symm
    exact ⟨hsk, hsk⟩
  · -- It grows only if it was sent once, so that it is no hole.
    refine h.counts.holes.trans (Scoreboard.totalLength_of_append hx hs ha
      (fun last hl hc stop => ?_) rfl).symm
    have hhole : last.hole = false := by
      rw [Bool.eq_false_iff]
      intro hh
      have := ((h.board.records last hl).hole hh).2
      have := (Scoreboard.continuesBurst_iff.mp hc).2.1
      omega
    exact ⟨hhole, hhole⟩

theorem Sound.appendNew (h : g.Sound) (hx : x.start < x.stop) (hs : x.start = g.board.top)
    (hf : flags.IsFresh) (now : Nat) :
    (g.appendNew x flags now).2 = .ok () ∧ g.board.Extended x now (g.appendNew x flags now).1.board
      ∧ (g.appendNew x flags now).1.Sound ∧ SameDelivery g (g.appendNew x flags now).1 := by
  have hok : ∃ b', g.board.append x flags now (if flags.appLimited then x.stop else 0) = .ok b' := by
    rcases Scoreboard.append_eq_ok flags now (if flags.appLimited then x.stop else 0) hx hs with
      ⟨last, below, -, -, he⟩ | he
    · exact ⟨_, he⟩
    · exact ⟨_, he⟩
  obtain ⟨b', ha⟩ := hok
  obtain ⟨hboard, hcounts, htracker⟩ := h.of_append hx hs hf ha
  unfold Engine.appendNew
  rw [ha]
  dsimp only
  split <;> exact ⟨rfl, Or.inr ⟨hx, flags, _, hf, ha⟩, ⟨hboard, hcounts, htracker⟩, ⟨rfl, rfl, rfl⟩⟩

/-! ## A report as a whole -/

theorem kept_accountSent (g : Engine κ) (sent : Nat) (now : Nat) :
    Kept g (g.accountSent sent now).1 := by
  unfold accountSent
  split
  · exact rfl
  · dsimp only
    split
    · unfold rearm
      split <;> exact rfl
    · exact rfl

/-- The resend of the outstanding part of a range, if it reaches below the right edge. -/
def resendBelow (g : Engine κ) (range : SeqRange) (flags : Flags) (now : Nat) : Engine κ × Nat :=
  if range.start < g.board.top then
    g.resendRange ⟨range.start, min range.stop g.board.top⟩ flags now
  else (g, 0)

theorem Sound.resendBelow (h : g.Sound) (hx : range.start < range.stop)
    (hs : range.start ≤ g.board.top) (flags : Flags) (now : Nat) :
    g.board.Resent (g.board.resentPart range) now (g.resendBelow range flags now).1.board
      ∧ (g.resendBelow range flags now).1.Sound
      ∧ SameDelivery g (g.resendBelow range flags now).1 := by
  unfold Engine.resendBelow
  by_cases hlt : range.start < g.board.top
  · rw [if_pos hlt]
    exact h.resendRange ⟨range.start, min range.stop g.board.top⟩ flags now
  · rw [if_neg hlt]
    refine ⟨Or.inl ⟨?_, rfl⟩, h, SameDelivery.refl g⟩
    show min range.stop g.board.top ≤ max range.start g.board.una
    omega

/-- A report of outstanding data is a resend. -/
theorem processSent_of_le (hx : range.start < range.stop) (hstop : range.stop ≤ g.board.top) :
    g.processSent range flags now =
      let below := g.resendBelow range flags now
      let done := below.1.accountSent below.2 now
      (done.1, done.1.audited done.2) := by
  unfold Engine.processSent Engine.resendBelow
  rw [if_neg (by rw [SeqRange.isEmpty_iff]; omega), if_pos hstop]

/-- A report that reaches over the right edge is a resend followed by new data. -/
theorem processSent_of_lt (hx : range.start < range.stop) (hs : range.start ≤ g.board.top)
    (hstop : g.board.top < range.stop)
    (hok : ((g.resendBelow range flags now).1.appendNew ⟨g.board.top, range.stop⟩ flags now).2
      = .ok ()) :
    g.processSent range flags now =
      let below := g.resendBelow range flags now
      let appended := below.1.appendNew ⟨g.board.top, range.stop⟩ flags now
      let done := appended.1.accountSent
        (below.2 + (⟨g.board.top, range.stop⟩ : SeqRange).length) now
      (done.1, done.1.audited done.2) := by
  have hfresh : (⟨max range.start g.board.top, range.stop⟩ : SeqRange)
      = ⟨g.board.top, range.stop⟩ := by
    rw [Nat.max_eq_right hs]
  rw [← hfresh] at hok ⊢
  unfold Engine.processSent
  rw [if_neg (by rw [SeqRange.isEmpty_iff]; omega), if_neg (Nat.not_le.mpr hstop)]
  unfold Engine.resendBelow at hok ⊢
  dsimp only
  rw [hok]

/-- A report that is not empty and starts at or below the right edge is taken in. -/
theorem Sound.processSent (h : g.Sound) (hx : range.start < range.stop)
    (hs : range.start ≤ g.board.top) (hf : flags.IsFresh) (now : Nat) :
    (∃ actions, (g.processSent range flags now).2 = .ok actions)
      ∧ g.board.Sent range now (g.processSent range flags now).1.board
      ∧ (g.processSent range flags now).1.Sound
      ∧ SameDelivery g (g.processSent range flags now).1 := by
  obtain ⟨hr, hsound, hmem⟩ := h.resendBelow hx hs flags now
  by_cases hstop : range.stop ≤ g.board.top
  · rw [processSent_of_le hx hstop]
    have hk := kept_accountSent (g.resendBelow range flags now).1 (g.resendBelow range flags now).2 now
    refine ⟨⟨_, (hk.sound hsound).audited _⟩, ⟨_, hr, Or.inl ⟨hstop, hk.board⟩⟩, hk.sound hsound,
      hmem.trans hk.sameDelivery⟩
  · obtain ⟨hok, he, hsound', hmem'⟩ := hsound.appendNew (x := ⟨g.board.top, range.stop⟩)
      (Nat.lt_of_not_le hstop) hr.edges.2.symm hf now
    rw [processSent_of_lt hx hs (Nat.lt_of_not_le hstop) hok]
    have hk := kept_accountSent
      ((g.resendBelow range flags now).1.appendNew ⟨g.board.top, range.stop⟩ flags now).1
      ((g.resendBelow range flags now).2 + (⟨g.board.top, range.stop⟩ : SeqRange).length) now
    refine ⟨⟨_, (hk.sound hsound').audited _⟩, ⟨_, hr, ?_⟩, hk.sound hsound',
      (hmem.trans hmem').trans hk.sameDelivery⟩
    dsimp only
    rw [hk.board]
    exact he

theorem processSent_of_empty (g : Engine κ) (hx : range.stop ≤ range.start) :
    g.processSent range flags now = (g, .error (.malformed (.emptySend range))) :=
  if_pos (SeqRange.isEmpty_iff.mpr hx)

end Engine

end LossRecovery
