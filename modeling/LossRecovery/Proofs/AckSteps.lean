import LossRecovery.Proofs.AckAccounts

/-!
# `LossRecovery.Proofs.AckSteps` — the steps of a pass over an ack

Every step of a pass keeps the scoreboard coherent, the counters equal to the totals they stand for,
and the range filter within what has arrived. Of all steps only two change which bytes are SACKED:
moving the left edge, which forgets what lies below, and applying a block.

## Contents
- `RecoveryLedger.Counts`, `SackTracker.Sound`, `AckPass.Sound`: the invariant of a pass.
- `AckPass.Quiet`: steps that only relabel records.
- `AckPass.Marks`: steps that mark bytes as SACKED.
- `quiet_checkWindow`, `quiet_countAgainst`, `quiet_applyDuplicate`: the steps that are quiet.
- `SendRecord.Remarks`, `remarks_checkWindow`, `remarks_applyDuplicate`: the steps that only set marks.
-/

namespace LossRecovery

open Engine (totalLength)

/-- The byte counts of a ledger are the totals over the records. -/
structure RecoveryLedger.Counts (l : RecoveryLedger) (b : Scoreboard) : Prop where
  sacked : l.sackedBytes = totalLength (·.flags.sacked) b.records
  holes : l.holeBytes = totalLength (·.hole) b.records

/-- The filter holds only bytes that have arrived, and the highest number is the left edge or
belongs to the end of the highest SACKED record. -/
structure SackTracker.Sound (t : SackTracker) (b : Scoreboard) : Prop where
  canonical : t.filter.Canonical
  filter : ∀ seq, t.filter.Holds seq → b.una ≤ seq → b.sackedAt seq = true
  una_le : b.una ≤ t.highest
  sacked_lt : ∀ seq, b.sackedAt seq = true → seq < t.highest
  reached : t.highest = b.una ∨ b.sackedAt (t.highest - 1) = true

/-- The RTT sample of an outcome, and the send it was measured from. -/
def AckOutcome.measured (o : AckOutcome) : Option Nat × Option Nat := (o.rttFrom, o.rttSample)

/-- `f` changes at most the marks of a record for lying beyond the window and for having been received
twice. -/
def SendRecord.Remarks (f : SendRecord → SendRecord) : Prop :=
  ∀ r, ∃ collapsed duplicated,
    f r = { r with flags := { r.flags with collapsed := collapsed, duplicated := duplicated } }

namespace SendRecord.Remarks

theorem id : Remarks id := fun _ => ⟨_, _, rfl⟩

theorem ite {c : SendRecord → Prop} [DecidablePred c] {f : SendRecord → SendRecord}
    (hf : Remarks f) : Remarks fun r => if c r then f r else r := by
  intro r
  by_cases hc : c r
  · simp only [hc, if_true]
    exact hf r
  · simp only [hc, if_false]
    exact id r

theorem comp {f g : SendRecord → SendRecord} (hg : Remarks g) (hf : Remarks f) : Remarks (g ∘ f) := by
  intro r
  obtain ⟨_, _, he⟩ := hf r
  obtain ⟨_, _, he'⟩ := hg (f r)
  exact ⟨_, _, he'.trans (by rw [he])⟩

theorem relabels {f : SendRecord → SendRecord} (hf : Remarks f) : Relabels f := by
  refine .of_eq (fun r => ?_) (fun r => ?_) (fun r => ?_) fun r hh => ?_ <;>
    obtain ⟨_, _, he⟩ := hf r
  · rw [he]
  · rw [he]
  · rw [he]
  · rwa [he] at hh

end SendRecord.Remarks

namespace AckPass

/-- The scoreboard is coherent, and what goes with it fits. -/
structure Sound (p : AckPass) : Prop where
  board : p.board.Coherent
  counts : p.ledger.Counts p.board
  tracker : p.tracker.Sound p.board

/-- From `p` to `q`, outstanding bytes for which `new` holds were marked as SACKED, and counted. -/
structure Marks (new : Nat → Prop) (p q : AckPass) : Prop where
  una : q.board.una = p.board.una
  top : q.board.top = p.board.top
  sacked : ∀ seq, q.board.sackedAt seq = true ↔
    p.board.sackedAt seq = true ∨ (p.board.una ≤ seq ∧ seq < p.board.top ∧ new seq)
  cumulative : q.outcome.cumulative = p.outcome.cumulative
  newly : q.outcome.sacked + p.ledger.sackedBytes = p.outcome.sacked + q.ledger.sackedBytes

/-- From `p` to `q`, records were relabelled, and nothing else happened that concerns them. -/
structure Quiet (p q : AckPass) : Prop where
  board : ∃ f, SendRecord.Relabels f ∧ (∀ r, (f r).hole = r.hole) ∧ q.board = p.board.modify f
  ledger : q.ledger = p.ledger
  filter : q.tracker.filter = p.tracker.filter
  highest : q.tracker.highest = p.tracker.highest
  cumulative : q.outcome.cumulative = p.outcome.cumulative
  sacked : q.outcome.sacked = p.outcome.sacked
  refused : q.outcome.refused = p.outcome.refused
  measured : q.outcome.measured = p.outcome.measured
  sentAt : q.recent.sentAt = p.recent.sentAt
  stop : q.recent.stop = p.recent.stop
  rtt : q.recent.rtt = p.recent.rtt
  factor : p.recent.multiplier ≤ RecentAck.maxMultiplier → q.recent.multiplier ≤ RecentAck.maxMultiplier

variable {i : AckInput} {p q r : AckPass} {block x : SeqRange} {new new' : Nat → Prop}

namespace Marks

theorem congr (h : Marks new p q)
    (he : ∀ seq, p.board.una ≤ seq → seq < p.board.top → (new seq ↔ new' seq)) :
    Marks new' p q := by
  refine ⟨h.una, h.top, ?_, h.cumulative, h.newly⟩
  intro seq
  rw [h.sacked seq]
  constructor
  · rintro (hs | ⟨h1, h2, h3⟩)
    · exact Or.inl hs
    · exact Or.inr ⟨h1, h2, (he seq h1 h2).mp h3⟩
  · rintro (hs | ⟨h1, h2, h3⟩)
    · exact Or.inl hs
    · exact Or.inr ⟨h1, h2, (he seq h1 h2).mpr h3⟩

theorem trans (h : Marks new p q) (h' : Marks new' q r) :
    Marks (fun seq => new seq ∨ new' seq) p r := by
  refine ⟨h'.una.trans h.una, h'.top.trans h.top, ?_,
    h'.cumulative.trans h.cumulative, ?_⟩
  · intro seq
    rw [h'.sacked seq, h.sacked seq, h.una, h.top, or_assoc]
    constructor
    · rintro (hs | ⟨h1, h2, h3⟩ | ⟨h1, h2, h3⟩)
      · exact Or.inl hs
      · exact Or.inr ⟨h1, h2, Or.inl h3⟩
      · exact Or.inr ⟨h1, h2, Or.inr h3⟩
    · rintro (hs | ⟨h1, h2, h3 | h3⟩)
      · exact Or.inl hs
      · exact Or.inr (Or.inl ⟨h1, h2, h3⟩)
      · exact Or.inr (Or.inr ⟨h1, h2, h3⟩)
  · have h1 := h.newly
    have h2 := h'.newly
    omega

end Marks

/-! ## Steps that only relabel records -/

namespace Quiet

theorem of_modify {f : SendRecord → SendRecord} (hb : q.board = p.board.modify f)
    (hf : SendRecord.Relabels f) (hh : ∀ r, (f r).hole = r.hole) (hl : q.ledger = p.ledger)
    (ht : q.tracker.filter = p.tracker.filter ∧ q.tracker.highest = p.tracker.highest)
    (ho : q.outcome.cumulative = p.outcome.cumulative ∧ q.outcome.sacked = p.outcome.sacked
      ∧ q.outcome.refused = p.outcome.refused ∧ q.outcome.measured = p.outcome.measured)
    (hr : q.recent.sentAt = p.recent.sentAt ∧ q.recent.stop = p.recent.stop
      ∧ q.recent.rtt = p.recent.rtt)
    (hm : p.recent.multiplier ≤ RecentAck.maxMultiplier →
      q.recent.multiplier ≤ RecentAck.maxMultiplier) : Quiet p q :=
  ⟨⟨f, hf, hh, hb⟩, hl, ht.1, ht.2, ho.1, ho.2.1, ho.2.2.1, ho.2.2.2, hr.1, hr.2.1, hr.2.2, hm⟩

theorem of_eq (hb : q.board = p.board) (hl : q.ledger = p.ledger)
    (ht : q.tracker.filter = p.tracker.filter ∧ q.tracker.highest = p.tracker.highest)
    (ho : q.outcome.cumulative = p.outcome.cumulative ∧ q.outcome.sacked = p.outcome.sacked
      ∧ q.outcome.refused = p.outcome.refused ∧ q.outcome.measured = p.outcome.measured)
    (hr : q.recent = p.recent) : Quiet p q := by
  refine of_modify (f := id) ?_ .id (fun _ => rfl) hl ht ho ⟨by rw [hr], by rw [hr], by rw [hr]⟩
    (by rw [hr]; exact id)
  rw [hb]
  unfold Scoreboard.modify
  rw [List.map_id]

theorem sound (hq : Quiet p q) (h : p.Sound) : q.Sound := by
  obtain ⟨f, hf, hole, hb⟩ := hq.board
  have hsame : ∀ seq, q.board.sackedAt seq = p.board.sackedAt seq := by
    intro seq
    rw [hb, h.board.sackedAt_modify hf]
  refine ⟨?_, ⟨?_, ?_⟩, ⟨?_, ?_, ?_, ?_, ?_⟩⟩
  · rw [hb]
    exact h.board.modify hf
  · rw [hq.ledger, hb, h.counts.sacked]
    exact (totalLength_map fun r _ => ⟨hf.sacked r, hf.length r⟩).symm
  · rw [hq.ledger, hb, h.counts.holes]
    exact (totalLength_map fun r _ => ⟨hole r, hf.length r⟩).symm
  · rw [hq.filter]
    exact h.tracker.canonical
  · intro seq hs hlo
    rw [hsame]
    rw [hq.filter] at hs
    rw [hb] at hlo
    exact h.tracker.filter seq hs hlo
  · rw [hq.highest, hb]
    exact h.tracker.una_le
  · intro seq hs
    rw [hsame] at hs
    rw [hq.highest]
    exact h.tracker.sacked_lt seq hs
  · rw [hq.highest, hsame, hb]
    exact h.tracker.reached

theorem marks (hq : Quiet p q) (h : p.Sound) : Marks (fun _ => False) p q := by
  obtain ⟨f, hf, -, hb⟩ := hq.board
  refine ⟨by rw [hb]; rfl, by rw [hb]; rfl, ?_, hq.cumulative, ?_⟩
  · intro seq
    rw [hb, h.board.sackedAt_modify hf]
    simp
  · rw [hq.sacked, hq.ledger]

end Quiet

theorem quiet_noteDuplicateAck : Quiet p (p.noteDuplicateAck i) :=
  Quiet.of_eq rfl rfl ⟨rfl, rfl⟩ ⟨rfl, rfl, rfl, rfl⟩ rfl

theorem quiet_checkWindow : Quiet p (p.checkWindow i) := by
  unfold checkWindow
  by_cases h1 : Word.add p.board.una i.ack.window < p.board.top
  · simp only [h1, if_true]
    refine Quiet.of_modify rfl
      (.ite (.of_eq (fun _ => rfl) (fun _ => rfl) (fun _ => rfl) fun _ => id))
      (fun r => ?_) rfl ⟨rfl, rfl⟩ ⟨rfl, rfl, rfl, rfl⟩ ⟨rfl, rfl, rfl⟩ id
    split <;> rfl
  · simp only [h1, if_false]
    split
    · exact Quiet.of_modify rfl (.of_eq (fun _ => rfl) (fun _ => rfl) (fun _ => rfl) fun _ => id)
        (fun _ => rfl) rfl ⟨rfl, rfl⟩ ⟨rfl, rfl, rfl, rfl⟩ ⟨rfl, rfl, rfl⟩ id
    · exact Quiet.of_eq rfl rfl ⟨rfl, rfl⟩ ⟨rfl, rfl, rfl, rfl⟩ rfl

theorem quiet_countPassed : Quiet p p.countPassed := by
  refine Quiet.of_modify rfl
    (.ite (.of_eq (fun _ => rfl) (fun _ => rfl) (fun _ => rfl) fun _ => id))
    (fun r => ?_) rfl ⟨rfl, rfl⟩ ⟨rfl, rfl, rfl, rfl⟩ ⟨rfl, rfl, rfl⟩ id
  split <;> rfl

/-- The lowest record is the only one that starts where it starts. -/
theorem countRepeated_board (h : p.board.Coherent) {head : SendRecord} {rest : List SendRecord}
    (hrec : p.board.records = head :: rest) (hc : countable head = true) :
    p.countRepeated.board
      = p.board.modify fun r => if r.start = head.start then countDupack r else r := by
  have hrest : ∀ r ∈ rest, (if r.start = head.start then countDupack r else r) = r := by
    intro r hr
    have hne : r.start ≠ head.start := by
      have ht := h.tiles
      rw [hrec] at ht
      have := ht.2.2.bounds hr
      have := ht.2.1
      omega
    rw [if_neg hne]
  unfold countRepeated
  rw [hrec]
  simp only [hc, if_true]
  unfold Scoreboard.modify
  rw [hrec, List.map_cons, if_pos rfl, List.map_congr_left hrest, List.map_id']
  rfl

theorem quiet_countRepeated (h : p.board.Coherent) : Quiet p p.countRepeated := by
  cases hrec : p.board.records with
  | nil =>
    unfold countRepeated
    rw [hrec]
    exact Quiet.of_eq rfl rfl ⟨rfl, rfl⟩ ⟨rfl, rfl, rfl, rfl⟩ rfl
  | cons head rest =>
    cases hc : countable head with
    | true =>
      have hq : p.countRepeated = { p with
          board := { p.board with records := countDupack head :: rest } }.tell
            [.duplicateAck (countDupack head).dupacks head.range] := by
        unfold countRepeated
        rw [hrec]
        simp only [hc, if_true]
      refine Quiet.of_modify (countRepeated_board h hrec hc)
        (.ite (.of_eq (fun _ => rfl) (fun _ => rfl) (fun _ => rfl) fun _ => id))
        (fun r => ?_) ?_ ?_ ?_ ?_ ?_
      · split <;> rfl
      all_goals rw [hq]
      · rfl
      · exact ⟨rfl, rfl⟩
      · exact ⟨rfl, rfl, rfl, rfl⟩
      · exact ⟨rfl, rfl, rfl⟩
      · exact id
    | false =>
      unfold countRepeated
      rw [hrec]
      simp only [hc, Bool.false_eq_true, if_false]
      exact Quiet.of_eq rfl rfl ⟨rfl, rfl⟩ ⟨rfl, rfl, rfl, rfl⟩ rfl

theorem quiet_countAgainst (h : p.board.Coherent) : Quiet p p.countAgainst := by
  unfold countAgainst
  split
  · exact quiet_countPassed
  · split
    · exact quiet_countRepeated h
    · exact Quiet.of_eq rfl rfl ⟨rfl, rfl⟩ ⟨rfl, rfl, rfl, rfl⟩ rfl

theorem noteDuplicate_delivery (a : RecentAck) (una top now : Nat) :
    (a.noteDuplicate una top now).sentAt = a.sentAt ∧ (a.noteDuplicate una top now).stop = a.stop ∧
      (a.noteDuplicate una top now).rtt = a.rtt := by
  unfold RecentAck.noteDuplicate
  split <;> exact ⟨rfl, rfl, rfl⟩

/-- A factor within its limit stays there. -/
theorem noteDuplicate_multiplier {a : RecentAck} (una top now : Nat)
    (h : a.multiplier ≤ RecentAck.maxMultiplier) :
    (a.noteDuplicate una top now).multiplier ≤ RecentAck.maxMultiplier := by
  unfold RecentAck.noteDuplicate
  split
  · exact Nat.min_le_right _ _
  · exact h

theorem quiet_applyDuplicate : Quiet p (p.applyDuplicate i x) := by
  unfold applyDuplicate
  split
  · exact Quiet.of_eq rfl rfl ⟨rfl, rfl⟩ ⟨rfl, rfl, rfl, rfl⟩ rfl
  · refine Quiet.of_modify rfl
      (.ite (.of_eq (fun _ => rfl) (fun _ => rfl) (fun _ => rfl) fun _ => id))
      (fun r => ?_) rfl ⟨rfl, rfl⟩ ⟨rfl, rfl, rfl, rfl⟩ (noteDuplicate_delivery _ _ _ _)
      (noteDuplicate_multiplier _ _ _)
    split <;> rfl

/-! ## Steps that only set marks for the window and for reports of data received twice -/

theorem remarks_checkWindow : ∃ f, SendRecord.Remarks f ∧ (p.checkWindow i).board = p.board.modify f := by
  unfold checkWindow
  by_cases hlt : Word.add p.board.una i.ack.window < p.board.top
  · simp only [hlt, if_true]
    exact ⟨_, .ite fun _ => ⟨_, _, rfl⟩, rfl⟩
  · simp only [hlt, if_false]
    split
    · exact ⟨fun r => { r with flags := { r.flags with collapsed := false } },
        fun _ => ⟨_, _, rfl⟩, rfl⟩
    · exact ⟨id, .id, by simp [Scoreboard.modify]⟩

theorem remarks_applyDuplicate :
    ∃ f, SendRecord.Remarks f ∧ (p.applyDuplicate i x).board = p.board.modify f := by
  unfold applyDuplicate
  split
  · exact ⟨id, .id, by simp [Scoreboard.modify, tell]⟩
  · exact ⟨_, .ite fun _ => ⟨_, _, rfl⟩, rfl⟩

end AckPass

end LossRecovery
