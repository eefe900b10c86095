import LossRecovery.Proofs.Turns

/-!
# `LossRecovery.Proofs.ByteBooks` — the byte counts balance

Every byte below the right edge was sent once as new data, and every other send of it was a resend.
Every byte that has arrived, below the left edge or SACKed above it, was counted once as delivered.
This holds whatever calls are made. Counters stop at the largest word, and so do the sums.

## Contents
- `AckPass.Sound.delivered_run`: what a pass over an ack counts as delivered.
- `Balanced`: the law for both counters, and `maintained_balanced`, that the work of an engine keeps
  it.
- `Reachable.bytes_balance`: the law for the engines that calls lead to, and the bytes that have
  arrived, counted one by one.
-/

namespace LossRecovery

/-! ## A pass over an ack -/

namespace AckPass

variable {i : AckInput} {p : AckPass}

/-- The bytes a pass counts as delivered are those that moved below the left edge or were SACKed, less
those that were SACKed before. -/
theorem Sound.delivered_run (h : p.Sound) (hhi : i.ack.cumulative ≤ p.board.top) :
    (p.run i).outcome.delivered + p.ledger.sackedBytes
      = p.outcome.delivered + ((p.run i).board.una - p.board.una) + (p.run i).ledger.sackedBytes := by
  obtain ⟨hedge, he⟩ := h.atEdge hhi
  obtain ⟨-, hm, -⟩ := h.run hhi
  have hle : p.board.una ≤ (p.atEdge i).board.una := by
    rw [he.una]
    exact Nat.le_max_left _ _
  have htop : (p.atEdge i).board.una ≤ p.board.top := he.top ▸ hedge.board.le
  -- What was SACKed before lies below the new left edge or above it.
  have hbefore : p.ledger.sackedBytes = countBytes p.board.sackedAt p.board.una p.board.top := by
    rw [h.counts.sacked, countBytes_sackedAt h.board]
  have habove : (p.atEdge i).ledger.sackedBytes
      = countBytes p.board.sackedAt (p.atEdge i).board.una p.board.top := by
    rw [hedge.counts.sacked, ← countBytes_sackedAt hedge.board, he.top]
    exact countBytes_congr fun s hlo _ => he.sackedAt s hlo
  have hsplit := countBytes_append (g := p.board.sackedAt) hle htop
  have hnot := countBytes_not p.board.sackedAt p.board.una (p.atEdge i).board.una
  have hcumulative := hm.cumulative.trans he.cumulative
  have hnewly := hm.newly
  rw [he.sacked] at hnewly
  rw [hm.una]
  unfold AckOutcome.delivered
  omega

end AckPass

/-! ## The law -/

namespace Engine

variable {κ : Type} {g g' : Engine κ} {first now : Nat}

/-- The counters of an engine whose first byte had the sequence number `first`. -/
structure Balanced (first : Nat) (g : Engine κ) : Prop where
  first_le : first ≤ g.board.una
  delivered : g.byteCounts.delivered = Word.add (g.board.una - first) g.byteCounts.sacked
  sent : g.byteCounts.sent = Word.add (g.board.top - first) g.byteCounts.retransmitted

theorem Balanced.congr (h : Balanced first g) (hb : g'.byteCounts = g.byteCounts)
    (hu : g'.board.una = g.board.una) (ht : g'.board.top = g.board.top) : Balanced first g' := by
  refine ⟨hu ▸ h.first_le, ?_, ?_⟩
  · rw [hb, hu]
    exact h.delivered
  · rw [hb, ht]
    exact h.sent

theorem balanced_start [CongestionLaw κ] {settings : Settings} {law : κ} {sink : Sink}
    (h : start settings law sink first now = .ok g) : Balanced first g := by
  obtain ⟨-, rfl⟩ := start_eq_ok_iff.mp h
  refine ⟨Nat.le_refl _, ?_, ?_⟩
  · simp [fresh, byteCounts, Scoreboard.empty, Word.add]
  · simp [fresh, byteCounts, Scoreboard.empty, Word.add]

theorem balanced_sent (hrun : g.Running) {x : SeqRange} {flags : Flags} (hx : x.start < x.stop)
    (hs : x.start ≤ g.board.top) (hf : flags.IsFresh) (now : Nat) (h : Balanced first g) :
    Balanced first (g.processSent x flags now).1 := by
  obtain ⟨mid, again, probeEnd, heq, hcontrol, -, -, hbytes, -⟩ :=
    hrun.sound.processSent_parts hx hs hf now
  obtain ⟨-, hsent, -, -⟩ := hrun.sound.processSent hx hs hf now
  have hle := hrun.sound.board.le
  have hdone : (g.processSent x flags now).1 = (mid.accountSent _ now).1 := congrArg Prod.fst heq
  have hcounts := byteCounts_accountSent mid
    (again + (max g.board.top x.stop - g.board.top)) now
  rw [← hdone, hbytes] at hcounts
  refine ⟨hsent.edges.1 ▸ h.first_le, ?_, ?_⟩
  · rw [hcounts, hsent.edges.1]
    exact h.delivered
  · rw [hcounts, hsent.edges.2]
    dsimp only
    rw [h.sent]
    -- The new data counts on the one side, and what was sent again on both.
    have hfirst := h.first_le
    unfold Word.add
    split <;> split <;> omega

variable [CongestionLaw κ]

theorem balanced_acked (hrun : g.Running) {ack : Ack} (hle : ack.cumulative ≤ g.board.top)
    (now : Nat) (h : Balanced first g) : Balanced first (g.processAck ack now).1 := by
  obtain ⟨mid, hturned, -, -, -, -, hbytes⟩ := hrun.sound.processAck_turns hle now
  obtain ⟨hrel, -⟩ := hrun.sound.processAck hle now
  obtain ⟨huna, htop⟩ := hrel.edges
  have hdelivered := hrun.sound.passState.delivered_run (i := g.ackInput ack now) hle
  have hcounts := hbytes.trans hturned.bytes
  rw [byteCounts_noteOutcome] at hcounts
  have hedge : g.board.una ≤ (g.acked ack now).board.una := by
    rw [show (g.acked ack now).board.una = _ from
      congrArg Control.una (hrun.sound.control_acked hle now).1]
    exact Nat.le_max_left _ _
  have hfirst := h.first_le
  refine ⟨huna ▸ Nat.le_trans hfirst hedge, ?_, ?_⟩
  · rw [hcounts, huna]
    show Word.add g.byteCounts.delivered _ = Word.add _ (g.acked ack now).ledger.sackedBytes
    rw [h.delivered]
    change _ + g.ledger.sackedBytes = 0 + ((g.acked ack now).board.una - g.board.una)
      + (g.acked ack now).ledger.sackedBytes at hdelivered
    show Word.add (Word.add _ g.ledger.sackedBytes) _ = _
    unfold Word.add
    omega
  · rw [hcounts, htop, hrun.sound.acked_top hle now]
    exact h.sent

/-- All the work of an engine keeps its counters balanced. -/
theorem maintained_balanced : Maintained fun g : Engine κ => Balanced first g where
  noted hn h := h.congr hn.byteCounts (congrArg Scoreboard.una hn.kept.board)
    (congrArg Scoreboard.top hn.kept.board)
  sent now hrun hx hs hf h := balanced_sent hrun hx hs hf now h
  acked now hrun hle h := balanced_acked hrun hle now h
  fired hasData now _ hc h :=
    have hedges := (relabelled_processTimeout _ _ _ hasData now).edges
    h.congr (byteCounts_processTimeout _ hc hasData now) hedges.1 hedges.2

/-- Whether a byte has arrived: it lies below the left edge, or it is SACKed. -/
def arrived (g : Engine κ) (seq : Nat) : Bool := seq < g.board.una || g.board.sackedAt seq

omit [CongestionLaw κ] in
theorem Sound.countBytes_arrived (h : g.Sound) (hfirst : first ≤ g.board.una) :
    countBytes g.arrived first g.board.top = (g.board.una - first) + g.ledger.sackedBytes := by
  have hbelow : countBytes g.arrived first g.board.una = g.board.una - first := by
    have hall : ∀ s, first ≤ s → s < g.board.una → g.arrived s = (fun _ => true) s := by
      intro s _ hs
      simp [arrived, hs]
    rw [countBytes_congr hall]
    simp [countBytes]
  have habove : countBytes g.arrived g.board.una g.board.top = g.ledger.sackedBytes := by
    have hsame : ∀ s, g.board.una ≤ s → s < g.board.top → g.arrived s = g.board.sackedAt s := by
      intro s hs _
      simp [arrived, Nat.not_lt.mpr hs]
    rw [countBytes_congr hsame, AckPass.countBytes_sackedAt h.board, h.counts.sacked]
  rw [← countBytes_append hfirst h.board.le, hbelow, habove]

/-- The byte counts balance. All bytes below the left edge and all SACKed ones were counted as
delivered, each once; and all bytes below the right edge were counted as sent, each once, beside those
sent again. Until a counter stops at the largest word, both are equations between plain numbers. -/
theorem Reachable.bytes_balance (h : g.Reachable first) (ha : g.isAborted = false) :
    g.stats.deliveredBytes = Word.add (g.board.una - first) g.ledger.sackedBytes ∧
    g.stats.sentBytes = Word.add (g.board.top - first) g.stats.retransmittedBytes ∧
    (g.stats.deliveredBytes < Word.max64 →
      g.stats.deliveredBytes = (g.board.una - first) + g.ledger.sackedBytes ∧
      g.stats.deliveredBytes = countBytes g.arrived first g.board.top) ∧
    (g.stats.sentBytes < Word.max64 →
      g.stats.sentBytes = (g.board.top - first) + g.stats.retransmittedBytes) ∧
    first ≤ g.board.una ∧ g.board.una ≤ g.board.top := by
  obtain ⟨hrun, hfirst, hdelivered, hsent⟩ := h.maintained maintained_balanced balanced_start ha
  change g.stats.deliveredBytes = Word.add _ g.ledger.sackedBytes at hdelivered
  change g.stats.sentBytes = Word.add _ g.stats.retransmittedBytes at hsent
  refine ⟨hdelivered, hsent, fun hlt => ?_, fun hlt => ?_, hfirst, hrun.sound.board.le⟩
  · rw [hrun.sound.countBytes_arrived hfirst]
    unfold Word.add at hdelivered
    omega
  · unfold Word.add at hsent
    omega

/-- Of two segments the second one is SACKed and the first one sent again. An ack of the first that
repeats the block of the second counts each byte once. -/
theorem bytes_balance_after_sack : ∃ g : Engine FixedWindow,
    (g.Reachable 1000 ∧ g.isAborted = false ∧ g.board.una = 2460) ∧
    g.stats.deliveredBytes = (g.board.una - 1000) + g.ledger.sackedBytes ∧
    g.stats.sentBytes = (g.board.top - 1000) + g.stats.retransmittedBytes := by
  have started : Engine.start {} (FixedWindow.ofSettings {}) .discard 1000 0 = .ok _ := rfl
  have sent := (Reachable.start started).step (.send ⟨1000, 3920⟩ {} 0 ⟨rfl, rfl⟩)
  have sacked := sent.step (.ack { cumulative := 1000, blocks := [⟨2460, 3920⟩] } 50)
  have again := sacked.step (.send ⟨1000, 2460⟩ {} 100 ⟨rfl, rfl⟩)
  have acked := again.step (.ack { cumulative := 2460, blocks := [⟨2460, 3920⟩] } 150)
  obtain ⟨-, -, hdelivered, hsent, -⟩ := Reachable.bytes_balance acked rfl
  exact ⟨_, ⟨acked, rfl, rfl⟩, (hdelivered (by decide +kernel)).1, hsent (by decide +kernel)⟩

end Engine

end LossRecovery
