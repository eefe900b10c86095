import LossRecovery.Proofs.Conclusions
import Mathlib.Order.Bounds.Basic

/-!
# `LossRecovery.Proofs.Spending` — what one ack lets be sent during recovery

The quota is computed anew whenever it is asked for. While the pipe is above the threshold, what was
sent since the ack is taken off. Otherwise only the distance to the threshold shrinks with every send:
the limit of one segment more than what the ack delivered applies to every answer on its own, and not
to all that is sent before the next ack.

## Contents
- `Engine.Spent g n g'`: from `g` to `g'`, `n` bytes of new data were sent; `Running.spent`.
- `Engine.room`, `Engine.burst`: what may be sent before the next ack, and what one quota grants.
- `Spends g n g'`: sends of new data, each within the quota at its time; `Spends.spent`.
- `Reachable.spends`: how much is sent in all; `quota_granted_twice`.
-/

namespace LossRecovery

/-- Below a word, a sum that stops at the largest word is as good as any. -/
theorem Word.sub_add {a : Nat} (ha : a ≤ max64) (b n : Nat) : a - add b n = a - b - n := by
  unfold add
  omega

theorem Word.add_add (a n b : Nat) : add (a + n) b = add (add a b) n := by
  unfold add
  omega

/-! ## The allowance -/

namespace RecoveryLedger

variable {l : RecoveryLedger} {pipe threshold mss : Nat}

/-- The share of the threshold in the flight, for the bytes that were delivered. -/
def share (l : RecoveryLedger) (threshold : Nat) : Nat :=
  if l.flight = 0 then 0
  else min ((l.delivered * threshold + l.flight - 1) / l.flight) Word.max64

theorem share_le (l : RecoveryLedger) (threshold : Nat) : l.share threshold ≤ Word.max64 := by
  unfold share
  split
  · exact Nat.zero_le _
  · exact Nat.min_le_right _ _

theorem allowance_of_lt (ha : l.active = true) (h : threshold < pipe) :
    l.allowance pipe threshold mss = l.share threshold - l.out := by
  by_cases hf : l.flight = 0 <;> simp [allowance, grant?, share, ha, h, hf]

theorem allowance_of_le (ha : l.active = true) (h : pipe ≤ threshold) :
    l.allowance pipe threshold mss
      = min (threshold - pipe) (Word.add (max (l.delivered - l.out) l.lastDelivered) mss) := by
  simp [allowance, grant?, ha, Nat.not_lt.mpr h]

end RecoveryLedger

namespace Engine

variable {κ : Type} {g g' g'' : Engine κ} {now n m : Nat}

/-! ## The floor -/

section Floor

variable [CongestionLaw κ]

/-- The floor of a probe of the least RTT is a word, and stays what it is. -/
theorem maintained_floor : Maintained fun g : Engine κ => g.probe.floor ≤ Word.max64 where
  noted hn h := Nat.le_trans (Nat.le_of_eq (congrArg (fun c => c.probe.floor) hn)) h
  sent {g x flags} now _ _ _ _ h := by
    obtain ⟨sent, hterms⟩ := terms_processSent g x flags now
    exact Nat.le_trans (Nat.le_of_eq (congrArg (fun t => t.probe.floor) hterms)) h
  acked {g ack} now hrun hle h := by
    have hconcluded := congrArg (·.probe.floor)
      (stock_conclude (g.acked ack now) ack (g.outcomeOf ack now) now)
    rw [hrun.sound.processAck_responds hle now]
    dsimp only
    rw [floor_respond]
    exact Nat.le_trans (Nat.le_of_eq hconcluded) h
  fired {g timer generation} hasData now _ _ h := by
    rw [(kept_processTimeout g timer generation hasData now).2]
    exact h

theorem Reachable.floor_le {first : Nat} (h : g.Reachable first) (ha : g.isAborted = false) :
    g.probe.floor ≤ Word.max64 := by
  refine (h.maintained maintained_floor ?_ ha).2
  intro settings law sink now g started
  obtain ⟨-, rfl⟩ := start_eq_ok_iff.mp started
  exact Nat.min_le_right _ _

end Floor

/-! ## New data -/

/-- From `g` to `g'`, `n` bytes of new data were sent. -/
structure Spent (g : Engine κ) (n : Nat) (g' : Engine κ) : Prop where
  running : g'.Running
  terms : g'.terms = g.terms.spend n
  ledger : g'.ledger = g.ledger.spend n
  una : g'.board.una = g.board.una
  top : g'.board.top = g.board.top + n

theorem ledger_accountSent (g : Engine κ) (hn : n ≠ 0) (now : Nat) :
    (g.accountSent n now).1.ledger = g.ledger.spend n := by
  unfold accountSent
  rw [if_neg hn]
  dsimp only
  split
  · unfold rearm
    split <;> rfl
  · rfl

/-- A report of new data is taken in, and counted. -/
theorem Running.spent (h : g.Running) (hn : 0 < n) {flags : Flags} (hf : flags.IsFresh) (now : Nat) :
    Spent g n (g.onPacketSent ⟨g.board.top, g.board.top + n⟩ flags now).1 := by
  have hx : (⟨g.board.top, g.board.top + n⟩ : SeqRange).start
      < (⟨g.board.top, g.board.top + n⟩ : SeqRange).stop := Nat.lt_add_of_pos_right hn
  have hs : (⟨g.board.top, g.board.top + n⟩ : SeqRange).start ≤ g.board.top := Nat.le_refl _
  obtain ⟨mid, again, probeEnd, heq, -, hterms, -, -, -, hfresh⟩ :=
    h.sound.processSent_parts hx hs hf now
  obtain ⟨-, hsent, hsound, hsame⟩ := h.sound.processSent hx hs hf now
  obtain ⟨hagain, hledger⟩ := hfresh rfl
  have hbytes : again + (max g.board.top (g.board.top + n) - g.board.top) = n := by omega
  dsimp only at heq
  rw [hbytes] at heq
  have hcall : (g.onPacketSent ⟨g.board.top, g.board.top + n⟩ flags now).1
      = (g.processSent ⟨g.board.top, g.board.top + n⟩ flags now).1 := by
    unfold onPacketSent
    rw [guarded_eq h.isAborted, heq]
  have hdone : (g.processSent ⟨g.board.top, g.board.top + n⟩ flags now).1
      = (mid.accountSent n now).1 := congrArg Prod.fst heq
  rw [hcall]
  refine ⟨⟨hsound, hsame.isAborted.trans h.isAborted⟩, ?_, ?_, hsent.edges.1, ?_⟩
  · rw [hdone, terms_accountSent, hterms]
  · rw [hdone, ledger_accountSent mid (Nat.ne_of_gt hn), hledger]
  · rw [hsent.edges.2]
    exact Nat.max_eq_right (Nat.le_add_right _ _)

variable [CongestionLaw κ]

/-! ## Room -/

/-- What rate reduction leaves to be sent before the next ack: the rest of the share while the pipe is
above the threshold, else the distance to the threshold. -/
def reduction (g : Engine κ) : Nat :=
  if g.threshold < g.pipe then g.ledger.share g.threshold - g.ledger.out else g.threshold - g.pipe

/-- What may be sent in all before the next ack. -/
def room (g : Engine κ) : Nat :=
  let rest := if g.probe.isActive then min g.reduction (g.probe.floor - g.pipe) else g.reduction
  min rest (g.windowEdge - g.board.top)

/-- The most that is granted at once while the pipe is not above the threshold: a segment more than
what was delivered. -/
def burst (g : Engine κ) : Nat :=
  Word.add (max (g.ledger.delivered - g.ledger.out) g.ledger.lastDelivered) g.settings.mss

/-- An engine that repairs losses under rate reduction, with limits that are words. -/
structure Repairing (g : Engine κ) : Prop where
  running : g.Running
  stage : g.schedule.stage = .recovering
  active : g.ledger.active = true
  mss_pos : 0 < g.settings.mss
  threshold_le : g.threshold ≤ Word.max64
  floor_le : g.probe.floor ≤ Word.max64

namespace Repairing

/-- The quota is the room, but for the limit of a burst. -/
theorem quota_eq (h : g.Repairing) :
    g.sendQuota = if g.threshold < g.pipe then g.room else min g.room g.burst := by
  unfold sendQuota stageQuota room reduction burst
  simp only [h.running.isAborted, h.stage, Bool.false_eq_true, if_false]
  by_cases hlt : g.threshold < g.pipe
  · rw [if_pos hlt, if_pos hlt, RecoveryLedger.allowance_of_lt h.active hlt]
  · rw [if_neg hlt, if_neg hlt, RecoveryLedger.allowance_of_le h.active (Nat.le_of_not_lt hlt)]
    cases g.probe.isActive
    · simp only [Bool.false_eq_true, if_false]
      omega
    · simp only [if_true]
      omega

theorem quota_le_room (h : g.Repairing) : g.sendQuota ≤ g.room := by
  rw [h.quota_eq]
  split
  · exact Nat.le_refl _
  · exact Nat.min_le_left _ _

theorem burst_pos (h : g.Repairing) : 0 < g.burst := by
  have hmss := h.mss_pos
  unfold burst Word.add Word.max64
  omega

/-- As long as there is room, something is granted. -/
theorem quota_pos (h : g.Repairing) (hroom : 0 < g.room) : 0 < g.sendQuota := by
  have hburst := h.burst_pos
  rw [h.quota_eq]
  split <;> omega

theorem pipe_eq (h : g.Repairing) : g.pipe
    = Word.add (g.board.top - g.board.una - g.ledger.sackedBytes) g.ledger.holeBytes := by
  unfold pipe
  rw [h.stage]
  rfl

/-- The recovery goes on after new data was sent. -/
theorem spent (h : g.Repairing) (hs : Spent g n g') : g'.Repairing := by
  have hsettings : g'.settings = g.settings := congrArg Terms.settings hs.terms
  have hthreshold : g'.threshold = g.threshold :=
    congrArg (fun t => CongestionLaw.threshold t.law) hs.terms
  have hprobe : g'.probe = g.probe := congrArg Terms.probe hs.terms
  refine ⟨hs.running, (congrArg Terms.stage hs.terms).trans h.stage, ?_, ?_, ?_, ?_⟩
  · rw [hs.ledger]
    exact h.active
  · rw [hsettings]
    exact h.mss_pos
  · rw [hthreshold]
    exact h.threshold_le
  · rw [hprobe]
    exact h.floor_le

/-- The pipe grows with what is sent, up to the largest word. -/
theorem pipe_spent (h : g.Repairing) (hs : Spent g n g') : g'.pipe = Word.add g.pipe n := by
  have hcounted : g.ledger.sackedBytes + g.ledger.holeBytes ≤ g.board.top - g.board.una :=
    h.running.sound.counted_le
  have hpipe' := (h.spent hs).pipe_eq
  rw [hs.top, hs.una, hs.ledger] at hpipe'
  have hmore : g.board.top + n - g.board.una - g.ledger.sackedBytes
      = g.board.top - g.board.una - g.ledger.sackedBytes + n := by
    have hle := h.running.sound.board.le
    omega
  rw [hpipe', h.pipe_eq, ← Word.add_add, ← hmore]
  rfl

/-- What is sent within the room takes that much off the reduction. The pipe stays on its side of the
threshold. -/
theorem reduction_spent (h : g.Repairing) (hs : Spent g n g') (hn : n ≤ g.room) :
    g'.reduction = g.reduction - n := by
  have hT := h.threshold_le
  have hthreshold : g'.threshold = g.threshold :=
    congrArg (fun t => CongestionLaw.threshold t.law) hs.terms
  have hshare' : g'.ledger.share g.threshold = g.ledger.share g.threshold := by
    rw [hs.ledger]
    rfl
  have hout : g'.ledger.out = Word.add g.ledger.out n := by
    rw [hs.ledger]
    unfold RecoveryLedger.spend
    rw [h.active]
    rfl
  have hroom : n ≤ g.reduction := by
    unfold Engine.room at hn
    dsimp only at hn
    split at hn <;> omega
  unfold reduction at hroom ⊢
  rw [hthreshold, h.pipe_spent hs, hshare', hout]
  have hword : g.pipe ≤ Word.max64 := by
    rw [h.pipe_eq]
    exact Word.add_le _ _
  by_cases hlt : g.threshold < g.pipe
  · have hlt' : g.threshold < Word.add g.pipe n := by
      unfold Word.add
      omega
    rw [if_pos hlt', if_pos hlt, Word.sub_add (g.ledger.share_le g.threshold)]
  · rw [if_neg hlt] at hroom
    have hsum : Word.add g.pipe n = g.pipe + n := Word.add_eq (by omega)
    rw [hsum, if_neg (by omega), if_neg hlt]
    omega

theorem room_spent (h : g.Repairing) (hs : Spent g n g') (hn : n ≤ g.room) :
    g'.room = g.room - n := by
  have hprobe : g'.probe = g.probe := congrArg Terms.probe hs.terms
  have hedge : g'.windowEdge = g.windowEdge := by
    unfold windowEdge
    rw [hs.una, show g'.window = g.window from congrArg Terms.window hs.terms]
  unfold Engine.room
  rw [h.reduction_spent hs hn, hprobe, hedge, hs.top, h.pipe_spent hs, Word.sub_add h.floor_le,
    ← Nat.sub_sub]
  cases g.probe.isActive
  · exact Nat.sub_min_sub_right ..
  · simp only [if_true, Nat.sub_min_sub_right]

end Repairing

/-! ## Sends before the next ack -/

/-- From `g` to `g'`, `n` bytes of new data were sent in any number of sends, each one within the quota
at its time. -/
inductive Spends (g : Engine κ) : Nat → Engine κ → Prop
  | none : Spends g 0 g
  | send {n : Nat} {g' : Engine κ} (before : Spends g n g') (bytes : Nat) (some : 0 < bytes)
      (within : bytes ≤ g'.sendQuota) (flags : Flags) (fresh : flags.IsFresh) (now : Nat) :
      Spends g (n + bytes) (g'.onPacketSent ⟨g'.board.top, g'.board.top + bytes⟩ flags now).1

/-- However the sends are cut, they stay within the room, and use it up. -/
theorem Spends.room (h : Spends g n g') (hg : g.Repairing) :
    g'.Repairing ∧ n ≤ g.room ∧ g'.room = g.room - n := by
  induction h with
  | none => exact ⟨hg, Nat.zero_le _, rfl⟩
  | @send n g' before bytes some within flags fresh now ih =>
    obtain ⟨hg', hn, hroom⟩ := ih
    have hwithin : bytes ≤ g'.room := Nat.le_trans within hg'.quota_le_room
    have hspent := hg'.running.spent some fresh now
    refine ⟨hg'.spent hspent, by omega, ?_⟩
    rw [hg'.room_spent hspent hwithin, hroom]
    omega

/-- One can go on sending until the room is used up. -/
theorem Repairing.spends_room (hg : g.Repairing) : ∃ g', Spends g g.room g' := by
  -- By induction on the room that is left.
  have hrest : ∀ k n g', Spends g n g' → g.room - n = k → ∃ g'', Spends g g.room g'' := by
    intro k
    induction k using Nat.strongRecOn with
    | ind k ih =>
      intro n g' h hk
      obtain ⟨hg', hn, hroom⟩ := h.room hg
      by_cases hleft : g'.room = 0
      · have hall : n = g.room := by omega
        exact ⟨g', hall ▸ h⟩
      · have hpos := hg'.quota_pos (Nat.pos_of_ne_zero hleft)
        have hle := hg'.quota_le_room
        exact ih (g.room - (n + g'.sendQuota)) (by omega) _ _
          (h.send g'.sendQuota hpos (Nat.le_refl _) {} ⟨rfl, rfl⟩ 0) rfl
  exact hrest _ 0 g .none rfl

variable {first : Nat}

theorem Reachable.repairing (h : g.Reachable first) (ha : g.isAborted = false)
    (hr : g.schedule.stage = .recovering) (hT : g.threshold ≤ Word.max64) : g.Repairing := by
  have hrest := h.atRest ha
  exact ⟨h.running_of ha, hr, hrest.staged.agree.1.mp hr, hrest.mss_pos, hT, h.floor_le ha⟩

/-- How much new data is sent during recovery before the next ack or timeout, if every send keeps
within the quota at its time: up to the room, and the room can be used up. While the pipe is above the
threshold, that is what the first quota says. Otherwise the quota is the room limited by a burst. It
bounds all that is sent only if the room is no larger than the burst, since every new quota grants the
bytes of the latest ack and one segment again. -/
theorem Reachable.spends (h : g.Reachable first) (ha : g.isAborted = false)
    (hr : g.schedule.stage = .recovering) (hT : g.threshold ≤ Word.max64) :
    IsGreatest {n | ∃ g', Spends g n g'} g.room ∧
    g.sendQuota = (if g.threshold < g.pipe then g.room else min g.room g.burst) ∧
    ((∀ n g', Spends g n g' → n ≤ g.sendQuota) ↔ g.threshold < g.pipe ∨ g.room ≤ g.burst) := by
  have hg := h.repairing ha hr hT
  have hquota := hg.quota_eq
  have hall := hg.spends_room
  refine ⟨⟨hall, ?_⟩, hquota, ?_⟩
  · rintro n ⟨g', hn⟩
    exact (hn.room hg).2.1
  · have hbound : (∀ n g', Spends g n g' → n ≤ g.sendQuota) ↔ g.room ≤ g.sendQuota := by
      constructor
      · intro hle
        obtain ⟨g', hg'⟩ := hall
        exact hle _ _ hg'
      · intro hle n g' hn
        exact Nat.le_trans (hn.room hg).2.1 hle
    rw [hbound, hquota]
    by_cases hlt : g.threshold < g.pipe
    · simp [hlt]
    · simp [hlt]

/-- Of six segments all but the first are SACKed. The first one is presumed lost at a later ack, which
delivers nothing: four segments are sent before the next ack, although the quota is one. -/
theorem spends_after_sack : ∃ g : Engine FixedWindow,
    (g.Reachable 0 ∧ g.isAborted = false ∧ g.schedule.stage = .recovering ∧
      g.threshold ≤ Word.max64) ∧
    IsGreatest {n | ∃ g', Spends g n g'} g.room ∧ g.room = 5840 ∧ g.sendQuota = 1460 := by
  have started : Engine.start {} (FixedWindow.ofSettings {}) .discard 0 0 = .ok _ := rfl
  have first := (Reachable.start started).step (.send ⟨0, 1460⟩ {} 0 ⟨rfl, rfl⟩)
  have rest := first.step (.send ⟨1460, 8760⟩ {} 1000000 ⟨rfl, rfl⟩)
  have sacked := rest.step (.ack { cumulative := 0, blocks := [⟨1460, 8760⟩] } 100000000)
  have again := sacked.step (.ack { cumulative := 0, blocks := [⟨1460, 8760⟩] } 150000000)
  obtain ⟨hgreatest, -⟩ := Reachable.spends again rfl (by decide +kernel) (by decide +kernel)
  exact ⟨_, ⟨again, rfl, by decide +kernel, by decide +kernel⟩, hgreatest, by decide +kernel,
    by decide +kernel⟩

/-- After that ack two segments are sent one after the other, each within the quota at its time, and
together they exceed the quota from before. -/
theorem quota_granted_twice : ∃ (g : Engine FixedWindow) (a : Ack) (now n : Nat)
    (g' : Engine FixedWindow), g.Reachable 0 ∧ (g.onAck a now).1.schedule.stage = .recovering ∧
    Spends (g.onAck a now).1 n g' ∧ (g.onAck a now).1.sendQuota < n := by
  have started : Engine.start {} (FixedWindow.ofSettings {}) .discard 0 0 = .ok _ := rfl
  have first := (Reachable.start started).step (.send ⟨0, 1460⟩ {} 0 ⟨rfl, rfl⟩)
  have rest := first.step (.send ⟨1460, 8760⟩ {} 1000000 ⟨rfl, rfl⟩)
  have sacked := rest.step (.ack { cumulative := 0, blocks := [⟨1460, 8760⟩] } 100000000)
  exact ⟨_, { cumulative := 0, blocks := [⟨1460, 8760⟩] }, 150000000, _, _, sacked,
    by decide +kernel,
    .send (.send .none 1460 (by decide) (by decide +kernel) {} ⟨rfl, rfl⟩ 150000000) 1460 (by decide)
      (by decide +kernel) {} ⟨rfl, rfl⟩ 150000000, by decide +kernel⟩

end Engine

end LossRecovery
