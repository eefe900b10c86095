import LossRecovery.Proofs.Histories

/-!
# `LossRecovery.Proofs.LossByTime` — what a loss by time rests on

Of all deliveries only one time and one stop are remembered. The time is that of a send whose data
has arrived. The stop is that of the delivered record, and this record may have been released only
in part: then the last byte below the stop is still missing, and the rest of the record may be
presumed lost because of its own first part.

## Contents
- `Scoreboard.Arrived`: the bytes that were released or SACKed.
- `RecentAck.Told`: the remembered time and stop are those of sends; `Told.remember`: deliveries keep
  it.
- `Remembered`: the invariant over the calls; `Reachable.ordered`: the sends are in order of time.
- `Engine.SentBefore`, `Engine.Overreaches`: a record was sent before something that has arrived; the
  remembered stop reaches over data that has not.
- `Engine.lossesOf`: the losses that an ack finds.
- `Reachable.sentBefore_iff`: a loss by time is right unless the remembered stop overreaches.
-/

namespace LossRecovery

open Sending (accountedTimes transmissions)

/-! ## Arrivals -/

namespace Scoreboard

/-- The byte `seq` was released or SACKed. -/
def Arrived (b : Scoreboard) (seq : Nat) : Prop := seq < b.una ∨ b.sackedAt seq = true

namespace Coherent

variable {b : Scoreboard} {seq : Nat}

/-- The bytes of a missing record have not arrived. -/
theorem not_arrived_of_missing (h : b.Coherent) {q : SendRecord} (hq : b.Holds seq q)
    (hm : q.flags.sacked = false) : ¬ b.Arrived seq := by
  rintro (hlt | hsk)
  · have := h.bounds_of_holds hq
    omega
  · rw [h.sackedAt_eq hq, hm] at hsk
    exact Bool.noConfusion hsk

theorem arrived_release (h : b.Coherent) {edge : Nat} (hlo : b.una ≤ edge) (hhi : edge ≤ b.top)
    (hseq : b.Arrived seq) : (b.release edge).Arrived seq := by
  by_cases hlt : seq < edge
  · exact Or.inl hlt
  · rcases hseq with hu | hs
    · exact absurd (Nat.lt_of_lt_of_le hu hlo) hlt
    · refine Or.inr ?_
      rw [h.sackedAt_release hlo hhi (Nat.le_of_not_lt hlt)]
      exact hs

theorem arrived_modify (h : b.Coherent) {f : SendRecord → SendRecord}
    (hf : SendRecord.Relabels f) (hseq : b.Arrived seq) : (b.modify f).Arrived seq :=
  hseq.imp_right fun hs => by
    rw [h.sackedAt_modify hf]
    exact hs

end Coherent

/-- What has arrived before a send has arrived after it. -/
theorem Sent.arrived {b b' : Scoreboard} {x : SeqRange} {now seq : Nat} (h : b.Sent x now b')
    (hb : b.Coherent) (hseq : b.Arrived seq) : b'.Arrived seq := by
  unfold Arrived
  rw [h.edges.1, h.sackedAt hb]
  exact hseq

end Scoreboard

/-! ## The remembered delivery -/

section Told

variable {i : AckInput} {a a' : RecentAck} {b b' : Scoreboard} {sends : List Sending} {r : SendRecord}

/-- A byte that arrived was last sent at the remembered time, and the last byte below the remembered
stop then or later. -/
def RecentAck.Told (a : RecentAck) (b : Scoreboard) (sends : List Sending) : Prop :=
  ∀ x, a.sentAt = some x →
    (∃ seq, b.Arrived seq ∧ (accountedTimes sends seq).head? = some x) ∧
    ∃ y, x ≤ y ∧ (accountedTimes sends (a.stop - 1)).head? = some y

/-- A record whose delivery may be remembered: one of its bytes has arrived, and that byte and the
last one were last sent when the record says. -/
structure Scoreboard.Delivers (b : Scoreboard) (sends : List Sending) (r : SendRecord) : Prop where
  arrived : ∃ seq, b.Arrived seq ∧ (accountedTimes sends seq).head? = some r.lastSent
  last : (accountedTimes sends (r.stop - 1)).head? = some r.lastSent

theorem RecentAck.update_cases (a : RecentAck) (d : Delivery) (echo : Option Nat) (minRtt now : Nat) :
    a.update d echo minRtt now = a ∨ ((a.update d echo minRtt now).sentAt = some d.lastSent
      ∧ (a.update d echo minRtt now).stop = d.stop) := by
  unfold RecentAck.update
  split
  · exact Or.inl rfl
  · split
    · exact Or.inr ⟨rfl, rfl⟩
    · exact Or.inl rfl

theorem RecentAck.Told.congr (h : a.Told b sends) (ht : a'.sentAt = a.sentAt)
    (hs : a'.stop = a.stop) (hb : ∀ seq, b.Arrived seq → b'.Arrived seq) : a'.Told b' sends := by
  intro x hx
  rw [ht] at hx
  rw [hs]
  obtain ⟨⟨seq, hseq, hx'⟩, hlast⟩ := h x hx
  exact ⟨⟨seq, hb seq hseq, hx'⟩, hlast⟩

theorem RecentAck.Told.remember (h : a.Told b sends) (hr : b.Delivers sends r) :
    (AckPass.remember i a r).Told b sends := by
  unfold AckPass.remember
  rcases a.update_cases (Delivery.ofRecord r) i.ack.echo i.minRtt i.now with he | ⟨ht, hs⟩
  · rw [he]
    exact h
  · intro x hx
    rw [ht] at hx
    injection hx with hx
    rw [hs, ← hx]
    exact ⟨hr.arrived, r.lastSent, Nat.le_refl _, hr.last⟩

theorem RecentAck.Told.foldl {β : Type} {f : β → SendRecord} {rs : List β} (h : a.Told b sends)
    (hrs : ∀ r ∈ rs, b.Delivers sends (f r)) :
    (rs.foldl (fun a r => AckPass.remember i a (f r)) a).Told b sends := by
  induction rs generalizing a with
  | nil => exact h
  | cons r rest ih =>
    exact ih (h.remember (hrs r List.mem_cons_self)) fun q hq => hrs q (List.mem_cons_of_mem r hq)

/-- A part of a missing record may be remembered as soon as its first byte has arrived. -/
theorem Scoreboard.Tells.delivers (h : b.Tells sends) {p : SendRecord} (hr : r ∈ b.records)
    (hm : r.flags.sacked = false) (hp : p.IsPart r) (hne : p.start < p.stop)
    (hseq : b'.Arrived p.start) : b'.Delivers sends p := by
  have htold : ∀ seq, p.contains seq = true →
      (accountedTimes sends seq).head? = some p.lastSent := fun seq hs => by
    rw [hp.lastSent]
    exact (h seq r ⟨hr, hp.contains hs⟩ hm).lastSent
  exact ⟨⟨p.start, hseq, htold p.start (SendRecord.contains_iff.mpr ⟨Nat.le_refl _, hne⟩)⟩,
    htold (p.stop - 1) (SendRecord.contains_iff.mpr (by omega))⟩

end Told

/-! ## Acks keep what is remembered -/

namespace AckPass

variable {i : AckInput} {p : AckPass} {x : SeqRange} {sends : List Sending}

theorem Sound.told_advance (h : p.Sound) (hlo : p.board.una < i.ack.cumulative)
    (hhi : i.ack.cumulative ≤ p.board.top) (ht : p.board.Tells sends)
    (hp : p.recent.Told p.board sends) :
    (p.advance i).recent.Told (p.advance i).board sends := by
  have hrecent : (p.advance i).recent
      = ((p.board.overlapping ⟨p.board.una, i.ack.cumulative⟩).filter
          fun r => !r.flags.sacked).foldl (remember i) p.recent := releaseWalk_recent
  rw [hrecent, advance_board]
  have hold : p.recent.Told (p.board.release i.ack.cumulative) sends := hp.congr rfl rfl
    fun seq hseq => h.board.arrived_release (Nat.le_of_lt hlo) hhi hseq
  apply hold.foldl (f := id)
  intro r hr
  rw [List.mem_filter, Scoreboard.mem_overlapping hlo, Bool.not_eq_true'] at hr
  obtain ⟨⟨hrb, hro⟩, hm⟩ := hr
  have hne := (h.board.tiles.bounds hrb).2.1
  have hmeets := (SendRecord.overlaps_iff hne hlo).mp hro
  exact ht.delivers hrb hm (SendRecord.IsPart.refl r) hne (Or.inl hmeets.1)

theorem Sound.told_markBlock (h : p.Sound) (hx : x.start < x.stop) (hlo : p.board.una ≤ x.start)
    (hhi : x.stop ≤ p.board.top) (ht : p.board.Tells sends) (hp : p.recent.Told p.board sends) :
    (p.markBlock i x).recent.Told (p.markBlock i x).board sends := by
  have hrecent : (p.markBlock i x).recent
      = ((p.board.overlapping x).filter fun r => !r.isDelivered).foldl
          (fun a r => remember i a (r.carve x).middle) p.recent := sackWalk_recent
  have hsk := h.markBlock_sackedAt (i := i) hx hlo hhi
  rw [hrecent]
  have hold : p.recent.Told (p.markBlock i x).board sends := hp.congr rfl rfl fun seq hseq =>
    hseq.imp_right fun hs => by rw [hsk, hs, Bool.true_or]
  apply hold.foldl (f := fun r : SendRecord => (r.carve x).middle)
  intro r hr
  obtain ⟨hrb, hro, hm⟩ := (mem_missing h.board hx).mp hr
  have hne := (h.board.tiles.bounds hrb).2.1
  have hmeets := (SendRecord.overlaps_iff hne hx).mp hro
  have hstart := SendRecord.carve_middle_start (r := r) (x := x)
  have hstop := SendRecord.carve_middle_stop (r := r) (x := x)
  refine ht.delivers hrb hm (SendRecord.isPart_carve_middle hne hx hro) (by omega) (Or.inr ?_)
  rw [hsk, Bool.or_eq_true, SeqRange.contains_iff]
  exact Or.inr (by omega)

theorem Sound.told_run (h : p.Sound) (hhi : i.ack.cumulative ≤ p.board.top)
    (ht : p.board.Tells sends) (hp : p.recent.Told p.board sends) :
    (p.run i).recent.Told (p.run i).board sends := by
  have hkept : Kept i fun q => q.board.Tells sends ∧ q.recent.Told q.board sends := by
    refine ⟨fun hs hstill hq => ⟨hq.1.refresh hstill.refreshes, ?_⟩,
      fun hs hlo hhi hq => ⟨hq.1.refresh hs.refreshes_advance, hs.told_advance hlo hhi hq.1 hq.2⟩,
      fun hs hx hlo hhi _ hq =>
        ⟨hq.1.refresh (hs.refreshes_markBlock hx), hs.told_markBlock hx hlo hhi hq.1 hq.2⟩⟩
    obtain ⟨f, hf, hb⟩ := hstill.board
    apply hq.2.congr hstill.sentAt hstill.stop
    intro seq hseq
    rw [hb]
    exact hs.board.arrived_modify hf hseq
  exact (hkept.run h hhi ⟨ht, hp⟩).2

end AckPass

/-! ## Sends in order of time -/

/-- The sends are in order of time, latest first. -/
def Sending.Ordered (sends : List Sending) : Prop := sends.Pairwise fun e e' => e'.now ≤ e.now

theorem Sending.of_accountedTimes {sends : List Sending} {seq t : Nat}
    (h : (accountedTimes sends seq).head? = some t) :
    ∃ e ∈ sends, e.now = t ∧ e.accounted seq = true := by
  obtain ⟨e, he, ht⟩ := List.mem_map.mp (List.mem_of_mem_head? h)
  exact ⟨e, (List.mem_filter.mp he).1, ht, (List.mem_filter.mp he).2⟩

/-- A byte was carried by no send that does not reach it. -/
theorem Sending.of_transmissions {sends : List Sending} {seq t : Nat}
    (h : (transmissions sends seq).head? = some t) :
    ∃ e ∈ sends, e.now = t ∧ e.range.contains seq = true := by
  obtain ⟨e, he, ht⟩ := List.mem_map.mp (List.mem_of_mem_head? h)
  obtain ⟨hmem, hcarries⟩ := List.mem_filter.mp he
  unfold carries at hcarries
  rw [Bool.and_eq_true, Bool.and_eq_true] at hcarries
  exact ⟨e, hmem, ht, hcarries.1.1⟩

section Remembered

variable {κ : Type} {g g' : Engine κ} {sends : List Sending}

/-- The records tell of the sends, and so does the remembered delivery. -/
structure Remembered (g : Engine κ) (sends : List Sending) : Prop where
  recorded : Recorded g sends
  told : Sending.Ordered sends → g.recent.Told g.board sends

/-- A send leaves what was remembered true: it is not accounted to what has arrived, and it is later
than all sends before it. -/
theorem Remembered.sent (h : Remembered g sends) (hb : g.board.Coherent) {x : SeqRange} {now : Nat}
    (hs : x.start ≤ g.board.top) (hsent : g.board.Sent x now g'.board)
    (hm : Engine.SameDelivery g g') : Remembered g' (⟨g.board, x, now⟩ :: sends) := by
  refine ⟨h.recorded.sent hb hs hsent, ?_⟩
  intro hord t ht
  obtain ⟨hnow, hord'⟩ := List.pairwise_cons.mp hord
  rw [hm.sentAt] at ht
  obtain ⟨⟨seq, hseq, hx⟩, y, hle, hy⟩ := h.told hord' t ht
  have hold : (⟨g.board, x, now⟩ : Sending).accounted seq = false := by
    rcases hseq with hu | hsk
    · exact Sending.not_accounted_of_lt hb hu
    · exact Sending.not_accounted_of_sacked hb hsk
  refine ⟨⟨seq, hsent.arrived hb hseq, ?_⟩, ?_⟩
  · rw [Sending.accountedTimes_cons, hold]
    exact hx
  · rw [hm.stop, Sending.accountedTimes_cons]
    split
    · obtain ⟨e, he, rfl, -⟩ := Sending.of_accountedTimes hy
      exact ⟨now, Nat.le_trans hle (hnow e he), rfl⟩
    · exact ⟨y, hle, hy⟩

theorem preserved_remembered : Preserved (Remembered (κ := κ)) := by
  constructor
  · intro g g' sends hg hr h
    refine ⟨preserved_recorded.relabel hg hr h.recorded, ?_⟩
    intro hord
    obtain ⟨f, hf, hboard⟩ := hr.board
    apply (h.told hord).congr hr.sentAt hr.stop
    intro seq hseq
    rw [hboard]
    exact hg.board.arrived_modify hf hseq
  · intro g g' sends x now hg _ _ hs hsent hm h
    exact h.sent hg.board hs hsent hm
  · intro g sends ack now hg hle h
    refine ⟨preserved_recorded.acked now hg hle h.recorded, ?_⟩
    intro hord
    exact hg.passState.told_run hle h.recorded.recounts (h.told hord)

theorem remembered_start {settings : Settings} {law : κ} {sink : Sink} {una now : Nat}
    (h : Engine.start settings law sink una now = .ok g) : Remembered g [] := by
  refine ⟨recorded_start h, ?_⟩
  intro _ x hx
  rw [(Engine.start_board h).2] at hx
  exact nomatch hx

end Remembered

/-! ## The instants of calls -/

section Instants

variable {κ : Type} [CongestionLaw κ] {s s' : Session κ}

omit [CongestionLaw κ] in
/-- All sends of carried out actions are made at one instant. -/
theorem Engine.now_of_dispatchSends {σ : Type} (host : Host σ) (now : Nat) (g : Engine κ) (w : σ)
    (actions : Actions) : ∀ e ∈ g.dispatchSends host now w actions, e.now = now := by
  have one : ∀ (g : Engine κ) range result, ∀ e ∈ g.sendingOf range now result, e.now = now := by
    intro g range result e he
    unfold sendingOf at he
    split at he
    · split at he
      · exact absurd he List.not_mem_nil
      · rw [List.mem_singleton.mp he]
    · exact absurd he List.not_mem_nil
  induction actions generalizing g w with
  | nil => exact fun e he => absurd he List.not_mem_nil
  | cons action rest ih =>
    cases action with
    | send range n kind =>
      intro e he
      unfold dispatchSends at he
      dsimp only at he
      split at he
      · exact one _ _ _ e he
      · rcases List.mem_append.mp he with he | he
        · exact ih _ _ e he
        · exact one _ _ _ e he
    | arm timer duration generation => exact ih g _
    | cancel => exact ih g _

/-- A call is made at one instant, and its sends are made then. -/
theorem Session.Step.instant (h : Session.Step s s') :
    ∃ now sent, s'.instants = now :: s.instants ∧ s'.sends = sent ++ s.sends ∧
      ∀ e ∈ sent, e.now = now := by
  cases h with
  | send range flags now hs hf =>
    refine ⟨now, _, rfl, rfl, ?_⟩
    intro e he
    obtain ⟨_, -, rfl⟩ := List.mem_map.mp he
    rfl
  | ack a now => exact ⟨now, [], rfl, rfl, fun e he => absurd he List.not_mem_nil⟩
  | fire timer generation hasData now =>
    exact ⟨now, [], rfl, rfl, fun e he => absurd he List.not_mem_nil⟩
  | dispatch host w actions now issued =>
    exact ⟨now, _, rfl, rfl, Engine.now_of_dispatchSends host now s.engine w actions⟩

/-- If time does not go back between calls, the sends are in order of time. -/
theorem Session.Reachable.ordered (h : s.Reachable) (hmono : s.instants.Pairwise (· ≥ ·)) :
    Sending.Ordered s.sends := by
  have both : (∀ e ∈ s.sends, e.now ∈ s.instants) ∧ Sending.Ordered s.sends := by
    induction h with
    | start => exact ⟨fun e he => absurd he List.not_mem_nil, List.Pairwise.nil⟩
    | step before call ih =>
      obtain ⟨now, sent, hinst, hsends, hnow⟩ := call.instant
      rw [hinst] at hmono ⊢
      obtain ⟨hle, hmono'⟩ := List.pairwise_cons.mp hmono
      obtain ⟨hmem, hord⟩ := ih hmono'
      rw [hsends]
      refine ⟨?_, List.pairwise_append.mpr ⟨?_, hord, ?_⟩⟩
      · intro e he
        rcases List.mem_append.mp he with he | he
        · rw [hnow e he]
          exact List.mem_cons_self
        · exact List.mem_cons_of_mem _ (hmem e he)
      · apply List.pairwise_of_forall_mem_list
        intro e he e' he'
        rw [hnow e he, hnow e' he']
      · intro e he e' he'
        rw [hnow e he]
        exact hle _ (hmem e' he')
  exact both.2

end Instants

/-! ## Losses by time -/

section Losses

/-- A record presumed lost before enough acks were counted against it is missing, and was sent at
the remembered time or earlier. -/
theorem RecentAck.of_lost {a : RecentAck} {b : Scoreboard} {r : SendRecord}
    {window threshold now : Nat} (hb : b.Coherent) (hr : r ∈ a.lost b window threshold now)
    (hd : r.dupacks < threshold) :
    r ∈ b.records ∧ r.flags.sacked = false ∧
      ∃ t, a.sentAt = some t ∧ (r.lastSent < t ∨ r.lastSent = t ∧ r.stop ≤ a.stop) := by
  obtain ⟨hord, hlost⟩ := List.mem_filter.mp hr
  have hrb := (hb.mem_ordered.mp hord).1
  unfold isLost at hlost
  simp only [Bool.and_eq_true, Bool.or_eq_true, Bool.not_eq_true', decide_eq_true_eq] at hlost
  obtain ⟨⟨hm, -⟩, ⟨-, hcount⟩ | ⟨hafter, -⟩⟩ := hlost
  · exact absurd hcount (Nat.not_le.mpr hd)
  · refine ⟨hrb, (hb.records r hrb).isDelivered.symm.trans hm, ?_⟩
    unfold sentAfter at hafter
    obtain ⟨t, ht, hcmp⟩ := (Option.any_eq_true _ _).mp hafter
    simp only [Bool.or_eq_true, Bool.and_eq_true, decide_eq_true_eq, beq_iff_eq] at hcmp
    exact ⟨t, ht, hcmp⟩

namespace Engine

variable {κ : Type} {g : Engine κ} {history : Nat → List Nat} {r : SendRecord}

/-- Some byte that has arrived was last sent after the record, or at the same instant at or above
its end. -/
def SentBefore (g : Engine κ) (history : Nat → List Nat) (r : SendRecord) : Prop :=
  ∃ seq t, g.board.Arrived seq ∧ (history seq).head? = some t ∧
    (r.lastSent < t ∨ r.lastSent = t ∧ r.stop ≤ seq)

/-- The remembered stop reaches over data that is missing: the record was sent at the remembered
time, and it lies below the remembered stop, but the last byte below that stop has not arrived, and
nothing that has arrived was sent later, or at that instant at or above the end of the record. -/
structure Overreaches (g : Engine κ) (history : Nat → List Nat) (r : SendRecord) : Prop where
  sentAt : g.recent.sentAt = some r.lastSent
  stop_le : r.stop ≤ g.recent.stop
  missing : ¬ g.board.Arrived (g.recent.stop - 1)
  nothing_later : ∀ seq t, g.board.Arrived seq → (history seq).head? = some t →
    t < r.lastSent ∨ t = r.lastSent ∧ seq < r.stop

/-- A record was sent before something that has arrived unless the remembered stop overreaches, and
then it was not. This holds of the sends as they were accounted, and of those that carried the bytes
as long as all cuts fit. -/
def SentBeforeUnlessOverreached (g : Engine κ) (sends : List Sending) (r : SendRecord) : Prop :=
  (g.SentBefore (accountedTimes sends) r ↔ ¬ g.Overreaches (accountedTimes sends) r) ∧
  ((∀ e ∈ sends, e.cutsFit = true) →
    (g.SentBefore (transmissions sends) r ↔ ¬ g.Overreaches (transmissions sends) r))

theorem Overreaches.not_sentBefore (h : g.Overreaches history r) : ¬ g.SentBefore history r := by
  rintro ⟨seq, t, hseq, ht, hlater⟩
  have := h.nothing_later seq t hseq ht
  omega

end Engine

section

variable {κ : Type} {g : Engine κ} {sends : List Sending} {r : SendRecord}

/-- If the last byte below the remembered stop has arrived, it was sent after every record that the
remembered delivery condemns. -/
theorem Remembered.sentBefore_or_overreaches (h : Remembered g sends) (hb : g.board.Coherent)
    (hord : Sending.Ordered sends) {window threshold now : Nat}
    (hr : r ∈ g.recent.lost g.board window threshold now) (hd : r.dupacks < threshold) :
    g.SentBefore (accountedTimes sends) r ∨ g.Overreaches (accountedTimes sends) r := by
  obtain ⟨hrb, hm, x, hx, hcmp⟩ := RecentAck.of_lost hb hr hd
  obtain ⟨⟨seq, hseq, hsent⟩, y, hle, hy⟩ := h.told hord x hx
  by_cases hbefore : g.SentBefore (accountedTimes sends) r
  · exact Or.inl hbefore
  · have hnothing : ∀ seq t, g.board.Arrived seq → (accountedTimes sends seq).head? = some t →
        t < r.lastSent ∨ t = r.lastSent ∧ seq < r.stop := by
      intro seq t hseq ht
      by_contra hnot
      exact hbefore ⟨seq, t, hseq, ht, by omega⟩
    have hne := (hb.tiles.bounds hrb).2.1
    have hx' := hnothing seq x hseq hsent
    obtain ⟨hlast, hstop⟩ : r.lastSent = x ∧ r.stop ≤ g.recent.stop := by omega
    refine Or.inr ⟨hx.trans (congrArg some hlast.symm), hstop, ?_, hnothing⟩
    intro harr
    -- The last byte would have arrived, so it lies below the end of the record, and thus in it.
    have hy' := hnothing _ y harr hy
    exact hb.not_arrived_of_missing ⟨hrb, SendRecord.contains_iff.mpr (by omega)⟩ hm harr

theorem Remembered.sentBeforeUnlessOverreached (h : Remembered g sends) (hb : g.board.Coherent)
    (hord : Sending.Ordered sends) {window threshold now : Nat}
    (hr : r ∈ g.recent.lost g.board window threshold now) (hd : r.dupacks < threshold) :
    g.SentBeforeUnlessOverreached sends r := by
  have hiff : g.SentBefore (accountedTimes sends) r ↔ ¬ g.Overreaches (accountedTimes sends) r := by
    constructor
    · intro hbefore hover
      exact hover.not_sentBefore hbefore
    · intro hover
      exact (h.sentBefore_or_overreaches hb hord hr hd).resolve_right hover
  refine ⟨hiff, ?_⟩
  intro hfit
  rw [← funext (h.recorded.accountedTimes_eq hfit)]
  exact hiff

end

/-! ### Relabelling -/

namespace Engine

variable {κ : Type} {g g' : Engine κ} {sends : List Sending} {history : Nat → List Nat}
  {r : SendRecord}

namespace Relabelled

theorem arrived (h : Relabelled g g') (hs : g.Sound) (seq : Nat) :
    g'.board.Arrived seq ↔ g.board.Arrived seq := by
  obtain ⟨f, hf, hb⟩ := h.board
  unfold Scoreboard.Arrived
  rw [h.edges.1, hb, hs.board.sackedAt_modify hf]

theorem sentBefore (h : Relabelled g g') (hs : g.Sound) :
    g'.SentBefore history r ↔ g.SentBefore history r := by
  unfold SentBefore
  simp only [h.arrived hs]

theorem overreaches (h : Relabelled g g') (hs : g.Sound) :
    g'.Overreaches history r ↔ g.Overreaches history r := by
  constructor
  · rintro ⟨hsent, hstop, hmissing, hlater⟩
    rw [h.sentAt] at hsent
    rw [h.stop] at hstop hmissing
    exact ⟨hsent, hstop, fun harr => hmissing ((h.arrived hs _).mpr harr),
      fun seq t harr => hlater seq t ((h.arrived hs seq).mpr harr)⟩
  · rintro ⟨hsent, hstop, hmissing, hlater⟩
    rw [← h.sentAt] at hsent
    rw [← h.stop] at hstop hmissing
    exact ⟨hsent, hstop, fun harr => hmissing ((h.arrived hs _).mp harr),
      fun seq t harr => hlater seq t ((h.arrived hs seq).mp harr)⟩

theorem sentBeforeUnlessOverreached (h : Relabelled g g') (hs : g.Sound) :
    g'.SentBeforeUnlessOverreached sends r ↔ g.SentBeforeUnlessOverreached sends r := by
  unfold SentBeforeUnlessOverreached
  rw [h.sentBefore hs, h.sentBefore hs, h.overreaches hs, h.overreaches hs]

end Relabelled

/-! ### Losses found by acks -/

variable [CongestionLaw κ] {ack : Ack} {now : Nat}

/-- The records that an ack makes an engine presume lost. -/
def lossesOf (g : Engine κ) (ack : Ack) (now : Nat) : List SendRecord :=
  match g.passOf ack now with
  | .error _ => []
  | .ok p => ((g.adopt p ack).conclude ack p.outcome now).2

/-- An ack looks for losses after the pass over the scoreboard, when records were relabelled. -/
theorem of_lossesOf (hr : r ∈ g.lossesOf ack now) : ack.cumulative ≤ g.board.top ∧
    ∃ mid window, Relabelled (g.acked ack now) mid ∧
      r ∈ mid.recent.lost mid.board window g.settings.dupackThreshold now := by
  unfold lossesOf at hr
  by_cases hle : ack.cumulative ≤ g.board.top
  · have hp : g.passOf ack now = .ok (g.passState.run (g.ackInput ack now)) :=
      AckPass.process_eq_ok hle
    rw [hp] at hr
    obtain ⟨mid, hmid, hlost, -⟩ := conclude_eq (g.acked ack now) ack
      (g.passState.run (g.ackInput ack now)).outcome now
    have hdetect : r ∈ mid.detectLosses now := hlost ▸ hr
    unfold detectLosses at hdetect
    split at hdetect
    · exact absurd hdetect List.not_mem_nil
    · rw [hmid.settings] at hdetect
      exact ⟨hle, mid, _, hmid, hdetect⟩
  · have hp : g.passOf ack now = .error (.malformed (.ackBeyond ack.cumulative g.board.top)) :=
      if_pos (Nat.lt_of_not_le hle)
    rw [hp] at hr
    exact absurd hr List.not_mem_nil

end Engine

variable {κ : Type} [CongestionLaw κ] {s : Session κ}

/-- A record presumed lost by time was sent before something that has arrived, unless the remembered
stop overreaches; and then it was not. So it is wherever losses are looked for between the calls, and
for all that an ack finds. -/
theorem Session.Reachable.sentBefore_iff (h : s.Reachable)
    (hmono : s.instants.Pairwise (· ≥ ·)) :
    (∀ window threshold now, ∀ r ∈ s.engine.recent.lost s.engine.board window threshold now,
      r.dupacks < threshold → s.engine.SentBeforeUnlessOverreached s.sends r) ∧
    ∀ a now, ∀ r ∈ s.engine.lossesOf a now, r.dupacks < s.engine.settings.dupackThreshold →
      (s.ack a now).engine.SentBeforeUnlessOverreached (s.ack a now).sends r := by
  have hrun := h.running
  have hord := h.ordered hmono
  have hrem := (h.healthy preserved_remembered remembered_start).property
  constructor
  · intro window threshold now r hr hd
    exact hrem.sentBeforeUnlessOverreached hrun.sound.board hord hr hd
  · intro a now r hr hd
    obtain ⟨hle, mid, window, hmid, hlost⟩ := Engine.of_lossesOf hr
    have hsound := hrun.sound.acked hle now
    have hacked := preserved_remembered.acked now hrun.sound hle hrem
    have hmem := preserved_remembered.relabel hsound hmid hacked
    obtain ⟨hdone, -⟩ := hrun.onAck hle now
    -- What the ack found, it found on the way; the records were relabelled before and after that.
    apply (hdone.sentBeforeUnlessOverreached hsound).mpr
    apply (hmid.sentBeforeUnlessOverreached hsound).mp
    exact hmem.sentBeforeUnlessOverreached (hmid.sound hsound).board hord hlost hd

/-- The first of two segments is lost when the second, sent later, is SACKed twice. -/
theorem sentBefore_after_sack : ∃ (s : Session FixedWindow) (again : Ack), s.Reachable ∧
    (s.engine.lossesOf again 100000000).map (·.range) = [⟨0, 1460⟩] ∧
    ∀ r ∈ s.engine.lossesOf again 100000000,
      (s.ack again 100000000).engine.SentBefore (transmissions s.sends) r := by
  have started : Engine.start {} (FixedWindow.ofSettings {}) .discard 0 0 = .ok _ := rfl
  have first := (Session.Reachable.start started).step
    (.send ⟨0, 1460⟩ {} 0 (Nat.zero_le _) ⟨rfl, rfl⟩)
  have second := first.step (.send ⟨1460, 2920⟩ {} 10000000 (Nat.le_refl _) ⟨rfl, rfl⟩)
  have sacked := second.step (.ack { cumulative := 0, blocks := [⟨1460, 2920⟩] } 60000000)
  refine ⟨_, { cumulative := 0, blocks := [⟨1460, 2920⟩] }, sacked, by decide +kernel, ?_⟩
  intro r hr
  have hsent := ((Session.Reachable.sentBefore_iff sacked (by decide +kernel)).2 _ _ r hr
    (by revert r; decide +kernel)).2 (by decide +kernel)
  refine hsent.mpr fun hover => absurd hover.sentAt ?_
  clear hover hsent
  revert r
  decide +kernel

/-- Two segments sent at one instant share a record. Once the first is acknowledged, a duplicate of
that ack makes the second presumed lost although nothing sent after it has arrived. -/
theorem not_sentBefore_after_partial_ack : ∃ s : Session FixedWindow, s.Reachable ∧
    s.instants.Pairwise (· ≥ ·) ∧ (∀ e ∈ s.sends, e.cutsFit = true) ∧
    (s.engine.lossesOf { cumulative := 1460 } 100000000).map (·.range) = [⟨1460, 2920⟩] ∧
    (s.engine.recent.lost s.engine.board 12500000 3 100000000).map (·.range) = [⟨1460, 2920⟩] ∧
    ∀ r ∈ s.engine.recent.lost s.engine.board 12500000 3 100000000,
      r.dupacks < 3 ∧ ¬ s.engine.SentBefore (transmissions s.sends) r := by
  have started : Engine.start {} (FixedWindow.ofSettings {}) .discard 0 0 = .ok _ := rfl
  have first := (Session.Reachable.start started).step
    (.send ⟨0, 1460⟩ {} 0 (Nat.zero_le _) ⟨rfl, rfl⟩)
  have second := first.step (.send ⟨1460, 2920⟩ {} 0 (Nat.le_refl _) ⟨rfl, rfl⟩)
  have acked := second.step (.ack { cumulative := 1460 } 50000000)
  refine ⟨_, acked, by decide +kernel, by decide +kernel, by decide +kernel, by decide +kernel, ?_⟩
  intro r hr
  constructor
  · revert r
    decide +kernel
  · rintro ⟨seq, t, -, ht, hlater⟩
    obtain ⟨e, he, rfl, hin⟩ := Sending.of_transmissions ht
    have hsend : e.now = 0 ∧ e.range.stop ≤ 2920 := by
      clear hin hlater ht
      revert e
      decide +kernel
    have hrecord : r.lastSent = 0 ∧ r.stop = 2920 := by
      clear he hlater ht hin hsend
      revert r
      decide +kernel
    rw [SeqRange.contains_iff] at hin
    omega

end Losses

end LossRecovery
