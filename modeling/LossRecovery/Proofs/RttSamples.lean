import LossRecovery.Proofs.SendLogs
import Mathlib.Order.Bounds.Basic

/-!
# `LossRecovery.Proofs.RttSamples` — what a sample of the round-trip time is measured from

A byte that was sent more than once arrives after some of its sends, and only an echo tells which
one it was. An ack is sampled from the latest of the sends that can be told, over all bytes it newly
delivers: those below the new left edge, then those of each block.

## Contents
- `Measurable echo ts u`: a byte sent at the times `ts` can be timed from the instant `u`;
  `Recounts.usableSend_iff`: its record says so.
- `AckOutcome.Measures o now usable`: a sample is measured from the latest of some instants;
  `measures_walk`: a walk over records adds the instants that the records tell.
- `Scoreboard.measurable`: the instants that newly delivered bytes can be timed from;
  `measurable_advance`, `measurable_markBlock`: the walks tell exactly these.
- `AckPass.Sampled`: the invariant of a pass; `Sound.sampled_run`.
- `Logged.samples_latest`: the sample of every ack that is taken in.
-/

namespace LossRecovery

open Sending (accountedTimes reports)

/-! ## Instants a byte can be timed from -/

/-- A byte sent at the times `ts`, latest first, can be timed from the instant `u`: it was sent then
and never again, or more often, and the echo names its first, second or latest send. -/
def Measurable (echo : Option Nat) (ts : List Nat) (u : Nat) : Prop :=
  ts = [u] ∨ 1 < ts.length ∧ echo = some u ∧
    (ts.getLast? = some u ∨ ts.reverse[1]? = some u ∨ ts.head? = some u)

section Measurable

variable {echo : Option Nat} {ts : List Nat} {u : Nat}

theorem Measurable.mem (h : Measurable echo ts u) : u ∈ ts := by
  rcases h with rfl | ⟨-, -, h | h | h⟩
  · simp
  · exact List.mem_of_getLast? h
  · exact List.mem_reverse.mp (List.mem_of_getElem? h)
  · exact List.mem_of_mem_head? h

end Measurable

/-- The send that a pass over an ack takes the delivery of a record to be timed from. -/
def AckInput.usableSend (i : AckInput) (r : SendRecord) : Option Nat :=
  AckOutcome.usableSend (.ofRecord r) i.ack.echo (i.ack.echo.any r.wasSentAt)

namespace SendRecord

variable {r p : SendRecord} {i : AckInput} {ts : List Nat} {u : Nat}

/-- The remembered times are the first, the second and the latest ones. -/
theorem Recounts.wasSentAt_iff (h : r.Recounts ts) (hts : 1 < ts.length) :
    r.wasSentAt u = true ↔
      ts.getLast? = some u ∨ ts.reverse[1]? = some u ∨ ts.head? = some u := by
  obtain ⟨hfirst, hsecond, hlatest⟩ := h.times
  have hmem : r.wasSentAt u = true ↔
      some r.times.first = some u ∨ r.times.second = some u ∨ r.times.latest = some u := by
    simp only [wasSentAt, SendTimes.toList, List.contains_iff_mem, List.mem_cons, List.mem_append,
      Option.mem_toList, Option.some.injEq]
    rw [eq_comm]
  rw [hmem, hfirst, hsecond, hlatest]
  by_cases hmany : 2 < ts.length
  · rw [if_pos hmany]
  · -- Of two sends, the second one is the latest.
    have htwo : ts.reverse[1]? = ts.head? := by
      obtain ⟨a, b, rfl⟩ := List.length_eq_two.mp (show ts.length = 2 by omega)
      rfl
    simp [hmany, htwo]

theorem IsPart.wasSentAt (h : p.IsPart r) : p.wasSentAt = r.wasSentAt := by
  funext t
  unfold SendRecord.wasSentAt
  rw [h.times]

theorem Recounts.usableSend_iff (h : r.Recounts ts) :
    i.usableSend r = some u ↔ Measurable i.ack.echo ts u := by
  have hpos := List.length_pos_iff.mpr h.sent
  have hmax : 0 < Word.max32 := by decide
  have hresends := h.resends
  unfold AckInput.usableSend AckOutcome.usableSend Measurable
  by_cases hone : r.resends = 0
  · obtain ⟨hts, -⟩ := h.single hone
    have hsingle : (Delivery.ofRecord r).resends = 0 := hone
    rw [if_pos hsingle, hts]
    simp [Delivery.ofRecord]
  · have hmany : 1 < ts.length := by omega
    have hnot : ts ≠ [u] := fun hts => by simp [hts] at hmany
    have hresent : ¬ (Delivery.ofRecord r).resends = 0 := hone
    rw [if_neg hresent]
    simp only [hnot, hmany, false_or, true_and]
    rw [← h.wasSentAt_iff hmany]
    cases hecho : i.ack.echo with
    | none => simp
    | some t =>
      simp only [Option.any_some, Option.some.injEq]
      constructor
      · intro hu
        split at hu
        · next hsent => exact ⟨Option.some.inj hu, Option.some.inj hu ▸ hsent⟩
        · cases hu
      · rintro ⟨rfl, hsent⟩
        rw [if_pos hsent]

theorem IsPart.usableSend (h : p.IsPart r) : i.usableSend p = i.usableSend r := by
  have hresends : (Delivery.ofRecord p).resends = (Delivery.ofRecord r).resends := h.resends
  have hlast : (Delivery.ofRecord p).lastSent = (Delivery.ofRecord r).lastSent := h.lastSent
  unfold AckInput.usableSend AckOutcome.usableSend
  rw [hresends, hlast, h.wasSentAt]

end SendRecord

/-! ## Samples of outcomes -/

namespace AckOutcome

variable {o o' : AckOutcome} {now : Nat} {usable : Set Nat}

/-- An outcome holds a sample if any instant is usable, and then it is the time since the latest. -/
structure Measures (o : AckOutcome) (now : Nat) (usable : Set Nat) : Prop where
  sample : o.rttSample = o.rttFrom.map (Time.since now)
  none : o.rttFrom = none → usable = ∅
  latest : ∀ {u}, o.rttFrom = some u → IsGreatest usable u

namespace Measures

theorem congr (h : o.Measures now usable) (hm : o'.measured = o.measured) :
    o'.Measures now usable := by
  obtain ⟨hfrom, hsample⟩ := Prod.mk.inj hm
  refine ⟨?_, ?_, ?_⟩
  · rw [hfrom, hsample]
    exact h.sample
  · rw [hfrom]
    exact h.none
  · intro u hu
    rw [hfrom] at hu
    exact h.latest hu

theorem measure (h : o.Measures now usable) (sent : Option Nat) :
    (o.measure sent now).Measures now (usable ∪ {u | sent = some u}) := by
  unfold AckOutcome.measure
  cases sent with
  | none => simpa using h
  | some t =>
    cases hfrom : o.rttFrom with
    | none =>
      simp only [Option.all_none, if_true, h.none hfrom, Set.empty_union]
      refine ⟨rfl, by simp, ?_⟩
      rintro u ⟨⟩
      exact ⟨rfl, by rintro v ⟨⟩; exact Nat.le_refl _⟩
    | some v =>
      have hv := h.latest hfrom
      simp only [Option.all_some, decide_eq_true_eq]
      split
      · next hle =>
        refine ⟨rfl, by simp, ?_⟩
        rintro u ⟨⟩
        refine ⟨Or.inr rfl, ?_⟩
        rintro w (hw | hw)
        · exact Nat.le_trans (hv.2 hw) hle
        · exact Nat.le_of_eq (Option.some.inj hw).symm
      · next hlt =>
        refine ⟨h.sample, by simp [hfrom], ?_⟩
        intro u hu
        obtain rfl : v = u := Option.some.inj (hfrom.symm.trans hu)
        refine ⟨Or.inl hv.1, ?_⟩
        rintro w (hw | hw)
        · exact hv.2 hw
        · rw [← Option.some.inj hw]
          exact Nat.le_of_not_le hlt

end Measures

end AckOutcome

namespace AckPass

variable {i : AckInput} {p : AckPass} {r : SendRecord} {usable : Set Nat} {block : SeqRange}

theorem measures_deliver (h : p.outcome.Measures i.now usable) (r : SendRecord) :
    (deliver i p r).outcome.Measures i.now (usable ∪ {u | i.usableSend r = some u}) := by
  unfold deliver AckOutcome.record
  refine AckOutcome.Measures.measure ?_ _
  exact h.congr rfl

/-- Of the records below a new left edge, those that are missing may be timed. -/
theorem measures_releaseRecord (h : p.outcome.Measures i.now usable) (r : SendRecord) :
    (releaseRecord i p r).outcome.Measures i.now
      (usable ∪ {u | (if r.flags.sacked then none else i.usableSend r) = some u}) := by
  unfold releaseRecord
  cases r.flags.sacked with
  | true => simpa using h
  | false =>
    refine measures_deliver ?_ r
    exact h.congr rfl

theorem measures_sackRecord (h : p.outcome.Measures i.now usable) (r : SendRecord) :
    (sackRecord i block p r).outcome.Measures i.now
      (usable ∪ {u | i.usableSend (r.carve block).middle = some u}) := by
  refine AckOutcome.Measures.congr (measures_deliver ?_ _) rfl
  exact h.congr rfl

/-- If every step of a walk adds what one record may be timed from, the walk adds all of that. -/
theorem measures_walk {step : AckPass → SendRecord → AckPass} {send : SendRecord → Option Nat}
    (hstep : ∀ {p : AckPass} {usable : Set Nat} (r : SendRecord), p.outcome.Measures i.now usable →
      (step p r).outcome.Measures i.now (usable ∪ {u | send r = some u}))
    (h : p.outcome.Measures i.now usable) (rs : List SendRecord) :
    (rs.foldl step p).outcome.Measures i.now (usable ∪ {u | ∃ r ∈ rs, send r = some u}) := by
  induction rs generalizing p usable with
  | nil => simpa using h
  | cons r rest ih =>
    have hrest := ih (hstep r h)
    have hsets : usable ∪ {u | send r = some u} ∪ {u | ∃ q ∈ rest, send q = some u}
        = usable ∪ {u | ∃ q ∈ r :: rest, send q = some u} := by
      ext u
      simp [or_assoc]
    rw [hsets] at hrest
    exact hrest

end AckPass

/-! ## Newly delivered bytes -/

namespace Scoreboard

variable {b b' b'' : Scoreboard} {echo : Option Nat} {history : Nat → List Nat} {seq : Nat}

/-- From `b` to `b'`, a byte arrived. -/
def Arrives (b b' : Scoreboard) (seq : Nat) : Prop := b'.Arrived seq ∧ ¬ b.Arrived seq

/-- The instants that the bytes which arrived from `b` to `b'` can be timed from. -/
def measurable (b b' : Scoreboard) (echo : Option Nat) (history : Nat → List Nat) : Set Nat :=
  {u | ∃ seq, b.Arrives b' seq ∧ Measurable echo (history seq) u}

theorem measurable_self : b.measurable b echo history = ∅ := by
  ext u
  simp [measurable, Arrives]

theorem measurable_congr {history' : Nat → List Nat}
    (harrived : ∀ seq, b''.Arrived seq ↔ b'.Arrived seq)
    (hhistory : ∀ seq, ¬ b.Arrived seq → history' seq = history seq) :
    b.measurable b'' echo history' = b.measurable b' echo history := by
  ext u
  refine exists_congr fun seq => ?_
  unfold Arrives
  rw [harrived seq]
  refine and_congr_right fun hnew => ?_
  rw [hhistory seq hnew.2]

/-- What arrives on the way arrives at first or afterwards. -/
theorem measurable_trans (h : ∀ seq, b.Arrived seq → b'.Arrived seq)
    (h' : ∀ seq, b'.Arrived seq → b''.Arrived seq) :
    b.measurable b' echo history ∪ b'.measurable b'' echo history
      = b.measurable b'' echo history := by
  ext u
  constructor
  · rintro (⟨seq, ⟨hnew, hold⟩, hu⟩ | ⟨seq, ⟨hnew, hold⟩, hu⟩)
    · exact ⟨seq, ⟨h' seq hnew, hold⟩, hu⟩
    · exact ⟨seq, ⟨hnew, fun hb => hold (h seq hb)⟩, hu⟩
  · rintro ⟨seq, ⟨hnew, hold⟩, hu⟩
    by_cases hmid : b'.Arrived seq
    · exact Or.inl ⟨seq, ⟨hmid, hold⟩, hu⟩
    · exact Or.inr ⟨seq, ⟨hnew, hmid⟩, hu⟩

end Scoreboard

namespace AckPass

variable {i : AckInput} {p q : AckPass} {x : SeqRange} {sends : List Sending} {b : Scoreboard}

/-- Below a new left edge, the missing records are what arrives. -/
theorem Sound.measurable_advance (h : p.Sound) (hlo : p.board.una < i.ack.cumulative)
    (hhi : i.ack.cumulative ≤ p.board.top) (ht : p.board.Tells sends) :
    p.board.measurable (p.advance i).board i.ack.echo (accountedTimes sends)
      = {u | ∃ r ∈ p.board.overlapping ⟨p.board.una, i.ack.cumulative⟩,
          (if r.flags.sacked then none else i.usableSend r) = some u} := by
  rw [advance_board]
  ext u
  constructor
  · rintro ⟨seq, ⟨hnew, hold⟩, hu⟩
    obtain ⟨hge, hmissing⟩ := not_or.mp hold
    have hlt : seq < i.ack.cumulative := by
      rcases hnew with hlt | hsk
      · exact hlt
      · by_contra hnot
        rw [h.board.sackedAt_release (Nat.le_of_lt hlo) hhi (Nat.le_of_not_lt hnot)] at hsk
        exact hmissing hsk
    obtain ⟨r, hr⟩ := h.board.exists_holds (Nat.le_of_not_lt hge) (Nat.lt_of_lt_of_le hlt hhi)
    rw [h.board.sackedAt_eq hr, Bool.not_eq_true] at hmissing
    refine ⟨r, (Scoreboard.mem_overlapping hlo).mpr ⟨hr.1, ?_⟩, ?_⟩
    · exact SendRecord.overlaps_of_contains hr.2
        (SeqRange.contains_iff.mpr ⟨Nat.le_of_not_lt hge, hlt⟩)
    · rw [hmissing]
      exact (ht seq r hr hmissing).usableSend_iff.mpr hu
  · rintro ⟨r, hr, hu⟩
    obtain ⟨hrb, hro⟩ := (Scoreboard.mem_overlapping hlo).mp hr
    cases hm : r.flags.sacked with
    | true => simp [hm] at hu
    | false =>
      have hbounds := h.board.tiles.bounds hrb
      have hmeets := (SendRecord.overlaps_iff hbounds.2.1 hlo).mp hro
      have hfirst : p.board.Holds r.start r :=
        ⟨hrb, SendRecord.contains_iff.mpr ⟨Nat.le_refl _, hbounds.2.1⟩⟩
      rw [hm] at hu
      exact ⟨r.start, ⟨Or.inl hmeets.1, h.board.not_arrived_of_missing hfirst hm⟩,
        (ht r.start r hfirst hm).usableSend_iff.mp hu⟩

/-- Of a block, the parts that are marked are what arrives. -/
theorem Sound.measurable_markBlock (h : p.Sound) (hx : x.start < x.stop)
    (hlo : p.board.una ≤ x.start) (hhi : x.stop ≤ p.board.top) (ht : p.board.Tells sends) :
    p.board.measurable (p.markBlock i x).board i.ack.echo (accountedTimes sends)
      = {u | ∃ r ∈ (p.board.overlapping x).filter fun r => !r.isDelivered,
          i.usableSend (r.carve x).middle = some u} := by
  have hsk := h.markBlock_sackedAt (i := i) hx hlo hhi
  ext u
  constructor
  · rintro ⟨seq, ⟨hnew, hold⟩, hu⟩
    obtain ⟨hge, hmissing⟩ := not_or.mp hold
    have hin : x.contains seq = true := by
      rcases hnew with hlt | hnew
      · exact absurd hlt hge
      · rw [hsk, Bool.or_eq_true] at hnew
        exact hnew.resolve_left hmissing
    have hbounds := SeqRange.contains_iff.mp hin
    obtain ⟨r, hr⟩ := h.board.exists_holds (Nat.le_of_not_lt hge) (Nat.lt_of_lt_of_le hbounds.2 hhi)
    rw [h.board.sackedAt_eq hr, Bool.not_eq_true] at hmissing
    have hro := SendRecord.overlaps_of_contains hr.2 hin
    refine ⟨r, (mem_missing h.board hx).mpr ⟨hr.1, hro, hmissing⟩, ?_⟩
    rw [(SendRecord.isPart_carve_middle (h.board.tiles.bounds hr.1).2.1 hx hro).usableSend]
    exact (ht seq r hr hmissing).usableSend_iff.mpr hu
  · rintro ⟨r, hr, hu⟩
    obtain ⟨hrb, hro, hm⟩ := (mem_missing h.board hx).mp hr
    have hne := (h.board.tiles.bounds hrb).2.1
    have hmeets := (SendRecord.overlaps_iff hne hx).mp hro
    rw [(SendRecord.isPart_carve_middle hne hx hro).usableSend] at hu
    -- The first byte of the part lies in the block.
    have hin : x.contains (max r.start x.start) = true := SeqRange.contains_iff.mpr (by omega)
    have hheld : p.board.Holds (max r.start x.start) r :=
      ⟨hrb, SendRecord.contains_iff.mpr (by omega)⟩
    refine ⟨max r.start x.start, ⟨Or.inr ?_, h.board.not_arrived_of_missing hheld hm⟩,
      (ht _ r hheld hm).usableSend_iff.mp hu⟩
    rw [hsk, hin, Bool.or_true]

/-! ## The sample of a pass -/

/-- The sample so far of a pass that began with the scoreboard `b`. -/
structure Sampled (i : AckInput) (sends : List Sending) (b : Scoreboard) (p : AckPass) : Prop where
  tells : p.board.Tells sends
  arrived : ∀ seq, b.Arrived seq → p.board.Arrived seq
  measures : p.outcome.Measures i.now (b.measurable p.board i.ack.echo (accountedTimes sends))

/-- A step adds to the sample what arrives by it. -/
theorem Sampled.extend (h : Sampled i sends b p) (ht : p.board.Refreshes q.board)
    (harr : ∀ seq, p.board.Arrived seq → q.board.Arrived seq)
    (hm : q.outcome.Measures i.now (b.measurable p.board i.ack.echo (accountedTimes sends)
      ∪ p.board.measurable q.board i.ack.echo (accountedTimes sends))) : Sampled i sends b q := by
  refine ⟨h.tells.refresh ht, fun seq hseq => harr seq (h.arrived seq hseq), ?_⟩
  rw [← Scoreboard.measurable_trans h.arrived harr]
  exact hm

theorem kept_sampled : Kept i (Sampled i sends b) := by
  constructor
  · intro p q hs hstill h
    have hsame : ∀ seq, q.board.Arrived seq ↔ p.board.Arrived seq := fun _ => hstill.arrived hs
    refine h.extend hstill.refreshes (fun seq => (hsame seq).mpr) ?_
    have hnone : p.board.measurable q.board i.ack.echo (accountedTimes sends) = ∅ := by
      ext u
      simp [Scoreboard.measurable, Scoreboard.Arrives, hsame]
    rw [hnone, Set.union_empty]
    exact h.measures.congr hstill.measured
  · intro p hs hlo hhi h
    refine h.extend hs.refreshes_advance (fun seq => hs.arrived_advance hlo hhi) ?_
    rw [hs.measurable_advance hlo hhi h.tells]
    exact (measures_walk (fun r h => measures_releaseRecord h r) h.measures _).congr rfl
  · intro p x hs hx hlo hhi _ h
    refine h.extend (hs.refreshes_markBlock hx) (fun seq => hs.arrived_markBlock hx hlo hhi) ?_
    rw [hs.measurable_markBlock hx hlo hhi h.tells]
    exact (measures_walk (fun r h => measures_sackRecord h r) h.measures _).congr rfl

/-- The sample of a pass is measured from what arrives by it. -/
theorem Sound.sampled_run (h : p.Sound) (hfresh : p.outcome = {})
    (hle : i.ack.cumulative ≤ p.board.top) (ht : p.board.Tells sends) :
    Sampled i sends p.board (p.run i) := by
  refine kept_sampled.run h hle ⟨ht, fun _ hseq => hseq, ?_⟩
  rw [Scoreboard.measurable_self, hfresh]
  exact ⟨rfl, fun _ => rfl, by simp⟩

end AckPass

/-! ## The sample of an ack -/

namespace Engine

variable {κ : Type} [CongestionLaw κ] {g : Engine κ} {sends : List Sending} {first last now : Nat}

/-- The instants that the bytes newly delivered by an ack can be timed from. -/
def measurableBy (g : Engine κ) (a : Ack) (now : Nat) (sends : List Sending) : Set Nat :=
  g.board.measurable (g.onAck a now).1.board a.echo (reports sends)

/-- While all cuts fit, an ack that is taken in has no sample if none of the bytes it newly delivers
can be timed, and else its sample is the time since the latest instant that any of them can be timed
from. -/
theorem Logged.samples_latest (h : Logged first last sends g)
    (hfit : ∀ e ∈ sends, e.cutsFit = true) (later : last ≤ now) {a : Ack} {actions : Actions}
    (taken : (g.onAck a now).2 = .ok actions) :
    ∃ q, g.passOf a now = .ok q ∧
      (g.measurableBy a now sends = ∅ ∧ q.outcome.rttSample = none ∨
        ∃ u, IsGreatest (g.measurableBy a now sends) u ∧ u ≤ now ∧
          q.outcome.rttSample = some (now - u)) := by
  have ha : g.isAborted = false := (guarded_ok taken).1
  obtain ⟨hrun, hrec⟩ := h.recorded ha
  obtain ⟨hle, -⟩ := hrun.ack_taken taken
  have hp : g.passOf a now = .ok (g.passState.run (g.ackInput a now)) := AckPass.process_eq_ok hle
  have hsampled := hrun.sound.passState.sampled_run (i := g.ackInput a now) rfl hle hrec.recounts
  refine ⟨_, hp, ?_⟩
  -- The records are only relabelled after the pass, and what arrives by it was carried by every
  -- send that reported it.
  have husable : g.measurableBy a now sends
      = g.board.measurable (g.passState.run (g.ackInput a now)).board a.echo
          (accountedTimes sends) := by
    refine Scoreboard.measurable_congr ?_ ?_
    · exact (hrun.onAck hle now).1.arrived (hrun.sound.acked hle now)
    · intro seq hseq
      rw [← h.transmissions_eq ha hseq, hrec.accountedTimes_eq hfit]
  rw [husable]
  cases hfrom : (g.passState.run (g.ackInput a now)).outcome.rttFrom with
  | none =>
    refine Or.inl ⟨hsampled.measures.none hfrom, ?_⟩
    rw [hsampled.measures.sample, hfrom]
    rfl
  | some u =>
    have hu := hsampled.measures.latest hfrom
    refine Or.inr ⟨u, hu, ?_, ?_⟩
    · obtain ⟨seq, -, hmeasurable⟩ := hu.1
      obtain ⟨e, he, rfl⟩ := List.mem_map.mp hmeasurable.mem
      exact Nat.le_trans (h.now_le e (List.mem_filter.mp he).1) later
    · rw [hsampled.measures.sample, hfrom]
      rfl

/-- Of two segments the first is sent again, and the echo names that send: both are delivered at
once, and the sample is measured from the later of their sends. -/
theorem samples_latest_of_echo : ∃ (g : Engine FixedWindow) (sends : List Sending) (q : AckPass),
    g.Logged 0 40 sends ∧ g.passOf { cumulative := 2920, echo := some 40 } 60 = .ok q ∧
    q.outcome.rttSample = some 20 ∧
    IsGreatest (g.measurableBy { cumulative := 2920, echo := some 40 } 60 sends) 40 := by
  have started : Engine.start {} (FixedWindow.ofSettings {}) .discard 0 0 = .ok _ := rfl
  have first := (Logged.start started).step (Nat.le_refl 0) (.send ⟨0, 1460⟩ {} ⟨rfl, rfl⟩)
  have second := first.step (Nat.zero_le 10) (.send ⟨1460, 2920⟩ {} ⟨rfl, rfl⟩)
  have waited : 10 ≤ 40 := by decide
  have again := second.step waited (.send ⟨0, 1460⟩ {} ⟨rfl, rfl⟩)
  have later : 40 ≤ 60 := by decide
  obtain ⟨q, hq, hsample⟩ := Logged.samples_latest again (by decide +kernel) later
    (a := { cumulative := 2920, echo := some 40 }) rfl
  have hrun := (AckPass.process_ok hq).2
  have hvalue : q.outcome.rttSample = some 20 := by
    subst hrun
    decide +kernel
  refine ⟨_, _, q, again, hq, hvalue, ?_⟩
  rw [hvalue] at hsample
  rcases hsample with ⟨-, hnone⟩ | ⟨u, hu, hle, hsome⟩
  · cases hnone
  · obtain rfl : u = 40 := by
      have := Option.some.inj hsome
      omega
    exact hu

end Engine

end LossRecovery
