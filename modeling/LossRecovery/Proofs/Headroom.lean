import LossRecovery.Proofs.Figures
import LossRecovery.Proofs.Gauges
import LossRecovery.Proofs.Plans
import LossRecovery.Proofs.RttEstimates
import LossRecovery.Proofs.SendingOrder

/-!
# `LossRecovery.Proofs.Headroom` — figures that never grow large

An RTT that is believed is at most two minutes long, so that all that is averaged over samples stays
below that, for runs of any length. Before the first sample the initial RTT of the settings stands in.
A loss by time is due no later than a round trip from now, because the record was sent before one whose
RTT has passed. So a machine that has room for a few sums of the settings, and goes on for as long as the
longest timer, holds every figure of every call.

## Contents
- `Settings.longestRtt`, `Machine.HasRoom`: the longest RTT an engine goes by, and what it takes of a
  machine.
- `RttEstimator.Within`, `GoodputEstimator.Within`, `RecentAck.Dated`: what the gauges keep to.
- `Engine.Gauged`: the gauges keep to it, and no record was sent in the future; `upheld_gauged`: at any
  time.
- `Machine.Suits`: a machine with room for gauges that keep to it; `Suits.holds_sentFigures`,
  `Suits.holds_carryAllFigures`, `Gauged.holds_ackFigures`, `Gauged.holds_timeoutFigures`: the figures of
  the calls.
- `Timely.holds_figures`: a machine with room holds them all.
-/

namespace LossRecovery

open RttEstimator (maxPlausible)

/-! ## Room -/

/-- The longest RTT an engine goes by: a believed sample, or the initial one. -/
def Settings.longestRtt (s : Settings) : Nat := max s.initialRtt maxPlausible

/-- What the figures of an engine with these settings take at the instant `now`. -/
structure Machine.HasRoom (m : Machine) (s : Settings) (now : Nat) : Prop where
  probe : max (s.longestRtt * 2) s.tlpMin + s.delayedAckTime ≤ Machine.longest
  reorder : s.longestRtt * RecentAck.maxMultiplier ≤ Machine.longest
  blend : s.longestRtt * s.goodputRttDecay ≤ Machine.longest
  timeout : now + s.maxRto ≤ m.last
  roundTrip : now + s.longestRtt ≤ m.last
  hold : now + s.probeRttDuration ≤ m.last
  segment : s.mss + max s.mss 1 ≤ Word.max64

/-! ## Round trip times -/

section Rtt

variable {s : Settings} {now limit rtt : Nat}

/-- No measurement that is kept exceeds a limit. -/
structure Choices.Within (limit : Nat) (c : Choices) : Prop where
  best : c.best.value ≤ limit
  second : c.second.value ≤ limit
  third : c.third.value ≤ limit

namespace Choices

variable {c : Choices} {m : Measurement}

theorem Within.only (hm : m.value ≤ limit) : (only m).Within limit := ⟨hm, hm, hm⟩

theorem Within.improve (h : c.Within limit) (hm : m.value ≤ limit) (e : Extreme) :
    (c.improve e m).Within limit := by
  unfold Choices.improve
  split
  · exact ⟨h.best, hm, hm⟩
  · split
    · exact ⟨h.best, h.second, hm⟩
    · exact h

theorem Within.shift (h : c.Within limit) (hm : m.value ≤ limit) : (c.shift m).Within limit :=
  ⟨h.second, h.third, hm⟩

theorem Within.age (h : c.Within limit) (hm : m.value ≤ limit) (window : Nat) :
    (c.age window m).Within limit := by
  unfold Choices.age
  dsimp only
  split
  · split
    · exact (h.shift hm).shift hm
    · exact h.shift hm
  · split
    · exact ⟨h.best, hm, hm⟩
    · split
      · exact ⟨h.best, h.second, hm⟩
      · exact h

end Choices

theorem WindowedFilter.within_update {f : WindowedFilter} (h : ∀ c ∈ f.choices, c.Within limit)
    (time : Nat) {value : Nat} (hv : value ≤ limit) :
    ∀ c ∈ (f.update time value).1.choices, c.Within limit := by
  unfold update
  dsimp only
  split
  · rintro c ⟨⟩
    exact .only hv
  · next c hc =>
    have hkept := h c hc
    split
    · exact h
    · split
      · rintro c' ⟨⟩
        exact .only hv
      · rintro c' ⟨⟩
        exact (hkept.improve hv _).age hv _

namespace RttEstimator

variable {e : RttEstimator}

/-- An estimator that goes by these settings: averages and kept samples are no longer than samples are
believed. -/
structure Within (s : Settings) (e : RttEstimator) : Prop where
  latest : e.latest ≤ s.longestRtt
  smoothed : ∀ x ∈ e.smoothed, x ≤ maxPlausible ∧ e.variation ≤ maxPlausible
  least : ∀ c ∈ e.leastFilter.choices, c.Within (Time.toMicros maxPlausible)
  initialRtt : e.initialRtt = s.initialRtt
  maxRto : e.maxRto = s.maxRto

theorem Within.start (s : Settings) (now : Nat) : (RttEstimator.start s now).Within s :=
  ⟨Nat.le_max_left _ _, by simp [RttEstimator.start], by
    simp [RttEstimator.start, WindowedFilter.start], rfl, rfl⟩

theorem Within.renewLeast (h : e.Within s) (now : Nat) : (e.renewLeast now).Within s :=
  ⟨h.latest, h.smoothed, h.least, h.initialRtt, h.maxRto⟩

theorem Within.file (h : e.Within s) (hrtt : rtt ≤ maxPlausible) (now : Nat) :
    (e.file rtt now).Within s := by
  have hvalue : max (Time.toMicros rtt) 1 ≤ Time.toMicros maxPlausible :=
    Nat.max_le.mpr ⟨Nat.div_le_div_right hrtt, by decide⟩
  exact ⟨Nat.le_trans hrtt (Nat.le_max_right _ _), h.smoothed,
    WindowedFilter.within_update h.least _ hvalue, h.initialRtt, h.maxRto⟩

/-- Averages stay between what is averaged. -/
theorem Within.average (h : e.Within s) (hrtt : rtt ≤ maxPlausible) : (e.average rtt).Within s := by
  unfold RttEstimator.average
  cases hsmoothed : e.smoothed with
  | none =>
    refine ⟨h.latest, ?_, h.least, h.initialRtt, h.maxRto⟩
    rintro x ⟨⟩
    exact ⟨hrtt, Nat.le_trans (Nat.div_le_self rtt 2) hrtt⟩
  | some smoothed =>
    obtain ⟨hs, hv⟩ := h.smoothed smoothed hsmoothed
    refine ⟨h.latest, ?_, h.least, h.initialRtt, h.maxRto⟩
    rintro x ⟨⟩
    unfold distance
    dsimp only
    omega

/-- Taking samples, an estimator keeps to it. -/
theorem Within.taken (h : e.Within s) (sample : Option Nat) (now : Nat) :
    (e.taken sample now).Within s := by
  unfold RttEstimator.taken
  cases sample with
  | none => exact h
  | some rtt =>
    dsimp only
    by_cases hrtt : 0 < rtt ∧ rtt ≤ 120 * Time.second
    · rw [update_eq_ok hrtt]
      exact (h.file hrtt.2 now).average hrtt.2
    · rw [update_eq_error hrtt]
      exact h

theorem Within.smoothedRtt_le (h : e.Within s) : e.smoothedRtt ≤ s.longestRtt := by
  unfold smoothedRtt
  cases hsmoothed : e.smoothed with
  | none => exact h.latest
  | some x => exact Nat.le_trans (h.smoothed x hsmoothed).1 (Nat.le_max_right _ _)

theorem Within.minRtt_le (h : e.Within s) : e.minRtt ≤ s.longestRtt := by
  unfold minRtt filtered WindowedFilter.value?
  cases hkept : e.leastFilter.choices with
  | none => exact Nat.le_trans (Nat.le_of_eq h.initialRtt) (Nat.le_max_left _ _)
  | some c =>
    have hbest : c.best.value * Time.microsecond ≤ Time.toMicros maxPlausible * Time.microsecond :=
      Nat.mul_le_mul_right _ (h.least c hkept).best
    exact Nat.le_trans hbest (Nat.le_trans (Nat.div_mul_le_self _ _) (Nat.le_max_right _ _))

theorem Within.rtoAfter_le (h : e.Within s) (backoff : Nat) : e.rtoAfter backoff ≤ s.maxRto :=
  h.maxRto ▸ Nat.min_le_right _ _

variable {m : Machine}

theorem Within.holds_rtoFigures (h : e.Within s) : m.Holds e.rtoFigures := by
  unfold rtoFigures
  cases hsmoothed : e.smoothed with
  | none => exact Machine.holds_nil
  | some x =>
    obtain ⟨hs, hv⟩ := h.smoothed x hsmoothed
    simp only [Machine.holds_cons, Machine.holds_nil, and_true, Machine.holds, decide_eq_true_eq]
    unfold granularity maxPlausible Machine.longest Word.max64 Time.second Time.millisecond at *
    omega

theorem Within.holds_sampleFigures (h : e.Within s) (sample : Option Nat) :
    m.Holds (e.sampleFigures sample) := by
  unfold sampleFigures
  split
  · next rtt smoothed hsmoothed =>
    obtain ⟨hs, hv⟩ := h.smoothed smoothed hsmoothed
    split
    · next hplausible =>
      have hrtt := (isPlausible_iff.mp hplausible).2
      simp only [Machine.holds_cons, Machine.holds_nil, and_true, Machine.holds, decide_eq_true_eq]
      unfold distance maxPlausible Machine.longest Word.max64 Time.second at *
      omega
    · exact Machine.holds_nil
  · exact Machine.holds_nil

end RttEstimator

end Rtt

/-! ## Goodput -/

namespace GoodputEstimator

variable {g : GoodputEstimator} {s : Settings} {m : Machine} {now rtt : Nat}

/-- An estimator that goes by these settings: the blended RTT is no longer than what is blended. -/
structure Within (s : Settings) (g : GoodputEstimator) : Prop where
  decay : g.decay = max s.goodputRttDecay 1
  blended : ∀ x ∈ g.smoothedRtt, x ≤ s.longestRtt

/-- The weights of a blend add up to the decay. -/
theorem Within.blend_le (h : g.Within s) {blended : Nat} (hb : blended ≤ s.longestRtt)
    (hrtt : rtt ≤ s.longestRtt) : blended * (g.decay - 1) + rtt ≤ s.longestRtt * g.decay := by
  have hpos : 0 < g.decay := h.decay ▸ Nat.lt_of_lt_of_le Nat.one_pos (Nat.le_max_right _ _)
  calc blended * (g.decay - 1) + rtt
      ≤ s.longestRtt * (g.decay - 1) + s.longestRtt :=
        Nat.add_le_add (Nat.mul_le_mul_right _ hb) hrtt
    _ = s.longestRtt * (g.decay - 1 + 1) := (Nat.mul_succ _ _).symm
    _ = s.longestRtt * g.decay := by rw [Nat.sub_add_cancel hpos]

theorem Within.deliver (h : g.Within s) (delivered : Nat) (appLimited : Bool)
    (hrtt : rtt ≤ s.longestRtt) (phase : Phase) (now : Nat) :
    (g.deliver delivered appLimited rtt phase now).1.Within s := by
  unfold GoodputEstimator.deliver
  split
  · exact ⟨h.decay, h.blended⟩
  · split
    · exact ⟨h.decay, h.blended⟩
    · dsimp only
      split
      · exact h
      · refine ⟨h.decay, ?_⟩
        unfold close reopen
        dsimp only
        cases hblended : g.smoothedRtt with
        | none =>
          rintro x ⟨⟩
          exact hrtt
        | some blended =>
          rintro x ⟨⟩
          have hblend := h.blend_le (h.blended blended hblended) hrtt
          rw [Nat.mul_comm s.longestRtt] at hblend
          exact Nat.div_le_of_le_mul hblend

theorem Within.holds_deliverFigures (h : g.Within s) (hm : m.HasRoom s now) (delivered : Nat)
    (appLimited : Bool) (hrtt : rtt ≤ s.longestRtt) :
    m.Holds (g.deliverFigures delivered appLimited rtt now) := by
  unfold deliverFigures
  split
  · next hblended =>
    split
    · exact Machine.holds_nil
    · have hblend := h.blend_le (h.blended _ hblended) hrtt
      have hroom : s.longestRtt * max s.goodputRttDecay 1 ≤ Machine.longest := by
        rcases Nat.le_total s.goodputRttDecay 1 with hle | hle
        · rw [Nat.max_eq_right hle]
          exact Nat.le_trans (Nat.mul_le_mul_left _ (by decide)) hm.reorder
        · rw [Nat.max_eq_left hle]
          exact hm.blend
      rw [h.decay] at hblend
      simp only [Machine.holds_cons, Machine.holds_nil, and_true, Machine.holds, decide_eq_true_eq]
      rw [h.decay]
      exact Nat.le_trans hblend hroom
  · exact Machine.holds_nil

end GoodputEstimator

/-! ## Deliveries -/

namespace RecentAck

variable {a a' : RecentAck} {d : Delivery} {b : Scoreboard} {s : Settings} {m : Machine} {last now : Nat}

/-- The factor is within its limit, and the RTT of the remembered delivery has passed at the instant
`now`. -/
structure Dated (now : Nat) (a : RecentAck) : Prop where
  factor : a.multiplier ≤ maxMultiplier
  passed : ∀ t ∈ a.sentAt, t + a.rtt ≤ now

theorem Dated.later (h : a.Dated last) (hle : last ≤ now) : a.Dated now :=
  ⟨h.factor, fun t ht => Nat.le_trans (h.passed t ht) hle⟩

/-- The RTT of a record that was sent in the past ends now. -/
theorem Dated.update (h : a.Dated now) (hsent : d.lastSent ≤ now) (echo : Option Nat) (minRtt : Nat) :
    (a.update d echo minRtt now).Dated now := by
  unfold RecentAck.update
  split
  · exact h
  · split
    · refine ⟨h.factor, ?_⟩
      rintro t ⟨⟩
      exact Nat.le_of_eq (Nat.add_sub_of_le hsent)
    · exact h

theorem Dated.fade (h : a.Dated now) (age now' : Nat) : (a.fade age now').Dated now := by
  unfold RecentAck.fade
  split
  · exact ⟨show 1 ≤ maxMultiplier by decide, h.passed⟩
  · exact h

/-- Watching for reordering makes the factor fall back at most. -/
theorem Dated.watched (h : a.Dated now) (s : Settings) (o : AckOutcome) (now' : Nat) :
    (a.watched s o now').Dated now := by
  unfold RecentAck.watched
  split
  · exact Dated.fade (a := a.noteReordering now') ⟨h.factor, h.passed⟩ _ _
  · exact h.fade _ _

/-- What is due by time is due a round trip from now at the latest. -/
theorem Dated.holds_lossFigures (h : a.Dated now) (hm : m.HasRoom s now) {minRtt smoothed : Nat}
    (hmin : minRtt ≤ s.longestRtt) (hsmoothed : smoothed ≤ s.longestRtt) (b : Scoreboard)
    (shift : Nat) : m.Holds (a.lossFigures b minRtt smoothed shift) := by
  unfold lossFigures
  rw [Machine.holds_cons]
  constructor
  · have hshifted : minRtt >>> min shift 16 ≤ s.longestRtt :=
      Nat.le_trans (Nat.shiftRight_le _ _) hmin
    exact decide_eq_true (Nat.le_trans (Nat.mul_le_mul hshifted h.factor) hm.reorder)
  · intro f hf
    obtain ⟨r, hr, rfl⟩ := List.mem_map.mp hf
    obtain ⟨-, hjudged⟩ := List.mem_filter.mp hr
    rw [Bool.and_eq_true] at hjudged
    -- The record was sent no later than the one that was delivered.
    obtain ⟨t, ht, hafter⟩ := (Option.any_eq_true _ _).mp hjudged.2
    have hbefore : r.lastSent ≤ t := by
      rcases Bool.or_eq_true_iff.mp hafter with hlt | heq
      · exact Nat.le_of_lt (of_decide_eq_true hlt)
      · rw [Bool.and_eq_true, beq_iff_eq] at heq
        exact Nat.le_of_eq heq.1
    have hpassed := h.passed t ht
    have hwindow : a.reorderWindow minRtt smoothed shift ≤ s.longestRtt :=
      Nat.le_trans (Nat.min_le_right _ _) hsmoothed
    have hroom := hm.roundTrip
    exact decide_eq_true (by omega)

end RecentAck

namespace AckPass

variable {i : AckInput} {p : AckPass} {x : SeqRange}

theorem dated_remember {β : Type} {f : β → SendRecord} {rs : List β} {a : RecentAck}
    (h : a.Dated i.now) (hrs : ∀ r ∈ rs, (f r).lastSent ≤ i.now) :
    (rs.foldl (fun a r => remember i a (f r)) a).Dated i.now := by
  induction rs generalizing a with
  | nil => exact h
  | cons r rest ih =>
    exact ih (h.update (d := .ofRecord (f r)) (hrs r List.mem_cons_self) _ _)
      fun q hq => hrs q (List.mem_cons_of_mem r hq)

/-- As long as no record was sent in the future, acks keep what is remembered in the past. -/
theorem Sound.dated_run (h : p.Sound) (hhi : i.ack.cumulative ≤ p.board.top)
    (hsent : Chronological i.now p.board.ordered) (hd : p.recent.Dated i.now) :
    (p.run i).recent.Dated i.now := by
  have hpast : ∀ {p : AckPass}, p.Sound → Chronological i.now p.board.ordered →
      ∀ r ∈ p.board.records, r.flags.sacked = false → r.lastSent ≤ i.now := by
    intro p hp hc r hr hm
    refine hc.sent r (hp.board.mem_ordered.mpr ⟨hr, ?_⟩)
    rw [(hp.board.records r hr).linked, hm]
    rfl
  have hboard := (Scoreboard.persists_chronological i.now).kept (i := i)
  have hkept : Kept i fun q => Chronological i.now q.board.ordered ∧ q.recent.Dated i.now := by
    constructor
    · intro p q hs hstill hq
      refine ⟨hboard.still hs hstill hq.1, hstill.factor hq.2.factor, fun t ht => ?_⟩
      rw [hstill.rtt]
      exact hq.2.passed t (hstill.sentAt ▸ ht)
    · intro p hs hlo hhi hq
      refine ⟨hboard.advance hs hlo hhi hq.1, ?_⟩
      have hrecent : (p.advance i).recent
          = ((p.board.overlapping ⟨p.board.una, i.ack.cumulative⟩).filter
              fun r => !r.flags.sacked).foldl (remember i) p.recent := releaseWalk_recent
      rw [hrecent]
      refine dated_remember (f := id) hq.2 fun r hr => ?_
      rw [List.mem_filter, Scoreboard.mem_overlapping hlo, Bool.not_eq_true'] at hr
      exact hpast hs hq.1 r hr.1.1 hr.2
    · intro p x hs hx hlo hhi hfits hq
      refine ⟨hboard.mark hs hx hlo hhi hfits hq.1, ?_⟩
      have hrecent : (p.markBlock i x).recent
          = ((p.board.overlapping x).filter fun r => !r.isDelivered).foldl
              (fun a r => remember i a (r.carve x).middle) p.recent := sackWalk_recent
      rw [hrecent]
      refine dated_remember (f := fun r : SendRecord => (r.carve x).middle) hq.2 fun r hr => ?_
      obtain ⟨hrb, hro, hm⟩ := (mem_missing hs.board hx).mp hr
      have hne := (hs.board.tiles.bounds hrb).2.1
      rw [(SendRecord.isPart_carve_middle hne hx hro).lastSent]
      exact hpast hs hq.1 r hrb hm
  exact (hkept.run h hhi ⟨hsent, hd⟩).2

end AckPass

/-! ## Engines -/

namespace Engine

variable {κ : Type} {g g' : Engine κ} {m : Machine} {o : AckOutcome} {ack : Ack} {now : Nat}

/-- What is measured keeps to the settings. -/
structure Gauges.Within (now : Nat) (d : Gauges) : Prop where
  rtt : d.rtt.Within d.settings
  goodput : d.goodput.Within d.settings
  recent : d.recent.Dated now
  hold : d.probe.duration = d.settings.probeRttDuration

/-- What is measured keeps to the settings, and no record was sent after the instant `now`. -/
structure Gauged (now : Nat) (g : Engine κ) : Prop where
  board : g.board.Coherent
  sent : Chronological now g.board.ordered
  gauges : g.gauges.Within now

theorem Gauged.later {last : Nat} (h : g.Gauged last) (hle : last ≤ now) : g.Gauged now :=
  ⟨h.board, h.sent.later hle, h.gauges.rtt, h.gauges.goodput, h.gauges.recent.later hle,
    h.gauges.hold⟩

theorem Noted.gauges (h : Noted g g') : g'.gauges = g.gauges :=
  congrArg (fun c : Conduct κ => (⟨c.settings, c.rtt, c.goodput, c.recent, c.probe⟩ : Gauges)) h

variable [CongestionLaw κ]

/-! ### Acks -/

/-- Where losses are looked for, the gauges keep to the settings. -/
theorem Gauged.within_judged (h : g.Gauged now) (hs : g.Sound) (hle : ack.cumulative ≤ g.board.top)
    (o : AckOutcome) : ((g.acked ack now).judged ack o now).gauges.Within now := by
  have hrecent : (g.acked ack now).recent.Dated now :=
    hs.passState.dated_run (i := g.ackInput ack now) hle h.sent h.gauges.recent
  rw [gauges_judged]
  exact ⟨h.gauges.rtt.taken _ _, h.gauges.goodput, hrecent.watched _ _ _, h.gauges.hold⟩

theorem within_checkProbeRtt (h : g.gauges.Within now) : (g.checkProbeRtt now).gauges.Within now := by
  have hcheck : ∀ (p : ProbeRtt) stamp phase pipe,
      (p.check stamp phase pipe now).1.duration = p.duration := by
    intro p stamp phase pipe
    unfold ProbeRtt.check
    split <;> split <;> rfl
  unfold checkProbeRtt
  split
  · exact h
  · dsimp only
    split
    · exact ⟨h.rtt, h.goodput, h.recent, (hcheck _ _ _ _).trans h.hold⟩
    · exact ⟨h.rtt, h.goodput, h.recent, (hcheck _ _ _ _).trans h.hold⟩
    · exact ⟨h.rtt.renewLeast now, h.goodput, h.recent, (hcheck _ _ _ _).trans h.hold⟩

theorem within_measureGoodput (h : g.gauges.Within now) (o : AckOutcome) :
    (g.measureGoodput o now).gauges.Within now := by
  have hgoodput := h.goodput.deliver g.delivered o.appLimited h.rtt.smoothedRtt_le g.phase now
  unfold measureGoodput
  split
  · exact h
  · dsimp only
    split
    · exact ⟨h.rtt, hgoodput, h.recent, h.hold⟩
    · split <;> exact ⟨h.rtt, hgoodput, h.recent, h.hold⟩

theorem within_measured (h : g.gauges.Within now) (o : AckOutcome) (lost : List SendRecord) :
    (g.measured o lost now).gauges.Within now := by
  rw [gauges_measured]
  refine within_measureGoodput (within_checkProbeRtt ?_) o
  rwa [gauges_planSends]

/-- At any instant, the work of an engine keeps its gauges to the settings. -/
theorem upheld_gauged (now : Nat) : Upheld now fun g : Engine κ => g.Gauged now := by
  have hboard := (Scoreboard.persists_chronological now).upheld (κ := κ)
  refine ⟨⟨?_, ?_, ?_⟩, ?_, ?_⟩
  · intro g g' hn h
    obtain ⟨hc, hsent⟩ := hboard.aside.noted hn ⟨h.board, h.sent⟩
    exact ⟨hc, hsent, hn.gauges ▸ h.gauges⟩
  · intro g x flags t hrun hx hs hok h
    obtain ⟨hc, hsent⟩ := hboard.aside.sent t hrun hx hs hok ⟨h.board, h.sent⟩
    exact ⟨hc, hsent, (gauges_processSent g x flags t).symm ▸ h.gauges⟩
  · intro g timer generation hasData t hrun hcurrent h
    obtain ⟨hc, hsent⟩ := hboard.aside.fired hasData t hrun hcurrent ⟨h.board, h.sent⟩
    refine ⟨hc, hsent, ?_⟩
    rcases gauges_processTimeout t g timer generation hasData with hsame | hended
    · rw [hsame]
      exact h.gauges
    · rw [hended]
      exact ⟨h.gauges.rtt, h.gauges.goodput, h.gauges.recent, h.gauges.hold⟩
  · intro g ack hrun hle h
    obtain ⟨hc, hsent⟩ := hboard.acked hrun hle ⟨h.board, h.sent⟩
    refine ⟨hc, hsent, ?_⟩
    have hp : g.passOf ack now = .ok (g.passState.run (g.ackInput ack now)) :=
      AckPass.process_eq_ok hle
    unfold processAck
    rw [hp]
    dsimp only
    rw [gauges_respond]
    refine within_measured ?_ _ _
    rw [gauges_conclude]
    exact h.within_judged hrun.sound hle _
  · rintro g g' ⟨told, rfl⟩ h
    exact ⟨h.board, h.sent, h.gauges⟩

omit [CongestionLaw κ] in
theorem gauged_start {settings : Settings} {law : κ} {sink : Sink} {first begun : Nat}
    (started : Engine.start settings law sink first begun = .ok g) : g.Gauged 0 := by
  unfold Engine.start at started
  split at started
  · cases started
  · injection started with started
    subst started
    exact ⟨.empty _ _, ⟨.nil, fun _ hr => absurd hr List.not_mem_nil⟩,
      ⟨.start _ _, ⟨rfl, by simp [GoodputEstimator.start, gauges]⟩,
        ⟨show 1 ≤ RecentAck.maxMultiplier by decide, by simp [gauges]⟩, rfl⟩⟩

/-- As long as time does not go back, what is measured keeps to the settings. -/
theorem Timely.gauged {first : Nat} (h : g.Timely first now) : g.Gauged now :=
  (h.upheld upheld_gauged (fun hle hg => hg.later hle) gauged_start).holds

omit [CongestionLaw κ] in
/-- No more bytes go out than a range holds. -/
theorem sendRange_le {σ : Type} {host : Host σ} {w : σ} {range : SeqRange} {kind : SendKind}
    {bytes : Nat} (hok : (g.sendRange host w range kind now).2.2 = .ok bytes) : bytes ≤ range.length := by
  unfold sendRange at hok
  split at hok
  · injection hok with hok
    exact hok ▸ Nat.zero_le _
  · dsimp only at hok
    split at hok
    · cases hok
    · split at hok
      · injection hok with hok
        exact hok ▸ Nat.zero_le _
      · split at hok
        · cases hok
        · injection hok with hok
          exact hok ▸ Nat.min_le_right _ _

end Engine

/-! ## The figures of calls -/

/-- A machine has room for what is measured and keeps to the settings. -/
structure Machine.Suits (m : Machine) (now : Nat) (d : Engine.Gauges) : Prop where
  within : d.Within now
  room : m.HasRoom d.settings now

namespace Machine.Suits

open Engine

variable {κ : Type} {g : Engine κ} {m : Machine} {now : Nat}

/-! ### Timers -/

theorem holds_rtoFigures (h : m.Suits now g.gauges) : m.Holds (g.rtoFigures now) := by
  have hrto : g.rto ≤ g.settings.maxRto := h.within.rtt.rtoAfter_le _
  have hroom : now + g.settings.maxRto ≤ m.last := h.room.timeout
  unfold Engine.rtoFigures
  simp only [holds_append, holds_cons, holds_nil, and_true, Machine.holds, decide_eq_true_eq]
  exact ⟨h.within.rtt.holds_rtoFigures, by omega⟩

theorem holds_rearmFigures (h : m.Suits now g.gauges) : m.Holds (g.rearmFigures now) := by
  have hsmoothed : g.rtt.smoothedRtt ≤ g.settings.longestRtt := h.within.rtt.smoothedRtt_le
  have hrto : g.rto ≤ g.settings.maxRto := h.within.rtt.rtoAfter_le _
  have hprobe : max (g.settings.longestRtt * 2) g.settings.tlpMin + g.settings.delayedAckTime
    ≤ longest := h.room.probe
  have hroom : now + g.settings.maxRto ≤ m.last := h.room.timeout
  have hcut : g.probeTimeout ≤ g.rto := Nat.min_le_right _ _
  unfold rearmFigures
  split
  · unfold probeTimeoutFigures
    simp only [holds_append, holds_cons, holds_nil, and_true, Machine.holds, decide_eq_true_eq]
    refine ⟨⟨?_, h.within.rtt.holds_rtoFigures⟩, by omega⟩
    split <;> omega
  · exact h.holds_rtoFigures

/-! ### Sends -/

theorem holds_accountFigures (h : m.Suits now g.gauges) (sent : Nat) :
    m.Holds (g.accountFigures sent now) := by
  unfold accountFigures
  split
  · exact holds_nil
  · split
    · exact h.holds_rearmFigures
    · exact holds_nil

theorem holds_reportFigures (h : m.Suits now g.gauges) (range : SeqRange) (flags : Flags) :
    m.Holds (g.reportFigures range flags now) := by
  have hresent := gauges_resendBelow g range flags now
  unfold reportFigures
  split
  · exact holds_nil
  · dsimp only
    split
    · exact holds_accountFigures (hresent ▸ h) _
    · have happended := gauges_appendNew (g.resendBelow range flags now).1
        ⟨max range.start g.board.top, range.stop⟩ flags now
      split
      · exact holds_nil
      · exact holds_accountFigures (happended.trans hresent ▸ h) _

theorem holds_sentFigures (h : m.Suits now g.gauges) (range : SeqRange) (flags : Flags) :
    m.Holds (g.sentFigures range flags now) := by
  unfold sentFigures
  split
  · exact holds_nil
  · exact h.holds_reportFigures range flags

section Dispatch

variable {σ : Type} (host : Host σ)

theorem holds_carryFigures (h : m.Suits now g.gauges) (w : σ) {range : SeqRange}
    (hrange : range.start ≤ range.stop) (kind : SendKind) :
    m.Holds (g.carryFigures host w range kind now) := by
  unfold carryFigures
  split
  · exact holds_nil
  · dsimp only
    split
    · exact holds_nil
    · rw [holds_cons]
      refine ⟨decide_eq_true hrange, ?_⟩
      split
      · exact holds_nil
      · exact holds_reportFigures (g := g.tell (host.transmit w range kind.flags).events) h _ _

/-- No more bytes go out than the ranges hold. -/
theorem holds_carryAllFigures (h : m.Suits now g.gauges) (w : σ) {total : Nat} {actions : Actions}
    (hranges : ∀ send ∈ actions.sends, send.1.start ≤ send.1.stop)
    (hbytes : total + actions.sendBytes ≤ Word.max64) :
    m.Holds (g.carryAllFigures host now w total actions) := by
  induction actions generalizing g w total with
  | nil => exact holds_nil
  | cons action rest ih =>
    cases action with
    | send range n kind =>
      have hcarried := h.holds_carryFigures host w (hranges (range, kind) List.mem_cons_self) kind
      have hgauges := gauges_sendRange host g w range kind now
      have hadded : total + (range.length + Actions.sendBytes rest) ≤ Word.max64 := hbytes
      unfold carryAllFigures
      dsimp only
      rw [holds_append]
      refine ⟨hcarried, ?_⟩
      split
      · exact holds_nil
      · next bytes hok =>
        have hle := sendRange_le hok
        rw [holds_cons]
        refine ⟨decide_eq_true (by omega), ih (hgauges.symm ▸ h) _ ?_ (by omega)⟩
        exact fun send hsend => hranges send (List.mem_cons_of_mem _ hsend)
    | arm timer duration generation => exact ih h _ hranges hbytes
    | cancel => exact ih h _ hranges hbytes

end Dispatch

/-! ### Acks -/

theorem holds_lossFigures (h : m.Suits now g.gauges) : m.Holds g.lossFigures := by
  unfold Engine.lossFigures
  split
  · exact holds_nil
  · exact h.within.recent.holds_lossFigures h.room h.within.rtt.minRtt_le
      h.within.rtt.smoothedRtt_le g.board _

theorem holds_probeFigures (h : m.Suits now g.gauges) : m.Holds (g.probeFigures now) := by
  have hroom : now + g.probe.duration ≤ m.last := by
    rw [show g.probe.duration = g.settings.probeRttDuration from h.within.hold]
    exact h.room.hold
  unfold probeFigures
  split
  · exact holds_nil
  · unfold ProbeRtt.checkFigures
    split
    · split
      · simpa [Machine.holds] using hroom
      · exact holds_nil
    · exact holds_nil

theorem holds_goodputFigures (h : m.Suits now g.gauges) (o : AckOutcome) :
    m.Holds (g.goodputFigures o now) := by
  unfold goodputFigures
  split
  · exact holds_nil
  · exact h.within.goodput.holds_deliverFigures h.room _ _ h.within.rtt.smoothedRtt_le

theorem holds_settleFigures (h : m.Suits now g.gauges) (prior : Stage) (o : AckOutcome) :
    m.Holds (g.settleFigures prior o now) := by
  unfold settleFigures
  split
  · exact holds_nil
  · split
    · exact h.holds_rearmFigures
    · exact holds_nil

/-- What is planned to be sent again lies below the right edge. -/
theorem holds_planFigures {b : Scoreboard} {mss budget : Nat} {planned : Actions} (hb : b.Coherent)
    (hp : planned.Resending b mss budget) (hedge : b.top + max mss 1 ≤ Word.max64) :
    m.Holds (planFigures planned mss) := by
  intro f hf
  obtain ⟨send, hsend, rfl⟩ := List.mem_map.mp hf
  obtain ⟨a, ha, hsent⟩ := List.mem_filterMap.mp hsend
  obtain ⟨x, rfl, -, r, hr, -, -, hstop⟩ := hp.each a ha
  injection hsent with hsent
  subst hsent
  have hbelow := (hb.tiles.bounds hr).2.2
  refine decide_eq_true ?_
  show x.stop - x.start + max mss 1 ≤ Word.max64
  omega

variable [CongestionLaw κ]

theorem holds_respondFigures (h : m.Suits now g.gauges) {lost : List SendRecord}
    (hplan : m.Holds (planFigures (g.planSends lost).2 g.settings.mss)) (prior : Stage)
    (o : AckOutcome) : m.Holds (g.respondFigures prior o lost now) := by
  have hplanned : m.Suits now (g.planSends lost).1.gauges := gauges_planSends g lost ▸ h
  have hchecked : m.Suits now ((g.planSends lost).1.checkProbeRtt now).gauges := by
    refine ⟨within_checkProbeRtt hplanned.within, ?_⟩
    rw [gauges_checkProbeRtt]
    exact hplanned.room
  have hmeasured : m.Suits now (g.measured o lost now).gauges := by
    refine ⟨within_measured h.within o lost, ?_⟩
    rw [gauges_measured, gauges_measureGoodput]
    exact hchecked.room
  unfold respondFigures
  simp only [holds_append]
  exact ⟨⟨⟨hplan, hplanned.holds_probeFigures⟩, hchecked.holds_goodputFigures o⟩,
    hmeasured.holds_settleFigures prior o⟩

end Machine.Suits

namespace Engine

variable {κ : Type} [CongestionLaw κ] {g : Engine κ} {m : Machine} {first last now : Nat}

namespace Gauged

theorem holds_ackFigures (h : g.Gauged now) (hs : g.Sound) (hm : m.HasRoom g.settings now)
    (hedge : g.board.top + max g.settings.mss 1 ≤ Word.max64) (ack : Ack) :
    m.Holds (g.ackFigures ack now) := by
  by_cases hle : ack.cumulative ≤ g.board.top
  · have hp : g.passOf ack now = .ok (g.passState.run (g.ackInput ack now)) :=
      AckPass.process_eq_ok hle
    have hjudged : m.Suits now ((g.acked ack now).judged ack (g.outcomeOf ack now) now).gauges := by
      refine ⟨h.within_judged hs hle _, ?_⟩
      rw [gauges_judged]
      exact hm
    have hconcluded : m.Suits now (g.concluded ack now).1.gauges :=
      (gauges_conclude ack (g.outcomeOf ack now) now (g.acked ack now)).symm ▸ hjudged
    -- What is planned lies below the right edge, which the conclusions leave where it is.
    obtain ⟨mid, hbefore, -, hafter⟩ :=
      conclude_eq (g.acked ack now) ack (g.outcomeOf ack now) now
    have hrel : Relabelled (g.acked ack now) (g.concluded ack now).1 := hbefore.trans hafter
    obtain ⟨f, -, hmodified⟩ := hrel.board
    have htop : (g.concluded ack now).1.board.top = g.board.top :=
      (congrArg Scoreboard.top hmodified).trans (hs.acked_top hle now)
    have hsettings : (g.concluded ack now).1.settings = g.settings := hrel.settings
    have hplan := Machine.Suits.holds_planFigures (m := m) (hrel.sound (hs.acked hle now)).board
      (hs.concluded_resending hle now) (by rwa [hsettings, htop])
    unfold ackFigures
    split
    · exact Machine.holds_nil
    · rw [hp]
      simp only [Machine.holds_append]
      exact ⟨⟨h.gauges.rtt.holds_sampleFigures _, hjudged.holds_lossFigures⟩,
        hconcluded.holds_respondFigures hplan _ _⟩
  · rw [ackFigures_of_beyond (Nat.lt_of_not_le hle)]
    exact Machine.holds_nil

omit [CongestionLaw κ] in
theorem holds_fireProbeFigures (h : g.Gauged now) (hm : m.HasRoom g.settings now)
    (hedge : g.board.top + max g.settings.mss 1 ≤ Word.max64) (hasData : Bool) :
    m.Holds (g.fireProbeFigures hasData now) := by
  have hsegment : ∀ probe ∈ (g.probeFor hasData).toList, probe.1.length ≤ g.settings.mss := by
    intro probe hprobe
    have hprobe := Option.mem_toList.mp hprobe
    unfold probeFor at hprobe
    dsimp only at hprobe
    split at hprobe
    · injection hprobe with hprobe
      subst hprobe
      exact Nat.le_of_eq (Nat.add_sub_cancel_left _ _)
    · unfold tailProbe at hprobe
      simp only [Option.map_map, Option.map_eq_some_iff] at hprobe
      obtain ⟨r, -, rfl⟩ := hprobe
      show r.stop - max (r.stop - g.settings.mss) r.start ≤ g.settings.mss
      omega
  have hroom := hm.segment
  unfold fireProbeFigures
  split
  · exact Machine.holds_nil
  · simp only [Machine.holds_append]
    refine ⟨⟨?_, ?_⟩, (Machine.Suits.mk h.gauges hm).holds_rtoFigures⟩
    · split
      · simp only [Machine.holds_cons, Machine.holds_nil, and_true, Machine.holds, decide_eq_true_eq]
        omega
      · exact Machine.holds_nil
    · intro f hf
      obtain ⟨probe, hprobe, rfl⟩ := List.mem_map.mp hf
      have hlength := hsegment probe hprobe
      exact decide_eq_true (by omega)

theorem holds_fireTimeoutFigures (h : g.Gauged now) (hs : g.Sound) (hm : m.HasRoom g.settings now)
    (hedge : g.board.top + max g.settings.mss 1 ≤ Word.max64) :
    m.Holds (g.fireTimeoutFigures now) := by
  have hrel := relabelled_collapse g now
  obtain ⟨f, -, hmodified⟩ := hrel.board
  have hsound := hrel.sound hs
  have hplan := Machine.Suits.holds_planFigures (m := m) hsound.board hsound.resendLowest_resending
    (by rw [hmodified, hrel.settings]; exact hedge)
  rw [hrel.settings] at hplan
  have hsuits : m.Suits now (g.collapse now).gauges :=
    ⟨⟨h.gauges.rtt, h.gauges.goodput, h.gauges.recent, h.gauges.hold⟩, hm⟩
  unfold fireTimeoutFigures
  split
  · exact Machine.holds_nil
  · rw [Machine.holds_append]
    exact ⟨hplan, hsuits.holds_rtoFigures⟩

theorem holds_timeoutFigures (h : g.Gauged now) (hs : g.Sound) (hm : m.HasRoom g.settings now)
    (hedge : g.board.top + max g.settings.mss 1 ≤ Word.max64) (timer : Timer) (generation : Nat)
    (hasData : Bool) : m.Holds (g.timeoutFigures timer generation hasData now) := by
  unfold timeoutFigures
  split
  · exact Machine.holds_nil
  · cases timer with
    | tlp => exact h.holds_fireProbeFigures hm hedge hasData
    | rto => exact h.holds_fireTimeoutFigures hs hm hedge

end Gauged

/-- As long as time does not go back, a machine with room for the settings holds every figure of every
call, if a segment fits above the right edge and what is to be sent is made of ranges that add up to a
word. -/
theorem Timely.holds_figures (h : g.Timely first last) (later : last ≤ now)
    (hm : m.HasRoom g.settings now) (hedge : g.board.top + max g.settings.mss 1 ≤ Word.max64) :
    (∀ range flags, m.Holds (g.sentFigures range flags now)) ∧
    (∀ ack, m.Holds (g.ackFigures ack now)) ∧
    (∀ timer generation hasData, m.Holds (g.timeoutFigures timer generation hasData now)) ∧
    ∀ {σ : Type} (host : Host σ) (w : σ) (actions : Actions),
      (∀ send ∈ actions.sends, send.1.start ≤ send.1.stop) → actions.sendBytes ≤ Word.max64 →
      m.Holds (g.dispatchFigures host w actions now) := by
  have hgauged := h.gauged.later later
  have hsuits : m.Suits now g.gauges := ⟨hgauged.gauges, hm⟩
  refine ⟨hsuits.holds_sentFigures, hgauged.holds_ackFigures h.reachable.sound hm hedge,
    hgauged.holds_timeoutFigures h.reachable.sound hm hedge, ?_⟩
  intro σ host w actions hranges hbytes
  unfold dispatchFigures
  split
  · exact Machine.holds_nil
  · exact hsuits.holds_carryAllFigures host w hranges (by omega)

end Engine

end LossRecovery
