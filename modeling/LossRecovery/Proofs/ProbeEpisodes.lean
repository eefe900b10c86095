import LossRecovery.Proofs.Gauges
import LossRecovery.Proofs.IdleTimers
import LossRecovery.Proofs.RttEstimates

/-!
# `LossRecovery.Proofs.ProbeEpisodes` — probing the least RTT in episodes

What decides when the least RTT is probed is little: the probe in progress, and the time when the least
RTT was renewed. An ack changes it in one of four ways, the retransmission timer ends the probe, and
nothing else touches it. So when the floor was reached, and since when no probe may begin, can be told
from the history of the calls.

## Contents
- `Probed`, `Probed.Acked`: what decides about probing, and what an ack makes of it.
- `probed_processSent`, `acked_processAck`, `probed_processTimeout`: the parts of calls.
- `Moment`, `Moment.Happens`, `History`: calls with the engines before and after, and all runs at times
  that never go back; `Moment.Step`: what a call makes of the probing.
- `Held`: what a history tells about the probe in progress; `Held.keep`, `Held.reach`, `Held.step`: what
  calls make of it; `History.held`.
- `History.probes_held`: how episodes of probing begin and end, how far they are apart, and the quota
  while one is active.
-/

namespace LossRecovery

/-! ## What decides about probing -/

/-- The probe in progress, and the time when the least RTT was renewed. -/
structure Probed where
  probe : ProbeRtt
  stamp : Nat

namespace Probed

/-- What an ack at the instant `now` makes of the probing, if it leaves this stage and this many bytes in
flight. The least RTT may be renewed by a sample at any time. -/
inductive Acked (now : Nat) (stage : Stage) (pipe : Nat) (d : Probed) : Probed → Prop
  | waits {stamp : Nat} (renewed : stamp = d.stamp ∨ stamp = now) :
      Acked now stage pipe d { d with stamp := stamp }
  | starts (phase : Phase) (idle : d.probe.probing = none) (steady : stage = .steady)
      (late : d.stamp + d.probe.interval < now) :
      Acked now stage pipe d { d with probe := { d.probe with probing := some ⟨phase, none⟩ } }
  | reaches {prior : Phase} {stamp : Nat} (active : d.probe.probing = some ⟨prior, none⟩)
      (low : pipe ≤ d.probe.floor) (renewed : stamp = d.stamp ∨ stamp = now) :
      Acked now stage pipe d
        ⟨{ d.probe with probing := some ⟨prior, some (now + d.probe.duration)⟩ }, stamp⟩
  | completes {prior : Phase} {done : Nat} (active : d.probe.probing = some ⟨prior, some done⟩)
      (due : done ≤ now) : Acked now stage pipe d ⟨d.probe.cancel, now⟩

end Probed

theorem RttEstimator.leastStamp_taken (e : RttEstimator) (sample : Option Nat) (now : Nat) :
    (e.taken sample now).leastStamp = e.leastStamp ∨ (e.taken sample now).leastStamp = now := by
  unfold taken
  cases sample with
  | none => exact .inl rfl
  | some rtt =>
    dsimp only
    cases hupdate : e.update rtt now with
    | error c => exact .inl rfl
    | ok estimator =>
      dsimp only
      rw [← eq_of_update hupdate, average_eq]
      show (e.file rtt now).leastStamp = _ ∨ (e.file rtt now).leastStamp = _
      unfold file
      dsimp only
      split
      · exact .inr rfl
      · exact .inl rfl

namespace Engine

variable {κ : Type} {g g' : Engine κ} {now : Nat}

def probed (g : Engine κ) : Probed := ⟨g.probe, g.rtt.leastStamp⟩

/-! ## Sends and errors -/

/-- Sends have no part in probing. -/
theorem probed_processSent (g : Engine κ) (x : SeqRange) (flags : Flags) (now : Nat) :
    (g.processSent x flags now).1.probed = g.probed :=
  congrArg (fun d : Gauges => (⟨d.probe, d.rtt.leastStamp⟩ : Probed)) (gauges_processSent g x flags now)

theorem probed_fail (g : Engine κ) (e : Error) :
    (g.fail e).probed = g.probed ∧ (g.fail e).footing = g.footing := by
  unfold fail
  cases e <;> exact ⟨rfl, rfl⟩

theorem lastingSends_probed (d : Probed) : LastingSends fun g : Engine κ => g.probed = d where
  aside _ _ _ h := h
  stale _ h := h
  sent x flags now h := (probed_processSent _ x flags now).trans h
  failed _ h := (probed_fail _ _).1.trans h

variable [CongestionLaw κ]

/-! ## Acks -/

/-- A check goes by the time when the least RTT was renewed, which a sample of the same ack may have
moved. -/
theorem acked_checkProbeRtt {d : Probed} (now : Nat) (hprobe : g.probe = d.probe)
    (hstamp : g.rtt.leastStamp = d.stamp ∨ g.rtt.leastStamp = now) :
    d.Acked now g.schedule.stage g.pipe (g.checkProbeRtt now).probed := by
  obtain ⟨probe, stamp⟩ := d
  dsimp only at hprobe hstamp
  subst hprobe
  unfold checkProbeRtt
  split
  · exact .waits hstamp
  · next hcheck =>
    dsimp only
    unfold ProbeRtt.check
    cases hprobing : g.probe.probing with
    | none =>
      have hsteady : g.schedule.stage = .steady := by
        simpa [ProbeRtt.isActive, hprobing] using hcheck
      dsimp only
      unfold Time.since
      by_cases hlate : g.probe.interval < now - g.rtt.leastStamp
      · rw [if_pos hlate]
        have hold : g.rtt.leastStamp = stamp := by
          rcases hstamp with hold | hrenewed
          · exact hold
          · omega
        subst hold
        exact .starts _ hprobing hsteady (by dsimp only; omega)
      · rw [if_neg hlate]
        exact .waits hstamp
    | some probing =>
      obtain ⟨prior, done⟩ := probing
      cases done with
      | none =>
        by_cases hlow : g.pipe ≤ g.probe.floor
        · simp only [hlow, if_true]
          exact .reaches hprobing hlow hstamp
        · simp only [hlow, if_false]
          exact .waits hstamp
      | some done =>
        by_cases hdue : done ≤ now
        · simp only [hdue, if_true]
          exact .completes hprobing hdue
        · simp only [hdue, if_false]
          exact .waits hstamp

theorem acked_processAck (g : Engine κ) (ack : Ack) (now : Nat) :
    g.probed.Acked now (g.processAck ack now).1.schedule.stage (g.processAck ack now).1.pipe
      (g.processAck ack now).1.probed := by
  unfold processAck
  cases g.passOf ack now with
  | error e => exact .waits (.inl rfl)
  | ok p =>
    dsimp only
    have hconcluded := stock_conclude (g.adopt p ack) ack p.outcome now
    generalize (g.adopt p ack).conclude ack p.outcome now = concluded at hconcluded ⊢
    have hresponded := stock_respond concluded.1 ack p.outcome now g.schedule.stage concluded.2
    have hplanned := stock_planSends concluded.1 concluded.2
    have hfooting : (concluded.1.respond g.schedule.stage ack p.outcome concluded.2 now).1.footing
        = (concluded.1.planSends concluded.2).1.footing := by
      have htold := (told_respond concluded.1 g.schedule.stage ack p.outcome concluded.2 now).footing
      have hmeasured := footing_measured concluded.1 p.outcome concluded.2 now
      rw [htold, footing_settleTimers, hmeasured, footing_planSends]
    have hprobe : (concluded.1.planSends concluded.2).1.probe = g.probe :=
      (congrArg Stock.probe hplanned).trans (congrArg Stock.probe hconcluded)
    have hrtt : (concluded.1.planSends concluded.2).1.rtt = g.rtt.taken p.outcome.rttSample now :=
      (congrArg Stock.rtt hplanned).trans (congrArg Stock.rtt hconcluded)
    have hstamp := g.rtt.leastStamp_taken p.outcome.rttSample now
    rw [← hrtt] at hstamp
    have hchecked := acked_checkProbeRtt (d := g.probed) now hprobe hstamp
    have hprobed : (concluded.1.respond g.schedule.stage ack p.outcome concluded.2 now).1.probed
        = ((concluded.1.planSends concluded.2).1.checkProbeRtt now).probed :=
      congrArg (fun s : Stock => (⟨s.probe, s.rtt.leastStamp⟩ : Probed)) hresponded
    rw [hprobed, footing_stage hfooting, footing_pipe hfooting]
    exact hchecked

/-! ## Timers -/

/-- The retransmission timer ends a probe, and no other timer does. -/
theorem probed_processTimeout (h : g.control.Attended) (timer : Timer) (generation : Nat)
    (hasData : Bool) (now : Nat) :
    (timer = .rto ∧ g.schedule.timers.isCurrent .rto generation = true →
      (g.processTimeout timer generation hasData now).1.probed = ⟨g.probe.cancel, g.rtt.leastStamp⟩) ∧
    (¬ (timer = .rto ∧ g.schedule.timers.isCurrent .rto generation = true) →
      (g.processTimeout timer generation hasData now).1.probed = g.probed) := by
  cases hc : g.schedule.timers.isCurrent timer generation with
  | false =>
    refine ⟨?_, fun _ => ?_⟩
    · rintro ⟨rfl, hcurrent⟩
      cases hc.symm.trans hcurrent
    · simp only [processTimeout, hc, Bool.false_eq_true, if_false]
      rfl
  | true =>
    obtain ⟨a, harmed, -⟩ := TimerTable.isCurrent_iff.mp hc
    have hlt : g.board.una < g.board.top := h.outstanding timer (Option.isSome_of_eq_some harmed)
    rw [processTimeout_eq g hc hasData now]
    cases timer with
    | tlp =>
      refine ⟨fun hr => Timer.noConfusion hr.1, fun _ => ?_⟩
      dsimp only
      unfold fireProbe
      split
      · rfl
      · dsimp only
        split <;> rfl
    | rto =>
      refine ⟨fun _ => ?_, fun hne => absurd ⟨rfl, hc⟩ hne⟩
      dsimp only
      rw [fireTimeout_eq (g := g.takeOff .rto) hlt]
      show ((g.takeOff .rto).collapsed now).resendLowest.1.probed = _
      unfold resendLowest
      split <;> rfl

/-! ## Histories -/

/-- How the engine was called. -/
inductive Occasion where
  | ack
  | firing (timer : Timer) (generation : Nat)
  | other
deriving DecidableEq

/-- A call at the instant `now`, with the engines before and after it. -/
structure Moment (κ : Type) where
  now : Nat
  occasion : Occasion
  before : Engine κ
  after : Engine κ

/-- The calls of all kinds, with any arguments. -/
inductive Moment.Happens : Moment κ → Prop
  | send (g : Engine κ) (range : SeqRange) (flags : Flags) (now : Nat) :
      Happens ⟨now, .other, g, (g.onPacketSent range flags now).1⟩
  | ack (g : Engine κ) (a : Ack) (now : Nat) : Happens ⟨now, .ack, g, (g.onAck a now).1⟩
  | fire (g : Engine κ) (timer : Timer) (generation : Nat) (hasData : Bool) (now : Nat) :
      Happens ⟨now, .firing timer generation, g, (g.onTimeout timer generation hasData now).1⟩
  | dispatch {σ : Type} (g : Engine κ) (host : Host σ) (w : σ) (actions : Actions) (now : Nat) :
      Happens ⟨now, .other, g, (g.dispatch host w actions now).1.1⟩
  | nextSendTime (g : Engine κ) (bytes now : Nat) :
      Happens ⟨now, .other, g, (g.nextSendTime bytes now).1⟩
  | setFixedRate (g : Engine κ) (rate : Option Nat) (now : Nat) :
      Happens ⟨now, .other, g, g.setFixedRate rate⟩
  | setHardware (g : Engine κ) (table : RateTable) (now : Nat) :
      Happens ⟨now, .other, g, g.setHardware table⟩
  | setTrace (g : Engine κ) (trace : String) (now : Nat) : Happens ⟨now, .other, g, g.setTrace trace⟩

/-- The calls since a fresh engine under the settings `s`, latest first, at times that never go back. -/
inductive History (s : Settings) : List (Moment κ) → Engine κ → Prop
  | start {law : κ} {sink : Sink} {first now : Nat} {g : Engine κ}
      (started : start s law sink first now = .ok g) : History s [] g
  | call {past : List (Moment κ)} {m : Moment κ} (happens : m.Happens)
      (before : History s past m.before) (later : ∀ x ∈ past, x.now ≤ m.now) :
      History s (m :: past) m.after

variable {s : Settings} {past newer older : List (Moment κ)} {m : Moment κ}

namespace Moment

/-- An episode of probing begins. -/
def Starts (m : Moment κ) : Prop :=
  m.before.probe.isActive = false ∧ m.after.probe.isActive = true

/-- An episode of probing ends. -/
def Ends (m : Moment κ) : Prop :=
  m.before.probe.isActive = true ∧ m.after.probe.isActive = false

/-- The retransmission timer fires. -/
def TimesOut (m : Moment κ) : Prop :=
  ∃ generation, m.occasion = .firing .rto generation ∧ m.before.isAborted = false ∧
    m.before.schedule.timers.isCurrent .rto generation = true

/-- An episode ends other than by a timeout. -/
def Completes (m : Moment κ) : Prop := m.Ends ∧ ¬ m.TimesOut

omit [CongestionLaw κ] in
theorem not_completes (h : m.after.probe.isActive = true) : ¬ m.Completes := by
  rintro ⟨⟨-, hidle⟩, -⟩
  rw [h] at hidle
  cases hidle

omit [CongestionLaw κ] in
theorem not_timesOut (h : m.occasion = .other) : ¬ m.TimesOut := by
  rintro ⟨generation, hfiring, -⟩
  cases h.symm.trans hfiring

/-- What a call makes of the probing. -/
inductive Step (m : Moment κ) : Prop
  | keeps (quiet : ¬ m.TimesOut) (same : m.after.probed = m.before.probed)
  | acks (occasion : m.occasion = .ack) (acked : m.before.probed.Acked m.now
      m.after.schedule.stage m.after.pipe m.after.probed)
  | cancels (fired : m.TimesOut)
      (cancelled : m.after.probed = ⟨m.before.probe.cancel, m.before.rtt.leastStamp⟩)

theorem Happens.call (h : m.Happens) : Call m.before m.after := by
  cases h with
  | send g range flags now => exact .send range flags now
  | ack g a now => exact .ack a now
  | fire g timer generation hasData now => exact .fire timer generation hasData now
  | dispatch g host w actions now => exact .dispatch host w actions now
  | nextSendTime g bytes now => exact .nextSendTime bytes now
  | setFixedRate g rate now => exact .setFixedRate rate
  | setHardware g table now => exact .setHardware table
  | setTrace g trace now => exact .setTrace trace

end Moment

/-- An ack makes of the probing what its work does, whether it is taken in or not. -/
theorem acked_onAck (g : Engine κ) (a : Ack) (now : Nat) :
    g.probed.Acked now (g.onAck a now).1.schedule.stage (g.onAck a now).1.pipe
      (g.onAck a now).1.probed := by
  cases ha : g.isAborted with
  | true =>
    unfold onAck
    rw [guarded_of_aborted ha]
    exact .waits (.inl rfl)
  | false =>
    have hacked := acked_processAck g a now
    rcases guarded_cases (fun g => g.processAck a now) ha with hdone | ⟨e, hfailed⟩
    · unfold onAck
      rw [hdone]
      exact hacked
    · obtain ⟨hprobed, hfooting⟩ := probed_fail (g.processAck a now).1 e
      unfold onAck
      rw [hfailed, hprobed, footing_stage hfooting, footing_pipe hfooting]
      exact hacked

theorem Moment.Happens.step (h : m.Happens) (hattended : m.before.control.Attended) : m.Step := by
  cases h with
  | send g range flags now =>
    refine .keeps (Moment.not_timesOut rfl) ?_
    exact (lastingSends_probed g.probed).guarded rfl (probed_processSent g range flags now)
      ofCall_processSent
  | ack g a now => exact .acks rfl (acked_onAck g a now)
  | fire g timer generation hasData now =>
    obtain ⟨hcancels, hkeeps⟩ := probed_processTimeout hattended timer generation hasData now
    cases ha : g.isAborted with
    | true =>
      refine .keeps ?_ ?_
      · rintro ⟨_, -, hruns, -⟩
        cases ha.symm.trans hruns
      · show (g.onTimeout timer generation hasData now).1.probed = g.probed
        unfold onTimeout
        rw [guarded_of_aborted ha]
    | false =>
      have htaken : (g.onTimeout timer generation hasData now).1
          = (g.processTimeout timer generation hasData now).1 := by rw [onTimeout_eq ha]
      by_cases hrto : timer = .rto ∧ g.schedule.timers.isCurrent .rto generation = true
      · refine .cancels ⟨generation, by rw [hrto.1], ha, hrto.2⟩ ?_
        dsimp only
        rw [htaken]
        exact hcancels hrto
      · refine .keeps ?_ ?_
        · rintro ⟨_, ho, -, hcurrent⟩
          cases ho
          exact hrto ⟨rfl, hcurrent⟩
        · dsimp only
          rw [htaken]
          exact hkeeps hrto
  | dispatch g host w actions now =>
    refine .keeps (Moment.not_timesOut rfl) ?_
    exact (lastingSends_probed g.probed).dispatch host now rfl w actions
  | nextSendTime g bytes now => exact .keeps (Moment.not_timesOut rfl) rfl
  | setFixedRate g rate now => exact .keeps (Moment.not_timesOut rfl) rfl
  | setHardware g table now => exact .keeps (Moment.not_timesOut rfl) rfl
  | setTrace g trace now => exact .keeps (Moment.not_timesOut rfl) rfl

theorem History.attended (h : History s past g) : g.control.Attended := by
  induction h with
  | start started => exact attended_start started
  | call happens _ _ ih => exact lasting_attended.call happens.call ih

/-- What came before a call is a history of its own. -/
theorem History.before (h : History s (newer ++ m :: older) g) :
    History s older m.before ∧ m.Step ∧ ∀ x ∈ older, x.now ≤ m.now := by
  induction newer generalizing g with
  | nil =>
    cases h with
    | call happens before later => exact ⟨before, happens.step before.attended, later⟩
  | cons _ _ ih =>
    cases h with
    | call _ before _ => exact ih before

/-! ## Episodes -/

/-- In the episode in progress, an ack found the bytes in flight at the floor, or below, so that it may
end at the instant `done`. -/
def Reached (s : Settings) (past : List (Moment κ)) (done : Nat) : Prop :=
  ∃ between a rest, past = between ++ a :: rest ∧ a.occasion = .ack ∧
    a.before.probe.isActive = true ∧ (∀ x ∈ a :: between, x.after.probe.isActive = true) ∧
    a.after.pipe ≤ Word.mul s.probeRttFloorSegments s.mss ∧ done = a.now + s.probeRttDuration

/-- What a history tells about the probing: its limits are those of the settings, the time when a probe
may end was set by an ack of the same episode, and the least RTT was renewed with every completed one. -/
structure Held (s : Settings) (past : List (Moment κ)) (d : Probed) : Prop where
  limits : d.probe.cancel = ⟨s.probeRttInterval, s.probeRttDuration,
    Word.mul s.probeRttFloorSegments s.mss, none⟩
  reached : ∀ prior done, d.probe.probing = some ⟨prior, some done⟩ → Reached s past done
  renewed : ∀ x ∈ past, x.Completes → x.now ≤ d.stamp

omit [CongestionLaw κ] in
theorem Held.start {law : κ} {sink : Sink} {first : Nat}
    (started : Engine.start s law sink first now = .ok g) :
    Held s ([] : List (Moment κ)) g.probed := by
  obtain ⟨-, rfl⟩ := start_eq_ok_iff.mp started
  refine ⟨rfl, ?_, by simp⟩
  intro prior done hprobing
  cases hprobing

omit [CongestionLaw κ] in
/-- As long as a probe goes on, so does the wait for its end. -/
theorem Reached.later {done : Nat} (h : Reached s past done) (hactive : m.after.probe.isActive = true) :
    Reached s (m :: past) done := by
  obtain ⟨between, a, rest, rfl, hack, hbefore, hall, hlow, hdone⟩ := h
  refine ⟨m :: between, a, rest, rfl, hack, hbefore, ?_, hlow, hdone⟩
  intro x hx
  simp only [List.mem_cons] at hx hall
  rcases hx with rfl | rfl | hx
  · exact hall _ (.inl rfl)
  · exact hactive
  · exact hall _ (.inr hx)

omit [CongestionLaw κ] in
/-- What is known is kept as long as the limits stay, the least RTT is renewed by this call if at all,
and a completed episode renews it. -/
theorem Held.extend (h : Held s past m.before.probed) (later : ∀ x ∈ past, x.now ≤ m.now)
    (hlimits : m.after.probe.cancel = m.before.probe.cancel)
    (hreached : ∀ prior done, m.after.probe.probing = some ⟨prior, some done⟩ →
      Reached s (m :: past) done)
    (hstamp : m.after.rtt.leastStamp = m.before.rtt.leastStamp ∨ m.after.rtt.leastStamp = m.now)
    (hcompletes : m.Completes → m.after.rtt.leastStamp = m.now) :
    Held s (m :: past) m.after.probed := by
  refine ⟨hlimits.trans h.limits, hreached, ?_⟩
  intro x hx hcompleted
  show x.now ≤ m.after.rtt.leastStamp
  rcases List.mem_cons.mp hx with rfl | hx
  · exact Nat.le_of_eq (hcompletes hcompleted).symm
  · have hbefore : x.now ≤ m.before.rtt.leastStamp := h.renewed x hx hcompleted
    have hnow := later x hx
    rcases hstamp with hsame | hrenewed
    · rwa [hsame]
    · rwa [hrenewed]

omit [CongestionLaw κ] in
/-- As long as the probe is the same, no episode ends. -/
theorem Held.keep (h : Held s past m.before.probed) (later : ∀ x ∈ past, x.now ≤ m.now)
    (hprobe : m.after.probe = m.before.probe)
    (hstamp : m.after.rtt.leastStamp = m.before.rtt.leastStamp ∨ m.after.rtt.leastStamp = m.now) :
    Held s (m :: past) m.after.probed := by
  refine h.extend later (by rw [hprobe]) ?_ hstamp ?_
  · intro prior done hprobing
    have hbefore : m.before.probed.probe.probing = some ⟨prior, some done⟩ :=
      (congrArg ProbeRtt.probing hprobe).symm.trans hprobing
    apply (h.reached prior done hbefore).later
    simp [ProbeRtt.isActive, hprobing]
  · rintro ⟨⟨hactive, hidle⟩, -⟩
    rw [hprobe, hactive] at hidle
    cases hidle

omit [CongestionLaw κ] in
/-- An ack that finds the bytes in flight at the floor sets the time when the episode may end. -/
theorem Held.reach (h : Held s past m.before.probed) (later : ∀ x ∈ past, x.now ≤ m.now)
    (occasion : m.occasion = .ack) {prior : Phase}
    (active : m.before.probe.probing = some ⟨prior, none⟩)
    (low : m.after.pipe ≤ m.before.probe.floor)
    (hprobe : m.after.probe
      = { m.before.probe with probing := some ⟨prior, some (m.now + m.before.probe.duration)⟩ })
    (hstamp : m.after.rtt.leastStamp = m.before.rtt.leastStamp ∨ m.after.rtt.leastStamp = m.now) :
    Held s (m :: past) m.after.probed := by
  have hduration : m.before.probe.duration = s.probeRttDuration :=
    congrArg ProbeRtt.duration h.limits
  have hfloor : m.before.probe.floor = Word.mul s.probeRttFloorSegments s.mss :=
    congrArg ProbeRtt.floor h.limits
  have hstill : m.after.probe.isActive = true := by
    rw [hprobe]
    rfl
  refine h.extend later (by rw [hprobe]; rfl) ?_ hstamp (absurd · (Moment.not_completes hstill))
  intro prior' done hprobing
  rw [hprobe] at hprobing
  cases hprobing
  refine ⟨[], m, past, rfl, occasion, ?_, ?_, ?_, ?_⟩
  · simp [ProbeRtt.isActive, active]
  · simpa using hstill
  · rwa [← hfloor]
  · rw [hduration]

omit [CongestionLaw κ] in
theorem Held.step (h : Held s past m.before.probed) (hstep : m.Step)
    (later : ∀ x ∈ past, x.now ≤ m.now) : Held s (m :: past) m.after.probed := by
  cases hstep with
  | keeps _ same =>
    exact h.keep later (congrArg Probed.probe same) (.inl (congrArg Probed.stamp same))
  | cancels fired cancelled =>
    have hprobe : m.after.probe = m.before.probe.cancel := congrArg Probed.probe cancelled
    refine h.extend later (by rw [hprobe]; rfl) ?_ (.inl (congrArg Probed.stamp cancelled)) ?_
    · intro prior done hprobing
      rw [hprobe] at hprobing
      cases hprobing
    · intro hcompleted
      exact absurd fired hcompleted.2
  | acks occasion acked =>
    generalize hafter : m.after.probed = d at acked
    have hprobe : m.after.probe = d.probe := congrArg Probed.probe hafter
    have hstamp : m.after.rtt.leastStamp = d.stamp := congrArg Probed.stamp hafter
    rw [← hafter]
    cases acked with
    | waits renewed => exact h.keep later hprobe (renewed.imp hstamp.trans hstamp.trans)
    | starts phase idle steady late =>
      have hactive : m.after.probe.isActive = true := by
        rw [hprobe]
        rfl
      refine h.extend later (by rw [hprobe]; rfl) ?_ (.inl hstamp)
        (absurd · (Moment.not_completes hactive))
      intro prior done hprobing
      rw [hprobe] at hprobing
      cases hprobing
    | reaches active low renewed =>
      exact h.reach later occasion active low hprobe (renewed.imp hstamp.trans hstamp.trans)
    | completes active due =>
      refine h.extend later (by rw [hprobe]; rfl) ?_ (.inr hstamp) (fun _ => hstamp)
      intro prior done hprobing
      rw [hprobe] at hprobing
      cases hprobing

theorem History.held (h : History s past g) : Held s past g.probed := by
  induction h with
  | start started => exact .start started
  | call happens before later ih => exact ih.step (happens.step before.attended) later

/-! ## What a call may do -/

section Moments

variable (h : Held s older m.before.probed) (hstep : m.Step)
include h hstep

omit [CongestionLaw κ] in
/-- An episode begins with an ack in the steady stage, long after the least RTT was renewed. -/
theorem Held.starts (hstarts : m.Starts) : m.occasion = .ack ∧ m.after.schedule.stage = .steady ∧
    m.before.rtt.leastStamp + s.probeRttInterval < m.now := by
  obtain ⟨hidle, hactive⟩ := hstarts
  have hsame : m.after.probe ≠ m.before.probe := by
    intro hprobe
    rw [hprobe, hidle] at hactive
    cases hactive
  cases hstep with
  | keeps _ same => exact absurd (congrArg Probed.probe same) hsame
  | cancels _ cancelled =>
    rw [show m.after.probe = _ from congrArg Probed.probe cancelled] at hactive
    cases hactive
  | acks occasion acked =>
    generalize hafter : m.after.probed = d at acked
    have hprobe : m.after.probe = d.probe := congrArg Probed.probe hafter
    cases acked with
    | waits => exact absurd hprobe hsame
    | starts phase idle steady late =>
      have hinterval : m.before.probe.interval = s.probeRttInterval :=
        congrArg ProbeRtt.interval h.limits
      rw [← hinterval]
      exact ⟨occasion, steady, late⟩
    | reaches active =>
      rw [ProbeRtt.isActive, show m.before.probe.probing = _ from active] at hidle
      cases hidle
    | completes =>
      rw [hprobe] at hactive
      cases hactive

omit [CongestionLaw κ] in
/-- An episode that is completed ends with an ack, when its time has come. -/
theorem Held.completes (hcompleted : m.Completes) : m.occasion = .ack ∧
    ∃ done, Reached s older done ∧ done ≤ m.now := by
  obtain ⟨⟨hactive, hidle⟩, hquiet⟩ := hcompleted
  have hsame : m.after.probe ≠ m.before.probe := by
    intro hprobe
    rw [hprobe, hactive] at hidle
    cases hidle
  cases hstep with
  | keeps _ same => exact absurd (congrArg Probed.probe same) hsame
  | cancels fired => exact absurd fired hquiet
  | acks occasion acked =>
    generalize hafter : m.after.probed = d at acked
    have hprobe : m.after.probe = d.probe := congrArg Probed.probe hafter
    cases acked with
    | waits => exact absurd hprobe hsame
    | starts =>
      rw [hprobe] at hidle
      cases hidle
    | reaches =>
      rw [hprobe] at hidle
      cases hidle
    | @completes prior done active due => exact ⟨occasion, done, h.reached prior done active, due⟩

omit [CongestionLaw κ] h in
/-- No episode outlasts a timeout. -/
theorem Moment.Step.timesOut (hfired : m.TimesOut) : m.after.probe.isActive = false := by
  cases hstep with
  | keeps quiet => exact absurd hfired quiet
  | cancels _ cancelled =>
    rw [show m.after.probe = _ from congrArg Probed.probe cancelled]
    rfl
  | acks occasion =>
    obtain ⟨generation, hfiring, -⟩ := hfired
    cases occasion.symm.trans hfiring

end Moments

/-- Probing the least RTT in every history. An episode begins with an ack that leaves loss recovery in
the steady stage. A timeout ends an episode; any other one that ends is completed by an ack, at least the
configured duration after an ack of the same episode that left no more bytes in flight than the floor.
After a completed episode, the next one begins only when more than the configured interval has passed.
While an episode is active, no more may be sent than the floor leaves. -/
theorem History.probes_held (h : History s past g) :
    (∀ newer m older, past = newer ++ m :: older →
      (m.Starts → m.occasion = .ack ∧ m.after.schedule.stage = .steady) ∧
      (m.TimesOut → m.after.probe.isActive = false) ∧
      (m.Ends → ¬ m.TimesOut → m.occasion = .ack ∧
        (∃ between a rest, older = between ++ a :: rest ∧ a.occasion = .ack ∧
          a.before.probe.isActive = true ∧
          (∀ x ∈ a :: between, x.after.probe.isActive = true) ∧
          a.after.pipe ≤ Word.mul s.probeRttFloorSegments s.mss ∧
          a.now + s.probeRttDuration ≤ m.now) ∧
        ∀ x ∈ newer, x.Starts → m.now + s.probeRttInterval < x.now)) ∧
    (g.probe.isActive = true →
      g.sendQuota ≤ Word.mul s.probeRttFloorSegments s.mss - g.pipe) := by
  constructor
  · rintro newer m older rfl
    obtain ⟨hbefore, hstep, -⟩ := h.before
    have hheld := hbefore.held
    refine ⟨?_, hstep.timesOut, ?_⟩
    · intro hstarts
      obtain ⟨hack, hsteady, -⟩ := hheld.starts hstep hstarts
      exact ⟨hack, hsteady⟩
    · intro hends hquiet
      obtain ⟨hack, done, ⟨between, a, rest, hrest, hreach, hactive, hall, hlow, rfl⟩, hdue⟩ :=
        hheld.completes hstep ⟨hends, hquiet⟩
      refine ⟨hack, ⟨between, a, rest, hrest, hreach, hactive, hall, hlow, hdue⟩, ?_⟩
      intro x hx hstarts
      obtain ⟨latest, since, rfl⟩ := List.append_of_mem hx
      rw [List.append_assoc, List.cons_append] at h
      obtain ⟨hx, hstep', -⟩ := h.before
      have hrenewed := hx.held.renewed m (by simp) ⟨hends, hquiet⟩
      change m.now ≤ x.before.rtt.leastStamp at hrenewed
      obtain ⟨-, -, hlate⟩ := hx.held.starts hstep' hstarts
      omega
  · intro hactive
    have hfloor : g.probe.floor = Word.mul s.probeRttFloorSegments s.mss :=
      congrArg ProbeRtt.floor h.held.limits
    rw [← hfloor]
    simp only [sendQuota, hactive, if_true]
    split
    · exact Nat.zero_le _
    · omega

/-- Without new samples the least RTT is probed after twenty seconds, and again more than ten seconds after
that episode was completed. -/
theorem probes_held_twice : ∃ (past : List (Moment FixedWindow)) (x m : Moment FixedWindow)
    (g : Engine FixedWindow), History {} (x :: m :: past) g ∧
    (m.Ends ∧ ¬ m.TimesOut ∧ x.Starts) ∧ g.probe.isActive = true ∧
    (∃ a ∈ past, a.occasion = .ack ∧ a.after.pipe ≤ 4 * 1460 ∧
      a.now + 200 * Time.millisecond ≤ m.now) ∧
    m.now + 10 * Time.second < x.now ∧ x.after.schedule.stage = .steady ∧ g.sendQuota ≤ 4 * 1460 := by
  have started : Engine.start {} (FixedWindow.ofSettings {}) .discard 0 0 = .ok _ := rfl
  have sent := (History.start started).call (.send _ ⟨0, 1460⟩ {} 0) (by simp)
  have acked := sent.call (.ack _ { cumulative := 1460 } 50000000) (by simp)
  have entered := acked.call (.ack _ { cumulative := 1460 } 20000000000) (by simp)
  have reached := entered.call (.ack _ { cumulative := 1460 } 20100000000) (by simp)
  have left := reached.call (.ack _ { cumulative := 1460 } 20400000000) (by simp)
  have again := left.call (.ack _ { cumulative := 1460 } 31000000000) (by simp)
  obtain ⟨hmoments, hquota⟩ := again.probes_held
  obtain ⟨hstarts, -⟩ := hmoments [] _ _ rfl
  obtain ⟨-, -, hends⟩ := hmoments [_] _ _ rfl
  have hcompleted : ∀ {now} {g g' : Engine FixedWindow}, ¬ Moment.TimesOut ⟨now, .ack, g, g'⟩ := by
    rintro _ _ _ ⟨generation, hfiring, -⟩
    cases hfiring
  obtain ⟨-, ⟨between, a, rest, hrest, hack, -, -, hlow, hdue⟩, happart⟩ := hends ⟨rfl, rfl⟩ hcompleted
  refine ⟨_, _, _, _, again, ⟨⟨rfl, rfl⟩, hcompleted, ⟨rfl, rfl⟩⟩, rfl, ⟨a, ?_, hack, hlow, hdue⟩,
    happart _ (by simp) ⟨rfl, rfl⟩, (hstarts ⟨rfl, rfl⟩).2, ?_⟩
  · rw [hrest]
    simp
  · have hwithin := hquota rfl
    exact Nat.le_trans hwithin (Nat.sub_le _ _)

end Engine

end LossRecovery
