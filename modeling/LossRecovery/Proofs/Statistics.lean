import LossRecovery.Proofs.Signals

/-!
# `LossRecovery.Proofs.Statistics` — the two sets of statistics

An engine keeps statistics of its own, and reports events to a sink, where errors are counted too. The
same events are thus counted at two places, and each is entered at both in every call, failed ones
included. Only the counters of a sink stop at the largest word.

## Contents
- `Stats.counted?`: the statistic that goes with a counter; `Stats.bump`: one statistic raised.
- `Engine.enter`: an event entered at both places.
- `Engine.Agrees`: the sink counts what the statistics hold; `Agrees.enter`: entering keeps it.
- `Agrees.processSent`, `Agrees.processAck`, `Agrees.processTimeout`, `Agrees.fail`: the parts of calls.
- `Run.stats_agree`: agreement in every run.
-/

namespace LossRecovery

/-! ## Entries -/

namespace Stats

/-- The statistic that goes with a counter, for the counters that have one. -/
def counted? (s : Stats) : Counter → Option Nat
  | .malformedSackBlocks => some s.malformedSackBlocks
  | .splitsRefused => some s.splitsRefused
  | .staleActions => some s.staleActions
  | .staleTimers => some s.staleTimers
  | .reorderEvents => some s.reorderEvents
  | .recoveryEpisodes => some s.recoveryEpisodes
  | .tlpProbes => some s.tlpProbes
  | .rtoFired => some s.rtoCount
  | .spuriousRto => some s.spuriousRto
  | .probeRttEntered => some s.probeRttCount
  | .dsackBlocks => some s.dsackBlocks
  | .retransmittedBytes => some s.retransmittedBytes
  | _ => none

/-- Raise the statistic that goes with a counter, if there is one. -/
def bump (s : Stats) (n : Nat) : Counter → Stats
  | .malformedSackBlocks => { s with malformedSackBlocks := s.malformedSackBlocks + n }
  | .splitsRefused => { s with splitsRefused := s.splitsRefused + n }
  | .staleActions => { s with staleActions := s.staleActions + n }
  | .staleTimers => { s with staleTimers := s.staleTimers + n }
  | .reorderEvents => { s with reorderEvents := s.reorderEvents + n }
  | .recoveryEpisodes => { s with recoveryEpisodes := s.recoveryEpisodes + n }
  | .tlpProbes => { s with tlpProbes := s.tlpProbes + n }
  | .rtoFired => { s with rtoCount := s.rtoCount + n }
  | .spuriousRto => { s with spuriousRto := s.spuriousRto + n }
  | .probeRttEntered => { s with probeRttCount := s.probeRttCount + n }
  | .dsackBlocks => { s with dsackBlocks := s.dsackBlocks + n }
  | .retransmittedBytes => { s with retransmittedBytes := Word.add s.retransmittedBytes n }
  | _ => s

theorem counted?_bump_of_ne (s : Stats) (n : Nat) {c d : Counter} (h : d ≠ c) :
    (s.bump n c).counted? d = s.counted? d := by
  cases c <;> cases d <;> first | rfl | exact absurd rfl h

/-- A statistic grows by what it is raised by. Up to the largest word, it makes no difference whether
the sum stops there. -/
theorem counted?_bump_self (s : Stats) (n : Nat) {c : Counter} {m : Nat}
    (h : (s.bump n c).counted? c = some m) :
    ∃ before, s.counted? c = some before ∧
      min m Word.max64 = Word.add (min before Word.max64) n := by
  have hplain : ∀ before, min (before + n) Word.max64 = Word.add (min before Word.max64) n := by
    intro before
    unfold Word.add
    omega
  have hstopped : ∀ before,
      min (Word.add before n) Word.max64 = Word.add (min before Word.max64) n := by
    intro before
    unfold Word.add
    omega
  cases c <;> cases h <;>
    first | exact ⟨_, rfl, hplain _⟩ | exact ⟨_, rfl, hstopped _⟩

end Stats

namespace Sink

theorem get?_add_self (s : Sink) (c : Counter) (n : Nat) :
    (s.add c n).get? c = (s.get? c).map (Word.add · n) := by
  cases s with
  | discard => rfl
  | tally t => exact congrArg some (t.get_add_self c n)

theorem get?_add_of_ne (s : Sink) {c d : Counter} (n : Nat) (h : d ≠ c) :
    (s.add c n).get? d = s.get? d := by
  cases s with
  | discard => rfl
  | tally t => exact congrArg some (t.get_add_of_ne n h)

end Sink

namespace Engine

variable {κ : Type} {g g' : Engine κ} {now : Nat}

/-- An event entered at both places. -/
def enter (g : Engine κ) (c : Counter) (n : Nat) : Engine κ :=
  { g with stats := g.stats.bump n c, sink := g.sink.add c n }

/-- The sink counts what the statistics hold, up to the largest word. -/
def Agrees (g : Engine κ) : Prop :=
  ∀ c n, g.stats.counted? c = some n → g.sink.get? c = some (min n Word.max64)

namespace Agrees

theorem congr (h : g.Agrees) (hstats : g'.stats.counted? = g.stats.counted?)
    (hsink : g'.sink = g.sink) : g'.Agrees := by
  intro c n hc
  rw [hstats] at hc
  rw [hsink]
  exact h c n hc

theorem enter (h : g.Agrees) (c : Counter) (n : Nat) : (g.enter c n).Agrees := by
  intro d m hd
  change (g.stats.bump n c).counted? d = some m at hd
  show (g.sink.add c n).get? d = _
  by_cases hdc : d = c
  · subst hdc
    obtain ⟨before, hbefore, hcapped⟩ := g.stats.counted?_bump_self n hd
    rw [Sink.get?_add_self, h d before hbefore, hcapped]
    rfl
  · rw [Stats.counted?_bump_of_ne _ _ hdc] at hd
    rw [Sink.get?_add_of_ne _ _ hdc]
    exact h d m hd

theorem foldl {β : Type} (h : g.Agrees) {f : Engine κ → β → Engine κ} (l : List β)
    (hf : ∀ {g} x, g.Agrees → (f g x).Agrees) : (l.foldl f g).Agrees := by
  induction l generalizing g with
  | nil => exact h
  | cons x rest ih => exact ih (hf x h)

/-! ## Sends -/

theorem noteStale (h : g.Agrees) (range : SeqRange) : (g.noteStale range).Agrees :=
  (h.enter .staleActions 1).congr rfl rfl

/-- No statistic goes with the cuts of records. -/
theorem countResent (h : g.Agrees) (x : SeqRange) (fits : Bool) (change : SendRecord → SendRecord)
    (r : SendRecord) : (countResent x fits change g r).Agrees := by
  have hcuts : ∀ n, ({ g with sink := Nat.repeat (fun s => s.add .segmentsSplit 1) n g.sink } :
      Engine κ).Agrees := by
    intro n
    induction n with
    | zero => exact h
    | succ n ih => exact (ih.enter .segmentsSplit 1).congr rfl rfl
  exact (hcuts (if fits then (r.carve x).cuts else 0)).congr rfl rfl

theorem resentEngine (h : g.Agrees) (x : SeqRange) (flags : Flags) (now : Nat) :
    (g.resentEngine x flags now).Agrees := by
  have htold : (if g.board.resendFits x then g else g.noteWhole x).Agrees := by
    split
    · exact h
    · exact (h.enter .splitsRefused 1).congr rfl rfl
  exact (htold.foldl _ fun r h => h.countResent _ _ _ r).congr rfl rfl

theorem resendRange (h : g.Agrees) (range : SeqRange) (flags : Flags) (now : Nat) :
    (g.resendRange range flags now).1.Agrees := by
  by_cases hx : max range.start g.board.una < range.stop
  · have hresent := h.resentEngine ⟨max range.start g.board.una, range.stop⟩ flags now
    rw [resendRange_eq g range flags now hx]
    dsimp only
    split
    · exact hresent.noteStale _
    · exact (hresent.enter .retransmittedBytes _).congr rfl rfl
  · rw [resendRange_of_le g range flags now (Nat.le_of_not_lt hx)]
    exact h.noteStale _

theorem appendNew (h : g.Agrees) (x : SeqRange) (flags : Flags) (now : Nat) :
    (g.appendNew x flags now).1.Agrees := by
  unfold Engine.appendNew
  dsimp only
  cases g.board.append x flags now (if flags.appLimited then x.stop else 0) with
  | error e => exact h
  | ok board =>
    dsimp only
    split <;> exact h

theorem rearm (h : g.Agrees) (now : Nat) : (g.rearm now).1.Agrees := by
  unfold Engine.rearm
  split <;> exact h

theorem accountSent (h : g.Agrees) (sent now : Nat) : (g.accountSent sent now).1.Agrees := by
  unfold Engine.accountSent
  split
  · exact h
  · dsimp only
    split
    · apply rearm
      exact h.congr rfl rfl
    · exact h.congr rfl rfl

theorem processSent (h : g.Agrees) (x : SeqRange) (flags : Flags) (now : Nat) :
    (g.processSent x flags now).1.Agrees :=
  keep_processSent (fun range h => h.resendRange range flags now)
    (fun range h => h.appendNew range flags now) (fun sent h => h.accountSent sent now) h

/-! ## Errors -/

/-- An error is counted by its counter. A statistic goes with that of malformed input alone. Running out of
room has a counter with a statistic too, but raises the counter only; it is no error of a call, because
resends do not run out halfway (`resendRangeByRecord_eq`). -/
theorem fail (h : g.Agrees) {e : Error} (he : e.OfCall) : (g.fail e).Agrees := by
  cases he with
  | malformed cause => exact (h.enter .malformedSackBlocks 1).congr rfl rfl
  | transmitFailed message => exact (h.enter .transmitFailures 1).congr rfl rfl
  | fatal hf =>
    cases e with
    | structural cause => exact (h.enter .structuralViolations 1).congr rfl rfl
    | aborted => exact h.congr rfl rfl
    | _ => cases hf

/-! ## Acks -/

/-- What an ack finds wrong with its blocks, and what it cuts and merges, is entered one after the
other. -/
theorem noteOutcome (h : g.Agrees) (o : AckOutcome) : (g.noteOutcome o).Agrees := by
  have hblocks := ((h.enter .malformedSackBlocks o.malformed).enter .sackBlocksFiltered
    o.filtered).enter .splitsRefused o.refused
  have hrecords := (hblocks.enter .segmentsSplit o.splits).enter .segmentsMerged o.merged
  exact (hrecords.enter .dsackBlocks o.duplicateReport.toNat).congr rfl rfl

theorem takeSample (h : g.Agrees) (sample : Option Nat) (now : Nat) :
    (g.takeSample sample now).Agrees := by
  unfold Engine.takeSample
  cases sample with
  | none => exact h
  | some rtt =>
    dsimp only
    cases hu : g.rtt.update rtt now with
    | ok estimator =>
      dsimp only
      split <;> exact h
    | error e =>
      have hanomaly : e = .timingAnomaly := by
        unfold RttEstimator.update at hu
        split at hu
        · injection hu with hu
          exact hu.symm
        · cases hu
      subst hanomaly
      exact (h.enter .timingAnomalies 1).congr rfl rfl

theorem noteReordering (h : g.Agrees) (o : AckOutcome) (now : Nat) :
    (g.noteReordering o now).Agrees := by
  unfold Engine.noteReordering
  cases o.reordering with
  | true => exact (h.enter .reorderEvents 1).congr rfl rfl
  | false => exact h

theorem undoTimeout [CongestionLaw κ] (h : g.Agrees) : g.undoTimeout.Agrees := by
  unfold Engine.undoTimeout
  cases g.schedule.undo <;> exact (h.enter .spuriousRto 1).congr rfl rfl

theorem checkTimeoutEnd (h : g.Agrees) : g.checkTimeoutEnd.Agrees := by
  unfold Engine.checkTimeoutEnd
  split <;> exact h

variable [CongestionLaw κ]

theorem afterTimeout (h : g.Agrees) (ack : Ack) (o : AckOutcome) (now : Nat) :
    (g.afterTimeout ack o now).Agrees := by
  unfold Engine.afterTimeout
  split
  · split
    · exact h.undoTimeout
    · apply checkTimeoutEnd
      exact h
  · exact h.checkTimeoutEnd

theorem judged (h : g.Agrees) (ack : Ack) (o : AckOutcome) (now : Nat) :
    (g.judged ack o now).Agrees := by
  have hnoted := ((h.noteOutcome o).takeSample o.rttSample now).noteReordering o now
  have hsettled : ∀ {g : Engine κ}, g.Agrees → ((g.settleProbe o).checkRecoveryEnd now).Agrees := by
    intro g h
    unfold Engine.settleProbe checkRecoveryEnd
    split <;> split <;> exact h
  unfold Engine.judged
  apply hsettled
  split
  · exact hnoted.afterTimeout ack o now
  · exact hnoted

theorem respondToLosses (h : g.Agrees) (lost : List SendRecord) (now : Nat) :
    (g.respondToLosses lost now).Agrees := by
  unfold Engine.respondToLosses
  split
  · exact (h.enter .recoveryEpisodes 1).congr rfl rfl
  · exact h

theorem creditDelivery (h : g.Agrees) (o : AckOutcome) (now : Nat) :
    (g.creditDelivery o now).Agrees := by
  unfold Engine.creditDelivery
  dsimp only
  split <;> exact h

theorem conclude (h : g.Agrees) (ack : Ack) (o : AckOutcome) (now : Nat) :
    (g.conclude ack o now).1.Agrees := by
  rw [conclude_judged]
  exact ((h.judged ack o now).respondToLosses _ now).creditDelivery o now

theorem planSends (h : g.Agrees) (lost : List SendRecord) : (g.planSends lost).1.Agrees := by
  unfold Engine.planSends
  split
  · exact h
  · unfold planGoBackN
    split <;> exact h
  · exact h

theorem checkProbeRtt (h : g.Agrees) (now : Nat) : (g.checkProbeRtt now).Agrees := by
  unfold Engine.checkProbeRtt
  split
  · exact h
  · dsimp only
    split
    · exact h
    · exact (h.enter .probeRttEntered 1).congr rfl rfl
    · exact h

theorem measureGoodput (h : g.Agrees) (o : AckOutcome) (now : Nat) :
    (g.measureGoodput o now).Agrees := by
  unfold Engine.measureGoodput
  split
  · exact h
  · dsimp only
    split
    · exact h
    · split
      · exact (h.enter .counterSaturations 1).congr rfl rfl
      · exact h.congr rfl rfl

theorem updateRate (h : g.Agrees) : g.updateRate.Agrees := by
  have hcounted : ({ g with sink := g.pacing.countFallback g.phase g.bandwidth g.sink } :
      Engine κ).Agrees := by
    unfold PacingController.countFallback
    split
    · exact (h.enter .hwRateFallbacks 1).congr rfl rfl
    · exact h
  exact hcounted.congr rfl rfl

omit [CongestionLaw κ] in
theorem settleTimers (h : g.Agrees) (prior : Stage) (o : AckOutcome) (now : Nat) :
    (g.settleTimers prior o now).1.Agrees := by
  unfold Engine.settleTimers
  split
  · exact h
  · split
    · exact h.rearm now
    · exact h

theorem processAck (h : g.Agrees) (ack : Ack) (now : Nat) : (g.processAck ack now).1.Agrees := by
  unfold Engine.processAck
  cases g.passOf ack now with
  | error e => exact h
  | ok p =>
    have hconcluded := conclude (g := g.adopt p ack) h ack p.outcome now
    dsimp only
    generalize (g.adopt p ack).conclude ack p.outcome now = concluded at hconcluded ⊢
    have hmeasured : (concluded.1.measured p.outcome concluded.2 now).Agrees :=
      (((hconcluded.planSends concluded.2).checkProbeRtt now).measureGoodput p.outcome now).updateRate
    exact hmeasured.settleTimers g.schedule.stage p.outcome now

/-! ## Firing timers -/

omit [CongestionLaw κ] in
theorem fireProbe (h : g.Agrees) (hasData : Bool) (now : Nat) :
    (g.fireProbe hasData now).1.Agrees := by
  unfold Engine.fireProbe
  split
  · exact h
  · dsimp only
    cases g.probeFor hasData with
    | none => exact h
    | some probe => exact (h.enter .tlpProbes 1).congr rfl rfl

theorem fireTimeout (h : g.Agrees) (now : Nat) : (g.fireTimeout now).1.Agrees := by
  have hcollapsed : (g.collapse now).Agrees := (h.enter .rtoFired 1).congr rfl rfl
  have hresent : ∀ {g : Engine κ}, g.Agrees → g.resendLowest.1.Agrees := by
    intro g h
    unfold Engine.resendLowest
    split <;> exact h
  unfold Engine.fireTimeout
  split
  · exact h
  · exact hresent (g := g.collapsed now) hcollapsed

theorem processTimeout (h : g.Agrees) (timer : Timer) (generation : Nat) (hasData : Bool)
    (now : Nat) : (g.processTimeout timer generation hasData now).1.Agrees := by
  cases hc : g.schedule.timers.isCurrent timer generation with
  | false =>
    simp only [Engine.processTimeout, hc, Bool.false_eq_true, if_false]
    exact (h.enter .staleTimers 1).congr rfl rfl
  | true =>
    rw [processTimeout_eq g hc hasData now]
    cases timer with
    | tlp => exact fireProbe (g := g.takeOff .tlp) h hasData now
    | rto => exact fireTimeout (g := g.takeOff .rto) h now

end Agrees

/-! ## Runs -/

variable [CongestionLaw κ]

/-- All parts of calls make their entries at both places. -/
theorem lasting_agrees : Lasting fun g : Engine κ => g.Agrees where
  aside _ _ _ h := h
  stale range h := h.noteStale range
  sent x flags now h := h.processSent x flags now
  acked ack now h := h.processAck ack now
  fired timer generation hasData now h := h.processTimeout timer generation hasData now
  failed he h := h.fail he

omit [CongestionLaw κ] in
theorem agrees_start {settings : Settings} {law : κ} {first : Nat}
    (started : start settings law .fresh first now = .ok g) : g.Agrees := by
  obtain ⟨-, rfl⟩ := start_eq_ok_iff.mp started
  intro c n hc
  have hzero : n = 0 := by
    cases c <;> cases hc <;> rfl
  subst hzero
  exact congrArg some (Tally.get_zero c)

/-- An engine that reports to a sink of its own counts what its statistics hold, in every run and after
every call. A counter that did not reach the largest word equals the statistic that goes with it. -/
theorem Run.stats_agree {settings : Settings} {law : κ} {first : Nat} {g₀ : Engine κ}
    (started : start settings law .fresh first now = .ok g₀) (h : Run g₀ g) {c : Counter} {n : Nat}
    (hc : g.stats.counted? c = some n) :
    ∃ m, g.sink.get? c = some m ∧ m = min n Word.max64 ∧ (m < Word.max64 → n = m) := by
  refine ⟨min n Word.max64, lasting_agrees.run h (agrees_start started) c n hc, rfl, ?_⟩
  intro hlt
  omega

/-- After an episode, a timeout and its undo, an ack beyond all data is refused. The refusal is entered
at both places. -/
theorem stats_agree_after_refusal : ∃ g₀ g : Engine FixedWindow,
    (start {} (.ofSettings {}) .fresh 0 0 = .ok g₀ ∧ Run g₀ g ∧ g.stats.spuriousRto = 1 ∧
      g.stats.counted? .malformedSackBlocks = some 1) ∧
    ∃ m, g.sink.get? .malformedSackBlocks = some m ∧ m = min 1 Word.max64 ∧
      (m < Word.max64 → 1 = m) := by
  have started : start {} (.ofSettings {}) .fresh 0 0 = .ok (_ : Engine FixedWindow) := rfl
  have refused (g₀ : Engine FixedWindow) : Run g₀ (g₀.troubledRun.onAck { cumulative := 30000 }
      1000000000).1 := (run_troubledRun g₀).tail (.ack _ _)
  exact ⟨_, _, ⟨started, refused _, by decide +kernel, by decide +kernel⟩,
    Run.stats_agree started (refused _) (by decide +kernel)⟩

end Engine

end LossRecovery
