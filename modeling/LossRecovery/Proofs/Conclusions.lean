import LossRecovery.Proofs.Requests

/-!
# `LossRecovery.Proofs.Conclusions` — what an ack does to the ledger

A pass over an ack changes the counts of the outstanding bytes. Of the conclusions that follow only
three concern the ledger: an episode whose end was reached is left, one is begun if losses were found,
and what the ack delivered is credited. The windows and the edges are not touched at all.

## Contents
- `Engine.Stock`: what the conclusions leave alone for the most part; `stock_weighed`,
  `stock_conclude`, `stock_respond`, `floor_respond`.
- `kept_processTimeout`: what a firing timer leaves alone.
- `Engine.credit`: the bytes that are credited for an ack.
- `Ongoing`, `Concludes`, `conclude_ledger`: what the conclusions make of an episode.
-/

namespace LossRecovery

/-- The estimator after it took in a sample, unless there is none or it is refused. -/
def RttEstimator.taken (e : RttEstimator) (sample : Option Nat) (now : Nat) : RttEstimator :=
  match sample with
  | none => e
  | some rtt =>
    match e.update rtt now with
    | .ok estimator => estimator
    | .error _ => e

namespace Engine

variable {κ : Type}

/-! ## What is left alone -/

/-- What no step of the conclusions touches but those that take samples and those that begin, credit
and end episodes. -/
structure Stock where
  settings : Settings
  ledger : RecoveryLedger
  rtt : RttEstimator
  probe : ProbeRtt
  window : Nat
  una : Nat
  top : Nat

def stock (g : Engine κ) : Stock where
  settings := g.settings
  ledger := g.ledger
  rtt := g.rtt
  probe := g.probe
  window := g.window
  una := g.board.una
  top := g.board.top

section Conclusions

variable (g : Engine κ) (ack : Ack) (o : AckOutcome) (now : Nat)

theorem stock_noteOutcome : (g.noteOutcome o).stock = g.stock := by
  unfold noteOutcome
  exact foldl_keep stock (g := fun (g : Engine κ) (c : Counter × Nat) => g.count c.1 c.2) _ _
    fun _ _ => rfl

theorem stock_takeSample (sample : Option Nat) : (g.takeSample sample now).stock
    = { g.stock with rtt := g.rtt.taken sample now } := by
  unfold takeSample RttEstimator.taken
  cases sample with
  | none => rfl
  | some rtt =>
    dsimp only
    cases g.rtt.update rtt now with
    | ok estimator =>
      dsimp only
      split <;> rfl
    | error e =>
      dsimp only
      cases e.counter? <;> rfl

theorem stock_noteReordering : (g.noteReordering o now).stock = g.stock := by
  unfold noteReordering
  cases o.reordering <;> rfl

theorem stock_settleProbe : (g.settleProbe o).stock = g.stock := by
  unfold settleProbe
  split <;> rfl

variable [CongestionLaw κ]

theorem stock_afterTimeout : (g.afterTimeout ack o now).stock = g.stock := by
  have hend : ∀ g : Engine κ, g.checkTimeoutEnd.stock = g.stock := by
    intro g
    unfold checkTimeoutEnd
    split <;> rfl
  unfold afterTimeout
  split
  · split
    · unfold undoTimeout
      cases g.schedule.undo <;> rfl
    · exact hend _
  · exact hend g

theorem stock_weighed : (g.weighed ack o now).stock
    = { g.stock with rtt := g.rtt.taken o.rttSample now } := by
  have hrtt : (g.noteOutcome o).rtt = g.rtt := congrArg Stock.rtt (stock_noteOutcome g o)
  unfold weighed
  dsimp only
  rw [stock_settleProbe]
  split
  · rw [stock_afterTimeout, stock_noteReordering, stock_takeSample, stock_noteOutcome, hrtt]
  · rw [stock_noteReordering, stock_takeSample, stock_noteOutcome, hrtt]

/-- Looking for the end of an episode changes the ledger at most. -/
theorem stock_judged : (g.judged ack o now).stock = { g.stock with
    rtt := g.rtt.taken o.rttSample now
    ledger := (g.judged ack o now).ledger } := by
  have hweighed := stock_weighed g ack o now
  rw [judged_weighed]
  generalize g.weighed ack o now = weighed at hweighed ⊢
  unfold checkRecoveryEnd
  split
  · show { weighed.stock with ledger := weighed.ledger.leave } = _
    rw [hweighed]
    rfl
  · have hledger : weighed.ledger = g.ledger := congrArg Stock.ledger hweighed
    rw [hledger]
    exact hweighed

theorem stock_respondToLosses (lost : List SendRecord) : (g.respondToLosses lost now).stock
    = { g.stock with ledger := (g.respondToLosses lost now).ledger } := by
  unfold respondToLosses
  split <;> rfl

theorem stock_creditDelivery : (g.creditDelivery o now).stock
    = { g.stock with ledger := (g.creditDelivery o now).ledger } := by
  unfold creditDelivery
  dsimp only
  split <;> rfl

/-- The conclusions leave windows and edges alone, and the probing of the least RTT. -/
theorem stock_conclude : (g.conclude ack o now).1.stock = { g.stock with
    rtt := g.rtt.taken o.rttSample now
    ledger := (g.conclude ack o now).1.ledger } := by
  rw [conclude_judged, stock_creditDelivery, stock_respondToLosses, stock_judged]

theorem floor_checkProbeRtt : (g.checkProbeRtt now).probe.floor = g.probe.floor := by
  have hcheck : ∀ (p : ProbeRtt) stamp phase pipe,
      (p.check stamp phase pipe now).1.floor = p.floor := by
    intro p stamp phase pipe
    unfold ProbeRtt.check
    split <;> split <;> rfl
  unfold checkProbeRtt
  split
  · rfl
  · dsimp only
    split <;> exact hcheck _ _ _ _

theorem stock_planSends (lost : List SendRecord) : (g.planSends lost).1.stock = g.stock := by
  unfold planSends
  split
  · rfl
  · unfold planGoBackN
    split <;> rfl
  · rfl

theorem stock_measureGoodput : (g.measureGoodput o now).stock = g.stock := by
  unfold measureGoodput
  split
  · rfl
  · dsimp only
    split
    · rfl
    · split <;> rfl

omit [CongestionLaw κ] in
theorem stock_settleTimers (prior : Stage) : (g.settleTimers prior o now).1.stock = g.stock := by
  unfold settleTimers
  split
  · rfl
  · split
    · unfold rearm
      split <;> rfl
    · rfl

/-- Of all that is done after the conclusions, the check of the probe alone changes any of this. -/
theorem stock_respond (prior : Stage) (lost : List SendRecord) :
    (g.respond prior ack o lost now).1.stock
      = ((g.planSends lost).1.checkProbeRtt now).stock := by
  have htold : (g.respond prior ack o lost now).1.stock
      = ((g.measured o lost now).settleTimers prior o now).1.stock := by
    obtain ⟨told, htold⟩ := told_respond g prior ack o lost now
    rw [htold]
    rfl
  rw [htold, stock_settleTimers]
  exact stock_measureGoodput _ o now

theorem floor_respond (prior : Stage) (lost : List SendRecord) :
    (g.respond prior ack o lost now).1.probe.floor = g.probe.floor := by
  have hplanned := congrArg (·.probe.floor) (stock_planSends g lost)
  have hresponded := congrArg (·.probe.floor) (stock_respond g ack o now prior lost)
  exact hresponded.trans ((floor_checkProbeRtt _ now).trans hplanned)

end Conclusions

/-! ## A firing timer -/

section Timeout

variable [CongestionLaw κ]

/-- A firing timer leaves alone the limits of the receiver and of the settings. -/
theorem kept_processTimeout (g : Engine κ) (timer : Timer) (generation : Nat) (hasData : Bool)
    (now : Nat) : (g.processTimeout timer generation hasData now).1.window = g.window ∧
      (g.processTimeout timer generation hasData now).1.probe.floor = g.probe.floor := by
  unfold processTimeout
  split
  · cases timer with
    | tlp =>
      dsimp only
      unfold fireProbe
      split
      · exact ⟨rfl, rfl⟩
      · dsimp only
        split <;> exact ⟨rfl, rfl⟩
    | rto =>
      dsimp only
      unfold fireTimeout
      split
      · exact ⟨rfl, rfl⟩
      · dsimp only
        unfold resendLowest
        split <;> exact ⟨rfl, rfl⟩
  · exact ⟨rfl, rfl⟩

end Timeout

/-! ## Credit -/

variable {g : Engine κ} {ack : Ack} {o : AckOutcome} {now : Nat}

/-- The bytes an ack is credited with. A duplicate ack stands for one segment that left the
network. -/
def credit (g : Engine κ) (o : AckOutcome) : Nat :=
  if o.duplicate ∧ o.delivered = 0 then min g.settings.mss g.board.outstanding else o.delivered

theorem delivered_le_credit (g : Engine κ) (o : AckOutcome) : o.delivered ≤ g.credit o := by
  unfold credit
  split
  · next h => simp [h.2]
  · exact Nat.le_refl _

variable [CongestionLaw κ]

theorem ledger_creditDelivery (g : Engine κ) (o : AckOutcome) (now : Nat) :
    (g.creditDelivery o now).ledger = g.ledger.deliver (g.credit o) := by
  unfold creditDelivery
  dsimp only
  split <;> rfl

/-! ## Episodes -/

/-- Whether an ack leaves the episode of `g` going: there is one, and its end is still ahead of the
left edge. -/
def Ongoing (g : Engine κ) : Prop := g.ledger.active = true ∧ g.board.una < g.ledger.point

/-- What the conclusions make of the ledger. An episode goes on; or none is in progress afterwards;
or one is begun with all that is outstanding in flight. What the ack delivered is credited in any
case. -/
inductive Concludes (g : Engine κ) (credit : Nat) : RecoveryLedger → Prop
  | within (h : g.Ongoing) : Concludes g credit (g.ledger.deliver credit)
  | outside (h : ¬ g.Ongoing) {l : RecoveryLedger} (idle : l.active = false) : Concludes g credit l
  | begun (h : ¬ g.Ongoing) : Concludes g credit
      ({ g.ledger.enter g.board.outstanding g.board.top with holeBytes := 0 }.deliver credit)

omit [CongestionLaw κ] in
theorem Concludes.of_ongoing {credit : Nat} {l : RecoveryLedger} (h : g.Concludes credit l)
    (hon : g.Ongoing) : l = g.ledger.deliver credit := by
  cases h with
  | within _ => rfl
  | outside hoff _ => exact absurd hon hoff
  | begun hoff => exact absurd hon hoff

omit [CongestionLaw κ] in
theorem Concludes.of_begun {credit : Nat} {l : RecoveryLedger} (h : g.Concludes credit l)
    (hoff : ¬ g.Ongoing) (ha : l.active = true) :
    l = { g.ledger.enter g.board.outstanding g.board.top with holeBytes := 0 }.deliver credit := by
  cases h with
  | within hon => exact absurd hon hoff
  | outside _ hidle =>
    rw [hidle] at ha
    cases ha
  | begun _ => rfl

/-- Looking for the end of the episode leaves an ongoing one, and else none. -/
theorem judged_episode (hs : g.control.Staged) (ack : Ack) (o : AckOutcome) (now : Nat) :
    (g.Ongoing ∧ (g.judged ack o now).ledger = g.ledger ∧
      (g.judged ack o now).schedule.stage = .recovering) ∨
    (¬ g.Ongoing ∧ (g.judged ack o now).ledger.active = false ∧
      ∀ flight point, (g.judged ack o now).ledger.enter flight point = g.ledger.enter flight point) := by
  obtain ⟨hturned, -⟩ := turned_weighed g ack o now
  have hturns := hturned.turns
  have hstock := stock_weighed g ack o now
  rw [judged_weighed]
  generalize g.weighed ack o now = w at *
  have hledger : w.ledger = g.ledger := congrArg Stock.ledger hstock
  have huna : w.board.una = g.board.una := congrArg Stock.una hstock
  -- The stage fits the ledger, which is still the one from before.
  rw [control_noteOutcome] at hturns
  have hactive : w.schedule.stage = .recovering ↔ g.ledger.active = true := by
    rw [← hledger]
    exact (hturns.staged hs).agree.1
  unfold checkRecoveryEnd
  rw [hledger, huna]
  split
  · next hend =>
    refine .inr ⟨fun hon => Nat.not_lt.mpr hend.2 hon.2, rfl, ?_⟩
    intro flight point
    show w.ledger.leave.enter flight point = _
    rw [hledger]
    rfl
  · next hend =>
    by_cases ha : g.ledger.active = true
    · have hlt : g.board.una < g.ledger.point := Nat.lt_of_not_le fun hle => hend ⟨hactive.mpr ha, hle⟩
      exact .inl ⟨⟨ha, hlt⟩, hledger, hactive.mpr ha⟩
    · refine .inr ⟨fun hon => ha hon.1, ?_, fun flight point => by rw [hledger]⟩
      simpa [hledger] using ha

theorem conclude_ledger (hs : g.control.Staged) (ack : Ack) (o : AckOutcome) (now : Nat) :
    g.Concludes (g.credit o) (g.conclude ack o now).1.ledger := by
  have hstock := stock_judged g ack o now
  have hepisode := judged_episode hs ack o now
  rw [conclude_judged]
  dsimp only
  generalize (g.judged ack o now).detectLosses now = lost
  generalize g.judged ack o now = j at *
  have hsettings : j.settings = g.settings := congrArg Stock.settings hstock
  have huna : j.board.una = g.board.una := congrArg Stock.una hstock
  have htop : j.board.top = g.board.top := congrArg Stock.top hstock
  have hcredit : (j.respondToLosses lost now).credit o = g.credit o := by
    have hsame := stock_respondToLosses j now lost
    unfold credit Scoreboard.outstanding
    rw [show (j.respondToLosses lost now).settings = j.settings from congrArg Stock.settings hsame,
      show (j.respondToLosses lost now).board.una = j.board.una from congrArg Stock.una hsame,
      show (j.respondToLosses lost now).board.top = j.board.top from congrArg Stock.top hsame,
      hsettings, huna, htop]
  rw [ledger_creditDelivery, hcredit]
  unfold respondToLosses
  rcases hepisode with ⟨hon, hledger, hstage⟩ | ⟨hoff, hidle, hentered⟩
  · rw [if_neg (by simp [hstage]), hledger]
    exact .within hon
  · split
    · have hbegun : (j.enterRecovery now).ledger
          = { g.ledger.enter g.board.outstanding g.board.top with holeBytes := 0 } := by
        show { j.ledger.enter j.board.outstanding j.board.top with holeBytes := 0 } = _
        unfold Scoreboard.outstanding
        rw [hentered, huna, htop]
      rw [hbegun]
      exact .begun hoff
    · exact .outside hoff hidle

end Engine

end LossRecovery
