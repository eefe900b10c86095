import LossRecovery.Proofs.ByteBooks
import LossRecovery.Proofs.Spending
import LossRecovery.Proofs.Windows

/-!
# `LossRecovery.Proofs.Episodes` — what a recovery episode grants in all

A recovery episode grants a share of what it was credited with. Credit is given for what the acks
deliver, for the ack that began the episode, and for duplicate acks, which deliver nothing. The credit
for delivered bytes is covered by the flight at the start and by what was sent since. Any other one
counts on top, and there is no bound on it.

## Contents
- `Credited first g sacked excess`: what `g` was credited with on top in its latest episode.
- `Engine.Episode`: the accounts of an episode; `Credited.episode`: they are kept by every run.
- `RecoveryLedger.share_le_add`: the share of a credit.
- `Reachable.quota_bounded`: the quota by the accounts; `quota_beyond_window_after_duplicates`.
-/

namespace LossRecovery

namespace Engine

variable {κ : Type} {g g' : Engine κ} {now first sacked excess : Nat} [CongestionLaw κ]

/-! ## Credit on top -/

/-- Whether an ack leaves the episode of `g` going: its end stays ahead of the left edge. -/
def GoesOn (g : Engine κ) (a : Ack) : Prop :=
  g.ledger.active = true ∧ max g.board.una a.cumulative < g.ledger.point

instance (g : Engine κ) (a : Ack) : Decidable (g.GoesOn a) := inferInstanceAs (Decidable (_ ∧ _))

/-- What `g` was credited with in its latest episode on top of what the acks since its start have
delivered, and how many bytes were SACKed when it began. -/
inductive Credited (first : Nat) : Engine κ → Nat → Nat → Prop
  | start {settings : Settings} {law : κ} {sink : Sink} {now : Nat} {g : Engine κ}
      (started : start settings law sink first now = .ok g) : Credited first g 0 0
  | within {g : Engine κ} {sacked excess : Nat} (before : Credited first g sacked excess) (a : Ack)
      (now : Nat) {actions : Actions} (ok : (g.onAck a now).2 = .ok actions) (going : g.GoesOn a) :
      Credited first (g.onAck a now).1 sacked
        (excess + ((g.acked a now).credit (g.outcomeOf a now) - (g.outcomeOf a now).delivered))
  | begun {g : Engine κ} {sacked excess : Nat} (before : Credited first g sacked excess) (a : Ack)
      (now : Nat) {actions : Actions} (ok : (g.onAck a now).2 = .ok actions) (ended : ¬ g.GoesOn a) :
      Credited first (g.onAck a now).1 (g.onAck a now).1.ledger.sackedBytes
        ((g.acked a now).credit (g.outcomeOf a now))
  | refused {g : Engine κ} {sacked excess : Nat} (before : Credited first g sacked excess) (a : Ack)
      (now : Nat) {e : Error} (failed : (g.onAck a now).2 = .error e) :
      Credited first (g.onAck a now).1 sacked excess
  | aside {g g' : Engine κ} {sacked excess : Nat} (before : Credited first g sacked excess)
      (call : Aside g g') : Credited first g' sacked excess

theorem Credited.reachable (h : Credited first g sacked excess) : g.Reachable first := by
  induction h with
  | start started => exact .start started
  | within _ a now _ _ ih => exact ih.step (.ack a now)
  | begun _ a now _ _ ih => exact ih.step (.ack a now)
  | refused _ a now _ ih => exact ih.step (.ack a now)
  | aside _ call ih => exact ih.step call.step

/-- Every engine that calls lead to has such an account. -/
theorem Reachable.credited (h : g.Reachable first) : ∃ sacked excess, Credited first g sacked excess := by
  induction h with
  | start started => exact ⟨0, 0, .start started⟩
  | @step g g' before call ih =>
    obtain ⟨sacked, excess, h⟩ := ih
    cases call with
    | ack a now =>
      cases hres : (g.onAck a now).2 with
      | error e => exact ⟨_, _, h.refused a now hres⟩
      | ok actions =>
        by_cases hon : g.GoesOn a
        · exact ⟨_, _, h.within a now hres hon⟩
        · exact ⟨_, _, h.begun a now hres hon⟩
    | send range flags now fresh => exact ⟨_, _, h.aside (.send range flags now fresh)⟩
    | fire timer generation hasData now => exact ⟨_, _, h.aside (.fire timer generation hasData now)⟩
    | dispatch host w actions now => exact ⟨_, _, h.aside (.dispatch host w actions now)⟩
    | nextSendTime bytes now => exact ⟨_, _, h.aside (.nextSendTime bytes now)⟩
    | setFixedRate rate => exact ⟨_, _, h.aside (.setFixedRate rate)⟩
    | setHardware table => exact ⟨_, _, h.aside (.setHardware table)⟩
    | setTrace trace => exact ⟨_, _, h.aside (.setTrace trace)⟩

/-! ## The accounts of an episode -/

/-- The bytes that have arrived since the episode began, when `sacked` were SACKed already. The flight
lay between the left edge and the point. -/
def arrivedSince (g : Engine κ) (sacked : Nat) : Nat :=
  g.board.una + g.ledger.flight - g.ledger.point + g.ledger.sackedBytes - sacked

/-- The accounts of an episode: it was credited with what has arrived and what came on top, and all
new data was counted as sent. -/
structure Episode (g : Engine κ) (sacked excess : Nat) : Prop where
  flight_pos : 0 < g.ledger.flight
  point_le : g.ledger.point ≤ g.board.una + g.ledger.flight
  sacked_le : sacked ≤ g.board.una + g.ledger.flight - g.ledger.point + g.ledger.sackedBytes
  delivered : g.ledger.delivered = Word.add (g.arrivedSince sacked) excess
  out : min (g.board.top - g.ledger.point) Word.max64 ≤ g.ledger.out

omit [CongestionLaw κ] in
/-- The accounts stay as they are as long as nothing arrives and what is sent is counted. -/
theorem Episode.keep (h : g.Episode sacked excess) (huna : g'.board.una = g.board.una)
    (hsacked : g'.ledger.sackedBytes = g.ledger.sackedBytes)
    (hflight : g'.ledger.flight = g.ledger.flight) (hpoint : g'.ledger.point = g.ledger.point)
    (hdelivered : g'.ledger.delivered = g.ledger.delivered)
    (hout : min (g'.board.top - g'.ledger.point) Word.max64 ≤ g'.ledger.out) :
    g'.Episode sacked excess := by
  refine ⟨?_, ?_, ?_, ?_, hout⟩
  · rw [hflight]
    exact h.flight_pos
  · rw [huna, hflight, hpoint]
    exact h.point_le
  · rw [huna, hflight, hpoint, hsacked]
    exact h.sacked_le
  · unfold arrivedSince
    rw [huna, hflight, hpoint, hsacked, hdelivered]
    exact h.delivered

omit [CongestionLaw κ] in
theorem episode_sent (hrun : g.Running) {x : SeqRange} {flags : Flags} (hx : x.start < x.stop)
    (hs : x.start ≤ g.board.top) (hf : flags.IsFresh) (now : Nat)
    (h : g.ledger.active = true → g.Episode sacked excess)
    (ha : (g.processSent x flags now).1.ledger.active = true) :
    (g.processSent x flags now).1.Episode sacked excess := by
  obtain ⟨mid, again, probeEnd, heq, -, hmid, -⟩ := hrun.sound.processSent_parts hx hs hf now
  obtain ⟨-, hsent, -, -⟩ := hrun.sound.processSent hx hs hf now
  obtain ⟨huna, htop⟩ := hsent.edges
  have hterms : (g.processSent x flags now).1.terms
      = g.terms.spend (again + (max g.board.top x.stop - g.board.top)) := by
    rw [heq, terms_accountSent, hmid]
  generalize (g.processSent x flags now).1 = g' at *
  have hsacked : g'.ledger.sackedBytes = g.ledger.sackedBytes := congrArg Terms.sackedBytes hterms
  have hepisode := congrArg Terms.episode hterms
  simp only [Terms.spend] at hepisode
  split at hepisode
  · next hnone =>
    -- Nothing was sent.
    have he := h ((congrArg RecoveryLedger.active hepisode :).symm.trans ha)
    have hpoint : g'.ledger.point = g.ledger.point := (congrArg RecoveryLedger.point hepisode :)
    have hout : g'.ledger.out = g.ledger.out := (congrArg RecoveryLedger.out hepisode :)
    refine he.keep huna hsacked (congrArg RecoveryLedger.flight hepisode :) hpoint
      (congrArg RecoveryLedger.delivered hepisode :) ?_
    rw [htop, hpoint, hout, show max g.board.top x.stop = g.board.top by omega]
    exact he.out
  · have hactive : g.ledger.active = true := (congrArg RecoveryLedger.active hepisode :).symm.trans ha
    have he := h hactive
    have hpoint : g'.ledger.point = g.ledger.point := (congrArg RecoveryLedger.point hepisode :)
    have hout : g'.ledger.out = if g.ledger.active then Word.add g.ledger.out
        (again + (max g.board.top x.stop - g.board.top)) else g.ledger.out :=
      (congrArg RecoveryLedger.out hepisode :)
    refine he.keep huna hsacked (congrArg RecoveryLedger.flight hepisode :) hpoint
      (congrArg RecoveryLedger.delivered hepisode :) ?_
    have hbefore := he.out
    rw [htop, hpoint, hout, if_pos hactive]
    unfold Word.add
    omega

/-- A firing timer ends the episode, or leaves the ledger alone. -/
theorem ledger_processTimeout (g : Engine κ) (timer : Timer) (generation : Nat) (hasData : Bool)
    (now : Nat) : (g.processTimeout timer generation hasData now).1.ledger = g.ledger ∨
      (g.processTimeout timer generation hasData now).1.ledger.active = false := by
  unfold processTimeout
  split
  · cases timer with
    | tlp =>
      dsimp only
      unfold fireProbe
      split
      · exact .inl rfl
      · dsimp only
        split <;> exact .inl rfl
    | rto =>
      dsimp only
      unfold fireTimeout
      split
      · exact .inl rfl
      · obtain ⟨undo, hcollapse⟩ := collapse_control (g.takeOff .rto) now
        have hidle : ((g.takeOff .rto).collapse now).ledger.active = false :=
          congrArg Control.active hcollapse
        dsimp only
        unfold resendLowest
        split <;> exact .inr hidle
  · exact .inl rfl

theorem maintained_episode (sacked excess : Nat) : MaintainedAside fun g : Engine κ =>
    g.ledger.active = true → g.Episode sacked excess where
  noted {g g'} hn h ha := by
    have hledger : g'.ledger = g.ledger := congrArg Conduct.ledger hn
    have hboard : g'.board = g.board := congrArg Conduct.board hn
    have he := h (hledger ▸ ha)
    refine he.keep ?_ ?_ ?_ ?_ ?_ ?_
    all_goals simp only [hledger, hboard]
    exact he.out
  sent now hrun hx hs hf h ha := episode_sent hrun hx hs hf now h ha
  fired {g timer generation} hasData now hrun hc h ha := by
    obtain ⟨huna, htop⟩ := (relabelled_processTimeout g timer generation hasData now).edges
    rcases ledger_processTimeout g timer generation hasData now with hledger | hidle
    · have he := h (hledger ▸ ha)
      refine he.keep huna ?_ ?_ ?_ ?_ ?_
      all_goals simp only [hledger, htop]
      exact he.out
    · rw [hidle] at ha
      cases ha

/-! ## Acks -/

/-- What an ack that is taken in makes of ledger and edges. -/
theorem Running.concludes (h : g.Running) (hrest : g.control.AtRest) {a : Ack} {actions : Actions}
    (hok : (g.onAck a now).2 = .ok actions) :
    (g.acked a now).Concludes ((g.acked a now).credit (g.outcomeOf a now))
        (g.onAck a now).1.ledger ∧
      (g.onAck a now).1.board.una = (g.acked a now).board.una ∧
      (g.onAck a now).1.board.top = (g.acked a now).board.top := by
  obtain ⟨hle, htaken⟩ := h.ack_taken hok
  obtain ⟨timing, -, hfooting, -⟩ := h.sound.processAck_answer hle now
  rw [htaken] at hfooting
  have hstaged : (g.acked a now).control.Staged := by
    rw [(h.sound.control_acked hle now).1]
    exact hrest.staged.congr _ g.schedule.timers (Nat.le_refl _)
  have hstock := stock_conclude (g.acked a now) a (g.outcomeOf a now) now
  have hboard : (g.onAck a now).1.board = (g.concluded a now).1.board := footing_board hfooting
  refine ⟨?_, ?_, ?_⟩
  · rw [show (g.onAck a now).1.ledger = (g.concluded a now).1.ledger from footing_ledger hfooting]
    exact conclude_ledger hstaged a (g.outcomeOf a now) now
  · rw [hboard]
    exact congrArg Stock.una hstock
  · rw [hboard]
    exact congrArg Stock.top hstock

omit [CongestionLaw κ] in
theorem goesOn_iff (h : g.Running) {a : Ack} (hle : a.cumulative ≤ g.board.top) (now : Nat) :
    g.GoesOn a ↔ (g.acked a now).Ongoing := by
  have hcontrol := (h.sound.control_acked hle now).1
  unfold GoesOn Ongoing
  rw [show (g.acked a now).ledger.active = g.ledger.active from congrArg Control.active hcontrol,
    show (g.acked a now).ledger.point = g.ledger.point from congrArg Control.point hcontrol,
    show (g.acked a now).board.una = max g.board.una a.cumulative from
      congrArg Control.una hcontrol]

/-- From `g` to `g'`, within an episode, `bytes` have arrived, and `credit` was given for them. -/
structure Arrives (g g' : Engine κ) (bytes credit : Nat) : Prop where
  flight : g'.ledger.flight = g.ledger.flight
  point : g'.ledger.point = g.ledger.point
  out : g'.ledger.out = g.ledger.out
  delivered : g'.ledger.delivered = Word.add g.ledger.delivered credit
  top : g'.board.top = g.board.top
  una_le : g.board.una ≤ g'.board.una
  moved : bytes + g.ledger.sackedBytes
    = (g'.board.una - g.board.una) + g'.ledger.sackedBytes

theorem Running.arrives (hrun : g.Running) (hrest : g.control.AtRest) {a : Ack} {actions : Actions}
    (hok : (g.onAck a now).2 = .ok actions) (hon : g.GoesOn a) :
    g.Arrives (g.onAck a now).1 (g.outcomeOf a now).delivered
      ((g.acked a now).credit (g.outcomeOf a now)) := by
  obtain ⟨hconcludes, huna, htop⟩ := hrun.concludes hrest hok
  obtain ⟨hle, -⟩ := hrun.ack_taken hok
  have hongoing := (goesOn_iff hrun hle now).mp hon
  have hledger := hconcludes.of_ongoing hongoing
  have hepisode := (course_acked g a now).2
  have hcontrol := (hrun.sound.control_acked hle now).1
  have hmoved := hrun.sound.passState.delivered_run (i := g.ackInput a now) hle
  have hbefore : (g.acked a now).ledger.delivered = g.ledger.delivered :=
    (congrArg RecoveryLedger.delivered hepisode :)
  refine ⟨?_, ?_, ?_, ?_, ?_, ?_, ?_⟩
  · rw [hledger]
    exact (congrArg RecoveryLedger.flight hepisode :)
  · rw [hledger]
    exact (congrArg RecoveryLedger.point hepisode :)
  · rw [hledger]
    exact (congrArg RecoveryLedger.out hepisode :)
  · rw [hledger, ← hbefore]
    simp [RecoveryLedger.deliver, hongoing.1]
  · rw [htop]
    exact congrArg Control.top hcontrol
  · rw [huna, show (g.acked a now).board.una = _ from congrArg Control.una hcontrol]
    exact Nat.le_max_left _ _
  · rw [huna, hledger]
    change (g.outcomeOf a now).delivered + g.ledger.sackedBytes
      = 0 + ((g.acked a now).board.una - g.board.una) + (g.acked a now).ledger.sackedBytes at hmoved
    rw [hmoved, Nat.zero_add]
    rfl

omit [CongestionLaw κ] in
/-- What has arrived moved the left edge or was SACKed. -/
theorem Episode.arrivedSince_eq {bytes credit : Nat} (h : g.Episode sacked excess)
    (ha : g.Arrives g' bytes credit) : g'.arrivedSince sacked = g.arrivedSince sacked + bytes := by
  have hpoint := h.point_le
  have hsacked := h.sacked_le
  have hmoved := ha.moved
  have huna := ha.una_le
  unfold arrivedSince
  rw [ha.flight, ha.point]
  omega

omit [CongestionLaw κ] in
/-- Credit for what has arrived, and on top of it. -/
theorem Episode.arrive {bytes credit : Nat} (h : g.Episode sacked excess)
    (ha : g.Arrives g' bytes credit) (hle : bytes ≤ credit) :
    g'.Episode sacked (excess + (credit - bytes)) := by
  have hpoint := h.point_le
  have hsacked := h.sacked_le
  have hmoved := ha.moved
  have huna := ha.una_le
  refine ⟨?_, ?_, ?_, ?_, ?_⟩
  · rw [ha.flight]
    exact h.flight_pos
  · rw [ha.flight, ha.point]
    omega
  · rw [ha.flight, ha.point]
    omega
  · rw [ha.delivered, h.delivered, h.arrivedSince_eq ha]
    unfold Word.add
    omega
  · rw [ha.top, ha.point, ha.out]
    exact h.out

/-- An ack that begins an episode is credited after all that is outstanding was taken as the
flight. -/
theorem Episode.begun (hrun : g.Running) (hrest : g.control.AtRest)
    {a : Ack} {actions : Actions} (hok : (g.onAck a now).2 = .ok actions) (hover : ¬ g.GoesOn a)
    (ha : (g.onAck a now).1.ledger.active = true) :
    (g.onAck a now).1.Episode (g.onAck a now).1.ledger.sackedBytes
      ((g.acked a now).credit (g.outcomeOf a now)) := by
  obtain ⟨hconcludes, huna, htop⟩ := hrun.concludes hrest hok
  obtain ⟨hle, htaken⟩ := hrun.ack_taken hok
  have hafter := atRest_acked hrun hle now hrest
  rw [htaken] at hafter
  have hahead : (g.onAck a now).1.board.una < (g.onAck a now).1.ledger.point :=
    hafter.episodeAhead (hafter.staged.agree.1.mpr ha)
  have hledger := hconcludes.of_begun (fun hon => hover ((goesOn_iff hrun hle now).mpr hon)) ha
  have hflight : (g.onAck a now).1.ledger.flight
      = (g.onAck a now).1.board.top - (g.onAck a now).1.board.una := by
    rw [hledger, huna, htop]
    rfl
  have hpoint : (g.onAck a now).1.ledger.point = (g.onAck a now).1.board.top := by
    rw [hledger, htop]
    rfl
  have hdelivered : (g.onAck a now).1.ledger.delivered
      = Word.add 0 ((g.acked a now).credit (g.outcomeOf a now)) := by
    rw [hledger]
    rfl
  refine ⟨by omega, by omega, by omega, ?_, by omega⟩
  rw [hdelivered]
  unfold arrivedSince
  rw [show (g.onAck a now).1.board.una + (g.onAck a now).1.ledger.flight
    - (g.onAck a now).1.ledger.point + (g.onAck a now).1.ledger.sackedBytes
    - (g.onAck a now).1.ledger.sackedBytes = 0 by omega]

/-- The accounts are kept by every run. -/
theorem Credited.episode (h : Credited first g sacked excess) (ha : g.isAborted = false)
    (hactive : g.ledger.active = true) : g.Episode sacked excess := by
  induction h with
  | @start settings law sink now g started =>
    obtain ⟨-, rfl⟩ := start_eq_ok_iff.mp started
    cases hactive
  | @within g sacked excess before a now actions ok going ih =>
    have hbefore := (guarded_ok ok).1
    have harrives := (before.reachable.running_of hbefore).arrives (before.reachable.atRest hbefore)
      ok going
    exact (ih hbefore going.1).arrive harrives (delivered_le_credit _ _)
  | @begun g sacked excess before a now actions ok ended _ =>
    have hbefore := (guarded_ok ok).1
    exact .begun (before.reachable.running_of hbefore) (before.reachable.atRest hbefore) ok ended
      hactive
  | @refused g sacked excess before a now e failed ih =>
    have hbefore := Step.isAborted_eq_false (.ack a now) ha
    rw [(before.reachable.running_of hbefore).ack_refused failed] at hactive ⊢
    exact (ih hbefore hactive).keep rfl rfl rfl rfl rfl (ih hbefore hactive).out
  | @aside g g' sacked excess before call ih =>
    have hbefore := call.step.isAborted_eq_false ha
    exact call.keeps (maintained_episode sacked excess) (before.reachable.running_of hbefore)
      (ih hbefore) ha hactive

end Engine

/-! ## The quota -/

namespace RecoveryLedger

variable {l : RecoveryLedger} {threshold : Nat}

/-- The share of a credit that the flight covers is the threshold at most. What is credited beyond the
flight adds no more than itself. -/
theorem share_le_add (hf : 0 < l.flight) (hT : threshold ≤ l.flight) :
    l.share threshold ≤ threshold + (l.delivered - l.flight) := by
  have hproduct : l.delivered * threshold
      ≤ (threshold + (l.delivered - l.flight)) * l.flight := by
    rcases Nat.le_total l.delivered l.flight with hle | hle
    · calc l.delivered * threshold
        _ ≤ l.flight * threshold := Nat.mul_le_mul_right _ hle
        _ = (threshold + (l.delivered - l.flight)) * l.flight := by
          rw [Nat.sub_eq_zero_of_le hle, Nat.add_zero, Nat.mul_comm]
    · obtain ⟨beyond, hbeyond⟩ := Nat.exists_eq_add_of_le hle
      calc l.delivered * threshold
        _ = l.flight * threshold + beyond * threshold := by rw [hbeyond, Nat.add_mul]
        _ ≤ l.flight * threshold + beyond * l.flight :=
          Nat.add_le_add_left (Nat.mul_le_mul_left _ hT) _
        _ = (threshold + (l.delivered - l.flight)) * l.flight := by
          rw [hbeyond, Nat.add_sub_cancel_left, Nat.add_mul, Nat.mul_comm threshold]
  have hquotient : (l.delivered * threshold + l.flight - 1) / l.flight
      < threshold + (l.delivered - l.flight) + 1 := by
    rw [Nat.div_lt_iff_lt_mul hf, Nat.add_mul _ 1, Nat.one_mul]
    omega
  unfold share
  rw [if_neg (Nat.ne_of_gt hf)]
  exact Nat.le_trans (Nat.min_le_left _ _) (Nat.le_of_lt_succ hquotient)

end RecoveryLedger

namespace Engine

variable {κ : Type} {g : Engine κ} {now first sacked excess : Nat} [CongestionLaw κ]

theorem sendQuota_le_allowance (hr : g.schedule.stage = .recovering) :
    g.sendQuota ≤ g.ledger.allowance g.pipe g.threshold g.settings.mss := by
  unfold sendQuota stageQuota
  rw [hr]
  split
  · exact Nat.zero_le _
  · dsimp only
    split <;> omega

/-- The outstanding bytes that have not arrived. -/
def missingBytes (g : Engine κ) : Nat := g.board.outstanding - g.ledger.sackedBytes

omit [CongestionLaw κ] in
/-- What was in flight when the episode began, and what was sent since, has arrived or is missing. -/
theorem Episode.balance (h : g.Episode sacked excess) (hsound : g.Sound)
    (hpoint : g.ledger.point ≤ g.board.top) :
    g.arrivedSince sacked + g.missingBytes + sacked
      = g.ledger.flight + (g.board.top - g.ledger.point) := by
  have hcounted : g.ledger.sackedBytes + g.ledger.holeBytes ≤ g.board.top - g.board.una :=
    hsound.counted_le
  have hle := hsound.board.le
  have hpoint' := h.point_le
  have hsacked := h.sacked_le
  unfold arrivedSince missingBytes Scoreboard.outstanding
  omega

/-- In recovery the quota keeps within the threshold while the pipe does. Above the threshold, the
credit for what has arrived is covered by the flight and by new data that was counted as sent; so a
threshold within the flight is exceeded by no more than was credited on top, beyond what was SACKed at
the start or is missing. In particular the quota keeps within the larger of window and threshold as
long as the credit on top does not exceed those bytes. -/
theorem Reachable.quota_bounded (h : g.Reachable first) (ha : g.isAborted = false)
    (hr : g.schedule.stage = .recovering) :
    (g.pipe ≤ g.threshold → g.sendQuota ≤ g.threshold) ∧
    (∃ sacked excess, Credited first g sacked excess) ∧
    ∀ sacked excess, Credited first g sacked excess →
      g.ledger.delivered = Word.add (g.arrivedSince sacked) excess ∧
      g.arrivedSince sacked + g.missingBytes + sacked
        = g.ledger.flight + (g.board.top - g.ledger.point) ∧
      (g.threshold ≤ g.ledger.flight →
        g.sendQuota ≤ g.threshold + (excess - (sacked + g.missingBytes))) ∧
      (g.threshold ≤ g.ledger.flight → excess ≤ sacked + g.missingBytes →
        g.sendQuota ≤ max g.congestionWindow g.threshold) := by
  have hrest := h.atRest ha
  have hactive : g.ledger.active = true := hrest.staged.agree.1.mp hr
  have hquota := sendQuota_le_allowance hr
  have hbelow : g.pipe ≤ g.threshold → g.sendQuota ≤ g.threshold := by
    intro hle
    rw [RecoveryLedger.allowance_of_le hactive hle] at hquota
    omega
  refine ⟨hbelow, h.credited, ?_⟩
  intro sacked excess hcredited
  have he := hcredited.episode ha hactive
  obtain ⟨-, -, -, hpoint⟩ := hrest.staged.fits hr
  have hbalance := he.balance (h.running_of ha).sound hpoint
  have hbeyond : g.threshold ≤ g.ledger.flight →
      g.sendQuota ≤ g.threshold + (excess - (sacked + g.missingBytes)) := by
    intro hT
    by_cases hlt : g.threshold < g.pipe
    · rw [RecoveryLedger.allowance_of_lt hactive hlt] at hquota
      have hshare := RecoveryLedger.share_le_add he.flight_pos hT
      have hword := g.ledger.share_le g.threshold
      have hout := he.out
      have hcredit : g.ledger.delivered ≤ g.arrivedSince sacked + excess :=
        he.delivered ▸ Nat.min_le_left _ _
      omega
    · exact Nat.le_trans (hbelow (Nat.le_of_not_lt hlt)) (Nat.le_add_right _ _)
  refine ⟨he.delivered, hbalance, hbeyond, ?_⟩
  intro hT hcovered
  have hle := hbeyond hT
  omega

/-- Of ten segments the three after the first are SACKed when the episode begins, and the next one
after that. The pipe is above the threshold, and the quota is half of what was delivered. -/
theorem quota_bounded_after_sacks : ∃ (g : Engine FixedWindow) (sacked excess : Nat),
    (Credited 0 g sacked excess ∧ g.isAborted = false ∧ g.schedule.stage = .recovering ∧
      g.threshold < g.pipe ∧ g.threshold ≤ g.ledger.flight ∧ excess ≤ sacked + g.missingBytes) ∧
    g.sendQuota ≤ max g.congestionWindow g.threshold ∧ g.sendQuota = 730 := by
  have started : Engine.start {} (FixedWindow.ofSettings {}) .discard 0 0 = .ok _ := rfl
  have head := (Credited.start started).aside (.send ⟨0, 1460⟩ {} 0 ⟨rfl, rfl⟩)
  have rest := head.aside (.send ⟨1460, 14600⟩ {} 1000000 ⟨rfl, rfl⟩)
  have sacked := rest.begun { cumulative := 0, blocks := [⟨1460, 5840⟩] } 100000000 rfl (by decide)
  have entered := sacked.begun { cumulative := 0, blocks := [⟨1460, 5840⟩] } 150000000 rfl
    (by decide +kernel)
  have more := entered.within { cumulative := 0, blocks := [⟨1460, 7300⟩] } 160000000 rfl
    (by decide +kernel)
  obtain ⟨-, -, hbounds⟩ := Reachable.quota_bounded more.reachable rfl (by decide +kernel)
  obtain ⟨-, -, -, hbound⟩ := hbounds _ _ more
  exact ⟨_, _, _, ⟨more, rfl, by decide +kernel, by decide +kernel, by decide +kernel,
    by decide +kernel⟩, hbound (by decide +kernel) (by decide +kernel),
    by decide +kernel⟩

/-- Two segments and a byte are outstanding, and the window is two segments. The third duplicate ack
begins an episode; after two more of them the quota exceeds both window and threshold. -/
theorem quota_beyond_window_after_duplicates : ∃ g : Engine FixedWindow, g.Reachable 0 ∧
    g.isAborted = false ∧ g.schedule.stage = .recovering ∧
    max g.congestionWindow g.threshold < g.sendQuota := by
  have started : Engine.start { mss := 1000, initialWindowSegments := 2 }
    (FixedWindow.ofSettings { mss := 1000, initialWindowSegments := 2 }) .discard 0 0 = .ok _ := rfl
  have sent := (Reachable.start started).step (.send ⟨0, 2001⟩ {} 0 ⟨rfl, rfl⟩)
  have first := sent.step (.ack { cumulative := 0 } 100000000)
  have second := first.step (.ack { cumulative := 0 } 100000001)
  have third := second.step (.ack { cumulative := 0 } 100000002)
  have fourth := third.step (.ack { cumulative := 0 } 100000003)
  have fifth := fourth.step (.ack { cumulative := 0 } 100000004)
  exact ⟨_, fifth, rfl, by decide +kernel, by decide +kernel⟩

end Engine

end LossRecovery
