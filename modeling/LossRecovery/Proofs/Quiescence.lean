import LossRecovery.Proofs.Plans

/-!
# `LossRecovery.Proofs.Quiescence` — an engine with nothing outstanding

Once all that was sent is acknowledged there is nothing left to recover: whatever happened before, no
timer is armed and all byte counts are zero. Timeouts and recovery episodes end at data that was sent,
so that an ack of everything ends them. A tail loss probe may end at data that is only planned: where
the host does not send it, the engine goes on waiting for its ack.

## Contents
- `Sound.probeFor_ends`: where a probe that is asked for ends.
- `maintained_probeAhead`: the end of a probe is ahead, and no more than a segment beyond the data.
- `Reachable.quiescent`: an engine with nothing outstanding.
- `awaits_unsent_probe`: the probe that is waited for and was never sent.
-/

namespace LossRecovery

namespace Control

variable {c c' : Control}

theorem Settled.probe {prior : Stage} (h : Settled prior c c') (ha : c.ProbeAhead)
    (hn : c.ProbeNear) : c'.ProbeAhead ∧ c'.ProbeNear := by
  rcases h with ⟨-, timers, -, rfl⟩ | ⟨-, ⟨timer, expiry, rfl, -⟩ | ⟨rfl, -⟩⟩
  · exact ⟨ha, hn⟩
  · exact ⟨ha, hn⟩
  · exact ⟨ha, hn⟩

end Control

namespace Engine

variable {κ : Type} {g : Engine κ} {now : Nat}

/-! ## Where a probe ends -/

/-- A probe ends in outstanding data, or a segment beyond it. -/
theorem Sound.probeFor_ends (h : g.Sound) (hlt : g.board.una < g.board.top)
    {hasData : Bool} {x : SeqRange} {kind : SendKind}
    (hp : g.probeFor hasData = some (x, kind)) :
    g.board.una < x.stop ∧ x.stop ≤ g.board.top + g.settings.mss := by
  unfold probeFor at hp
  dsimp only at hp
  split at hp
  · -- New data is sent from the right edge on.
    obtain ⟨rfl, rfl⟩ := Prod.mk.injEq .. ▸ Option.some.inj hp
    exact ⟨Nat.lt_of_lt_of_le hlt (Nat.le_add_right _ _), Nat.le_refl _⟩
  · obtain ⟨y, hy, hxy⟩ := Option.map_eq_some_iff.mp hp
    obtain ⟨rfl, rfl⟩ := Prod.mk.injEq .. ▸ hxy
    unfold tailProbe at hy
    obtain ⟨r, hr, rfl⟩ := Option.map_eq_some_iff.mp hy
    obtain ⟨hmem, -⟩ := h.board.highestMissing?_eq hr
    have hbounds := h.board.tiles.bounds hmem
    dsimp only
    omega

/-! ## What a probe waits for -/

theorem probe_sent (hrun : g.Running) {x : SeqRange} {flags : Flags} (hx : x.start < x.stop)
    (hs : x.start ≤ g.board.top) (hf : flags.IsFresh) (now : Nat) (ha : g.control.ProbeAhead)
    (hn : g.control.ProbeNear) :
    (g.processSent x flags now).1.control.ProbeAhead ∧
      (g.processSent x flags now).1.control.ProbeNear := by
  obtain ⟨mid, again, probeEnd, heq, hcontrol, -, hprobe, -⟩ :=
    hrun.sound.processSent_parts hx hs hf now
  have hle : g.board.una ≤ g.board.top := hrun.sound.board.le
  have hmid : mid.control.ProbeAhead ∧ mid.control.ProbeNear := by
    rw [hcontrol]
    rcases hprobe with rfl | ⟨hstage, htop, rfl⟩
    · refine ⟨ha, ?_⟩
      intro stop hstop
      exact Nat.le_trans (hn stop hstop) (Nat.add_le_add_right (Nat.le_max_left _ _) _)
    · -- The probe ends with the new data.
      constructor
      · rintro - stop ⟨⟩
        exact Nat.lt_of_le_of_lt hle htop
      · rintro stop ⟨⟩
        exact Nat.le_trans (Nat.le_max_right g.board.top x.stop) (Nat.le_add_right _ _)
  rw [heq]
  rcases control_accountSent mid (again + (max g.board.top x.stop - g.board.top)) now with
    ⟨hsame, -⟩ | ⟨-, timer, expiry, harmed, -⟩
  · simpa only [hsame] using hmid
  · simp only [harmed]
    exact hmid

variable [CongestionLaw κ]

theorem probe_acked (hrun : g.Running) {ack : Ack} (hle : ack.cumulative ≤ g.board.top) (now : Nat)
    (hn : g.control.ProbeNear) :
    (g.processAck ack now).1.control.ProbeAhead ∧ (g.processAck ack now).1.control.ProbeNear := by
  obtain ⟨mid, hturned, -, -, ha, hsettled, -⟩ := hrun.sound.processAck_turns hle now
  have hturns := hturned.turns
  rw [control_noteOutcome, (hrun.sound.control_acked hle now).1] at hturns
  exact hsettled.probe ha (hturns.keep Control.Turn.probeNear hn)

theorem probe_fired (hrun : g.Running) {timer : Timer} {generation : Nat}
    (hc : g.schedule.timers.isCurrent timer generation = true) (hasData : Bool) (now : Nat)
    (ha : g.control.ProbeAhead) (hn : g.control.ProbeNear) :
    (g.processTimeout timer generation hasData now).1.control.ProbeAhead ∧
      (g.processTimeout timer generation hasData now).1.control.ProbeNear := by
  rw [processTimeout_eq g hc hasData now]
  by_cases hlt : g.board.una < g.board.top
  · cases timer with
    | tlp =>
      have hkept : Kept g (g.takeOff .tlp) := rfl
      obtain ⟨d, expiry, hcontrol, rfl | ⟨x, kind, hp, rfl⟩⟩ :=
        fireProbe_control (g := g.takeOff .tlp) hlt hasData now
      · simp only [hcontrol]
        exact ⟨ha, hn⟩
      · obtain ⟨hahead, hnear⟩ := (hkept.sound hrun.sound).probeFor_ends hlt hp
        simp only [hcontrol]
        constructor
        · rintro - stop ⟨⟩
          exact hahead
        · rintro stop ⟨⟩
          exact hnear
    | rto =>
      -- A timeout waits for no probe.
      obtain ⟨d, expiry, hfire, hcontrol⟩ := fireTimeout_fires (g := g.takeOff .rto) hlt now
      simp only [hcontrol]
      cases hfire
      exact ⟨nofun, nofun⟩
  · have hnone : (g.takeOff timer).board.outstanding = 0 :=
      Nat.sub_eq_zero_of_le (Nat.le_of_not_lt hlt)
    cases timer with
    | tlp =>
      simp only [fireProbe, hnone, if_true]
      exact ⟨ha, hn⟩
    | rto =>
      simp only [fireTimeout, hnone, if_true]
      exact ⟨ha, hn⟩

/-- All the work of an engine leaves the end of a probe ahead, and near the right edge. -/
theorem maintained_probeAhead :
    Maintained fun g : Engine κ => g.control.ProbeAhead ∧ g.control.ProbeNear where
  noted hn h := hn.control ▸ h
  sent now hrun hx hs hf h := probe_sent hrun hx hs hf now h.1 h.2
  acked now hrun hle h := probe_acked hrun hle now h.2
  fired hasData now hrun hc h := probe_fired hrun hc hasData now h.1 h.2

omit [CongestionLaw κ] in
theorem probe_start {settings : Settings} {law : κ} {sink : Sink} {first : Nat}
    (h : start settings law sink first now = .ok g) :
    g.control.ProbeAhead ∧ g.control.ProbeNear := by
  obtain ⟨-, rfl⟩ := start_eq_ok_iff.mp h
  exact ⟨nofun, nofun⟩

/-! ## Nothing outstanding -/

omit [CongestionLaw κ] in
/-- Without outstanding data nothing is counted as arrived, as sent again, or as in flight. -/
theorem Sound.counts_zero (h : g.Sound) (hidle : g.board.una = g.board.top)
    (hstage : g.schedule.stage ≠ .rtoPending) :
    g.ledger.sackedBytes = 0 ∧ g.ledger.holeBytes = 0 ∧ g.pipe = 0 := by
  have hle := h.counted_le
  have hnone : g.board.outstanding = 0 := Nat.sub_eq_zero_of_le (Nat.le_of_eq hidle.symm)
  have hholes : g.ledger.holeBytes = 0 := by omega
  refine ⟨by omega, hholes, ?_⟩
  unfold pipe
  split
  · next hr => exact absurd hr hstage
  · simp [RecoveryLedger.pipe, hholes, hidle, Word.add]

variable {first : Nat}

/-- An engine with nothing outstanding has no timer armed and counts nothing as arrived, as sent again,
or as in flight. No episode and no timeout is going on. It is in the steady stage, unless a tail loss
probe was asked for that was not sent, or not to its end: then it waits for an ack of data beyond all
that was sent, at most a segment of it. -/
theorem Reachable.quiescent (h : g.Reachable first) (ha : g.isAborted = false)
    (hidle : g.board.una = g.board.top) :
    (∀ timer, g.schedule.timers.armed? timer = none) ∧
    g.pipe = 0 ∧ g.ledger.sackedBytes = 0 ∧ g.ledger.holeBytes = 0 ∧
    g.ledger.active = false ∧ g.schedule.backoff = 0 ∧
    ((g.schedule.stage = .steady ∧ g.schedule.probeEnd = none) ∨
      g.schedule.stage = .tlpPending ∧ ∃ stop, g.schedule.probeEnd = some stop ∧
        g.board.top < stop ∧ stop ≤ g.board.top + g.settings.mss) := by
  obtain ⟨hrun, hahead, hnear⟩ := h.maintained maintained_probeAhead probe_start ha
  have hrest := h.atRest ha
  -- What ends a timeout or an episode was sent, so nothing is left to wait for.
  have htimeout : g.schedule.stage ≠ .rtoPending := by
    intro hr
    have hlt : g.board.una < g.schedule.rtoPoint := hrest.timeoutAhead hr
    obtain ⟨-, -, -, -, -, hpoint⟩ := hrest.staged.fits hr
    change g.schedule.rtoPoint ≤ g.board.top at hpoint
    omega
  have hepisode : g.schedule.stage ≠ .recovering := by
    intro hr
    have hlt : g.board.una < g.ledger.point := hrest.episodeAhead hr
    obtain ⟨-, -, -, hpoint⟩ := hrest.staged.fits hr
    change g.ledger.point ≤ g.board.top at hpoint
    omega
  obtain ⟨hsacked, hholes, hpipe⟩ := hrun.sound.counts_zero hidle htimeout
  obtain ⟨-, hbackoff, -⟩ := hrest.staged.calm htimeout
  refine ⟨hrest.timed.idle hidle, hpipe, hsacked, hholes, ?_, hbackoff, ?_⟩
  · rw [← Bool.not_eq_true]
    exact fun hactive => hepisode (hrest.staged.agree.1.mpr hactive)
  · cases hstage : g.schedule.stage with
    | steady => exact .inl ⟨rfl, (hrest.staged.fits hstage).2.2⟩
    | recovering => exact absurd hstage hepisode
    | rtoPending => exact absurd hstage htimeout
    | tlpPending =>
      obtain ⟨-, -, hsome⟩ := hrest.staged.fits hstage
      obtain ⟨stop, hstop⟩ := Option.isSome_iff_exists.mp hsome
      exact .inr ⟨rfl, stop, hstop, hidle ▸ hahead hstage stop hstop, hnear stop hstop⟩

/-- A probe of the last segment is acknowledged together with all the rest, after a timeout in
between. -/
theorem quiescent_after_timeout : ∃ g : Engine FixedWindow,
    (g.Reachable 0 ∧ g.isAborted = false ∧ g.board.una = 2920 ∧ g.board.top = 2920) ∧
    (∀ timer, g.schedule.timers.armed? timer = none) ∧ g.pipe = 0 ∧ g.schedule.stage = .steady := by
  have started : Engine.start {} (FixedWindow.ofSettings {}) .discard 0 0 = .ok _ := rfl
  have sent := (Reachable.start started).step (.send ⟨0, 2920⟩ {} 0 ⟨rfl, rfl⟩)
  have probed := sent.step (.fire .tlp 1 false 1000)
  have fired := probed.step (.fire .rto 3 false 2000)
  have acked := fired.step (.ack { cumulative := 2920 } 3000)
  obtain ⟨hoff, hpipe, -, -, -, -, ⟨hstage, -⟩ | ⟨hstage, -⟩⟩ := Reachable.quiescent acked rfl rfl
  · exact ⟨_, ⟨acked, rfl, rfl, rfl⟩, hoff, hpipe, hstage⟩
  · cases hstage

/-- The sender says that it has new data for a probe, and then sends none of it. An ack of all that
was sent leaves the engine waiting for the ack of that probe. -/
theorem awaits_unsent_probe : ∃ g : Engine FixedWindow, g.Reachable 0 ∧ g.isAborted = false ∧
    g.board.una = g.board.top ∧ g.schedule.stage ≠ .steady ∧
    g.schedule.probeEnd = some (g.board.top + g.settings.mss) := by
  have started : Engine.start {} (FixedWindow.ofSettings {}) .discard 0 0 = .ok _ := rfl
  have sent := (Reachable.start started).step (.send ⟨0, 1460⟩ {} 0 ⟨rfl, rfl⟩)
  have probed := sent.step (.fire .tlp 1 true 1000000000)
  -- The host takes the probe and sends nothing.
  have dispatched := probed.step (.dispatch ⟨fun w _ _ => ⟨.ok 0, w, []⟩, fun w _ _ _ => w, id⟩ ()
    [.send ⟨1460, 2920⟩ 1 .newDataProbe] 1000000000)
  have acked := dispatched.step (.ack { cumulative := 1460 } 1050000000)
  exact ⟨_, acked, rfl, rfl, by decide +kernel, rfl⟩

end Engine

end LossRecovery
