import LossRecovery.Proofs.Turns

/-!
# `LossRecovery.Proofs.Stages` — stages, timers, and what a timeout asks for

Whatever calls are made, failed ones included, the stage of loss recovery agrees with the fields that
belong to it, and exactly one timer is armed while data is outstanding. When the retransmission timer
fires, the lowest missing byte is sent again, so that recovery does not stall.

## Contents
- `maintained_atRest`, `Reachable.atRest`: loss recovery is at rest between calls.
- `Reachable.stages_agree`: the stage and the fields that belong to it.
- `Scoreboard.Missing`; `Coherent.lowestMissing?_eq`: where the lowest missing record starts.
- `Reachable.timers_drive`: the timers, and what a timeout asks for.
-/

namespace LossRecovery

namespace Engine

variable {κ : Type} {g : Engine κ} {now : Nat} [CongestionLaw κ]

/-! ## Between calls -/

omit [CongestionLaw κ] in
theorem atRest_start {settings : Settings} {law : κ} {sink : Sink} {first : Nat}
    (h : start settings law sink first now = .ok g) : g.control.AtRest := by
  unfold start Settings.validate at h
  cases hfault : settings.fault? with
  | some fault =>
    rw [hfault] at h
    cases h
  | none =>
    rw [hfault] at h
    injection h with h
    subst h
    have hmss : settings.mss ≠ 0 := by
      intro hzero
      simp [Settings.fault?, hzero] at hfault
    refine ⟨Nat.pos_of_ne_zero hmss, ?_, fun hr => ?_, fun hr => ?_, ?_⟩
    · exact ⟨⟨rfl, rfl, rfl, rfl⟩, rfl, rfl⟩
    · cases hr
    · cases hr
    · constructor
      · intro _ timer
        cases timer <;> rfl
      · intro hlt
        exact absurd hlt (Nat.lt_irrefl first)
      · intro harmed
        cases harmed

omit [CongestionLaw κ] in
theorem atRest_sent (hrun : g.Running) {x : SeqRange} {flags : Flags} (hx : x.start < x.stop)
    (hs : x.start ≤ g.board.top) (hf : flags.IsFresh) (now : Nat) (h : g.control.AtRest) :
    (g.processSent x flags now).1.control.AtRest := by
  obtain ⟨mid, again, probeEnd, heq, hcontrol, -, hprobe, -, hlt, -⟩ :=
    hrun.sound.processSent_parts hx hs hf now
  have hle : g.control.una ≤ g.control.top := hrun.sound.board.le
  have htop : g.control.top ≤ max g.board.top x.stop := Nat.le_max_left _ _
  have hset : probeEnd = g.schedule.probeEnd ∨
      (g.schedule.stage = .tlpPending ∧ probeEnd.isSome = true) :=
    hprobe.imp_right fun hnew => ⟨hnew.1, by simp [hnew.2.2]⟩
  rw [heq]
  refine h.sent hle htop hset ?_
  rw [← hcontrol]
  rcases control_accountSent mid (again + (max g.board.top x.stop - g.board.top)) now with
    ⟨hsame, hzero | harmed⟩ | ⟨hsome, hrearmed⟩
  · -- Nothing was sent, so the right edge is where it was.
    refine .inr ⟨hsame, .inl ?_⟩
    show max g.board.top x.stop = g.board.top
    omega
  · refine .inr ⟨hsame, .inr ?_⟩
    rwa [show mid.schedule = _ from congrArg Control.schedule hcontrol] at harmed
  · -- What was sent again is outstanding, and so is what is new.
    refine .inl ⟨?_, hrearmed⟩
    change g.board.una ≤ g.board.top at hle
    show g.board.una < max g.board.top x.stop
    omega

theorem atRest_acked (hrun : g.Running) {ack : Ack} (hle : ack.cumulative ≤ g.board.top) (now : Nat)
    (h : g.control.AtRest) : (g.processAck ack now).1.control.AtRest := by
  obtain ⟨mid, hturned, ht, he, -, hsettled, -⟩ := hrun.sound.processAck_turns hle now
  have hturns := hturned.turns
  have hedge : g.control.una ≤ max g.board.una ack.cumulative := Nat.le_max_left _ _
  rw [control_noteOutcome, (hrun.sound.control_acked hle now).1] at hturns
  exact h.acked hedge hturns (ht h.timeoutAhead) he hsettled

omit [CongestionLaw κ] in
/-- A timer is armed only while data is outstanding. -/
theorem outstanding_of_current (hrun : g.Running) {timer : Timer} {generation : Nat}
    (hc : g.schedule.timers.isCurrent timer generation = true) (h : g.control.AtRest) :
    g.board.una < g.board.top ∧ (g.schedule.timers.armed? timer).isSome = true := by
  obtain ⟨a, harmed, -⟩ := TimerTable.isCurrent_iff.mp hc
  refine ⟨Nat.lt_of_le_of_ne hrun.sound.board.le ?_, Option.isSome_of_eq_some harmed⟩
  intro heq
  have hidle : g.schedule.timers.armed? timer = none := h.timed.idle heq timer
  simp [hidle] at harmed

theorem atRest_fired (hrun : g.Running) {timer : Timer} {generation : Nat}
    (hc : g.schedule.timers.isCurrent timer generation = true) (hasData : Bool) (now : Nat)
    (h : g.control.AtRest) :
    (g.processTimeout timer generation hasData now).1.control.AtRest := by
  obtain ⟨hlt, harmed⟩ := outstanding_of_current hrun hc h
  obtain ⟨d, expiry, hfire, hcontrol⟩ := processTimeout_fires g hc hlt hasData now
  rw [hcontrol]
  exact h.fired hlt harmed hfire expiry

/-- All the work of an engine leaves loss recovery at rest. -/
theorem maintained_atRest : Maintained fun g : Engine κ => g.control.AtRest where
  noted hn h := hn.control ▸ h
  sent now hrun hx hs hf h := atRest_sent hrun hx hs hf now h
  acked now hrun hle h := atRest_acked hrun hle now h
  fired hasData now hrun hc h := atRest_fired hrun hc hasData now h

variable {first : Nat}

theorem Reachable.atRest (h : g.Reachable first) (ha : g.isAborted = false) : g.control.AtRest :=
  (h.maintained maintained_atRest atRest_start ha).2

/-! ## The stage -/

/-- The stage and the fields that belong to it agree. A recovery episode is in progress in the
recovering stage only, and ends above the left edge; likewise for a timeout, with its count and time;
a probe is awaited in the stage of that name only; what a timeout may undo and where it goes on is
known during a timeout only; the probe timer is armed in the steady stage only; and the least RTT is
not probed during a timeout. -/
theorem Reachable.stages_agree (h : g.Reachable first) (ha : g.isAborted = false) :
    (g.schedule.stage = .recovering ↔ g.ledger.active = true) ∧
    (g.schedule.stage = .recovering →
      g.board.una < g.ledger.point ∧ g.ledger.point ≤ g.board.top) ∧
    (g.schedule.stage = .rtoPending ↔ g.schedule.firedAt.isSome = true) ∧
    (g.schedule.stage = .rtoPending ↔ 0 < g.schedule.backoff) ∧
    (g.schedule.stage = .rtoPending →
      g.board.una < g.schedule.rtoPoint ∧ g.schedule.rtoPoint ≤ g.board.top) ∧
    (g.schedule.stage = .tlpPending ↔ g.schedule.probeEnd.isSome = true) ∧
    (g.schedule.undo.isSome = true → g.schedule.stage = .rtoPending) ∧
    (g.schedule.cursor.isSome = true → g.schedule.stage = .rtoPending) ∧
    ((g.schedule.timers.armed? .tlp).isSome = true → g.schedule.stage = .steady) ∧
    (g.schedule.stage = .rtoPending → g.probe.isActive = false) := by
  obtain ⟨-, hs, ht, he, htimed⟩ := h.atRest ha
  obtain ⟨hactive, hfired, hbackoff, hprobe, hundo, hcursor⟩ := hs.agree
  refine ⟨hactive, fun hr => ⟨he hr, ?_⟩, hfired, hbackoff, fun hr => ⟨ht hr, ?_⟩, hprobe, hundo,
    hcursor, htimed.steady, fun hr => ?_⟩
  · obtain ⟨-, -, -, hpoint⟩ := hs.fits hr
    exact hpoint
  · obtain ⟨-, -, -, -, -, hpoint⟩ := hs.fits hr
    exact hpoint
  · obtain ⟨-, -, -, -, hprobing, -⟩ := hs.fits hr
    exact hprobing

/-- A probe and a timeout after an ack of the second of two segments: the timeout counts, and waits
for all that was sent. -/
theorem stages_agree_after_timeout : ∃ g : Engine FixedWindow,
    (g.Reachable 0 ∧ g.isAborted = false ∧ g.schedule.stage = .rtoPending) ∧
    0 < g.schedule.backoff ∧ g.schedule.firedAt.isSome = true ∧
    g.board.una < g.schedule.rtoPoint ∧ g.ledger.active ≠ true := by
  have started : Engine.start {} (FixedWindow.ofSettings {}) .discard 0 0 = .ok _ := rfl
  have sent := (Reachable.start started).step (.send ⟨0, 2920⟩ {} 0 ⟨rfl, rfl⟩)
  have acked := sent.step (.ack { cumulative := 0, blocks := [⟨1460, 2920⟩] } 50)
  have probed := acked.step (.fire .tlp 2 false 1000)
  have fired := probed.step (.fire .rto 4 false 2000)
  obtain ⟨hactive, -, hfired, hbackoff, hpoint, -⟩ := Reachable.stages_agree fired rfl
  exact ⟨_, ⟨fired, rfl, rfl⟩, hbackoff.mp rfl, hfired.mp rfl, (hpoint rfl).1,
    fun ha => Stage.noConfusion (hactive.mpr ha)⟩

end Engine

/-! ## The lowest missing byte -/

namespace Scoreboard

variable {b : Scoreboard} {seq : Nat}

/-- An outstanding byte that is not SACKed. -/
def Missing (b : Scoreboard) (seq : Nat) : Prop :=
  b.una ≤ seq ∧ seq < b.top ∧ b.sackedAt seq = false

theorem Coherent.missing_iff (h : b.Coherent) :
    b.Missing seq ↔ ∃ r, b.Holds seq r ∧ r.isDelivered = false := by
  constructor
  · rintro ⟨hlo, hhi, hs⟩
    obtain ⟨r, hr⟩ := h.exists_holds hlo hhi
    refine ⟨r, hr, ?_⟩
    rw [(h.records r hr.1).isDelivered, ← h.sackedAt_eq hr, hs]
  · rintro ⟨r, hr, hd⟩
    obtain ⟨hlo, hhi⟩ := h.bounds_of_holds hr
    refine ⟨hlo, hhi, ?_⟩
    rw [h.sackedAt_eq hr, ← (h.records r hr.1).isDelivered, hd]

/-- The lowest missing record starts at the lowest missing byte. -/
theorem Coherent.lowestMissing?_eq (h : b.Coherent) (hm : b.Missing seq) :
    ∃ r, b.lowestMissing? = some r ∧ r.start < r.stop ∧ r.isDelivered = false ∧
      b.Missing r.start ∧ ∀ s, b.Missing s → r.start ≤ s := by
  have hfound : ∃ r, b.lowestMissing? = some r := by
    obtain ⟨r, hr, hd⟩ := h.missing_iff.mp hm
    apply Option.isSome_iff_exists.mp
    unfold lowestMissing?
    rw [List.find?_isSome]
    exact ⟨r, hr.1, by simp [hd]⟩
  obtain ⟨r, hr⟩ := hfound
  obtain ⟨hd, before, after, hrecords, hbefore⟩ := List.find?_eq_some_iff_append.mp hr
  have hmem : r ∈ b.records := List.mem_of_find?_eq_some hr
  have hlen := (h.tiles.bounds hmem).2.1
  have hd : r.isDelivered = false := by simpa using hd
  refine ⟨r, hr, hlen, hd, h.missing_iff.mpr ⟨r, ⟨hmem, ?_⟩, hd⟩, ?_⟩
  · exact SendRecord.contains_iff.mpr ⟨Nat.le_refl _, hlen⟩
  · intro s hs
    obtain ⟨q, hq, hqd⟩ := h.missing_iff.mp hs
    have hqs := (SendRecord.contains_iff.mp hq.2).1
    have hpair := h.tiles.pairwise
    have hqmem := hq.1
    rw [hrecords] at hqmem hpair
    rcases List.mem_append.mp hqmem with hin | hin
    · -- The records before it have arrived.
      have := hbefore q hin
      simp [hqd] at this
    · rcases List.mem_cons.mp hin with rfl | hin
      · exact hqs
      · have hbeyond := (List.pairwise_cons.mp (List.pairwise_append.mp hpair).2.1).1 q hin
        omega

end Scoreboard

/-! ## Timers -/

namespace Engine

variable {κ : Type} {g : Engine κ} {now : Nat} [CongestionLaw κ]

omit [CongestionLaw κ] in
theorem planResends_singleton {r : SendRecord} {budget : Nat} (mss : Nat)
    (hd : r.isDelivered = false) (hb : budget ≠ 0) :
    planResends [r] budget mss = [.send ⟨r.start, r.start + min r.range.length budget⟩
      (segments (min r.range.length budget) mss) .retransmit] := by
  simp [planResends, hd, Sorting.sortByKey, Sorting.insertByKey, spendBudget, hb, SendRecord.range]

/-- What is sent again after a timeout starts at the lowest missing record and is not empty. -/
theorem resendLowest_sends {r : SendRecord} (hr : g.board.lowestMissing? = some r)
    (hlen : r.start < r.stop) (hd : r.isDelivered = false) (hmss : 0 < g.settings.mss) :
    ∃ stop segments, r.start < stop ∧
      Action.send ⟨r.start, stop⟩ segments .retransmit ∈ g.resendLowest.2 := by
  have hbudget : max g.congestionWindow g.settings.mss ≠ 0 := by omega
  have hlength : 0 < r.range.length := Nat.sub_pos_of_lt hlen
  unfold resendLowest
  rw [hr]
  dsimp only
  rw [planResends_singleton g.settings.mss hd hbudget]
  exact ⟨_, _, by omega, List.mem_singleton_self _⟩

theorem relabelled_collapsed (g : Engine κ) (now : Nat) : Relabelled g (g.collapsed now) :=
  (relabelled_collapse g now).before rfl

/-- The retransmission timer fires while a byte is missing: the lowest one is sent again, and the
timer is armed anew. -/
theorem Sound.fireTimeout_sends (h : g.Sound) {seq : Nat} (hm : g.board.Missing seq)
    (hmss : 0 < g.settings.mss) (now : Nat) :
    (∃ low stop segments, g.board.Missing low ∧ (∀ s, g.board.Missing s → low ≤ s) ∧ low < stop ∧
      Action.send ⟨low, stop⟩ segments .retransmit ∈ (g.fireTimeout now).2) ∧
    ∃ duration generation, Action.arm .rto duration generation ∈ (g.fireTimeout now).2 ∧
      (g.fireTimeout now).1.schedule.timers.armed? .rto = some ⟨now + duration, generation⟩ := by
  have hlt : g.board.una < g.board.top := Nat.lt_of_le_of_lt hm.1 hm.2.1
  have hrel := relabelled_collapsed g now
  have hsound := hrel.sound h
  have hsame : ∀ s, (g.collapsed now).board.Missing s ↔ g.board.Missing s := by
    intro s
    obtain ⟨f, hf, hb⟩ := hrel.board
    unfold Scoreboard.Missing
    rw [hrel.edges.1, hrel.edges.2, hb, h.board.sackedAt_modify hf]
  obtain ⟨r, hr, hlen, hd, hmissing, hleast⟩ :=
    hsound.board.lowestMissing?_eq ((hsame seq).mpr hm)
  have hmss' : 0 < (g.collapsed now).settings.mss := by rwa [hrel.settings]
  obtain ⟨stop, segments, hstop, hsend⟩ := resendLowest_sends hr hlen hd hmss'
  rw [fireTimeout_eq hlt]
  refine ⟨⟨r.start, stop, segments, (hsame _).mp hmissing, ?_, hstop, ?_⟩, ?_⟩
  · intro s hs
    exact hleast s ((hsame s).mpr hs)
  · exact List.mem_append_left _ hsend
  · exact ⟨_, _, List.mem_append_right _ (List.mem_singleton_self _), TimerTable.armed?_set⟩

variable {first : Nat}

/-- One timer is armed while data is outstanding, and none otherwise. When the retransmission timer
fires while a byte is missing, the sender is asked to send again from the lowest one on, and to arm
the timer that is armed now. -/
theorem Reachable.timers_drive (h : g.Reachable first) (ha : g.isAborted = false) :
    (g.board.una < g.board.top → ∃! timer, (g.schedule.timers.armed? timer).isSome = true) ∧
    (g.board.una = g.board.top → ∀ timer, g.schedule.timers.armed? timer = none) ∧
    ∀ generation hasData now, g.schedule.timers.isCurrent .rto generation = true →
      (∃ seq, g.board.Missing seq) →
      ∃ actions, (g.onTimeout .rto generation hasData now).2 = .ok actions ∧
        (∃ low stop segments, g.board.Missing low ∧ (∀ seq, g.board.Missing seq → low ≤ seq) ∧
          low < stop ∧ Action.send ⟨low, stop⟩ segments .retransmit ∈ actions) ∧
        ∃ duration renewed, Action.arm .rto duration renewed ∈ actions ∧
          (g.onTimeout .rto generation hasData now).1.schedule.timers.armed? .rto
            = some ⟨now + duration, renewed⟩ := by
  have hrun := h.running_of ha
  have hrest := h.atRest ha
  refine ⟨fun hlt => ?_, hrest.timed.idle, ?_⟩
  · obtain ⟨timer, honly⟩ := hrest.timed.one hlt
    exact honly.existsUnique
  · rintro generation hasData now hc ⟨seq, hm⟩
    -- Taking the timer off concerns neither the records nor the settings.
    have hkept : Kept g (g.takeOff .rto) := rfl
    have hsound := hkept.sound hrun.sound
    obtain ⟨hsends, harms⟩ := hsound.fireTimeout_sends (g := g.takeOff .rto) hm hrest.mss_pos now
    unfold onTimeout
    rw [guarded_eq hrun.isAborted, processTimeout_eq g hc hasData now]
    exact ⟨_, rfl, hsends, harms⟩

/-- After an ack of the second of two segments and a probe, one timer is armed, and its firing asks
for the first segment. -/
theorem timers_drive_after_probe : ∃ g : Engine FixedWindow,
    (g.Reachable 0 ∧ g.isAborted = false ∧ g.board.Missing 0) ∧
    (∃! timer, (g.schedule.timers.armed? timer).isSome = true) ∧
    ∃ actions, (g.onTimeout .rto 4 false 2000).2 = .ok actions ∧
      ∃ low stop segments, low < stop ∧ Action.send ⟨low, stop⟩ segments .retransmit ∈ actions := by
  have started : Engine.start {} (FixedWindow.ofSettings {}) .discard 0 0 = .ok _ := rfl
  have sent := (Reachable.start started).step (.send ⟨0, 2920⟩ {} 0 ⟨rfl, rfl⟩)
  have acked := sent.step (.ack { cumulative := 0, blocks := [⟨1460, 2920⟩] } 50)
  have probed := acked.step (.fire .tlp 2 false 1000)
  obtain ⟨hone, -, hfires⟩ := Reachable.timers_drive probed rfl
  obtain ⟨actions, hok, ⟨low, stop, segments, -, -, hlt, hsend⟩, -⟩ :=
    hfires 4 false 2000 rfl ⟨0, Nat.le_refl 0, by decide, rfl⟩
  exact ⟨_, ⟨probed, rfl, Nat.le_refl 0, by decide, rfl⟩, hone (by decide), actions, hok, low, stop,
    segments, hlt, hsend⟩

end Engine

end LossRecovery
