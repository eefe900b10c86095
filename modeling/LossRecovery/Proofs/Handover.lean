import LossRecovery.Proofs.Requests

/-!
# `LossRecovery.Proofs.Handover` — the timers of the host

The host keeps the timer for the engine: what calls answer about the timers is handed over to it
when their actions are carried out. Carrying out the answer to a call leaves the host with what is
armed, unless a send fails before the timer action of the answer had its turn.

## Contents
- `Host.Clocked`: the host holds what it was handed last; `TimerTable.Matches`: it holds what is armed.
- `TimerTable.Dated`, `Reachable.dated`: what is armed has the latest generation.
- `Underway`, `Undisturbed`: carried out sends do not touch the timers.
- `Answers`: calls that are answered; `Reachable.hands_over`: the host after their answers.
- `not_handed_over_after_failed_probe`: a failed probe leaves the host without a timer.
-/

namespace LossRecovery

variable {σ : Type}

/-- A host with one clock: `held` tells which timer it holds, and under which generation. -/
structure Host.Clocked (host : Host σ) (held : σ → Option (Timer × Nat)) : Prop where
  transmit : ∀ w range flags, held (host.transmit w range flags).host = held w
  arm : ∀ w timer duration generation,
    held (host.arm w timer duration generation) = some (timer, generation)
  cancel : ∀ w, held (host.cancel w) = none

/-- The host that is no more than its clock, with a link that answers as `link` does. -/
def Host.ofLink (link : SeqRange → Except Error Nat) : Host (Option (Timer × Nat)) where
  transmit w range _ := { result := link range, host := w }
  arm _ timer _ generation := some (timer, generation)
  cancel _ := none

theorem Host.clocked_ofLink (link : SeqRange → Except Error Nat) : (Host.ofLink link).Clocked id :=
  ⟨fun _ _ _ => rfl, fun _ _ _ _ => rfl, fun _ => rfl⟩

/-! ## Generations -/

namespace TimerTable

variable {t t' : TimerTable} {timer : Timer} {held : Option (Timer × Nat)} {as : Actions}

/-- What the host holds is what is armed, with its generation. -/
def Matches (t : TimerTable) (held : Option (Timer × Nat)) : Prop :=
  ∀ timer generation, t.isCurrent timer generation = true ↔ held = some (timer, generation)

/-- What is armed has the latest generation. -/
def Dated (t : TimerTable) : Prop :=
  ∀ timer generation, t.isCurrent timer generation = true → generation = t.generation

theorem isCurrent_of_none (h : t.armed? timer = none) (generation : Nat) :
    t.isCurrent timer generation = false := by
  simp [isCurrent, h]

theorem matches_none (h : ∀ timer, t.armed? timer = none) : t.Matches none := by
  intro timer generation
  simp [isCurrent_of_none (h timer)]

/-- What is armed in place of the other timer, and nothing else, is current. -/
theorem matches_rearmed (t : TimerTable) (timer : Timer) (expiry : Nat) :
    ((t.stop timer.other).set timer expiry).Matches
      (some (timer, ((t.stop timer.other).set timer expiry).generation)) := by
  intro other generation
  rw [isCurrent_iff]
  constructor
  · rintro ⟨a, ha, rfl⟩
    have heq := (only_set t timer expiry).eq (Option.isSome_of_eq_some ha)
    subst heq
    rw [armed?_set] at ha
    injection ha with ha
    rw [← ha]
    rfl
  · intro h
    injection h with h
    injection h with h1 h2
    subst h1 h2
    exact ⟨_, armed?_set, rfl⟩

theorem generation_stop (t : TimerTable) (timer : Timer) :
    (t.stop timer).generation = t.generation ∨ (t.stop timer).generation = t.nextGeneration := by
  unfold stop
  cases t.armed? timer with
  | none => exact .inl rfl
  | some a => exact .inr rfl

/-- A newly armed timer is told apart from what was armed before, also after another one was taken
off. -/
theorem generation_rearmed_ne (t : TimerTable) (timer fired : Timer) (expiry : Nat) :
    ((t.stop timer.other).set timer expiry).generation ≠ t.generation ∧
      (((t.stop fired).stop timer.other).set timer expiry).generation ≠ t.generation := by
  have hset : ∀ u : TimerTable, (u.set timer expiry).generation = u.nextGeneration := fun _ => rfl
  have h1 := generation_stop t timer.other
  have h2 := generation_stop t fired
  have h3 := generation_stop (t.stop fired) timer.other
  simp only [hset, nextGeneration, Word.wrap] at *
  omega

theorem Handed.dated (h : t.Handed t' as) (ht : as = [] → t.Dated) : t'.Dated := by
  cases h with
  | same => exact ht rfl
  | armed timer expiry duration =>
    intro other generation hc
    have hm := (matches_rearmed t timer expiry other generation).mp hc
    injection hm with hm
    injection hm with _ hg
    exact hg.symm
  | cancelled _ =>
    intro other generation hc
    simp [isCurrent_of_none] at hc

/-- What the host holds from before is not what was newly armed. -/
theorem not_matches_rearmed {u : TimerTable} {expiry : Nat} (ht : t.Dated)
    (hm : t.Matches held ∨ held = none)
    (hne : ((u.stop timer.other).set timer expiry).generation ≠ t.generation) :
    ¬ ((u.stop timer.other).set timer expiry).Matches held := by
  intro hm'
  have hheld := (hm' timer _).mp ((matches_rearmed u timer expiry _ _).mpr rfl)
  rcases hm with hm | rfl
  · exact hne (ht timer _ ((hm timer _).mpr hheld))
  · cases hheld

/-- What the host holds from before a change that was told is not what is armed after it. -/
theorem Handed.not_matches (h : t.Handed t' as) (ht : t.Dated) (hm : t.Matches held)
    (hne : as ≠ []) : ¬ t'.Matches held := by
  cases h with
  | same => exact absurd rfl hne
  | armed timer expiry duration =>
    exact not_matches_rearmed ht (.inl hm) (generation_rearmed_ne t timer timer expiry).1
  | cancelled harmed =>
    intro hm'
    rw [Ne, nextTimeout_eq_none, not_forall] at harmed
    obtain ⟨timer, harmed⟩ := harmed
    obtain ⟨a, ha⟩ := Option.ne_none_iff_exists'.mp harmed
    have hheld := (hm timer a.generation).mp (isCurrent_iff.mpr ⟨a, ha, rfl⟩)
    have := (hm' timer a.generation).mpr hheld
    simp [isCurrent_of_none] at this

end TimerTable

namespace Engine

variable {κ : Type} {g g' : Engine κ} {now : Nat} {host : Host σ}
  {held : σ → Option (Timer × Nat)} {w : σ}

/-! ## Timer actions -/

/-- Timer actions are handed to the host, and the engine stays as it is. -/
theorem dispatchAll_timers (g : Engine κ) (w : σ) (total : Nat) {timing : Actions}
    (ht : ∀ a ∈ timing, a.isTimer = true) : g.dispatchAll host now w total timing
      = (g, timing.foldl (applyTimer host g) w, .ok total) := by
  induction timing generalizing w with
  | nil => rfl
  | cons a rest ih =>
    have hrest := fun w => ih (w := w) fun b hb => ht b (List.mem_cons_of_mem _ hb)
    cases a with
    | send range n kind => exact absurd (ht _ List.mem_cons_self) (by simp [Action.isTimer])
    | arm timer duration generation => exact hrest _
    | cancel => exact hrest _

/-- Handing over what was told about a change of the timers brings the host up to it. -/
theorem matches_of_handed {t : TimerTable} {timing : Actions} (hc : host.Clocked held)
    (h : t.Handed g.schedule.timers timing) (hm : timing = [] → t.Matches (held w)) :
    g.schedule.timers.Matches (held (timing.foldl (applyTimer host g) w)) := by
  generalize ht : g.schedule.timers = t' at h
  cases h with
  | same => exact hm rfl
  | armed timer expiry duration =>
    have hmatch := TimerTable.matches_rearmed t timer expiry
    have hcurrent := (hmatch timer _).mpr rfl
    simp only [List.foldl_cons, List.foldl_nil, applyTimer, ht, hcurrent, if_true, hc.arm]
    exact hmatch
  | cancelled _ =>
    have hoff : t.stopAll.nextTimeout = none := TimerTable.nextTimeout_eq_none.mpr (by simp)
    simp only [List.foldl_cons, List.foldl_nil, applyTimer, ht, hoff, if_true, hc.cancel]
    exact TimerTable.matches_none (by simp)

/-! ## Sends that are carried out -/

/-- Losses are being repaired, or a probe is out: the retransmission timer is armed. -/
structure Underway (g : Engine κ) : Prop where
  running : g.Running
  outstanding : g.board.una < g.board.top
  stage : g.schedule.stage ≠ .steady
  armed : (g.schedule.timers.armed? .rto).isSome = true

/-- From `g` and `w` to `g'` and `w'`, sends were carried out, and nobody's timers were touched. -/
structure Undisturbed (held : σ → Option (Timer × Nat)) (g : Engine κ) (w : σ) (g' : Engine κ)
    (w' : σ) : Prop where
  underway : g'.Underway
  top_le : g.board.top ≤ g'.board.top
  timers : g'.schedule.timers = g.schedule.timers
  held : held w' = held w

theorem Undisturbed.trans {g'' : Engine κ} {w' w'' : σ} (h : Undisturbed held g w g' w')
    (h' : Undisturbed held g' w' g'' w'') : Undisturbed held g w g'' w'' :=
  ⟨h'.underway, Nat.le_trans h.top_le h'.top_le, h'.timers.trans h.timers, h'.held.trans h.held⟩

theorem accountSent_of_armed (hs : g.schedule.stage ≠ .steady)
    (ha : (g.schedule.timers.armed? .rto).isSome = true) (sent now : Nat) :
    (g.accountSent sent now).2 = [] ∧ (g.accountSent sent now).1.schedule = g.schedule := by
  have harmed : g.schedule.timers.expiry? .rto ≠ none := by
    rw [Ne, TimerTable.expiry?_eq_none]
    exact Option.isSome_iff_ne_none.mp ha
  unfold accountSent
  split
  · exact ⟨rfl, rfl⟩
  · simp [hs, harmed]

namespace Underway

/-- A send reported meanwhile arms nothing. -/
theorem processSent (h : g.Underway) {x : SeqRange} {flags : Flags} (hx : x.start < x.stop)
    (hs : x.start ≤ g.board.top) (hf : flags.IsFresh) (now : Nat) :
    (g.processSent x flags now).2 = .ok [] ∧ (g.processSent x flags now).1.Underway ∧
      g.board.top ≤ (g.processSent x flags now).1.board.top ∧
      (g.processSent x flags now).1.schedule.timers = g.schedule.timers := by
  obtain ⟨mid, again, probeEnd, heq, hcontrol, -⟩ :=
    h.running.sound.processSent_parts hx hs hf now
  have hschedule : mid.schedule = { g.schedule with probeEnd := probeEnd } :=
    congrArg Control.schedule hcontrol
  obtain ⟨hnothing, hkept⟩ := accountSent_of_armed (g := mid) (by rw [hschedule]; exact h.stage)
    (by rw [hschedule]; exact h.armed) (again + (max g.board.top x.stop - g.board.top)) now
  obtain ⟨-, hsent, hsound, hsame⟩ := h.running.sound.processSent hx hs hf now
  have hafter : (g.processSent x flags now).1.schedule = { g.schedule with probeEnd := probeEnd } := by
    rw [heq, ← hschedule]
    exact hkept
  obtain ⟨huna, htop⟩ := hsent.edges
  have hout := h.outstanding
  refine ⟨by rw [heq, hnothing], ⟨⟨hsound, hsame.isAborted.trans h.running.isAborted⟩, ?_, ?_, ?_⟩,
    ?_, ?_⟩
  · omega
  · rw [hafter]
    exact h.stage
  · rw [hafter]
    exact h.armed
  · omega
  · rw [hafter]

theorem refl (h : g.Underway) (w : σ) : Undisturbed held g w g w :=
  ⟨h, Nat.le_refl _, rfl, rfl⟩

/-- A send that is carried out is dropped, fails at the host, or is taken in. -/
theorem sendRange (h : g.Underway) (hc : host.Clocked held) (w : σ) {range : SeqRange}
    (kind : SendKind) (hs : range.start ≤ g.board.top) (now : Nat) :
    Undisturbed held g w (g.sendRange host w range kind now).1
        (g.sendRange host w range kind now).2.1 ∧
      (Succeeds (g.sendRange host w range kind now).2.2 ∨
        ∃ m, (g.sendRange host w range kind now).2.2 = .error (.transmitFailed m)) := by
  have hheld := hc.transmit w range kind.flags
  have htold : Underway (g.tell (host.transmit w range kind.flags).events) :=
    ⟨(told_tell g _).noted.running h.running, h.outstanding, h.stage, h.armed⟩
  have hnoted : Underway (g.noteStale range) :=
    ⟨(noted_noteStale g range).running h.running, h.outstanding, h.stage, h.armed⟩
  have hcarried := carried_sendRange host g w range kind now
  generalize g.sendRange host w range kind now = done at hcarried ⊢
  cases hcarried with
  | dropped => exact ⟨⟨hnoted, Nat.le_refl _, rfl, rfl⟩, .inl ⟨0, rfl⟩⟩
  | failed m => exact ⟨⟨htold, Nat.le_refl _, rfl, hheld⟩, .inr ⟨m, rfl⟩⟩
  | nothing => exact ⟨⟨htold, Nat.le_refl _, rfl, hheld⟩, .inl ⟨0, rfl⟩⟩
  | refused n pos report =>
    obtain ⟨hok, -⟩ := htold.processSent (start_lt_part range pos) hs (isFresh_flags kind) now
    rw [report] at hok
    cases hok
  | taken n pos report =>
    obtain ⟨hok, hunderway, htop, htimers⟩ :=
      htold.processSent (start_lt_part range pos) hs (isFresh_flags kind) now
    rw [report] at hok hunderway htop htimers
    cases hok
    exact ⟨⟨hunderway, htop, htimers, hheld⟩, .inl ⟨_, rfl⟩⟩

/-- Sends are carried out one after the other, up to the first that fails. -/
theorem dispatchAll (h : g.Underway) (hc : host.Clocked held) (w : σ) (now total : Nat)
    {sends : Actions} (ho : sends.SendsOnly) (hs : sends.StartBelow g.board.top)
    (timing : Actions) :
    ∃ g' w', Undisturbed held g w g' w' ∧
      ((∃ total', g.dispatchAll host now w total (sends ++ timing)
          = g'.dispatchAll host now w' total' timing) ∨
        ∃ m, g.dispatchAll host now w total (sends ++ timing)
          = (g', w', .error (.transmitFailed m))) := by
  -- The right edge does not move back, so that later sends start below it too.
  induction sends generalizing g w total with
  | nil => exact ⟨g, w, h.refl w, .inl ⟨total, rfl⟩⟩
  | cons a rest ih =>
    cases a with
    | send range n kind =>
      obtain ⟨hone, hres⟩ := h.sendRange hc w kind (hs range n kind List.mem_cons_self) now
      rcases hres with ⟨bytes, hok⟩ | ⟨m, hfailed⟩
      · obtain ⟨g', w', hrest, hend⟩ := ih hone.underway
          (g.sendRange host w range kind now).2.1 (total + bytes)
          (fun b hb => ho b (List.mem_cons_of_mem _ hb))
          (fun x n kind hx => Nat.le_trans (hs x n kind (List.mem_cons_of_mem _ hx)) hone.top_le)
        refine ⟨g', w', hone.trans hrest, ?_⟩
        simpa only [List.cons_append, Engine.dispatchAll, hok] using hend
      · refine ⟨_, _, hone, .inr ⟨m, ?_⟩⟩
        simp only [List.cons_append, Engine.dispatchAll, hfailed]
    | arm timer duration generation => cases ho _ List.mem_cons_self
    | cancel => cases ho _ List.mem_cons_self

end Underway

/-! ## Answers -/

/-- A call left `g'` and answered with `sends` and then `timing`. Before it the host held `before`. -/
structure Reply (before : Option (Timer × Nat)) (g' : Engine κ) (sends timing : Actions) : Prop where
  running : g'.Running
  underway : sends ≠ [] → g'.Underway
  sendsOnly : sends.SendsOnly
  startBelow : sends.StartBelow g'.board.top
  /-- The host holds what is armed, or is told about it. -/
  handed : ∃ t : TimerTable, t.Handed g'.schedule.timers timing ∧ (timing = [] → t.Matches before)
  /-- What the host is told about is not what it holds. -/
  overtaken : timing ≠ [] → ¬ g'.schedule.timers.Matches before

theorem Reply.matches_iff {before : Option (Timer × Nat)} {sends timing : Actions}
    (h : Reply before g sends timing) :
    g.schedule.timers.Matches before ↔ timing = [] := by
  constructor
  · intro hm
    by_contra hne
    exact h.overtaken hne hm
  · intro hnil
    obtain ⟨t, ht, hm⟩ := h.handed
    subst hnil
    rw [ht.eq_of_nil]
    exact hm rfl

/-- Carrying out an answer ends well, with the host holding what is armed, or at a send that failed
at the host, with nobody's timers touched. -/
theorem Reply.dispatch {sends timing : Actions} (h : Reply (held w) g sends timing)
    (hc : host.Clocked held) (now : Nat) :
    let done := g.dispatch host w (sends ++ timing) now
    (Succeeds done.2 ∧ done.1.1.schedule.timers.Matches (held done.1.2)) ∨
    ((∃ m, done.2 = .error (.transmitFailed m)) ∧
      done.1.1.schedule.timers = g.schedule.timers ∧ held done.1.2 = held w) := by
  obtain ⟨t, ht, hm⟩ := h.handed
  have hsends : ∃ g' w', g'.schedule.timers = g.schedule.timers ∧ held w' = held w ∧
      ((∃ total, g.dispatchAll host now w 0 (sends ++ timing)
          = g'.dispatchAll host now w' total timing) ∨
        ∃ m, g.dispatchAll host now w 0 (sends ++ timing)
          = (g', w', .error (.transmitFailed m))) := by
    by_cases hne : sends = []
    · subst hne
      exact ⟨g, w, rfl, rfl, .inl ⟨0, rfl⟩⟩
    · obtain ⟨g', w', hundisturbed, hend⟩ :=
        (h.underway hne).dispatchAll hc w now 0 h.sendsOnly h.startBelow timing
      exact ⟨g', w', hundisturbed.timers, hundisturbed.held, hend⟩
  obtain ⟨g', w', htimers, hheld, hend⟩ := hsends
  unfold Engine.dispatch
  rw [if_neg (by simp [h.running.isAborted])]
  dsimp only
  rcases hend with ⟨total, hall⟩ | ⟨m, hfailed⟩
  · rw [hall, dispatchAll_timers g' w' total ht.isTimer]
    rw [← htimers] at ht
    refine .inl ⟨⟨total, rfl⟩, matches_of_handed hc ht ?_⟩
    rwa [hheld]
  · rw [hfailed]
    have hkept := (noted_fail g' (e := .transmitFailed m) rfl).schedule
    exact .inr ⟨⟨m, rfl⟩, by rw [hkept, htimers], hheld⟩

variable [CongestionLaw κ] {first : Nat} {actions : Actions}

/-! ## The engines that calls lead to -/

/-- Loss recovery is at rest, and what is armed has the latest generation. -/
theorem maintained_dated :
    Maintained fun g : Engine κ => g.control.AtRest ∧ g.schedule.timers.Dated where
  noted hn h := ⟨hn.control ▸ h.1, hn.schedule ▸ h.2⟩
  sent now hrun hx hs hf h := by
    obtain ⟨timing, -, -, hhanded⟩ := hrun.sound.processSent_answer hx hs hf now
    exact ⟨atRest_sent hrun hx hs hf now h.1, hhanded.dated fun _ => h.2⟩
  acked now hrun hle h := by
    obtain ⟨timing, -, -, hhanded⟩ := hrun.sound.processAck_answer hle now
    exact ⟨atRest_acked hrun hle now h.1, hhanded.dated fun _ => h.2⟩
  fired hasData now hrun hcurrent h := by
    obtain ⟨hlt, -⟩ := outstanding_of_current hrun hcurrent h.1
    obtain ⟨sends, timing, -, -, -, ⟨duration, generation, htiming⟩, hhanded⟩ :=
      processTimeout_answer _ hcurrent hlt hasData now
    exact ⟨atRest_fired hrun hcurrent hasData now h.1, hhanded.dated (by simp [htiming])⟩

theorem Reachable.dated (h : g.Reachable first) (ha : g.isAborted = false) :
    g.schedule.timers.Dated := by
  refine (h.maintained maintained_dated ?_ ha).2.2
  intro settings law sink now g started
  refine ⟨atRest_start started, ?_⟩
  intro timer generation hcurrent
  -- Nothing is armed on a fresh engine.
  obtain ⟨-, rfl⟩ := start_eq_ok_iff.mp started
  cases timer <;> cases hcurrent

omit [CongestionLaw κ] in
/-- While losses are repaired or a probe is out, the retransmission timer is armed. -/
theorem underway_of_atRest (hrun : g.Running) (hrest : g.control.AtRest)
    (hlt : g.board.una < g.board.top) (hstage : g.schedule.stage ≠ .steady) : g.Underway := by
  obtain ⟨timer, harmed, -⟩ := hrest.timed.one hlt
  cases timer with
  | rto => exact ⟨hrun, hlt, hstage, harmed⟩
  | tlp => exact absurd (hrest.timed.steady harmed) hstage

/-- A call to `g` while the host holds `held`, with the engine it leaves and its answer. The host
holds what is armed; it may have dropped a timer that fires. -/
inductive Answers (g : Engine κ) (held : Option (Timer × Nat)) : Engine κ → Actions → Prop
  | send (range : SeqRange) (flags : Flags) (now : Nat) {actions : Actions} (fresh : flags.IsFresh)
      (holds : g.schedule.timers.Matches held)
      (answer : (g.onPacketSent range flags now).2 = .ok actions) :
      Answers g held (g.onPacketSent range flags now).1 actions
  | ack (a : Ack) (now : Nat) {actions : Actions} (holds : g.schedule.timers.Matches held)
      (answer : (g.onAck a now).2 = .ok actions) : Answers g held (g.onAck a now).1 actions
  | fire (timer : Timer) (generation : Nat) (hasData : Bool) (now : Nat) {actions : Actions}
      (holds : g.schedule.timers.Matches held ∨ held = none)
      (current : g.schedule.timers.isCurrent timer generation = true)
      (answer : (g.onTimeout timer generation hasData now).2 = .ok actions) :
      Answers g held (g.onTimeout timer generation hasData now).1 actions

theorem Reachable.reply_sent (h : g.Reachable first) {x : SeqRange} {flags : Flags}
    {before : Option (Timer × Nat)} (hf : flags.IsFresh) (hm : g.schedule.timers.Matches before)
    (hok : (g.onPacketSent x flags now).2 = .ok actions) :
    Reply before (g.onPacketSent x flags now).1 [] actions := by
  have ha := (guarded_ok hok).1
  have hrun := h.running_of ha
  obtain ⟨hx, hs, htaken⟩ := hrun.send_taken hf hok
  obtain ⟨timing, htiming, -, hhanded⟩ := hrun.sound.processSent_answer hx hs hf now
  have hrunning := Sustains.running_processSent hrun hx hs hf now
  rw [htaken] at htiming hhanded hrunning
  injection htiming with htiming
  subst htiming
  exact ⟨hrunning, fun hne => absurd rfl hne, Actions.sendsOnly_nil, Actions.startBelow_nil,
    ⟨_, hhanded, fun _ => hm⟩, hhanded.not_matches (h.dated ha) hm⟩

theorem Reachable.reply_acked (h : g.Reachable first) {a : Ack} {before : Option (Timer × Nat)}
    (hm : g.schedule.timers.Matches before) (hok : (g.onAck a now).2 = .ok actions) :
    ∃ sends timing, actions = sends ++ timing ∧ Reply before (g.onAck a now).1 sends timing := by
  have ha := (guarded_ok hok).1
  have hrun := h.running_of ha
  obtain ⟨hle, htaken⟩ := hrun.ack_taken hok
  obtain ⟨timing, htiming, hfooting, hhanded⟩ := hrun.sound.processAck_answer hle now
  obtain ⟨hrelabelled, asked, hasked, hbelow⟩ := hrun.onAck hle now
  have hrest := atRest_acked hrun hle now (h.atRest ha)
  have hrunning := (Sustains.ack maintained_true ⟨hrun, trivial⟩ a now).1
  have htop : (g.onAck a now).1.board.top = g.board.top :=
    hrelabelled.edges.2.trans (hrun.sound.acked_top hle now)
  rw [htaken] at htiming hfooting hhanded hrest
  dsimp only at htiming hfooting hhanded hrest
  injection htiming with htiming
  rw [hok] at hasked
  injection hasked with hasked
  subst hasked htiming
  refine ⟨_, timing, rfl, hrunning, ?_, sendsOnly_planSends _ _, ?_, ⟨_, hhanded, fun _ => hm⟩,
    hhanded.not_matches (h.dated ha) hm⟩
  · intro hne
    -- An episode or a timeout goes on until what was outstanding at its start is acknowledged.
    have hstage := planSends_repairs _ hne
    rw [← footing_stage hfooting] at hstage
    have hlt : (g.onAck a now).1.board.una < (g.onAck a now).1.board.top := by
      rcases hstage with hr | hr
      · obtain ⟨-, -, -, hpoint⟩ := hrest.staged.fits hr
        exact Nat.lt_of_lt_of_le (hrest.episodeAhead hr) hpoint
      · obtain ⟨-, -, -, -, -, hpoint⟩ := hrest.staged.fits hr
        exact Nat.lt_of_lt_of_le (hrest.timeoutAhead hr) hpoint
    apply underway_of_atRest hrunning hrest hlt
    intro hsteady
    rcases hstage with hr | hr
    · cases hr.symm.trans hsteady
    · cases hr.symm.trans hsteady
  · intro x n kind hx
    rw [htop]
    exact hbelow x n kind (List.mem_append_left _ hx)

theorem Reachable.reply_fired (h : g.Reachable first) {timer : Timer} {generation : Nat}
    {hasData : Bool} {before : Option (Timer × Nat)}
    (hm : g.schedule.timers.Matches before ∨ before = none)
    (hcurrent : g.schedule.timers.isCurrent timer generation = true)
    (hok : (g.onTimeout timer generation hasData now).2 = .ok actions) :
    ∃ sends timing, actions = sends ++ timing ∧
      Reply before (g.onTimeout timer generation hasData now).1 sends timing := by
  have ha := (guarded_ok hok).1
  have hrun := h.running_of ha
  obtain ⟨hlt, -⟩ := outstanding_of_current hrun hcurrent (h.atRest ha)
  obtain ⟨sends, timing, hactions, honly, hstage, ⟨duration, renewed, htiming⟩, hhanded⟩ :=
    processTimeout_answer g hcurrent hlt hasData now
  have hrest := atRest_fired hrun hcurrent hasData now (h.atRest ha)
  have hbelow : (g.processTimeout timer generation hasData now).2.StartBelow g.board.top :=
    hrun.sound.startBelow_processTimeout timer generation hasData
  obtain ⟨huna, htop⟩ := (relabelled_processTimeout g timer generation hasData now).edges
  have hrunning : (g.onTimeout timer generation hasData now).1.Running :=
    (Sustains.fire maintained_true.aside ⟨hrun, trivial⟩ timer generation hasData now).1
  rw [fire_taken hok] at hactions hstage hhanded hrest hbelow huna htop
  dsimp only at hactions hstage hhanded hrest hbelow huna htop
  subst hactions htiming
  refine ⟨sends, _, rfl, hrunning, ?_, honly, ?_, ⟨_, hhanded, fun hnil => nomatch hnil⟩, ?_⟩
  · intro hne
    exact underway_of_atRest hrunning hrest (by rwa [huna, htop]) (hstage hne)
  · intro x n kind hx
    rw [htop]
    exact hbelow x n kind (List.mem_append_left _ hx)
  · intro _
    generalize (g.onTimeout timer generation hasData now).1.schedule.timers = t' at hhanded
    cases hhanded with
    | armed _ expiry _ =>
      exact TimerTable.not_matches_rearmed (h.dated ha) hm
        (TimerTable.generation_rearmed_ne _ .rto timer expiry).2

theorem Reachable.reply (h : g.Reachable first) {before : Option (Timer × Nat)}
    (call : g.Answers before g' actions) :
    ∃ sends timing, actions = sends ++ timing ∧ Reply before g' sends timing := by
  cases call with
  | send range flags now fresh holds answer =>
    exact ⟨[], actions, rfl, h.reply_sent fresh holds answer⟩
  | ack a now holds answer => exact h.reply_acked holds answer
  | fire timer generation hasData now holds current answer =>
    exact h.reply_fired holds current answer

/-- The answer to a call is carried out while the host holds what is armed. If all of it is carried
out, the host holds what is armed again. If a send fails at the host, nobody's timers were touched,
and the host holds what is armed exactly if the answer had nothing to tell about the timers. -/
theorem Reachable.hands_over (h : g.Reachable first) (hc : host.Clocked held)
    (call : g.Answers (held w) g' actions) (now : Nat) :
    (Succeeds (g'.dispatch host w actions now).2 ∧
      (g'.dispatch host w actions now).1.1.schedule.timers.Matches
        (held (g'.dispatch host w actions now).1.2)) ∨
    ((∃ m, (g'.dispatch host w actions now).2 = .error (.transmitFailed m)) ∧
      (g'.dispatch host w actions now).1.1.schedule.timers = g'.schedule.timers ∧
      held (g'.dispatch host w actions now).1.2 = held w ∧
      ((g'.dispatch host w actions now).1.1.schedule.timers.Matches
        (held (g'.dispatch host w actions now).1.2) ↔ actions.timer? = none)) := by
  obtain ⟨sends, timing, rfl, hreply⟩ := h.reply call
  rcases hreply.dispatch hc now with hdone | ⟨hfailed, htimers, hheld⟩
  · exact .inl hdone
  · refine .inr ⟨hfailed, htimers, hheld, ?_⟩
    obtain ⟨t, ht, -⟩ := hreply.handed
    rw [htimers, hheld, Actions.timer?_append hreply.sendsOnly ht.isTimer]
    exact hreply.matches_iff

/-- A probe of which the link takes half: the host holds the retransmission timer that is armed. -/
theorem hands_over_after_short_probe : ∃ (g : Engine FixedWindow) (actions : Actions),
    (g.Reachable 0 ∧ (Host.ofLink fun x => .ok (x.length / 2)).Clocked id ∧
      g.Answers (some (.tlp, 1)) (g.onTimeout .tlp 1 false 1000000000).1 actions) ∧
    Succeeds ((g.onTimeout .tlp 1 false 1000000000).1.dispatch
      (Host.ofLink fun x => .ok (x.length / 2)) (some (.tlp, 1)) actions 1000000000).2 ∧
    ((g.onTimeout .tlp 1 false 1000000000).1.dispatch
      (Host.ofLink fun x => .ok (x.length / 2)) (some (.tlp, 1)) actions 1000000000).1.2
        = some (.rto, 3) := by
  have started : Engine.start {} (FixedWindow.ofSettings {}) .discard 0 0 = .ok _ := rfl
  have sent := (Reachable.start started).step (.send ⟨0, 1460⟩ {} 0 ⟨rfl, rfl⟩)
  have hc := Host.clocked_ofLink fun x => .ok (x.length / 2)
  have armed := TimerTable.matches_rearmed {} .tlp 866000000
  refine ⟨_, _, ⟨sent, hc, .fire .tlp 1 false 1000000000 (.inl armed) rfl rfl⟩, ?_⟩
  rcases sent.hands_over (w := (some (.tlp, 1) : Option (Timer × Nat))) hc
    (.fire .tlp 1 false 1000000000 (.inl armed) rfl rfl) 1000000000 with ⟨hok, hm⟩ | ⟨⟨m, hm⟩, -⟩
  · exact ⟨hok, (hm .rto 3).mp rfl⟩
  · cases hm

/-- A probe that fails at the link: the retransmission timer is armed, and the host never hears of
it. -/
theorem not_handed_over_after_failed_probe : ∃ (g : Engine FixedWindow) (actions : Actions),
    g.Reachable 0 ∧ (Host.ofLink fun _ => .error (.transmitFailed "link down")).Clocked id ∧
    g.Answers (some (.tlp, 1)) (g.onTimeout .tlp 1 false 1000000000).1 actions ∧
    let done := (g.onTimeout .tlp 1 false 1000000000).1.dispatch
      (Host.ofLink fun _ => .error (.transmitFailed "link down")) (some (.tlp, 1)) actions 1000000000
    done.2 = .error (.transmitFailed "link down") ∧
    done.1.1.schedule.timers.isCurrent .rto 3 = true ∧ done.1.2 ≠ some (.rto, 3) ∧
    ¬ done.1.1.schedule.timers.Matches done.1.2 := by
  have started : Engine.start {} (FixedWindow.ofSettings {}) .discard 0 0 = .ok _ := rfl
  have sent := (Reachable.start started).step (.send ⟨0, 1460⟩ {} 0 ⟨rfl, rfl⟩)
  have armed := TimerTable.matches_rearmed {} .tlp 866000000
  refine ⟨_, _, sent, Host.clocked_ofLink _, .fire .tlp 1 false 1000000000 (.inl armed) rfl rfl, rfl,
    rfl, by decide, ?_⟩
  intro hm
  cases (hm .rto 3).mp rfl

end Engine

end LossRecovery
