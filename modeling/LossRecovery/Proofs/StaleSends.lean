import LossRecovery.Proofs.Handover
import LossRecovery.Proofs.LossByTime
import LossRecovery.Proofs.Persistence
import LossRecovery.Proofs.Plans

/-!
# `LossRecovery.Proofs.StaleSends` — what is handed to the host, and whether it is still missing

The actions of a call may be carried out long after it. A send is judged when its turn comes, after the
sends before it: data that has arrived meanwhile is not sent again. A probe carrying new data is not
judged, so it goes out even if its data was sent and has arrived since.

## Contents
- `Scoreboard.Coherent.hasMissing_iff`: what a send is judged by, byte by byte.
- `Engine.Attempt`, `Engine.attempts`: the sends that are handed to the host, each with the engine at that
  moment; `Host.logging`, `dispatch_logging`: they are what the host is asked to transmit.
- `Running.of_mem_attemptsAll`: one send, then all that are carried out.
- `Answered`: actions that some earlier call asked for; `Answered.attempts_missing`.
-/

namespace LossRecovery

/-! ## Missing bytes of a range -/

namespace Scoreboard

variable {b : Scoreboard} {x : SeqRange} {seq : Nat}

theorem Missing.not_arrived (h : b.Missing seq) : ¬ b.Arrived seq := by
  obtain ⟨hlo, -, hs⟩ := h
  rintro (hlt | hsacked)
  · omega
  · rw [hs] at hsacked
    cases hsacked

namespace Coherent

theorem hasMissing_iff (h : b.Coherent) :
    b.hasMissing x = true ↔ ∃ seq, x.contains seq = true ∧ b.Missing seq := by
  unfold hasMissing
  rw [List.any_eq_true]
  by_cases hx : x.start < x.stop
  · constructor
    · rintro ⟨r, hr, hm⟩
      obtain ⟨hrb, ho⟩ := (mem_overlapping hx).mp hr
      have hne := (h.tiles.bounds hrb).2.1
      have hmeet := (SendRecord.overlaps_iff hne hx).mp ho
      refine ⟨max r.start x.start, SeqRange.contains_iff.mpr (by omega), h.missing_iff.mpr
        ⟨r, ⟨hrb, SendRecord.contains_iff.mpr (by omega)⟩, by simpa using hm⟩⟩
    · rintro ⟨seq, hc, hm⟩
      obtain ⟨r, hr, hd⟩ := h.missing_iff.mp hm
      exact ⟨r, (mem_overlapping hx).mpr ⟨hr.1, SendRecord.overlaps_of_contains hr.2 hc⟩, by simp [hd]⟩
  · have hempty : b.overlapping x = [] := if_pos (SeqRange.isEmpty_iff.mpr (Nat.le_of_not_lt hx))
    rw [hempty]
    constructor
    · rintro ⟨r, hr, -⟩
      cases hr
    · rintro ⟨seq, hc, -⟩
      rw [SeqRange.contains_iff] at hc
      omega

/-- A byte that was not sent has not arrived. -/
theorem not_arrived_of_top_le (h : b.Coherent) (hseq : b.top ≤ seq) : ¬ b.Arrived seq := by
  have hle := h.le
  rintro (hlt | hsacked)
  · omega
  · rw [h.sackedAt_eq_false (.inr hseq)] at hsacked
    cases hsacked

end Coherent

end Scoreboard

/-! ## Sends that are handed to the host -/

/-- The host, with a log of what it was asked to transmit. -/
def Host.logging {σ : Type} (host : Host σ) : Host (σ × List (SeqRange × Flags)) where
  transmit w range flags :=
    let transmission := host.transmit w.1 range flags
    { result := transmission.result
      host := (transmission.host, w.2 ++ [(range, flags)])
      events := transmission.events }
  arm w timer duration generation := (host.arm w.1 timer duration generation, w.2)
  cancel w := (host.cancel w.1, w.2)

namespace Engine

variable {κ σ : Type}

/-- A send that is handed to the host, with the engine at that moment. -/
structure Attempt (κ : Type) where
  engine : Engine κ
  range : SeqRange
  kind : SendKind

/-- The sends that are handed to the host while actions are carried out, in order. -/
def attemptsAll (host : Host σ) (now : Nat) (g : Engine κ) (w : σ) : Actions → List (Attempt κ)
  | [] => []
  | .send range _ kind :: rest =>
    let sent := g.sendRange host w range kind now
    let own : List (Attempt κ) := if g.stillWanted range kind then [⟨g, range, kind⟩] else []
    match sent.2.2 with
    | .error _ => own
    | .ok _ => own ++ attemptsAll host now sent.1 sent.2.1 rest
  | action :: rest => attemptsAll host now g (applyTimer host g w action) rest

/-- The sends that are handed to the host when the actions of a call are carried out. -/
def attempts (host : Host σ) (g : Engine κ) (w : σ) (actions : Actions) (now : Nat) :
    List (Attempt κ) :=
  if g.isAborted then [] else g.attemptsAll host now w actions

/-- What the host is asked to transmit in an attempt. -/
def Attempt.asked (a : Attempt κ) : SeqRange × Flags := (a.range, a.kind.flags)

section Logging

variable (host : Host σ) (now : Nat)

theorem applyTimer_logging (g : Engine κ) (w : σ) (log : List (SeqRange × Flags)) (action : Action) :
    applyTimer host.logging g (w, log) action = (applyTimer host g w action, log) := by
  cases action with
  | send range n kind => rfl
  | arm timer duration generation =>
    unfold applyTimer
    dsimp only
    split <;> rfl
  | cancel =>
    unfold applyTimer
    dsimp only
    split <;> rfl

theorem foldl_applyTimer_logging (g : Engine κ) (w : σ) (log : List (SeqRange × Flags))
    (actions : Actions) : actions.foldl (applyTimer host.logging g) (w, log)
      = (actions.foldl (applyTimer host g) w, log) := by
  induction actions generalizing w with
  | nil => rfl
  | cons action rest ih => rw [List.foldl_cons, applyTimer_logging, ih, List.foldl_cons]

/-- A log changes nothing about a send, and says whether it was handed over. -/
theorem sendRange_logging (g : Engine κ) (w : σ) (log : List (SeqRange × Flags)) (range : SeqRange)
    (kind : SendKind) :
    g.sendRange host.logging (w, log) range kind now =
      let sent := g.sendRange host w range kind now
      (sent.1, (sent.2.1, log ++ if g.stillWanted range kind then [(range, kind.flags)] else []),
        sent.2.2) := by
  unfold sendRange
  cases hw : g.stillWanted range kind with
  | false => simp
  | true =>
    simp only [Bool.not_true, Bool.false_eq_true, if_false, if_true, Host.logging]
    split
    · rfl
    · split
      · rfl
      · split
        · rfl
        · rw [← foldl_applyTimer_logging]
          rfl

theorem dispatchAll_logging (g : Engine κ) (w : σ) (log : List (SeqRange × Flags)) (total : Nat)
    (actions : Actions) :
    g.dispatchAll host.logging now (w, log) total actions =
      let done := g.dispatchAll host now w total actions
      (done.1, (done.2.1, log ++ (g.attemptsAll host now w actions).map Attempt.asked), done.2.2) := by
  induction actions generalizing g w log total with
  | nil => simp [dispatchAll, attemptsAll]
  | cons action rest ih =>
    cases action with
    | send range n kind =>
      unfold dispatchAll attemptsAll
      rw [sendRange_logging]
      dsimp only
      cases (g.sendRange host w range kind now).2.2 with
      | error e =>
        dsimp only
        split <;> rfl
      | ok bytes =>
        dsimp only
        rw [ih]
        split <;> simp [Attempt.asked]
    | arm timer duration generation =>
      unfold dispatchAll attemptsAll
      rw [applyTimer_logging, ih]
    | cancel =>
      unfold dispatchAll attemptsAll
      rw [applyTimer_logging, ih]

/-- What the host is asked to transmit when actions are carried out are the attempts, in order. -/
theorem dispatch_logging (g : Engine κ) (w : σ) (log : List (SeqRange × Flags)) (actions : Actions) :
    (g.dispatch host.logging (w, log) actions now).1.2.2
      = log ++ (g.attempts host w actions now).map Attempt.asked := by
  unfold dispatch attempts
  split
  · exact (List.append_nil log).symm
  · rw [dispatchAll_logging]
    dsimp only
    split <;> rfl

end Logging

/-! ## What is handed over -/

variable {g : Engine κ} {actions : Actions} {first : Nat}

/-- What is still wanted is missing in part, unless it is a probe with new data. -/
theorem missing_of_stillWanted (hb : g.board.Coherent) {range : SeqRange} {kind : SendKind}
    (h : g.stillWanted range kind = true) (hkind : kind ≠ .newDataProbe) :
    ∃ seq, range.contains seq = true ∧ g.board.Missing seq := by
  have hjudged : g.board.hasMissing ⟨max range.start g.board.una, range.stop⟩ = true := by
    simpa [stillWanted, hkind] using h
  obtain ⟨seq, hc, hm⟩ := hb.hasMissing_iff.mp hjudged
  rw [SeqRange.contains_iff] at hc
  exact ⟨seq, SeqRange.contains_iff.mpr ⟨Nat.le_trans (Nat.le_max_left _ _) hc.1, hc.2⟩, hm⟩

variable [CongestionLaw κ]

/-- Every attempt is one of the sends, judged by a running engine to be still wanted. -/
theorem Running.of_mem_attemptsAll (h : g.Running) (host : Host σ) (w : σ) (now : Nat)
    {a : Attempt κ} (ha : a ∈ g.attemptsAll host now w actions) :
    a.engine.Running ∧ a.engine.stillWanted a.range a.kind = true ∧
      ∃ n, .send a.range n a.kind ∈ actions := by
  -- Along the actions. A send leaves a running engine to the sends after it, or ends the walk.
  induction actions generalizing g w with
  | nil => cases ha
  | cons action rest ih =>
    have later : ∀ {g : Engine κ} (w : σ), g.Running → a ∈ g.attemptsAll host now w rest →
        a.engine.Running ∧ a.engine.stillWanted a.range a.kind = true ∧
          ∃ n, .send a.range n a.kind ∈ action :: rest := by
      intro g w hg hmem
      obtain ⟨hrun, hwanted, n, hn⟩ := ih hg w hmem
      exact ⟨hrun, hwanted, n, List.mem_cons_of_mem _ hn⟩
    cases action with
    | send range n kind =>
      have own : a ∈ (if g.stillWanted range kind then [⟨g, range, kind⟩] else [] : List (Attempt κ)) →
          a.engine.Running ∧ a.engine.stillWanted a.range a.kind = true ∧
            ∃ m, .send a.range m a.kind ∈ Action.send range n kind :: rest := by
        intro hmem
        split at hmem
        · next hw =>
          rw [List.mem_singleton.mp hmem]
          exact ⟨h, hw, n, List.mem_cons_self⟩
        · cases hmem
      have hone := Sustains.sendRange host now maintained_true.aside.sends isFresh_flags
        ⟨h, trivial⟩ w range kind
      unfold attemptsAll at ha
      dsimp only at ha
      cases hres : (g.sendRange host w range kind now).2.2 with
      | error e =>
        rw [hres] at ha
        exact own ha
      | ok bytes =>
        rw [hres] at ha hone
        rcases List.mem_append.mp ha with hmem | hmem
        · exact own hmem
        · rcases hone with ⟨⟨hrun, -⟩, -⟩ | ⟨c, hc, -⟩
          · exact later _ hrun hmem
          · cases hc
    | arm timer duration generation => exact later _ h ha
    | cancel => exact later _ h ha

/-- `actions` were the answer to a call of a run. It left the engine `asker`, and the run has led on to
`g` since. -/
inductive Answered (first : Nat) (actions : Actions) : Engine κ → Engine κ → Prop
  | send {g : Engine κ} (before : g.Reachable first) (range : SeqRange) (flags : Flags) (now : Nat)
      (fresh : flags.IsFresh) (ok : (g.onPacketSent range flags now).2 = .ok actions) :
      Answered first actions (g.onPacketSent range flags now).1 (g.onPacketSent range flags now).1
  | ack {g : Engine κ} (before : g.Reachable first) (a : Ack) (now : Nat)
      (ok : (g.onAck a now).2 = .ok actions) :
      Answered first actions (g.onAck a now).1 (g.onAck a now).1
  | fire {g : Engine κ} (before : g.Reachable first) (timer : Timer) (generation : Nat)
      (hasData : Bool) (now : Nat) (ok : (g.onTimeout timer generation hasData now).2 = .ok actions) :
      Answered first actions (g.onTimeout timer generation hasData now).1
        (g.onTimeout timer generation hasData now).1
  | later {asker g g' : Engine κ} (before : Answered first actions asker g) (call : Step g g') :
      Answered first actions asker g'

namespace Answered

variable {asker : Engine κ}

theorem reachable (h : Answered first actions asker g) : g.Reachable first := by
  induction h with
  | send before range flags now fresh _ => exact before.step (.send range flags now fresh)
  | ack before a now _ => exact before.step (.ack a now)
  | fire before timer generation hasData now _ =>
    exact before.step (.fire timer generation hasData now)
  | later _ call ih => exact ih.step call

/-- What was asked for was sound in the engine that asked for it. -/
theorem asked_soundly (h : Answered first actions asker g) :
    asker.Warrants actions ∧ 0 < asker.settings.mss := by
  -- An engine that answered was not stopped, so its settings are in force.
  have hmss : ∀ {g : Engine κ}, g.Reachable first → g.Running → 0 < g.settings.mss :=
    fun hg hrun => (hg.atRest hrun.isAborted).mss_pos
  induction h with
  | @send g before range flags now fresh ok =>
    have hrun := before.running_of (guarded_ok ok).1
    obtain ⟨hx, hs, htaken⟩ := hrun.send_taken fresh ok
    have hleft := Sustains.running_processSent hrun hx hs fresh now
    obtain ⟨timing, hanswer, -, hhanded⟩ := hrun.sound.processSent_answer hx hs fresh now
    rw [htaken] at hanswer hleft
    injection hanswer with heq
    subst heq
    exact ⟨(warrants_nil _).append_timing hhanded.isTimer,
      hmss (before.step (.send range flags now fresh)) hleft⟩
  | @ack g before a now ok =>
    have hrun := before.running_of (guarded_ok ok).1
    obtain ⟨hle, htaken⟩ := hrun.ack_taken ok
    have hleft := Sustains.ack maintained_true ⟨hrun, trivial⟩ a now
    have hpos := hmss (before.step (.ack a now)) hleft.1
    have hwarrants := hrun.sound.processAck_warrants hle (htaken ▸ hpos) (congrArg Prod.snd htaken)
    rw [htaken] at hwarrants
    exact ⟨hwarrants.1, hpos⟩
  | @fire g before timer generation hasData now ok =>
    have haborted := (guarded_ok ok).1
    have hrun := before.running_of haborted
    have hleft := Sustains.fire maintained_true.aside ⟨hrun, trivial⟩ timer generation hasData now
    have hwarrants := hrun.processTimeout_warrants (before.atRest haborted) timer generation hasData now
    rw [fire_taken ok] at hwarrants
    exact ⟨hwarrants.1, hmss (before.step (.fire timer generation hasData now)) hleft.1⟩
  | later _ _ ih => exact ih

/-- What is asked to be sent is not empty. -/
theorem start_lt (h : Answered first actions asker g) {x : SeqRange} {n : Nat} {kind : SendKind}
    (hx : .send x n kind ∈ actions) : x.start < x.stop := by
  obtain ⟨hw, hmss⟩ := h.asked_soundly
  have heach := (hw.each x n kind hx).1
  cases kind with
  | retransmit => exact heach.1
  | tailProbe => exact heach.1.1
  | newDataProbe =>
    obtain ⟨rfl, -⟩ := heach
    exact Nat.lt_add_of_pos_right hmss

/-- What is handed to the host when the actions of an earlier call are carried out. What is sent again is
missing at that moment, at least in part. A probe with new data carries the segment that was the next one
when it was asked for, and it alone can be handed over when all of its data has arrived: that data was
sent since then. -/
theorem attempts_missing (h : Answered first actions asker g) (host : Host σ) (w : σ) (now : Nat) :
    (g.dispatch host.logging (w, []) actions now).1.2.2
      = (g.attempts host w actions now).map Attempt.asked ∧
    ∀ a ∈ g.attempts host w actions now,
      (∃ n, .send a.range n a.kind ∈ actions) ∧
      (a.kind ≠ .newDataProbe →
        ∃ seq, a.range.contains seq = true ∧ a.engine.board.Missing seq) ∧
      (a.kind = .newDataProbe →
        a.range = ⟨asker.board.top, asker.board.top + asker.settings.mss⟩) ∧
      ((∀ seq, a.range.contains seq = true → a.engine.board.Arrived seq) →
        a.kind = .newDataProbe ∧ a.range.stop ≤ a.engine.board.top) := by
  refine ⟨dispatch_logging host now g w [] actions, ?_⟩
  intro a ha
  cases haborted : g.isAborted with
  | true =>
    rw [attempts, if_pos haborted] at ha
    cases ha
  | false =>
    rw [attempts, if_neg (by rw [haborted]; exact Bool.false_ne_true)] at ha
    obtain ⟨hrun, hwanted, n, hn⟩ :=
      (h.reachable.running_of haborted).of_mem_attemptsAll host w now ha
    have hb := hrun.sound.board
    have hmissing := missing_of_stillWanted hb hwanted
    refine ⟨⟨n, hn⟩, hmissing, ?_, ?_⟩
    · intro hkind
      have heach := (h.asked_soundly.1.each _ _ _ hn).1
      rw [hkind] at heach
      exact heach.1
    · intro hall
      constructor
      · by_contra hkind
        obtain ⟨seq, hc, hm⟩ := hmissing hkind
        exact hm.not_arrived (hall seq hc)
      · -- Else its last byte was not sent yet.
        by_contra hsent
        have hne := h.start_lt hn
        have hlast : a.range.contains (a.range.stop - 1) = true :=
          SeqRange.contains_iff.mpr (by omega)
        exact hb.not_arrived_of_top_le (by omega) (hall _ hlast)

end Answered

/-- Two lost segments are asked for again, and the first of them arrives before that is carried out. The
second one is handed over, and it is missing. -/
theorem attempts_missing_second : ∃ (g : Engine FixedWindow) (asker : Engine FixedWindow)
    (actions : Actions) (host : Host (Option (Timer × Nat))),
    Answered 0 actions asker g ∧
    actions.sends = [(⟨0, 1460⟩, .retransmit), (⟨1460, 2920⟩, .retransmit)] ∧
    ∃ a ∈ g.attempts host none actions 45000000, a.range = ⟨1460, 2920⟩ ∧
      (g.dispatch host.logging (none, []) actions 45000000).1.2.2 = [a.asked] ∧
      ∃ seq, a.range.contains seq = true ∧ a.engine.board.Missing seq := by
  have started : Engine.start {} (FixedWindow.ofSettings {}) .discard 0 0 = .ok _ := rfl
  have one := (Reachable.start started).step (.send ⟨0, 1460⟩ {} 0 ⟨rfl, rfl⟩)
  have two := one.step (.send ⟨1460, 2920⟩ {} 1 ⟨rfl, rfl⟩)
  have three := two.step (.send ⟨2920, 4380⟩ {} 20000000 ⟨rfl, rfl⟩)
  have asked : Answered 0
      [.send ⟨0, 1460⟩ 1 .retransmit, .send ⟨1460, 2920⟩ 1 .retransmit, .arm .rto 200000000 5] _ _ :=
    .ack three { cumulative := 0, blocks := [⟨2920, 4380⟩] } 40000000 rfl
  have arrived := asked.later (.ack { cumulative := 1460 } 45000000)
  obtain ⟨hlog, hall⟩ := arrived.attempts_missing (Host.ofLink fun x => .ok x.length) none 45000000
  obtain ⟨-, hmissing, -⟩ := hall _ List.mem_cons_self
  exact ⟨_, _, _, _, arrived, rfl, _, List.mem_cons_self, rfl, hlog, hmissing nofun⟩

/-- A probe with new data is asked for. Before it is carried out, the data is sent and acked. -/
theorem arrived_data_handed_over : ¬ ∀ (actions : Actions) (asker g : Engine FixedWindow)
    (host : Host (Option (Timer × Nat))) (now : Nat), Answered 0 actions asker g →
    ∀ a ∈ g.attempts host none actions now,
      ∃ seq, a.range.contains seq = true ∧ ¬ a.engine.board.Arrived seq := by
  intro missing
  have started : Engine.start {} (FixedWindow.ofSettings {}) .discard 0 0 = .ok _ := rfl
  have one := (Reachable.start started).step (.send ⟨0, 1460⟩ {} 0 ⟨rfl, rfl⟩)
  have asked : Answered 0 [.send ⟨1460, 2920⟩ 1 .newDataProbe, .arm .rto 1000000000 3] _ _ :=
    .fire one .tlp 1 true 866000000 rfl
  have acked := (asked.later (.send ⟨1460, 2920⟩ {} 1000000000 ⟨rfl, rfl⟩)).later
    (.ack { cumulative := 2920 } 1050000000)
  obtain ⟨seq, hin, hout⟩ := missing _ _ _ (Host.ofLink fun x => .ok x.length) 1050000000 acked
    _ List.mem_cons_self
  exact hout (.inl (SeqRange.contains_iff.mp hin).2)

end Engine

end LossRecovery
