import LossRecovery.Proofs.SendSteps

/-!
# `LossRecovery.Proofs.Asked` — the ranges an engine asks to send

Whatever a call asks to send starts at or below the right edge. Since that edge never moves back, a
send stays so for as long as the sender keeps it.

## Contents
- `Actions.StartBelow`: all sends start at or below an edge.
- `startBelow_planResends` and its like: the planners.
- `Sound.startBelow_respond`, `Sound.startBelow_processTimeout`, `startBelow_processSent`: the calls.
-/

namespace LossRecovery

namespace Actions

/-- All sends start at or below an edge. -/
def StartBelow (as : Actions) (edge : Nat) : Prop :=
  ∀ range n kind, Action.send range n kind ∈ as → range.start ≤ edge

variable {as cs : Actions} {edge edge' : Nat}

theorem StartBelow.mono (h : as.StartBelow edge) (he : edge ≤ edge') : as.StartBelow edge' :=
  fun range n kind hm => Nat.le_trans (h range n kind hm) he

theorem StartBelow.append (h : as.StartBelow edge) (h' : cs.StartBelow edge) :
    Actions.StartBelow (as ++ cs) edge := by
  intro range n kind hm
  rcases List.mem_append.mp hm with hm | hm
  · exact h range n kind hm
  · exact h' range n kind hm

theorem startBelow_nil : Actions.StartBelow [] edge := fun _ _ _ hm => absurd hm List.not_mem_nil

theorem startBelow_arm (timer : Timer) (duration generation : Nat) :
    Actions.StartBelow [.arm timer duration generation] edge := by
  intro range n kind hm
  exact Action.noConfusion (List.mem_singleton.mp hm)

end Actions

open Actions

variable {mss edge : Nat}

/-! ## Planners -/

theorem startBelow_spendBudget {left : Nat} {rs : List SeqRange} (h : ∀ r ∈ rs, r.start ≤ edge) :
    (spendBudget mss left rs).StartBelow edge := by
  induction rs generalizing left with
  | nil => exact startBelow_nil
  | cons r rest ih =>
    unfold spendBudget
    split
    · exact startBelow_nil
    · intro range n kind hm
      rcases List.mem_cons.mp hm with he | hm
      · injection he with he
        rw [he]
        exact h r List.mem_cons_self
      · exact ih (fun q hq => h q (List.mem_cons_of_mem _ hq)) range n kind hm

theorem startBelow_planResends {lost : List SendRecord} {budget : Nat}
    (h : ∀ r ∈ lost, r.start ≤ edge) : (planResends lost budget mss).StartBelow edge := by
  apply startBelow_spendBudget
  intro x hx
  rw [Sorting.mem_sortByKey] at hx
  obtain ⟨r, hr, rfl⟩ := List.mem_map.mp hx
  exact h r (List.mem_filter.mp hr).1

namespace Scoreboard.Coherent

variable {b : Scoreboard} {r : SendRecord}

theorem start_le_top (h : b.Coherent) (hr : r ∈ b.records) : r.start ≤ b.top := by
  have := h.tiles.bounds hr
  omega

/-- The records presumed lost are records of the scoreboard. -/
theorem mem_of_lost (h : b.Coherent) {a : RecentAck} {window dupacks now : Nat}
    (hr : r ∈ a.lost b window dupacks now) : r ∈ b.records :=
  (h.mem_ordered.mp (List.mem_filter.mp hr).1).1

end Scoreboard.Coherent

namespace Engine

variable {κ : Type} [CongestionLaw κ] {g : Engine κ} {now : Nat}

omit [CongestionLaw κ] in
theorem Sound.mem_of_detectLosses (h : g.Sound) {r : SendRecord} (hr : r ∈ g.detectLosses now) :
    r ∈ g.board.records := by
  unfold detectLosses at hr
  split at hr
  · exact absurd hr List.not_mem_nil
  · exact h.board.mem_of_lost hr

theorem Sound.startBelow_planSends (h : g.Sound) {lost : List SendRecord}
    (hl : ∀ r ∈ lost, r.start ≤ g.board.top) : (g.planSends lost).2.StartBelow g.board.top := by
  unfold planSends
  split
  · exact startBelow_planResends hl
  · unfold planGoBackN
    split
    · exact startBelow_nil
    · apply startBelow_planResends
      intro r hr
      exact h.board.start_le_top
        ((g.board.overlapping_sublist _).subset (List.mem_filter.mp hr).1)
  · exact startBelow_nil

omit [CongestionLaw κ] in
theorem startBelow_rearm (g : Engine κ) (edge : Nat) :
    Actions.StartBelow [(g.rearm now).2] edge := by
  unfold rearm
  split <;> exact startBelow_arm _ _ _

omit [CongestionLaw κ] in
theorem startBelow_settleTimers (g : Engine κ) (prior : Stage) (o : AckOutcome) (edge : Nat) :
    (g.settleTimers prior o now).2.StartBelow edge := by
  unfold settleTimers
  split
  · unfold Schedule.cancel
    split
    · exact startBelow_nil
    · intro range n kind hm
      exact Action.noConfusion (List.mem_singleton.mp hm)
  · split
    · exact startBelow_rearm g edge
    · exact startBelow_nil

/-- What is asked for after an ack starts at or below the right edge. -/
theorem Sound.startBelow_respond (h : g.Sound) (prior : Stage) (ack : Ack) (o : AckOutcome)
    (now : Nat) {lost : List SendRecord} (hl : ∀ r ∈ lost, r.start ≤ g.board.top) :
    (g.respond prior ack o lost now).2.StartBelow g.board.top :=
  (h.startBelow_planSends hl).append (startBelow_settleTimers _ _ _ _)

/-! ## Firing timers -/

omit [CongestionLaw κ] in
theorem startBelow_probeFor (g : Engine κ) (h : g.Sound) (hasData : Bool) {range : SeqRange}
    {kind : SendKind} (hp : g.probeFor hasData = some (range, kind)) :
    range.start ≤ g.board.top := by
  unfold probeFor at hp
  dsimp only at hp
  split at hp
  · injection hp with hp
    injection hp with hr _
    rw [← hr]
  · obtain ⟨x, hx, he⟩ := Option.map_eq_some_iff.mp hp
    injection he with hr _
    obtain ⟨r, hr', hxr⟩ := Option.map_eq_some_iff.mp hx
    have hmem : r ∈ g.board.records := by
      unfold Scoreboard.highestMissing? at hr'
      exact List.mem_reverse.mp (List.mem_of_find?_eq_some hr')
    have hb := h.board.tiles.bounds hmem
    rw [← hr, ← hxr]
    show max (r.stop - g.settings.mss) r.start ≤ g.board.top
    omega

omit [CongestionLaw κ] in
theorem Sound.startBelow_fireProbe (h : g.Sound) (hasData : Bool) :
    (g.fireProbe hasData now).2.StartBelow g.board.top := by
  unfold fireProbe
  split
  · exact startBelow_nil
  · refine StartBelow.append ?_ (startBelow_arm _ _ _)
    split
    · next range kind hp =>
      intro range' n kind' hm
      have he := List.mem_singleton.mp hm
      injection he with he
      rw [he]
      exact startBelow_probeFor g h hasData hp
    · exact startBelow_nil

theorem Sound.startBelow_fireTimeout (h : g.Sound) :
    (g.fireTimeout now).2.StartBelow g.board.top := by
  have hc := relabelled_collapse g now
  obtain ⟨f, -, hb⟩ := hc.board
  have hs := hc.sound h
  unfold fireTimeout
  split
  · exact startBelow_nil
  · refine StartBelow.append ?_ (startBelow_arm _ _ _)
    unfold resendLowest
    split
    · exact startBelow_nil
    · next r hr =>
      apply startBelow_planResends
      intro q hq
      rw [List.mem_singleton.mp hq]
      have hmem : r ∈ (g.collapse now).board.records := List.mem_of_find?_eq_some hr
      have := hs.board.start_le_top hmem
      rw [hb] at this
      exact this

theorem Sound.startBelow_processTimeout (h : g.Sound) (timer : Timer) (generation : Nat)
    (hasData : Bool) :
    (g.processTimeout timer generation hasData now).2.StartBelow g.board.top := by
  unfold processTimeout
  split
  · have hk : Kept g { g with schedule := { g.schedule with
        timers := g.schedule.timers.stop timer } } := rfl
    cases timer with
    | tlp => exact (hk.sound h).startBelow_fireProbe hasData
    | rto => exact (hk.sound h).startBelow_fireTimeout
  · exact startBelow_nil

/-! ## Reports of sends -/

omit [CongestionLaw κ] in
theorem startBelow_accountSent (g : Engine κ) (sent edge : Nat) :
    (g.accountSent sent now).2.StartBelow edge := by
  unfold accountSent
  split
  · exact startBelow_nil
  · dsimp only
    split
    · exact startBelow_rearm _ edge
    · exact startBelow_nil

omit [CongestionLaw κ] in
theorem startBelow_processSent (g : Engine κ) {range : SeqRange} {flags : Flags} {actions : Actions}
    (h : (g.processSent range flags now).2 = .ok actions) (edge : Nat) :
    actions.StartBelow edge := by
  have audited : ∀ (e : Engine κ) (as as' : Actions), e.audited as = .ok as' → as' = as := by
    intro e as as' he
    unfold Engine.audited at he
    split at he
    · cases he
    · injection he with he
      exact he.symm
  unfold processSent at h
  split at h
  · cases h
  · dsimp only at h
    split at h
    · rw [audited _ _ _ h]
      exact startBelow_accountSent _ _ edge
    · split at h
      · cases h
      · rw [audited _ _ _ h]
        exact startBelow_accountSent _ _ edge

end Engine

end LossRecovery
