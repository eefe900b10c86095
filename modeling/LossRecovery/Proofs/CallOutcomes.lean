import LossRecovery.Proofs.AckWalks
import LossRecovery.Proofs.Headroom
import LossRecovery.Proofs.SendWalks
import Mathlib.Logic.Relation

/-!
# `LossRecovery.Proofs.CallOutcomes` — how calls end that take in one record after another

A call works along the records, and each of its steps may fail: a cut at the record limit, a record that
is not found, two records that do not join, a left edge that cannot be moved. And a machine may have no
room for a figure that is worked out on the way. Calls are taken like this here. Those that come back end
as can be told beforehand, none of them with an error from halfway, and what they work out tells which of
them do not come back.

## Contents
- `Machine.onPacketSent`, `onAck`, `onTimeout`, `dispatch`: the calls on a machine.
- `SendEnds`, `AckEnds`, `DispatchEnds`: how the calls of an engine that runs end.
- `Dead`: the engine once it is stopped. `Machine.Serves`: no call is given up.
- `Reachable.refuses_exactly`: all of it, for the engines that calls lead to.
-/

namespace LossRecovery

/-! ## Calls on a machine -/

namespace Machine

variable {κ : Type} [CongestionLaw κ] (m : Machine) (g : Engine κ)

/-- Report that `range` was sent. -/
def onPacketSent (range : SeqRange) (flags : Flags) (now : Nat) :
    Option (Engine κ × Except Error Actions) :=
  m.answer (g.sentFigures range flags now) (g.onPacketSentByRecord range flags now)

/-- Report an arriving ack. -/
def onAck (ack : Ack) (now : Nat) : Option (Engine κ × Except Error Actions) :=
  m.answer (g.ackFigures ack now) (g.onAckByRecord ack now)

/-- Report the firing of a timer, none of whose steps may fail. -/
def onTimeout (timer : Timer) (generation : Nat) (hasData : Bool) (now : Nat) :
    Option (Engine κ × Except Error Actions) :=
  m.answer (g.timeoutFigures timer generation hasData now) (g.onTimeout timer generation hasData now)

/-- Carry out the actions of a call. -/
def dispatch {σ : Type} (host : Host σ) (w : σ) (actions : Actions) (now : Nat) :
    Option ((Engine κ × σ) × Except Error Nat) :=
  m.answer (g.dispatchFigures host w actions now) (g.dispatchByRecord host w actions now)

/-- No call that is made at the instant `now` is given up, as long as what is to be sent is made of ranges
that add up to a word. -/
structure Serves (now : Nat) : Prop where
  send : ∀ range flags, (m.onPacketSent g range flags now).isSome = true
  ack : ∀ ack, (m.onAck g ack now).isSome = true
  fire : ∀ timer generation hasData, (m.onTimeout g timer generation hasData now).isSome = true
  dispatch : ∀ {σ : Type} (host : Host σ) (w : σ) (actions : Actions),
    (∀ send ∈ actions.sends, send.1.start ≤ send.1.stop) → actions.sendBytes ≤ Word.max64 →
    (m.dispatch g host w actions now).isSome = true

end Machine

namespace Engine

variable {κ : Type} {g g' : Engine κ} {range : SeqRange} {flags : Flags} {first now : Nat} {m : Machine}

/-! ## How calls end -/

/-- How the report of a send ends: it is malformed exactly if it is empty or reversed, and a violation
exactly if it leaves a gap. -/
structure SendEnds (g : Engine κ) (range : SeqRange) (r : Engine κ × Except Error Actions) : Prop where
  malformed_iff : IsMalformed r.2 ↔ range.stop ≤ range.start
  violation_iff : IsViolation r.2 ↔ range.start < range.stop ∧ g.board.top < range.start
  success_iff : Succeeds r.2 ↔ range.start < range.stop ∧ range.start ≤ g.board.top
  counted : IsMalformed r.2 → r.1 = g.countMalformed
  stopped : IsViolation r.2 → StoppedFrom g r.1 ∧ ∀ timer, r.1.schedule.timers.armed? timer = none
  told : ∀ e, r.2 = .error e → e ≠ .exhausted ∧ e ≠ .done

/-- How the report of an ack ends: it is malformed exactly if it covers data that was never sent. -/
structure AckEnds (g : Engine κ) (ack : Ack) (r : Engine κ × Except Error Actions) : Prop where
  malformed_iff : IsMalformed r.2 ↔ g.board.top < ack.cumulative
  success_iff : Succeeds r.2 ↔ ack.cumulative ≤ g.board.top
  counted : IsMalformed r.2 → r.1 = g.countMalformed
  told : ∀ e, r.2 = .error e → e ≠ .exhausted ∧ e ≠ .done

/-- How actions end that are carried out: all of them went through, or the host failed, or one leaves a
gap. The actions before that one were carried out, and nothing of it was. -/
structure DispatchEnds {σ : Type} (g : Engine κ) (host : Host σ) (w : σ) (actions : Actions) (now : Nat)
    (r : (Engine κ × σ) × Except Error Nat) : Prop where
  cases : Succeeds r.2 ∨ (∃ message, r.2 = .error (.transmitFailed message)) ∨
    (IsViolation r.2 ∧ ∃ done rest, actions = done ++ rest ∧
      StoppedFrom (g.dispatchAllByRecord host now w 0 done).1 r.1.1)
  told : ∀ e, r.2 = .error e → e ≠ .exhausted ∧ e ≠ .done

/-- An error that a call ends with is neither of those that steps end with. -/
theorem told_of_ends {α : Type} {r : Except Error α}
    (h : IsMalformed r ∨ IsViolation r ∨ Succeeds r ∨
      ∃ message, r = .error (.transmitFailed message)) :
    ∀ e, r = .error e → e ≠ .exhausted ∧ e ≠ .done := by
  rintro e rfl
  rcases h with ⟨c, hc⟩ | ⟨c, hc⟩ | ⟨a, ha⟩ | ⟨message, hm⟩
  · cases hc
    exact ⟨nofun, nofun⟩
  · cases hc
    exact ⟨nofun, nofun⟩
  · cases ha
  · cases hm
    exact ⟨nofun, nofun⟩

variable [CongestionLaw κ]

omit [CongestionLaw κ] in
theorem Running.sendEnds (h : g.Running) (range : SeqRange) (hf : flags.IsFresh) (now : Nat) :
    g.SendEnds range (g.onPacketSentByRecord range flags now) := by
  rw [h.onPacketSentByRecord_eq]
  have hends := h.send_ends range hf now
  generalize g.onPacketSent range flags now = r at hends
  obtain ⟨after, result⟩ := r
  rcases hends with ⟨hx, ⟨c, rfl⟩, hg⟩ | ⟨hx, hs, ⟨c, rfl⟩, hg⟩ | ⟨hx, hs, a, rfl⟩
  · obtain ⟨hmalformed, hviolation, hsuccess⟩ := ends_malformed (α := Actions) c
    exact ⟨iff_of_true hmalformed hx, iff_of_false hviolation (by omega),
      iff_of_false hsuccess (by omega), fun _ => hg, fun hv => absurd hv hviolation,
      told_of_ends (.inl hmalformed)⟩
  · obtain ⟨hmalformed, hviolation, hsuccess⟩ := ends_violation (α := Actions) c
    exact ⟨iff_of_false hmalformed (by omega), iff_of_true hviolation ⟨hx, hs⟩,
      iff_of_false hsuccess (by omega), fun hm => absurd hm hmalformed, fun _ => ⟨hg, hg.armed?⟩,
      told_of_ends (.inr (.inl hviolation))⟩
  · obtain ⟨hmalformed, hviolation, hsuccess⟩ := ends_ok a
    exact ⟨iff_of_false hmalformed (by omega), iff_of_false hviolation (by omega),
      iff_of_true hsuccess ⟨hx, hs⟩, fun hm => absurd hm hmalformed, fun hv => absurd hv hviolation,
      told_of_ends (.inr (.inr (.inl hsuccess)))⟩

theorem Running.ackEnds (h : g.Running) (ack : Ack) (now : Nat) :
    g.AckEnds ack (g.onAckByRecord ack now) := by
  rw [h.onAckByRecord_eq]
  have hends := h.ack_ends ack now
  generalize g.onAck ack now = r at hends
  obtain ⟨after, result⟩ := r
  rcases hends with ⟨hlt, ⟨c, rfl⟩, hg⟩ | ⟨hle, a, rfl⟩
  · obtain ⟨hmalformed, -, hsuccess⟩ := ends_malformed (α := Actions) c
    exact ⟨iff_of_true hmalformed hlt, iff_of_false hsuccess (by omega), fun _ => hg,
      told_of_ends (.inl hmalformed)⟩
  · obtain ⟨hmalformed, -, hsuccess⟩ := ends_ok a
    exact ⟨iff_of_false hmalformed (by omega), iff_of_true hsuccess hle,
      fun hm => absurd hm hmalformed, told_of_ends (.inr (.inr (.inl hsuccess)))⟩

theorem Running.dispatchEnds (h : g.Running) {σ : Type} (host : Host σ) (w : σ) (actions : Actions)
    (now : Nat) : g.DispatchEnds host w actions now (g.dispatchByRecord host w actions now) := by
  have hends := h.dispatch_ends host w actions now
  rw [h.dispatchByRecord_eq host]
  refine ⟨?_, told_of_ends ?_⟩
  · simpa only [h.dispatchAllByRecord_eq host] using hends
  · rcases hends with hok | hfailed | ⟨hviolation, -⟩
    · exact .inr (.inr (.inl hok))
    · exact .inr (.inr (.inr hfailed))
    · exact .inr (.inl hviolation)

/-! ## Stopped engines -/

/-- Every call is refused on every machine and leaves the engine as it is, and nothing may be sent. -/
structure Dead (g : Engine κ) : Prop where
  send : ∀ (m : Machine) range flags now, m.onPacketSent g range flags now = some (g, .error .aborted)
  ack : ∀ (m : Machine) ack now, m.onAck g ack now = some (g, .error .aborted)
  fire : ∀ (m : Machine) timer generation hasData now,
    m.onTimeout g timer generation hasData now = some (g, .error .aborted)
  dispatch : ∀ (m : Machine) {σ : Type} (host : Host σ) (w : σ) actions now,
    m.dispatch g host w actions now = some ((g, w), .error .aborted)
  quota : g.sendQuota = 0

theorem dead_of_aborted (ha : g.isAborted = true) : g.Dead where
  send m range flags now := by
    have hfigures : g.sentFigures range flags now = [] := if_pos ha
    exact Machine.answer_eq_some.mpr (hfigures ▸ Machine.holds_nil) |>.trans
      (congrArg some (guarded_of_aborted ha))
  ack m ack now := by
    have hfigures : g.ackFigures ack now = [] := if_pos ha
    exact Machine.answer_eq_some.mpr (hfigures ▸ Machine.holds_nil) |>.trans
      (congrArg some (guarded_of_aborted ha))
  fire m timer generation hasData now := by
    have hfigures : g.timeoutFigures timer generation hasData now = [] := if_pos (.inl ha)
    exact Machine.answer_eq_some.mpr (hfigures ▸ Machine.holds_nil) |>.trans
      (congrArg some (guarded_of_aborted ha))
  dispatch m σ host w actions now := by
    have hfigures : g.dispatchFigures host w actions now = [] := if_pos ha
    exact Machine.answer_eq_some.mpr (hfigures ▸ Machine.holds_nil) |>.trans
      (congrArg some (if_pos ha))
  quota := by simp [sendQuota, ha]

/-- What is stopped stays stopped, whatever is called. -/
theorem isAborted_of_steps (hs : Relation.ReflTransGen Step g g') (ha : g.isAborted = true) :
    g'.isAborted = true := by
  induction hs with
  | refl => exact ha
  | tail _ call ih => exact call.isAborted ih

/-! ## Machines with room -/

/-- As long as time does not go back, a machine with room for the settings gives up no call. -/
theorem Timely.serves {last : Nat} (h : g.Timely first last) (later : last ≤ now)
    (hm : m.HasRoom g.settings now) (hedge : g.board.top + max g.settings.mss 1 ≤ Word.max64) :
    m.Serves g now := by
  obtain ⟨hsent, hacked, hfired, hdispatched⟩ := h.holds_figures later hm hedge
  have hback : ∀ {α : Type} {figures : List Figure} (a : α), m.Holds figures →
      (m.answer figures a).isSome = true := fun a hholds =>
    Option.isSome_iff_exists.mpr ⟨a, Machine.answer_eq_some.mpr hholds⟩
  exact ⟨fun range flags => hback _ (hsent range flags), fun ack => hback _ (hacked ack),
    fun timer generation hasData => hback _ (hfired timer generation hasData),
    fun host w actions hranges hbytes => hback _ (hdispatched host w actions hranges hbytes)⟩

/-! ## Errors -/

/-- The errors of an engine that was not stopped, on any machine. A call that comes back ends as the call
that takes in everything in one step. A send is malformed exactly if it is empty or reversed, and a
violation exactly if it leaves a gap; an ack is malformed exactly if it covers data that was never sent; a
firing timer never fails; and carrying out actions fails only at the host or at a gap. Malformed input
changes nothing but the counters of malformed input, a violation no more than it takes to stop the engine,
and no error of a step gets out. A call does not come back exactly if it is not refused and the machine
cannot hold what it works out, which a machine with room always can. Once stopped, the engine refuses
every call. -/
theorem Reachable.refuses_exactly (h : g.Reachable first) (ha : g.isAborted = false) (m : Machine) :
    (∀ range flags now, flags.IsFresh →
      (∀ r, m.onPacketSent g range flags now = some r →
        g.SendEnds range r ∧ r = g.onPacketSent range flags now) ∧
      (m.onPacketSent g range flags now = none ↔ range.start < range.stop ∧
        range.start ≤ g.board.top ∧ ¬ m.Holds (g.sentFigures range flags now))) ∧
    (∀ ack now,
      (∀ r, m.onAck g ack now = some r → g.AckEnds ack r ∧ r = g.onAck ack now) ∧
      (m.onAck g ack now = none ↔
        ack.cumulative ≤ g.board.top ∧ ¬ m.Holds (g.ackFigures ack now))) ∧
    (∀ timer generation hasData now,
      (∀ r, m.onTimeout g timer generation hasData now = some r → Succeeds r.2) ∧
      (m.onTimeout g timer generation hasData now = none ↔
        ¬ m.Holds (g.timeoutFigures timer generation hasData now))) ∧
    (∀ {σ : Type} (host : Host σ) (w : σ) actions now,
      (∀ r, m.dispatch g host w actions now = some r →
        g.DispatchEnds host w actions now r ∧ r = g.dispatch host w actions now) ∧
      (m.dispatch g host w actions now = none ↔ ¬ m.Holds (g.dispatchFigures host w actions now))) ∧
    (∀ last now, g.Timely first last → last ≤ now → m.HasRoom g.settings now →
      g.board.top + max g.settings.mss 1 ≤ Word.max64 → m.Serves g now) ∧
    (∀ g' later, Step g g' → g'.isAborted = true → Relation.ReflTransGen Step g' later →
      later.Dead) := by
  have hrun := h.running_of ha
  refine ⟨fun range flags now hf => ⟨?_, ?_⟩, fun ack now => ⟨?_, ?_⟩,
    fun timer generation hasData now => ⟨?_, Machine.answer_eq_none⟩,
    fun host w actions now => ⟨?_, Machine.answer_eq_none⟩,
    fun last now timely later hm hedge => timely.serves later hm hedge, ?_⟩
  · intro r hr
    obtain rfl := Machine.eq_of_answer hr
    exact ⟨hrun.sendEnds range hf now, hrun.onPacketSentByRecord_eq⟩
  · refine Machine.answer_eq_none.trans ⟨fun hgiven => ?_, fun ⟨_, _, hgiven⟩ => hgiven⟩
    by_cases hrefused : range.stop ≤ range.start ∨ g.board.top < range.start
    · rw [sentFigures_of_refused hrefused] at hgiven
      exact absurd Machine.holds_nil hgiven
    · exact ⟨by omega, by omega, hgiven⟩
  · intro r hr
    obtain rfl := Machine.eq_of_answer hr
    exact ⟨hrun.ackEnds ack now, hrun.onAckByRecord_eq ack now⟩
  · refine Machine.answer_eq_none.trans ⟨fun hgiven => ?_, fun ⟨_, hgiven⟩ => hgiven⟩
    by_cases hbeyond : g.board.top < ack.cumulative
    · rw [ackFigures_of_beyond hbeyond] at hgiven
      exact absurd Machine.holds_nil hgiven
    · exact ⟨by omega, hgiven⟩
  · intro r hr
    obtain rfl := Machine.eq_of_answer hr
    exact hrun.fire_ends timer generation hasData now
  · intro r hr
    obtain rfl := Machine.eq_of_answer hr
    exact ⟨hrun.dispatchEnds host w actions now, hrun.dispatchByRecord_eq host w actions⟩
  · intro g' later call hstop hsteps
    exact dead_of_aborted (isAborted_of_steps hsteps hstop)

/-- With two segments outstanding, a machine that goes on for another century serves every call. An empty
send and an ack of data never sent are malformed, and a send that leaves a gap is the end. -/
theorem refuses_exactly_after_send : ∃ (g : Engine FixedWindow) (m : Machine),
    (g.Reachable 0 ∧ g.isAborted = false ∧ g.board.top = 2920) ∧ m.Serves g 50 ∧
    (∃ r, m.onPacketSent g ⟨1460, 1460⟩ {} 50 = some r ∧ IsMalformed r.2) ∧
    (∃ r, m.onAck g { cumulative := 2921 } 50 = some r ∧ IsMalformed r.2) ∧
    ∃ r, m.onPacketSent g ⟨4380, 5840⟩ {} 50 = some r ∧ IsViolation r.2 ∧ r.1.Dead := by
  have started : Engine.start {} (FixedWindow.ofSettings {}) .discard 0 0 = .ok _ := rfl
  have sent := (Timely.start started).step (Nat.le_refl 0) (.send ⟨0, 2920⟩ {} ⟨rfl, rfl⟩)
  let m : Machine := { last := 4000000000 * Time.second }
  have hroom : m.HasRoom {} 50 := by constructor <;> decide
  obtain ⟨hsend, hack, -, -, hserves, hdead⟩ := Reachable.refuses_exactly sent.reachable rfl m
  have hserved := hserves 0 50 sent (by decide) hroom (by decide)
  obtain ⟨empty, hempty⟩ := Option.isSome_iff_exists.mp (hserved.send ⟨1460, 1460⟩ {})
  obtain ⟨beyond, hbeyond⟩ := Option.isSome_iff_exists.mp (hserved.ack { cumulative := 2921 })
  obtain ⟨gap, hgap⟩ := Option.isSome_iff_exists.mp (hserved.send ⟨4380, 5840⟩ {})
  have hends := (hsend ⟨1460, 1460⟩ {} 50 ⟨rfl, rfl⟩).1 empty hempty
  have hacked := (hack { cumulative := 2921 } 50).1 beyond hbeyond
  obtain ⟨hstop, heq⟩ := (hsend ⟨4380, 5840⟩ {} 50 ⟨rfl, rfl⟩).1 gap hgap
  have hviolation := hstop.violation_iff.mpr (by decide)
  refine ⟨_, m, ⟨sent.reachable, rfl, rfl⟩, hserved,
    ⟨empty, hempty, hends.1.malformed_iff.mpr (by decide)⟩,
    ⟨beyond, hbeyond, hacked.1.malformed_iff.mpr (by decide)⟩, gap, hgap, hviolation, ?_⟩
  subst heq
  exact hdead _ _ (.send ⟨4380, 5840⟩ {} 50 ⟨rfl, rfl⟩) (hstop.stopped hviolation).1.isAborted .refl

-- If acks may be delayed for the longest duration, no machine can work out when to probe.
example : ∃ g : Engine FixedWindow,
    Engine.start { delayedAckTime := Machine.longest } (FixedWindow.ofSettings {}) .discard 0 0 = .ok g ∧
    Machine.onPacketSent ⟨4000000000 * Time.second⟩ g ⟨0, 1460⟩ {} 0 = none := ⟨_, rfl, rfl⟩

end Engine

end LossRecovery
