import LossRecovery.Proofs.TimerMirror

/-!
# `LossRecovery.Proofs.Runs` — what every run keeps

Nothing is asked of the calls here. Sends may carry any flags and leave gaps, actions may be made up,
and a stopped engine may be called on. What the parts of the calls keep, each for itself, every run
keeps.

## Contents
- `Error.OfCall`: the errors that calls end with, before an engine is stopped.
- `keep_processSent`: what the parts of a report of a send keep.
- `Engine.Call`, `Engine.Run`: one call of any kind, and any number of them.
- `Lasting P`: the parts of the calls keep `P`; `Lasting.call`, `Lasting.run`: then all calls do.
  `LastingSends P`: the parts of sends do.
-/

namespace LossRecovery

/-! ## Errors of calls -/

/-- The errors that calls of a running engine end with. Running out of room is none of them. A resend
reckons up its cuts beforehand, and makes all of them or none (`Coherent.size_carveMissing`,
`Engine.resendRangeByRecord_eq`); an ack passes over the blocks that run out. -/
inductive Error.OfCall : Error → Prop
  | fatal {e : Error} (h : e.isFatal = true) : OfCall e
  | malformed (cause : Malformation) : OfCall (.malformed cause)
  | transmitFailed (message : String) : OfCall (.transmitFailed message)

namespace Engine

variable {κ : Type} {g g' : Engine κ} {e : Error} {now : Nat}

theorem ofCall_append {b : Scoreboard} {x : SeqRange} {flags : Flags} {mark : Nat}
    (h : b.append x flags now mark = .error e) : e.OfCall := by
  unfold Scoreboard.append at h
  split at h
  · injection h with h
    exact h ▸ .malformed _
  · split at h
    · injection h with h
      exact h ▸ .fatal rfl
    · dsimp only at h
      split at h
      · split at h <;> cases h
      · cases h

theorem ofCall_appendNew {x : SeqRange} {flags : Flags}
    (h : (g.appendNew x flags now).2 = .error e) : e.OfCall := by
  unfold appendNew at h
  cases ha : g.board.append x flags now (if flags.appLimited then x.stop else 0) with
  | error found =>
    rw [ha] at h
    injection h with h
    exact ofCall_append (h ▸ ha)
  | ok b =>
    simp only [ha] at h
    split at h <;> cases h

theorem ofCall_audited {α : Type} {a : α} (h : g.audited a = .error e) : e.OfCall := by
  unfold audited at h
  cases ha : g.audit with
  | ok u => simp [ha] at h
  | error found =>
    rw [ha] at h
    injection h with h
    exact .fatal (g.failsFatally_audit e (h ▸ ha))

theorem ofCall_processSent {x : SeqRange} {flags : Flags}
    (h : (g.processSent x flags now).2 = .error e) : e.OfCall := by
  unfold processSent at h
  split at h
  · injection h with h
    exact h ▸ .malformed _
  · dsimp only at h
    split at h
    · exact ofCall_audited h
    · split at h
      · next hnew =>
        injection h with h
        exact ofCall_appendNew (h ▸ hnew)
      · exact ofCall_audited h

/-- What sending data again, recording new data and accounting for both keep, a report keeps, whether
it is taken in or not. -/
theorem keep_processSent {P : Engine κ → Prop} {x : SeqRange} {flags : Flags}
    (hagain : ∀ {g} range, P g → P (g.resendRange range flags now).1)
    (hnew : ∀ {g} range, P g → P (g.appendNew range flags now).1)
    (haccount : ∀ {g} sent, P g → P (g.accountSent sent now).1) (h : P g) :
    P (g.processSent x flags now).1 := by
  have hbelow : P (if x.start < g.board.top then
      g.resendRange ⟨x.start, min x.stop g.board.top⟩ flags now else (g, 0)).1 := by
    split
    · exact hagain _ h
    · exact h
  unfold processSent
  split
  · exact h
  · dsimp only
    split
    · exact haccount _ hbelow
    · have happended := hnew ⟨max x.start g.board.top, x.stop⟩ hbelow
      split
      · exact happended
      · exact haccount _ happended

variable [CongestionLaw κ]

theorem ofCall_processAck {ack : Ack} (h : (g.processAck ack now).2 = .error e) : e.OfCall := by
  by_cases hle : ack.cumulative ≤ g.board.top
  · have hp : g.passOf ack now = .ok (g.passState.run (g.ackInput ack now)) :=
      AckPass.process_eq_ok hle
    unfold processAck at h
    rw [hp] at h
    exact ofCall_audited h
  · rw [processAck_of_beyond (Nat.lt_of_not_le hle)] at h
    injection h with h
    exact h ▸ .malformed _

/-! ## Runs -/

/-- One call of any kind, with any arguments. -/
inductive Call (g : Engine κ) : Engine κ → Prop
  | send (range : SeqRange) (flags : Flags) (now : Nat) : Call g (g.onPacketSent range flags now).1
  | ack (a : Ack) (now : Nat) : Call g (g.onAck a now).1
  | fire (timer : Timer) (generation : Nat) (hasData : Bool) (now : Nat) :
      Call g (g.onTimeout timer generation hasData now).1
  | dispatch {σ : Type} (host : Host σ) (w : σ) (actions : Actions) (now : Nat) :
      Call g (g.dispatch host w actions now).1.1
  | nextSendTime (bytes now : Nat) : Call g (g.nextSendTime bytes now).1
  | setFixedRate (rate : Option Nat) : Call g (g.setFixedRate rate)
  | setHardware (table : RateTable) : Call g (g.setHardware table)
  | setTrace (trace : String) : Call g (g.setTrace trace)

/-- Any number of calls. -/
def Run : Engine κ → Engine κ → Prop := Relation.ReflTransGen Call

/-- A property that the parts of the calls keep. Telling, tuning the pacer and marking messages make
no difference to it. -/
structure Lasting (P : Engine κ → Prop) : Prop where
  aside : ∀ {g} pacing trace journal, P g →
    P { g with pacing := pacing, trace := trace, journal := journal }
  stale : ∀ {g} range, P g → P (g.noteStale range)
  sent : ∀ {g} x flags now, P g → P (g.processSent x flags now).1
  acked : ∀ {g} ack now, P g → P (g.processAck ack now).1
  fired : ∀ {g} timer generation hasData now, P g →
    P (g.processTimeout timer generation hasData now).1
  failed : ∀ {g e}, e.OfCall → P g → P (g.fail e)

/-- A property that the parts of sends keep. -/
structure LastingSends (P : Engine κ → Prop) : Prop where
  aside : ∀ {g} pacing trace journal, P g →
    P { g with pacing := pacing, trace := trace, journal := journal }
  stale : ∀ {g} range, P g → P (g.noteStale range)
  sent : ∀ {g} x flags now, P g → P (g.processSent x flags now).1
  failed : ∀ {g e}, e.OfCall → P g → P (g.fail e)

variable {P : Engine κ → Prop}

theorem Lasting.sends (hP : Lasting P) : LastingSends P := ⟨hP.aside, hP.stale, hP.sent, hP.failed⟩

namespace LastingSends

omit [CongestionLaw κ]

theorem tell (hP : LastingSends P) (h : P g) (events : List Event) : P (g.tell events) :=
  hP.aside g.pacing g.trace _ h

/-- A call that may fail: its work keeps the property, and so does counting its error. -/
theorem guarded (hP : LastingSends P) {α : Type}
    {call : Engine κ → Engine κ × Except Error α} (h : P g) (hcall : P (call g).1)
    (herror : ∀ {e}, (call g).2 = .error e → e.OfCall) : P (g.guarded call).1 := by
  cases ha : g.isAborted with
  | true =>
    rw [guarded_of_aborted ha]
    exact h
  | false =>
    rw [guarded_eq ha]
    cases hres : (call g).2 with
    | ok a => exact hcall
    | error e => exact hP.failed (herror hres) hcall

section Dispatch

variable {σ : Type} (host : Host σ) (now : Nat)

theorem sendRange (hP : LastingSends P) (h : P g) (w : σ) (range : SeqRange) (kind : SendKind) :
    P (g.sendRange host w range kind now).1 ∧
      ∀ e, (g.sendRange host w range kind now).2.2 = .error e → e.OfCall := by
  have htold : P (g.tell (host.transmit w range kind.flags).events) := hP.tell h _
  have hcarried := carried_sendRange host g w range kind now
  generalize g.sendRange host w range kind now = done at hcarried ⊢
  cases hcarried with
  | dropped => exact ⟨hP.stale range h, by simp⟩
  | failed m =>
    refine ⟨htold, ?_⟩
    intro e he
    injection he with he
    exact he ▸ .transmitFailed m
  | nothing => exact ⟨htold, by simp⟩
  | refused n pos report =>
    have hsent := hP.sent ⟨range.start, range.start + n⟩ kind.flags now htold
    rw [report] at hsent
    refine ⟨hsent, ?_⟩
    intro e he
    injection he with he
    exact ofCall_processSent (he ▸ congrArg Prod.snd report)
  | taken n pos report =>
    have hsent := hP.sent ⟨range.start, range.start + n⟩ kind.flags now htold
    rw [report] at hsent
    exact ⟨hsent, by simp⟩

theorem dispatchAll (hP : LastingSends P) (h : P g) (w : σ) (total : Nat) (actions : Actions) :
    P (g.dispatchAll host now w total actions).1 ∧
      ∀ e, (g.dispatchAll host now w total actions).2.2 = .error e → e.OfCall := by
  -- Along the actions; the first error ends the walk.
  induction actions generalizing g w total with
  | nil => exact ⟨h, by simp [Engine.dispatchAll]⟩
  | cons action rest ih =>
    cases action with
    | send range n kind =>
      obtain ⟨hone, herror⟩ := hP.sendRange host now h w range kind
      simp only [Engine.dispatchAll]
      cases hres : (g.sendRange host w range kind now).2.2 with
      | ok bytes => exact ih hone _ _
      | error e =>
        refine ⟨hone, ?_⟩
        intro e' he'
        injection he' with he'
        exact he' ▸ herror e hres
    | arm timer duration generation => exact ih h _ _
    | cancel => exact ih h _ _

theorem dispatch (hP : LastingSends P) (h : P g) (w : σ) (actions : Actions) :
    P (g.dispatch host w actions now).1.1 := by
  obtain ⟨hall, herror⟩ := hP.dispatchAll host now h w 0 actions
  unfold Engine.dispatch
  split
  · exact h
  · dsimp only
    cases hres : (g.dispatchAll host now w 0 actions).2.2 with
    | ok total => exact hall
    | error e => exact hP.failed (herror e hres) hall

end Dispatch

end LastingSends

namespace Lasting

/-- Every call keeps what its parts keep. -/
theorem call (hP : Lasting P) (hcall : Call g g') (h : P g) : P g' := by
  cases hcall with
  | send range flags now => exact hP.sends.guarded h (hP.sent range flags now h) ofCall_processSent
  | ack a now => exact hP.sends.guarded h (hP.acked a now h) ofCall_processAck
  | fire timer generation hasData now =>
    exact hP.sends.guarded h (hP.fired timer generation hasData now h) (by simp)
  | dispatch host w actions now => exact hP.sends.dispatch host now h w actions
  | nextSendTime bytes now => exact hP.aside _ g.trace g.journal h
  | setFixedRate rate => exact hP.aside _ g.trace g.journal h
  | setHardware table => exact hP.aside _ g.trace g.journal h
  | setTrace trace => exact hP.aside g.pacing trace g.journal h

/-- Every run keeps what the parts of its calls keep. -/
theorem run (hP : Lasting P) (hrun : Run g g') (h : P g) : P g' := by
  induction hrun with
  | refl => exact h
  | tail _ hcall ih => exact hP.call hcall ih

end Lasting

end Engine

end LossRecovery
