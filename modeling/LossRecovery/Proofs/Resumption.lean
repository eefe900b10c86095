import LossRecovery.Proofs.PendingTimeouts
import LossRecovery.Proofs.SendingOrder
import LossRecovery.Proofs.WindowMarks

/-!
# `LossRecovery.Proofs.Resumption` — going on from the cursor after a timeout

After a timeout the engine looks for what to send again from a cursor on, and not from the left edge.
It finds the same: what is missing below the cursor was sent again since the timer fired. Only marks of
a collapsed window could break this, since a marked record is passed over and may be unmarked later.

## Contents
- `Scoreboard.SentSince edge fired b`: the missing bytes below `edge` were sent at `fired` or later;
  `persists_sentSince`: all kinds of changes keep this.
- `Coherent.goBackN_eq`, `Coherent.goBackN_resume`, `Coherent.sentSince_head`: looking for what to send
  from a later start on.
- `Engine.Resumes now g`: nothing is left below the cursor; `CallAt.resumes`: calls keep this.
- `Engine.SinceTimeout`: calls since a timeout, with the scoreboards they led to.
- `Timely.resumes_exactly`: the cursor makes no difference.
-/

namespace LossRecovery

/-! ## Looking for what to send again -/

namespace Scoreboard

variable {b b' : Scoreboard} {edge start point fired now : Nat}

/-- Every missing byte below `edge` was sent at the instant `fired` or later. -/
def SentSince (edge fired : Nat) (b : Scoreboard) : Prop :=
  ∀ seq r, b.Holds seq r → r.flags.sacked = false → seq < edge → fired ≤ r.lastSent

theorem SentSince.inherit (h : b.SentSince edge fired) (hi : b.Inherits (·.lastSent) b') :
    b'.SentSince edge fired := by
  intro seq p hp hm hlt
  obtain ⟨r, hr, hrm, hsame⟩ := hi seq p hp hm
  exact Nat.le_trans (h seq r hr hrm hlt) (Nat.le_of_eq hsame.symm)

/-- What is sent at an instant since `fired`, again or for the first time, is sent since `fired`. -/
theorem persists_sentSince (edge : Nat) (hle : fired ≤ now) : Persists now (SentSince edge fired) where
  relabel _ hf hq := hq.inherit
    (inherits_modify (fun r => ⟨hf.start r, hf.stop r⟩) hf.sacked fun r => hf.lastSent r)
  release hb _ _ hq := hq.inherit (hb.inherits_release (fun hp => hp.lastSent) _)
  mark hb hx _ _ hq := hq.inherit ((hb.inherits_sack (fun hp => hp.lastSent) hx now).trans
    ((hb.sack hx now).inherits_coalesce _ _))
  resend := by
    intro b x fits flags afterTimeout hb hx hq seq p hp hm hlt
    obtain ⟨r, hr, ⟨-, -, -, rfl⟩ | ⟨-, hpart⟩⟩ := hb.of_resendOnBoard hx
      (f := Engine.resentRecord flags afterTimeout now) (fun _ => rfl) (fun _ => rfl) hp
    · rw [show (Engine.resentRecord flags afterTimeout now _).lastSent = now from
        SendRecord.lastSent_resend _]
      exact hle
    · rw [hpart.lastSent]
      exact hq seq r hr (hpart.sacked.symm.trans hm) hlt
  append := by
    intro b b' x flags mark hb hx hs hf happend hq seq p hp hm hlt
    rcases Coherent.of_append hx hs happend hp with ⟨r, hr, rfl⟩ | ⟨last, -, -, rfl, -⟩ | ⟨-, rfl⟩
    · exact hq seq p hr hm hlt
    · rw [show ({ last.restamp now with stop := x.stop } : SendRecord).lastSent = now from
        last.lastSent_restamp]
      exact hle
    · exact hle

/-- If what awaits to be sent again starts at `start` or above, then looking from there on finds all of
it below `point`. -/
theorem Coherent.goBackN_eq (h : b.Coherent)
    (hstart : ∀ r ∈ b.records, awaitsResend fired r = true → start ≤ r.start) :
    goBackN b start point fired
      = b.records.filter fun r => decide (r.start < point) && awaitsResend fired r := by
  unfold goBackN overlapping
  by_cases hlt : start < point
  · have hx : (⟨start, point⟩ : SeqRange).start < (⟨start, point⟩ : SeqRange).stop := hlt
    rw [if_neg (by rw [SeqRange.isEmpty_iff]; exact Nat.not_le.mpr hlt), List.filter_filter]
    apply List.filter_congr
    intro r hr
    cases ha : awaitsResend fired r with
    | false => simp
    | true =>
      have hne := (h.tiles.bounds hr).2.1
      have hs := hstart r hr ha
      rw [Bool.true_and, Bool.and_true, Bool.eq_iff_iff, SendRecord.overlaps_iff hne hx,
        decide_eq_true_eq]
      show r.start < point ∧ start < r.stop ↔ r.start < point
      omega
  · rw [if_pos (SeqRange.isEmpty_iff.mpr (Nat.le_of_not_lt hlt))]
    symm
    rw [List.filter_nil, List.filter_eq_nil_iff]
    intro r hr hboth
    rw [Bool.and_eq_true, decide_eq_true_eq] at hboth
    have hs := hstart r hr hboth.2
    omega

/-- What awaits to be sent again starts above all that was sent since. -/
theorem Coherent.le_start_of_awaits (h : b.Coherent) (hs : b.SentSince edge fired) {r : SendRecord}
    (hr : r ∈ b.records) (ha : awaitsResend fired r = true) : max b.una edge ≤ r.start := by
  have hlo := (h.tiles.bounds hr).1
  unfold awaitsResend at ha
  simp only [Bool.and_eq_true, Bool.not_eq_true', decide_eq_true_eq] at ha
  have hm : r.flags.sacked = false := by rw [← (h.records r hr).isDelivered, ha.1.1]
  by_contra hlt
  have hsent := hs r.start r (h.holds_start hr) hm (by omega)
  omega

/-- Looking from the place where sending again goes on finds what looking from the left edge on
finds. -/
theorem Coherent.goBackN_resume (h : b.Coherent) {s : Schedule}
    (hs : ∀ c, s.cursor = some c → b.SentSince c fired) (point : Nat) :
    goBackN b (s.resumePoint b.una) point fired = goBackN b b.una point fired := by
  unfold Schedule.resumePoint
  cases hc : s.cursor with
  | none => rw [Option.getD_none, Nat.max_self]
  | some c =>
    rw [Option.getD_some, h.goBackN_eq fun r hr ha => h.le_start_of_awaits (hs c hc) hr ha,
      h.goBackN_eq fun r hr _ => (h.tiles.bounds hr).1]

/-- Without marks, what is missing below the first record to be sent again was sent since. -/
theorem Coherent.sentSince_head (h : b.Coherent) (hclear : b.Clear) {r : SendRecord}
    (hr : (goBackN b b.una point fired).head? = some r) : b.SentSince r.start fired := by
  rw [h.goBackN_eq fun r hr _ => (h.tiles.bounds hr).1] at hr
  obtain ⟨rest, hlist⟩ := List.head?_eq_some_iff.mp hr
  have hpair := h.tiles.pairwise.filter fun r => decide (r.start < point) && awaitsResend fired r
  have hrm := List.mem_filter.mp (List.mem_of_mem_head? hr)
  have hpoint : r.start < point := by
    have hboth := hrm.2
    rw [Bool.and_eq_true, decide_eq_true_eq] at hboth
    exact hboth.1
  intro seq q hq hm hlt
  by_contra hbefore
  have hseq := SendRecord.contains_iff.mp hq.2
  have hawaits : awaitsResend fired q = true := by
    unfold awaitsResend
    rw [(h.records q hq.1).isDelivered, hm, hclear q hq.1 hm]
    simpa using hbefore
  have hfound : q ∈ b.records.filter fun r => decide (r.start < point) && awaitsResend fired r := by
    rw [List.mem_filter, hawaits, Bool.and_true, decide_eq_true_eq]
    exact ⟨hq.1, by omega⟩
  -- It would have been found before the first one.
  rw [hlist] at hfound hpair
  rcases List.mem_cons.mp hfound with rfl | hlater
  · omega
  · have hbeyond := (List.pairwise_cons.mp hpair).1 q hlater
    have hlen := (h.tiles.bounds hrm.1).2.1
    omega

theorem Coherent.sentSince_lowest (h : b.Coherent) {r : SendRecord} (hr : b.lowestMissing? = some r)
    (fired : Nat) : b.SentSince r.start fired := by
  intro seq q hq hm hlt
  have hmissing : b.Missing seq :=
    h.missing_iff.mpr ⟨q, hq, by rw [(h.records q hq.1).isDelivered, hm]⟩
  obtain ⟨lowest, hfound, -, -, -, hleast⟩ := h.lowestMissing?_eq hmissing
  obtain rfl : r = lowest := Option.some.inj (hr.symm.trans hfound)
  exact absurd (hleast seq hmissing) (Nat.not_le.mpr hlt)

end Scoreboard

namespace Engine

variable {κ : Type} [CongestionLaw κ] {g g' : Engine κ} {first last now : Nat}

/-! ## What is left below the cursor -/

/-- If a timeout is going on, its timer fired by `now`, and what is missing below the cursor was sent
since then. -/
def Resumes (now : Nat) (g : Engine κ) : Prop :=
  g.schedule.stage = .rtoPending → ∃ fired, g.schedule.firedAt = some fired ∧ fired ≤ now ∧
    ∀ c, g.schedule.cursor = some c → g.board.SentSince c fired

omit [CongestionLaw κ] in
/-- What leaves a timeout alone has to keep what was sent since it began. -/
theorem Resumes.of_timeout (h : g.Resumes now) (ht : g'.schedule.timeout = g.schedule.timeout)
    (hb : ∀ c fired, fired ≤ now → g.board.SentSince c fired → g'.board.SentSince c fired) :
    g'.Resumes now := by
  intro hr
  obtain ⟨fired, hfired, hle, hsent⟩ := h ((congrArg TimeoutState.stage ht).symm.trans hr)
  refine ⟨fired, (congrArg TimeoutState.firedAt ht).trans hfired, hle, fun c hc => ?_⟩
  exact hb c fired hle (hsent c ((congrArg TimeoutState.cursor ht).symm.trans hc))

omit [CongestionLaw κ] in
theorem keptBySends_resumes (now : Nat) : KeptBySends now (Resumes (κ := κ) now) where
  noted hn h := h.of_timeout (congrArg Schedule.timeout hn.schedule) fun c fired _ hs => by
    rw [hn.kept.board]
    exact hs
  sent := by
    rintro g x flags t hrun hx hs ⟨hf, rfl⟩ h
    obtain ⟨-, hsent, -, -⟩ := hrun.sound.processSent hx hs hf t
    exact h.of_timeout (timeout_processSent g x flags t) fun c fired hle hq =>
      (Scoreboard.persists_sentSince c hle).sent hrun.sound.board hq hsent

/-- Nothing missing lies below the place where a timeout begins to send again. -/
theorem TimesOut.resumes (h : TimesOut now g g') (hrun : g.Running) :
    g'.Running ∧ g'.Resumes now := by
  have htimeout := h.timeout
  obtain ⟨generation, hasData, -, -, -⟩ := h
  have hafter := (Sustains.fire maintained_true.aside ⟨hrun, trivial⟩ .rto generation hasData now).1
  refine ⟨hafter, fun _ => ?_⟩
  refine ⟨now, congrArg TimeoutState.firedAt htimeout, Nat.le_refl _, fun c hc => ?_⟩
  obtain ⟨r, hr, rfl⟩ := Option.map_eq_some_iff.mp
    ((congrArg TimeoutState.cursor htimeout).symm.trans hc)
  exact hafter.sound.board.sentSince_lowest hr now

theorem Running.resumes_fired (hrun : g.Running) (h : g.Resumes now) (timer : Timer)
    (generation : Nat) (hasData : Bool) :
    (g.processTimeout timer generation hasData now).1.Resumes now := by
  have hrelabelled := relabelled_processTimeout g timer generation hasData now
  rcases processTimeout_cases g timer generation hasData now with
    ⟨rfl, hc, hlt⟩ | ⟨-, -, hprobe⟩ | hsame
  · exact (TimesOut.of_processTimeout hasData hrun.isAborted hc hlt).resumes hrun |>.2
  · intro hr
    rw [hprobe] at hr
    cases hr
  · exact h.of_timeout hsame fun c fired hle hq =>
      (Scoreboard.persists_sentSince c hle).relabelled hrun.sound.board hrelabelled hq

/-- An ack that leaves no mark behind finds from the cursor on what there is, and moves the cursor up
to it. -/
theorem Running.resumes_acked (hrun : g.Running) {ack : Ack} (hle : ack.cumulative ≤ g.board.top)
    (h : g.Resumes now) (hclear : (g.processAck ack now).1.board.Clear) :
    (g.processAck ack now).1.Resumes now := by
  have hrelabelled := (hrun.sound.processAck hle now).1
  have hacked := hrun.sound.acked hle now
  have hcoherent := (hrelabelled.sound hacked).board
  have hsent : ∀ c fired, fired ≤ now → g.board.SentSince c fired →
      (g.processAck ack now).1.board.SentSince c fired := by
    intro c fired hfired hq
    have hQ := Scoreboard.persists_sentSince c hfired
    exact hQ.relabelled hacked.board hrelabelled
      (hQ.kept.run (i := g.ackInput ack now) hrun.sound.passState hle hq)
  revert hcoherent hsent hclear
  rw [processAck_eq hle now]
  dsimp only
  generalize (g.passState.run (g.ackInput ack now)).outcome = o
  generalize hconcluded : (g.acked ack now).conclude ack o now = concluded
  rw [board_respond]
  intro hclear hcoherent hsent hr
  have htimeout := timeout_respond concluded.1 g.schedule.stage ack o concluded.2 now
  have hpending : concluded.1.schedule.stage = .rtoPending := (stage_respond ..).symm.trans hr
  -- The timeout after the conclusions is the one before the ack.
  obtain ⟨hbefore, undo, hsame⟩ := timeout_conclude (hconcluded ▸ hpending)
  rw [hconcluded] at hsame
  obtain ⟨fired, hfired, hlate, hbelow⟩ := h hbefore
  have hcf : concluded.1.schedule.firedAt = some fired :=
    (congrArg TimeoutState.firedAt hsame).trans hfired
  rw [timeout_planSends hpending hcf] at htimeout
  refine ⟨fired, (congrArg TimeoutState.firedAt htimeout).trans hcf, hlate, fun c hc => ?_⟩
  obtain ⟨r, hfirst, rfl⟩ := Option.map_eq_some_iff.mp
    ((congrArg TimeoutState.cursor htimeout).symm.trans hc)
  have hbehind : ∀ c, concluded.1.schedule.cursor = some c → concluded.1.board.SentSince c fired :=
    fun c hc => hsent c fired hlate (hbelow c ((congrArg TimeoutState.cursor hsame).symm.trans hc))
  have hresumed := hcoherent.goBackN_resume hbehind concluded.1.schedule.rtoPoint
  rw [board_respond]
  exact hcoherent.sentSince_head hclear (hresumed ▸ hfirst)

omit [CongestionLaw κ] in
theorem stopped_resumes (hs : StoppedFrom g g') (h : g.Resumes now) : g'.Resumes now := by
  obtain ⟨told, rfl⟩ := hs
  exact h

/-- A call after which nothing missing is marked leaves nothing below the cursor. -/
theorem CallAt.resumes (call : CallAt now g g') (h : Holds (Resumes now) g) (hclear : g'.board.Clear) :
    Holds (Resumes now) g' := by
  refine call.kept (keptBySends_resumes now) stopped_resumes ?_ ?_ h
  · rintro ack rfl hrun hle hs
    exact hrun.resumes_acked hle hs hclear
  · rintro timer generation hasData rfl hrun hc hs
    exact hrun.resumes_fired hs timer generation hasData

/-! ## Calls since a timeout -/

/-- Calls since the retransmission timer fired while data was outstanding, none of them made before an
earlier one, with the scoreboards that they led to, the latest first. -/
inductive SinceTimeout (first : Nat) : Nat → List Scoreboard → Engine κ → Prop
  | fired {last now : Nat} {g g' : Engine κ} (before : g.Timely first last) (later : last ≤ now)
      (fires : TimesOut now g g') : SinceTimeout first now [g'.board] g'
  | call {last now : Nat} {seen : List Scoreboard} {g g' : Engine κ}
      (before : SinceTimeout first last seen g) (later : last ≤ now) (call : CallAt now g g') :
      SinceTimeout first now (g'.board :: seen) g'

theorem TimesOut.callAt (h : TimesOut now g g') : CallAt now g g' := by
  obtain ⟨generation, hasData, -, -, -⟩ := h
  exact .fire .rto generation hasData

/-- Nothing but a timeout leads to the stage of that name. -/
theorem CallAt.timesOut (call : CallAt now g g') (hrun : g.isAborted = false → g.Running)
    (hbefore : g.schedule.stage ≠ .rtoPending) (hr : g'.schedule.stage = .rtoPending) :
    TimesOut now g g' := by
  by_contra hno
  refine (call.kept (P := fun g => g.schedule.stage ≠ .rtoPending) ?_ ?_ ?_ ?_
    ⟨hrun, hbefore⟩).holds hr
  · exact {
      noted := fun hn hs => by
        rw [hn.schedule]
        exact hs
      sent := fun t _ _ _ _ hs =>
        (congrArg TimeoutState.stage (timeout_processSent _ _ _ t)).trans_ne hs }
  · rintro g g' ⟨told, rfl⟩ hs
    exact hs
  · rintro ack rfl hrun hle hs
    exact stage_processAck_ne hs ack now
  · rintro timer generation hasData rfl hrun hc hs
    rcases processTimeout_cases g timer generation hasData now with
      ⟨rfl, hc, hlt⟩ | ⟨-, -, hprobe⟩ | hsame
    · exact absurd (TimesOut.of_processTimeout hasData hrun.isAborted hc hlt) hno
    · rw [hprobe]
      exact Stage.noConfusion
    · exact (congrArg TimeoutState.stage hsame).trans_ne hs

theorem SinceTimeout.timely {seen : List Scoreboard} (h : SinceTimeout first now seen g) :
    g.Timely first now := by
  induction h with
  | fired before later fires => exact before.step later fires.callAt
  | call _ later call ih => exact ih.step later call

theorem Timely.sinceTimeout (h : g.Timely first now) (hr : g.schedule.stage = .rtoPending) :
    ∃ seen, SinceTimeout first now seen g := by
  induction h with
  | start started =>
    obtain ⟨-, rfl⟩ := start_eq_ok_iff.mp started
    cases hr
  | @step last now g g' before later call ih =>
    by_cases hbefore : g.schedule.stage = .rtoPending
    · obtain ⟨seen, hseen⟩ := ih hbefore
      exact ⟨_, hseen.call later call⟩
    · exact ⟨_, .fired before later (call.timesOut before.reachable.running_of hbefore hr)⟩

/-- As long as nothing missing is marked, nothing is left below the cursor. -/
theorem SinceTimeout.resumes {seen : List Scoreboard} (h : SinceTimeout first now seen g)
    (hclear : ∀ b ∈ seen, b.Clear) : Holds (Resumes now) g := by
  induction h with
  | fired before later fires =>
    obtain ⟨generation, hasData, runs, current, outstanding⟩ := fires
    exact Holds.of_sustains
      ((TimesOut.fire generation hasData runs current outstanding).resumes (before.reachable.running_of runs))
  | call before later call ih =>
    have hbefore := ih fun b hb => hclear b (List.mem_cons_of_mem _ hb)
    refine call.resumes ⟨hbefore.running, fun hr => ?_⟩ (hclear _ List.mem_cons_self)
    obtain ⟨fired, hfired, hle, hsent⟩ := hbefore.holds hr
    exact ⟨fired, hfired, Nat.le_trans hle later, hsent⟩

/-- While a timeout goes on, its timer fired at some instant, and calls since then led to the engine. If
none of them left a missing record marked as beyond the receive window, then looking for what to
send again from the cursor on finds the same as looking from the left edge on. -/
theorem Timely.resumes_exactly (h : g.Timely first now) (hr : g.schedule.stage = .rtoPending) :
    ∃ fired, g.schedule.firedAt = some fired ∧ (∃ seen, SinceTimeout first now seen g) ∧
      ∀ seen, SinceTimeout first now seen g → (∀ b ∈ seen, b.Clear) →
        goBackN g.board (g.schedule.resumePoint g.board.una) g.schedule.rtoPoint fired
          = goBackN g.board g.board.una g.schedule.rtoPoint fired := by
  obtain ⟨-, -, hsome, -⟩ := h.reachable.staged.fits hr
  obtain ⟨fired, hfired⟩ := Option.isSome_iff_exists.mp hsome
  refine ⟨fired, hfired, h.sinceTimeout hr, ?_⟩
  intro seen hseen hclear
  obtain ⟨fired', hfired', -, hsent⟩ := (hseen.resumes hclear).holds hr
  obtain rfl : fired = fired' := Option.some.inj (hfired.symm.trans hfired')
  exact h.reachable.sound.board.goBackN_resume hsent g.schedule.rtoPoint

/-- 4380 bytes time out, the first segment is sent again, and a part of the second one arrives. The cursor
stands behind that part, and from there on the rest is found. -/
theorem resumes_exactly_after_sack : ∃ (g : Engine FixedWindow) (seen : List Scoreboard),
    (g.Timely 0 (Time.second + 50) ∧ g.schedule.stage = .rtoPending ∧
      SinceTimeout 0 (Time.second + 50) seen g ∧ ∀ b ∈ seen, b.Clear) ∧
    g.schedule.resumePoint g.board.una = 2000 ∧
    goBackN g.board (g.schedule.resumePoint g.board.una) g.schedule.rtoPoint Time.second
      = goBackN g.board g.board.una g.schedule.rtoPoint Time.second := by
  have started : Engine.start { tlpEnabled := false } (.ofSettings { tlpEnabled := false }) .discard 0 0
    = .ok (_ : Engine FixedWindow) := rfl
  have sent := (Timely.start started).step (Nat.le_refl 0) (.send ⟨0, 4380⟩ {} ⟨rfl, rfl⟩)
  have fires := SinceTimeout.fired sent (Nat.zero_le Time.second)
    (.fire 1 false rfl (by decide +kernel) (by decide +kernel))
  have again := fires.call (Nat.le_refl Time.second) (.send ⟨0, 1460⟩ {} ⟨rfl, rfl⟩)
  have acked := again.call (show Time.second ≤ Time.second + 50 by omega)
    (.ack { cumulative := 0, blocks := [⟨1460, 2000⟩] })
  obtain ⟨fired, hfired, -, hsame⟩ := Timely.resumes_exactly acked.timely (by decide +kernel)
  obtain rfl : Time.second = fired := Option.some.inj
    ((show _ = some Time.second by decide +kernel).symm.trans hfired)
  exact ⟨_, _, ⟨acked.timely, by decide +kernel, acked, by decide +kernel⟩, by decide +kernel,
    hsame _ acked (by decide +kernel)⟩

end Engine

end LossRecovery
