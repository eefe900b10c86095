import LossRecovery.Proofs.IdleTimers

/-!
# `LossRecovery.Proofs.TimerFirings` — a firing is acted on at most once

Seen from outside, timers are armed and cancelled by the answers to calls, and their firings are reported.
The engine itself keeps two slots and one counter. As long as the counter does not wrap around, the log
of these events and the slots tell the same: a firing is acted on if it is that of the latest arming, and
nothing has become of it since.

## Contents
- `TimerEvent`: armings, cancellations and reports of firings; `Pending`, `operations`, `armings`: what a
  log of them says; `pending?`: the arming that is pending, computed; `not_pending_of_reported`.
- `Booked log t`: the log and the slots tell the same; `Booked.handed`, `Booked.reported`, `Booked.told`.
- `Host.noting`, `Engine.dispatchEvents`: what happens to the timers while actions are carried out.
- `Engine.Timekept`: the engines of all runs, with the log; `Timekept.booked`.
- `Acted`: a firing took effect; `acted_onTimeout`, `onTimeout_stale`: one that is current, and any other.
- `Timekept.acts_once`: which firings take effect in a run.
-/

namespace LossRecovery

/-! ## Events -/

/-- What happens to the timers. A firing is reported whether it was overtaken or not. -/
inductive TimerEvent where
  | armed (timer : Timer) (generation : Nat)
  | cancelled
  | reported (timer : Timer) (generation : Nat)
deriving DecidableEq

namespace TimerEvent

/-- What an action asks for. -/
def ofAction? : Action → Option TimerEvent
  | .arm timer _ generation => some (.armed timer generation)
  | .cancel => some .cancelled
  | .send .. => none

/-- What the result of a call asks for, latest first. An error asks for nothing. -/
def told : Except Error Actions → List TimerEvent
  | .ok actions => (actions.filterMap ofAction?).reverse
  | .error _ => []

/-- The latest arming of any timer is that of `timer` with `generation`, and it was neither cancelled nor
reported as fired since. Logs list the latest event first. -/
def Pending (log : List TimerEvent) (timer : Timer) (generation : Nat) : Prop :=
  ∃ later earlier, log = later ++ .armed timer generation :: earlier ∧
    ∀ e ∈ later, (∀ other n, e ≠ .armed other n) ∧ e ≠ .cancelled ∧ e ≠ .reported timer generation

/-- The arming that is pending. -/
def pending? : List TimerEvent → Option (Timer × Nat)
  | [] => none
  | .armed timer generation :: _ => some (timer, generation)
  | .cancelled :: _ => none
  | .reported timer generation :: log =>
    if pending? log = some (timer, generation) then none else pending? log

/-- How often a timer was set or stopped: an arming stops the other timer, and a firing that is acted on
stops its own. -/
def operations : List TimerEvent → Nat
  | [] => 0
  | .armed _ _ :: log => operations log + 2
  | .cancelled :: log => operations log + 1
  | .reported timer generation :: log =>
    operations log + if pending? log = some (timer, generation) then 1 else 0

/-- The generations that were handed out. -/
def armings (log : List TimerEvent) : List Nat :=
  log.filterMap fun
    | .armed _ generation => some generation
    | _ => none

variable {log : List TimerEvent} {timer : Timer} {generation : Nat}

theorem pending_iff : Pending log timer generation ↔ pending? log = some (timer, generation) := by
  induction log with
  | nil => simp [Pending, pending?]
  | cons e log ih =>
    have hcons : Pending (e :: log) timer generation ↔ e = .armed timer generation ∨
        ((∀ other n, e ≠ .armed other n) ∧ e ≠ .cancelled ∧ e ≠ .reported timer generation) ∧
          Pending log timer generation := by
      constructor
      · rintro ⟨later, earlier, hlog, hlater⟩
        cases later with
        | nil => exact .inl (List.cons.inj hlog).1
        | cons e' later =>
          obtain ⟨rfl, rfl⟩ := List.cons.inj hlog
          rw [List.forall_mem_cons] at hlater
          exact .inr ⟨hlater.1, later, earlier, rfl, hlater.2⟩
      · rintro (rfl | ⟨he, later, earlier, rfl, hlater⟩)
        · exact ⟨[], log, rfl, by simp⟩
        · exact ⟨e :: later, earlier, rfl, List.forall_mem_cons.mpr ⟨he, hlater⟩⟩
    rw [hcons, ih]
    cases e with
    | armed other n => simp [pending?]
    | cancelled => simp [pending?]
    | reported other n =>
      by_cases hsame : pending? log = some (other, n)
      · simp [pending?, hsame]
      · by_cases hpair : other = timer ∧ n = generation
        · obtain ⟨rfl, rfl⟩ := hpair
          simp [pending?, hsame]
        · simp [pending?, hsame, hpair]

/-- What was armed and reported is pending no more, unless its generation is handed out again. -/
theorem not_pending_of_reported {newer older : List TimerEvent} (hd : (armings log).Nodup)
    (hlog : log = newer ++ .reported timer generation :: older)
    (harmed : .armed timer generation ∈ older) : ¬ Pending log timer generation := by
  rintro ⟨later, earlier, hpending, hlater⟩
  -- The report is not among what came later, so that it came earlier, and the arming before it, too.
  have hearlier : .armed timer generation ∈ earlier := by
    have hsplit := List.append_eq_append_iff.mp (hpending.symm.trans hlog)
    rcases hsplit with ⟨mid, hmid, heq⟩ | ⟨mid, hmid, heq⟩
    · cases mid with
      | nil => cases heq
      | cons e mid =>
        obtain ⟨-, rfl⟩ := List.cons.inj heq
        exact List.mem_append_right _ (List.mem_cons_of_mem _ harmed)
    · cases mid with
      | nil => cases heq
      | cons e mid =>
        obtain ⟨rfl, -⟩ := List.cons.inj heq
        have hmem : .reported timer generation ∈ later := by simp [hmid]
        exact absurd rfl (hlater _ hmem).2.2
  have hrepeated : generation ∈ armings earlier := List.mem_filterMap.mpr ⟨_, hearlier, rfl⟩
  rw [hpending, armings, List.filterMap_append] at hd
  exact (List.nodup_cons.mp (List.nodup_append.mp hd).2.1).1 hrepeated

theorem operations_le_append (new log : List TimerEvent) :
    operations log ≤ operations (new ++ log) := by
  induction new with
  | nil => exact Nat.le_refl _
  | cons e new ih =>
    rw [List.cons_append]
    cases e <;> simp only [operations] <;> omega

/-- What an answer asks to be sent does not concern the timers. -/
theorem told_append {sends timing : Actions} (ho : sends.SendsOnly) :
    told (.ok (sends ++ timing)) = told (.ok timing) := by
  have hnone : sends.filterMap ofAction? = [] := by
    rw [List.filterMap_eq_nil_iff]
    intro a ha
    have hsend := ho a ha
    cases a with
    | send x n kind => rfl
    | arm other duration n => cases hsend
    | cancel => cases hsend
  simp [told, hnone]

end TimerEvent

/-! ## The log and the slots -/

namespace TimerTable

variable {t : TimerTable}

theorem nextGeneration_eq (h : t.generation + 1 ≤ Word.max64) :
    t.nextGeneration = t.generation + 1 := Word.wrap_eq h

/-- An arming counts on, by one or, if the other timer was armed, by two. -/
theorem generation_rearmed (timer : Timer) (expiry : Nat) (h : t.generation + 2 ≤ Word.max64) :
    t.generation < ((t.stop timer.other).set timer expiry).generation ∧
      ((t.stop timer.other).set timer expiry).generation ≤ t.generation + 2 := by
  have hset : ((t.stop timer.other).set timer expiry).generation
      = (t.stop timer.other).nextGeneration := rfl
  have hone := nextGeneration_eq (t := t) (by omega)
  rcases generation_stop t timer.other with hstop | hstop
  · rw [hset, nextGeneration_eq (by omega), hstop]
    omega
  · rw [hset, nextGeneration_eq (by omega), hstop]
    omega

end TimerTable

open TimerEvent

/-- What is armed is the arming that is pending, and the counter gave every arming a generation of its
own. -/
structure Booked (log : List TimerEvent) (t : TimerTable) : Prop where
  shown : t.Matches (pending? log)
  counted : t.generation ≤ operations log
  latest : ∀ n ∈ armings log, n ≤ t.generation
  distinct : (armings log).Nodup

namespace Booked

variable {log : List TimerEvent} {t t' : TimerTable} {timer : Timer} {generation : Nat}

theorem start : Booked [] {} := by
  refine ⟨TimerTable.matches_none fun timer => ?_, Nat.le_refl 0, by simp [armings], .nil⟩
  cases timer <;> rfl

/-- The timers change as an answer tells. -/
theorem handed {timing : Actions} (h : Booked log t) (hh : t.Handed t' timing)
    (hops : operations (told (.ok timing) ++ log) ≤ Word.max64) :
    Booked (told (.ok timing) ++ log) t' := by
  have hcounted := h.counted
  cases hh with
  | same => exact h
  | armed timer expiry duration =>
    change operations log + 2 ≤ Word.max64 at hops
    obtain ⟨hlt, hle⟩ := TimerTable.generation_rearmed (t := t) timer expiry (by omega)
    have hbelow : ∀ n ∈ armings log, n < ((t.stop timer.other).set timer expiry).generation :=
      fun n hn => Nat.lt_of_le_of_lt (h.latest n hn) hlt
    refine ⟨TimerTable.matches_rearmed t timer expiry, ?_, ?_, ?_⟩
    · show _ ≤ operations log + 2
      omega
    · intro n hn
      rcases List.mem_cons.mp hn with rfl | hn
      · exact Nat.le_refl _
      · exact Nat.le_of_lt (hbelow n hn)
    · refine List.nodup_cons.mpr ⟨?_, h.distinct⟩
      intro hmem
      exact absurd (hbelow _ hmem) (Nat.lt_irrefl _)
  | cancelled harmed =>
    change operations log + 1 ≤ Word.max64 at hops
    have hnext : t.stopAll.generation = t.generation + 1 := TimerTable.nextGeneration_eq (by omega)
    refine ⟨TimerTable.matches_none fun _ => TimerTable.armed?_stopAll, ?_, ?_, h.distinct⟩
    · show _ ≤ operations log + 1
      omega
    · intro n hn
      have hle := h.latest n hn
      omega

/-- A firing that is reported is taken off, if it is pending. -/
theorem reported (h : Booked log t)
    (hops : operations (.reported timer generation :: log) ≤ Word.max64) :
    Booked (.reported timer generation :: log)
      (if t.isCurrent timer generation then t.stop timer else t) := by
  have hshown := h.shown timer generation
  have hcounted := h.counted
  cases hc : t.isCurrent timer generation with
  | true =>
    have hpending := hshown.mp hc
    simp only [operations, hpending, if_true] at hops
    have hnext : (t.stop timer).generation = t.generation ∨
        (t.stop timer).generation = t.generation + 1 := by
      rw [← TimerTable.nextGeneration_eq (t := t) (by omega)]
      exact TimerTable.generation_stop t timer
    rw [if_pos rfl]
    refine ⟨?_, ?_, ?_, h.distinct⟩
    · simpa [pending?, hpending] using h.shown.stop hc
    · simp only [operations, hpending, if_true]
      omega
    · intro n hn
      have hle := h.latest n hn
      omega
  | false =>
    have hother : pending? log ≠ some (timer, generation) := fun hp => by
      rw [hshown.mpr hp] at hc
      cases hc
    rw [if_neg Bool.false_ne_true]
    refine ⟨?_, ?_, h.latest, h.distinct⟩
    · simpa [pending?, hother] using h.shown
    · simpa [operations, hother] using h.counted

/-- The timers change as the result of a call tells, unless it is a violation. -/
theorem told {result : Except Error Actions} (h : Booked log t) (hr : t.Reported t' result)
    (hf : ∀ e, result = .error e → e.isFatal = false)
    (hops : operations (told result ++ log) ≤ Word.max64) :
    Booked (TimerEvent.told result ++ log) t' := by
  cases hr with
  | answered ho handed =>
    rw [told_append ho] at hops ⊢
    exact h.handed handed hops
  | failed kept =>
    rw [kept (hf _ rfl)]
    exact h

end Booked

/-! ## Carrying out actions -/

/-- The host, with a log of what it was asked to do with its timers, latest first. -/
def Host.noting {σ : Type} (host : Host σ) : Host (σ × List TimerEvent) where
  transmit w range flags :=
    let transmission := host.transmit w.1 range flags
    { result := transmission.result
      host := (transmission.host, w.2)
      events := transmission.events }
  arm w timer duration generation :=
    (host.arm w.1 timer duration generation, .armed timer generation :: w.2)
  cancel w := (host.cancel w.1, .cancelled :: w.2)

namespace Engine

variable {κ σ : Type} {g : Engine κ} {log : List TimerEvent} {now : Nat}

/-- What a send that is carried out makes of the timers, latest first. -/
def sendEvents (host : Host σ) (g : Engine κ) (w : σ) (range : SeqRange) (kind : SendKind)
    (now : Nat) : List TimerEvent := (g.sendRange host.noting (w, []) range kind now).2.1.2

/-- What the sends among the actions make of the timers while they are carried out. The timer actions
among them are no news: they were part of an answer before. -/
def dispatchAllEvents (host : Host σ) (now : Nat) (g : Engine κ) (w : σ) : Actions → List TimerEvent
  | [] => []
  | .send range _ kind :: rest =>
    let sent := g.sendRange host w range kind now
    match sent.2.2 with
    | .error _ => g.sendEvents host w range kind now
    | .ok _ =>
      dispatchAllEvents host now sent.1 sent.2.1 rest ++ g.sendEvents host w range kind now
  | action :: rest => dispatchAllEvents host now g (applyTimer host g w action) rest

/-- What happens to the timers when the actions of a call are carried out. -/
def dispatchEvents (host : Host σ) (g : Engine κ) (w : σ) (actions : Actions) (now : Nat) :
    List TimerEvent :=
  if g.isAborted then [] else g.dispatchAllEvents host now w actions

section Dispatch

variable (host : Host σ)

/-- A log changes nothing about a send. -/
theorem sendRange_noting (g : Engine κ) (w : σ) (log : List TimerEvent) (range : SeqRange)
    (kind : SendKind) (now : Nat) :
    (g.sendRange host.noting (w, log) range kind now).1 = (g.sendRange host w range kind now).1 ∧
      (g.sendRange host.noting (w, log) range kind now).2.2
        = (g.sendRange host w range kind now).2.2 := by
  unfold sendRange
  split
  · exact ⟨rfl, rfl⟩
  · simp only [Host.noting]
    split
    · exact ⟨rfl, rfl⟩
    · split
      · exact ⟨rfl, rfl⟩
      · split <;> exact ⟨rfl, rfl⟩

/-- An answer is noted as it was given: what it asks for is not overtaken right away. -/
theorem noted_foldl {t : TimerTable} {sends timing : Actions} (ho : sends.SendsOnly)
    (hh : t.Handed g.schedule.timers timing) (w : σ × List TimerEvent) :
    ((sends ++ timing).foldl (applyTimer host.noting g) w).2 = told (.ok (sends ++ timing)) ++ w.2 := by
  have hsends : sends.foldl (applyTimer host.noting g) w = w := by
    induction sends with
    | nil => rfl
    | cons a rest ih =>
      have hsend := ho a List.mem_cons_self
      cases a with
      | send x n kind => exact ih fun b hb => ho b (List.mem_cons_of_mem _ hb)
      | arm timer duration generation => cases hsend
      | cancel => cases hsend
  rw [List.foldl_append, hsends, told_append ho]
  generalize ht : g.schedule.timers = t' at hh
  cases hh with
  | same => rfl
  | armed timer expiry duration =>
    have hcurrent := (TimerTable.matches_rearmed t timer expiry timer _).mpr rfl
    rw [← ht] at hcurrent ⊢
    simp only [List.foldl_cons, List.foldl_nil, applyTimer, hcurrent, if_true]
    rfl
  | cancelled harmed =>
    have hnone : g.schedule.timers.nextTimeout = none := by
      rw [ht, TimerTable.nextTimeout_eq_none]
      exact fun _ => TimerTable.armed?_stopAll
    simp only [List.foldl_cons, List.foldl_nil, applyTimer, hnone, if_true]
    rfl

/-- The timers change as is noted while a send is carried out, unless that ends with a violation. -/
theorem booked_sendRange (h : Booked log g.schedule.timers) (w : σ) (range : SeqRange)
    (kind : SendKind) (now : Nat)
    (hf : ∀ e, (g.sendRange host w range kind now).2.2 = .error e → e.isFatal = false)
    (hops : operations (g.sendEvents host w range kind now ++ log) ≤ Word.max64) :
    Booked (g.sendEvents host w range kind now ++ log)
      (g.sendRange host w range kind now).1.schedule.timers := by
  obtain ⟨hengine, hresult⟩ := sendRange_noting host g w [] range kind now
  have hcarried := carried_sendRange host.noting g (w, []) range kind now
  unfold sendEvents at hops ⊢
  rw [← hengine]
  rw [← hresult] at hf
  generalize g.sendRange host.noting (w, []) range kind now = done at hcarried hf hops ⊢
  have hreported := reported_processSent
    (g.tell (host.noting.transmit (w, []) range kind.flags).events)
  cases hcarried with
  | dropped => exact h
  | failed m => exact h
  | nothing => exact h
  | refused n pos report =>
    have hsent := hreported ⟨range.start, range.start + n⟩ kind.flags now
    rw [report] at hsent
    exact h.told hsent (by simpa using hf) hops
  | @taken n pos done actions report =>
    have hsent := hreported ⟨range.start, range.start + n⟩ kind.flags now
    rw [report] at hsent
    generalize hanswer : (Except.ok actions : Except Error Actions) = answer at hsent
    have hnoted : (actions.foldl (applyTimer host.noting done)
        (host.noting.transmit (w, []) range kind.flags).host).2 = told (.ok actions) := by
      cases hsent with
      | answered ho handed =>
        cases hanswer
        rw [noted_foldl host ho handed]
        exact List.append_nil _
      | failed kept => cases hanswer
    dsimp only at hops ⊢
    rw [hnoted] at hops ⊢
    subst hanswer
    exact h.told hsent (by simp) hops

theorem booked_dispatchAll (h : Booked log g.schedule.timers) (w : σ) (total : Nat)
    (actions : Actions) (now : Nat)
    (hf : ∀ e, (g.dispatchAll host now w total actions).2.2 = .error e → e.isFatal = false)
    (hops : operations (g.dispatchAllEvents host now w actions ++ log) ≤ Word.max64) :
    Booked (g.dispatchAllEvents host now w actions ++ log)
      (g.dispatchAll host now w total actions).1.schedule.timers := by
  -- Along the actions; the first error ends the walk.
  induction actions generalizing g w total log with
  | nil => exact h
  | cons action rest ih =>
    cases action with
    | send range n kind =>
      simp only [dispatchAll, dispatchAllEvents] at hf hops ⊢
      cases hres : (g.sendRange host w range kind now).2.2 with
      | error e =>
        simp only [hres] at hf hops ⊢
        exact booked_sendRange host h w range kind now (by rw [hres]; exact hf) hops
      | ok bytes =>
        simp only [hres, List.append_assoc] at hf hops ⊢
        have hone := booked_sendRange host h w range kind now (by simp [hres])
          (Nat.le_trans (operations_le_append _ _) hops)
        exact ih hone _ _ hf hops
    | arm timer duration generation => exact ih h _ _ hf hops
    | cancel => exact ih h _ _ hf hops

theorem isAborted_of_dispatch {w : σ} {actions : Actions}
    (ha : (g.dispatch host w actions now).1.1.isAborted = false) : g.isAborted = false := by
  cases hb : g.isAborted with
  | false => rfl
  | true =>
    rw [Engine.dispatch, if_pos hb] at ha
    exact hb.symm.trans ha

theorem booked_dispatch (h : Booked log g.schedule.timers) (w : σ) (actions : Actions)
    (ha : (g.dispatch host w actions now).1.1.isAborted = false)
    (hops : operations (g.dispatchEvents host w actions now ++ log) ≤ Word.max64) :
    Booked (g.dispatchEvents host w actions now ++ log)
      (g.dispatch host w actions now).1.1.schedule.timers := by
  unfold dispatch dispatchEvents at *
  split at ha
  · next hstopped => simp [hstopped] at ha
  · next hruns =>
    rw [if_neg hruns] at hops ⊢
    rw [if_neg hruns]
    have hall := booked_dispatchAll host h w 0 actions now
    dsimp only at ha ⊢
    cases hres : (g.dispatchAll host now w 0 actions).2.2 with
    | ok total =>
      rw [hres] at hall
      exact hall (by simp) hops
    | error e =>
      rw [hres] at ha hall
      have hf := isFatal_of_fail ha
      dsimp only
      rw [(noted_fail _ hf).schedule]
      refine hall ?_ hops
      intro e' he
      injection he with he
      exact he ▸ hf

end Dispatch

/-! ## Runs -/

variable [CongestionLaw κ]

/-- The engines that calls lead to from a fresh one whose first sequence number is `first`, each with the
log of what happened to the timers. Calls are made with any arguments. -/
inductive Timekept (first : Nat) : List TimerEvent → Engine κ → Prop
  | start {settings : Settings} {law : κ} {sink : Sink} {now : Nat} {g : Engine κ}
      (started : start settings law sink first now = .ok g) : Timekept first [] g
  | send {log : List TimerEvent} {g : Engine κ} (before : Timekept first log g) (range : SeqRange)
      (flags : Flags) (now : Nat) :
      Timekept first (told (g.onPacketSent range flags now).2 ++ log) (g.onPacketSent range flags now).1
  | ack {log : List TimerEvent} {g : Engine κ} (before : Timekept first log g) (a : Ack) (now : Nat) :
      Timekept first (told (g.onAck a now).2 ++ log) (g.onAck a now).1
  | fire {log : List TimerEvent} {g : Engine κ} (before : Timekept first log g) (timer : Timer)
      (generation : Nat) (hasData : Bool) (now : Nat) :
      Timekept first
        (told (g.onTimeout timer generation hasData now).2 ++ .reported timer generation :: log)
        (g.onTimeout timer generation hasData now).1
  | dispatch {log : List TimerEvent} {g : Engine κ} (before : Timekept first log g) {σ : Type}
      (host : Host σ) (w : σ) (actions : Actions) (now : Nat) :
      Timekept first (g.dispatchEvents host w actions now ++ log) (g.dispatch host w actions now).1.1
  | nextSendTime {log : List TimerEvent} {g : Engine κ} (before : Timekept first log g)
      (bytes now : Nat) : Timekept first log (g.nextSendTime bytes now).1
  | setFixedRate {log : List TimerEvent} {g : Engine κ} (before : Timekept first log g)
      (rate : Option Nat) : Timekept first log (g.setFixedRate rate)
  | setHardware {log : List TimerEvent} {g : Engine κ} (before : Timekept first log g)
      (table : RateTable) : Timekept first log (g.setHardware table)
  | setTrace {log : List TimerEvent} {g : Engine κ} (before : Timekept first log g) (trace : String) :
      Timekept first log (g.setTrace trace)

variable {first : Nat}

/-- A timer is armed only while data is outstanding. -/
theorem Timekept.attended (h : Timekept first log g) : g.control.Attended := by
  induction h with
  | start started => exact attended_start started
  | send _ range flags now ih => exact lasting_attended.call (.send range flags now) ih
  | ack _ a now ih => exact lasting_attended.call (.ack a now) ih
  | fire _ timer generation hasData now ih =>
    exact lasting_attended.call (.fire timer generation hasData now) ih
  | dispatch _ host w actions now ih => exact lasting_attended.call (.dispatch host w actions now) ih
  | nextSendTime _ bytes now ih => exact lasting_attended.call (.nextSendTime bytes now) ih
  | setFixedRate _ rate ih => exact lasting_attended.call (.setFixedRate rate) ih
  | setHardware _ table ih => exact lasting_attended.call (.setHardware table) ih
  | setTrace _ trace ih => exact lasting_attended.call (.setTrace trace) ih

/-- As long as the engine runs and the counter does not wrap around, the log and the slots tell the
same. -/
theorem Timekept.booked (h : Timekept first log g) (ha : g.isAborted = false)
    (hops : operations log ≤ Word.max64) : Booked log g.schedule.timers := by
  induction h with
  | start started =>
    obtain ⟨-, rfl⟩ := start_eq_ok_iff.mp started
    exact .start
  | send before range flags now ih =>
    have hb := isAborted_of_guarded ha
    have hbefore := ih hb (Nat.le_trans (operations_le_append _ _) hops)
    obtain ⟨hreported, herror⟩ := reported_guarded (reported_processSent _ range flags now) hb ha
    exact hbefore.told hreported herror hops
  | ack before a now ih =>
    have hb := isAborted_of_guarded ha
    have hbefore := ih hb (Nat.le_trans (operations_le_append _ _) hops)
    obtain ⟨hreported, herror⟩ := reported_guarded (reported_processAck _ a now) hb ha
    exact hbefore.told hreported herror hops
  | fire before timer generation hasData now ih =>
    have hb := isAborted_of_guarded ha
    have hone := Nat.le_trans (operations_le_append _ _) hops
    have hbefore := ih hb (Nat.le_trans (operations_le_append [.reported timer generation] _) hone)
    obtain ⟨hreported, herror⟩ :=
      reported_guarded (reported_processTimeout _ timer generation hasData now) hb ha
    exact (hbefore.reported hone).told hreported herror hops
  | @dispatch log g before σ host w actions now ih =>
    have hb := isAborted_of_dispatch host ha
    have hbefore := ih hb (Nat.le_trans (operations_le_append _ _) hops)
    exact booked_dispatch host hbefore w actions ha hops
  | nextSendTime _ bytes now ih => exact ih ha hops
  | setFixedRate _ rate ih => exact ih ha hops
  | setHardware _ table ih => exact ih ha hops
  | setTrace _ trace ih => exact ih ha hops

/-! ## Firings -/

/-- The firing of `timer` took effect: what is asked to be sent goes with a probe or a timeout that began,
the retransmission timer is armed under the generation `next` and nothing else is, and nothing was counted
as overtaken. -/
structure Acted (timer : Timer) (g g' : Engine κ) (sends : Actions) (next : Nat) : Prop where
  sendsOnly : sends.SendsOnly
  armed : g'.schedule.timers.Matches (some (.rto, next))
  kept : g'.stats.staleTimers = g.stats.staleTimers
  probed : timer = .tlp → sends ≠ [] →
    g'.schedule.stage = .tlpPending ∧ g'.stats.tlpProbes = g.stats.tlpProbes + 1
  timedOut : timer = .rto →
    g'.schedule.stage = .rtoPending ∧ g'.stats.rtoCount = g.stats.rtoCount + 1

omit [CongestionLaw κ] in
theorem acted_fireProbe (hlt : g.board.una < g.board.top) (hasData : Bool) (now : Nat) :
    ∃ sends duration next, (g.fireProbe hasData now).2 = sends ++ [.arm .rto duration next] ∧
      Acted .tlp g (g.fireProbe hasData now).1 sends next := by
  unfold fireProbe
  rw [if_neg (outstanding_ne_zero hlt)]
  dsimp only
  cases g.probeFor hasData with
  | none =>
    refine ⟨[], _, _, rfl, ?_⟩
    constructor
    case sendsOnly => exact Actions.sendsOnly_nil
    case armed => apply TimerTable.matches_rearmed
    case kept => rfl
    case probed => exact fun _ hne => absurd rfl hne
    case timedOut => simp
  | some probe =>
    refine ⟨_, _, _, rfl, ?_⟩
    constructor
    case sendsOnly => simp [startProbe, Actions.SendsOnly, Action.isTimer]
    case armed => apply TimerTable.matches_rearmed
    case kept => rfl
    case probed => exact fun _ _ => ⟨rfl, rfl⟩
    case timedOut => simp

theorem acted_fireTimeout (hlt : g.board.una < g.board.top) (now : Nat) :
    ∃ sends duration next, (g.fireTimeout now).2 = sends ++ [.arm .rto duration next] ∧
      Acted .rto g (g.fireTimeout now).1 sends next := by
  have hresent : (g.collapsed now).resendLowest.1.schedule.stage = .rtoPending ∧
      (g.collapsed now).resendLowest.1.stats.rtoCount = g.stats.rtoCount + 1 ∧
      (g.collapsed now).resendLowest.1.stats.staleTimers = g.stats.staleTimers ∧
      (g.collapsed now).resendLowest.2.SendsOnly := by
    unfold resendLowest
    split
    · exact ⟨rfl, rfl, rfl, Actions.sendsOnly_nil⟩
    · exact ⟨rfl, rfl, rfl, Actions.sendsOnly_planResends _ _ _⟩
  obtain ⟨hstage, hcount, hstale, hsends⟩ := hresent
  rw [fireTimeout_eq hlt]
  refine ⟨_, _, _, rfl, ?_⟩
  constructor
  case sendsOnly => exact hsends
  case armed => apply TimerTable.matches_rearmed
  case kept => exact hstale
  case probed => simp
  case timedOut => exact fun _ => ⟨hstage, hcount⟩

/-- A firing that is current takes effect. -/
theorem acted_onTimeout (ha : g.isAborted = false) {timer : Timer} {generation : Nat}
    (hc : g.schedule.timers.isCurrent timer generation = true) (hlt : g.board.una < g.board.top)
    (hasData : Bool) (now : Nat) :
    ∃ sends duration next, (g.onTimeout timer generation hasData now).2
        = .ok (sends ++ [.arm .rto duration next]) ∧
      Acted timer g (g.onTimeout timer generation hasData now).1 sends next := by
  rw [onTimeout_eq ha, processTimeout_eq g hc hasData now]
  cases timer with
  | tlp =>
    obtain ⟨sends, duration, next, hanswer, hacted⟩ :=
      acted_fireProbe (g := g.takeOff .tlp) hlt hasData now
    dsimp only
    rw [hanswer]
    exact ⟨sends, duration, next, rfl, { hacted with }⟩
  | rto =>
    obtain ⟨sends, duration, next, hanswer, hacted⟩ := acted_fireTimeout (g := g.takeOff .rto) hlt now
    dsimp only
    rw [hanswer]
    exact ⟨sends, duration, next, rfl, { hacted with }⟩

/-- Any other firing is counted and traced, and answered with nothing. -/
theorem onTimeout_stale (ha : g.isAborted = false) {timer : Timer} {generation : Nat}
    (hc : g.schedule.timers.isCurrent timer generation = false) (hasData : Bool) (now : Nat) :
    g.onTimeout timer generation hasData now = ({ g with
      stats := { g.stats with staleTimers := g.stats.staleTimers + 1 }
      sink := g.sink.add .staleTimers 1
      journal := .timerStale timer generation g.schedule.timers.generation :: g.journal }, .ok []) := by
  rw [onTimeout_eq ha]
  simp [processTimeout, hc, noteStaleTimer, tell, count]

/-- In a run that does not abort, a firing takes effect if it is the one that is pending, and is ignored
otherwise. It is pending no more once it was reported, since no generation is handed out twice. -/
theorem Timekept.acts_once (h : Timekept first log g) (ha : g.isAborted = false)
    (hops : operations log ≤ Word.max64) :
    (armings log).Nodup ∧
    (∀ timer generation newer older, log = newer ++ .reported timer generation :: older →
      .armed timer generation ∈ older → ¬ Pending log timer generation) ∧
    ∀ timer generation hasData now,
      (Pending log timer generation → ∃ sends duration next,
        (g.onTimeout timer generation hasData now).2 = .ok (sends ++ [.arm .rto duration next]) ∧
        Acted timer g (g.onTimeout timer generation hasData now).1 sends next) ∧
      (¬ Pending log timer generation → g.onTimeout timer generation hasData now = ({ g with
        stats := { g.stats with staleTimers := g.stats.staleTimers + 1 }
        sink := g.sink.add .staleTimers 1
        journal := .timerStale timer generation g.schedule.timers.generation :: g.journal }, .ok [])) := by
  have hbooked := h.booked ha hops
  refine ⟨hbooked.distinct, ?_, ?_⟩
  · intro timer generation newer older hlog harmed
    exact not_pending_of_reported hbooked.distinct hlog harmed
  · intro timer generation hasData now
    rw [pending_iff, ← hbooked.shown timer generation]
    constructor
    · intro hc
      obtain ⟨a, harmed, -⟩ := TimerTable.isCurrent_iff.mp hc
      have hlt : g.board.una < g.board.top :=
        h.attended.outstanding timer (Option.isSome_of_eq_some harmed)
      exact acted_onTimeout ha hc hlt hasData now
    · intro hstale
      exact onTimeout_stale ha (by simpa using hstale) hasData now

/-- The probe timer that an ack armed anew fires, after a firing of the one that was armed before it. The
retransmission timer that is armed in its place is pending then. -/
theorem acts_once_after_stale_firing : ∃ (log : List TimerEvent) (g : Engine FixedWindow),
    (Timekept 0 log g ∧ g.isAborted = false ∧ operations log ≤ Word.max64 ∧
      log.head? = some (.armed .rto 4) ∧ .reported .tlp 1 ∈ log ∧ g.stats.staleTimers = 1) ∧
    ∃ sends duration next, (g.onTimeout .rto 4 true 1090).2
        = .ok (sends ++ [.arm .rto duration next]) ∧
      Acted .rto g (g.onTimeout .rto 4 true 1090).1 sends next := by
  have started : Engine.start {} (FixedWindow.ofSettings {}) .discard 0 0 = .ok _ := rfl
  have sent := (Timekept.start started).send ⟨0, 2920⟩ {} 0
  have acked := sent.ack { cumulative := 1460 } 40
  have stale := acked.fire .tlp 1 true 60
  have fired := stale.fire .tlp 2 true 90
  refine ⟨_, _, ⟨fired, rfl, by decide +kernel, rfl, by decide +kernel, by decide +kernel⟩, ?_⟩
  apply ((fired.acts_once rfl (by decide +kernel)).2.2 .rto 4 true 1090).1
  rw [pending_iff]
  rfl

end Engine

end LossRecovery
