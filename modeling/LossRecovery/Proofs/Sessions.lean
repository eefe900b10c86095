import LossRecovery.Congestion.FixedWindow
import LossRecovery.Proofs.Asked

/-!
# `LossRecovery.Proofs.Sessions` — an engine over the calls made to it

A session is an engine together with what its sender knows: the actions it was asked for, any of
which may be carried out late, and the sends that were taken in. A reachable session is one that
calls lead to, in any order, from a fresh engine. The sender keeps two rules: it sends from at or
below the right edge, and it leaves the marks of delivery to the engine.

## Contents
- `Sending`, `Session`: the sends taken in, and the history of an engine.
- `Engine.Carried`, `carried_sendRange`: what becomes of a send that is carried out.
- `guarded_eq`, `onTimeout_eq`: calls while the engine runs; `Engine.fresh`, `start_eq_ok_iff`: how it
  starts.
- `Session.send`, `ack`, `fire`, `dispatch`: the calls; `Session.Step`, `Session.Reachable`.
- `Preserved`: what sends, passes over acks and relabelling keep; `Continued`: what a call does then.
- `Session.Healthy`, `Reachable.healthy`: what holds of every reachable session.
- `Reachable.never_aborts`: no call stops the engine.
-/

namespace LossRecovery

/-- A send the engine took in: the scoreboard before it, its range, and its time. -/
structure Sending where
  board : Scoreboard
  range : SeqRange
  now : Nat

namespace Engine

variable {κ : Type} [CongestionLaw κ] {g g' : Engine κ} {now : Nat}

/-! ## Acks -/

/-- What a pass over an ack begins with. -/
def passState (g : Engine κ) : AckPass :=
  { board := g.board, tracker := g.tracker, ledger := g.ledger, recent := g.recent }

/-- What a pass judges an ack by. -/
def ackInput (g : Engine κ) (ack : Ack) (now : Nat) : AckInput :=
  ⟨ack, if g.rtt.hasSample then g.rtt.minRtt else 0, now⟩

/-- The engine after the pass over an ack, before any conclusion is drawn. -/
def acked (g : Engine κ) (ack : Ack) (now : Nat) : Engine κ :=
  g.adopt (g.passState.run (g.ackInput ack now)) ack

omit [CongestionLaw κ] in
theorem Sound.passState (h : g.Sound) : g.passState.Sound := ⟨h.board, h.counts, h.tracker⟩

omit [CongestionLaw κ] in
theorem Sound.acked (h : g.Sound) {ack : Ack} (hle : ack.cumulative ≤ g.board.top) (now : Nat) :
    (g.acked ack now).Sound := by
  obtain ⟨hs, -, -⟩ := h.passState.run (i := g.ackInput ack now) hle
  exact ⟨hs.board, hs.counts, hs.tracker⟩

omit [CongestionLaw κ] in
theorem Sound.acked_top (h : g.Sound) {ack : Ack} (hle : ack.cumulative ≤ g.board.top) (now : Nat) :
    (g.acked ack now).board.top = g.board.top := by
  obtain ⟨-, hm, -⟩ := h.passState.run (i := g.ackInput ack now) hle
  exact hm.top.trans (h.passState.atEdge (i := g.ackInput ack now) hle).2.top

omit [CongestionLaw κ] in
theorem Relabelled.edges (h : Relabelled g g') :
    g'.board.una = g.board.una ∧ g'.board.top = g.board.top := by
  obtain ⟨f, -, hb⟩ := h.board
  rw [hb]
  exact ⟨rfl, rfl⟩

/-- An ack of data that was never sent is refused as a whole. -/
theorem processAck_of_beyond {ack : Ack} (hlt : g.board.top < ack.cumulative) :
    g.processAck ack now
      = (g, .error (.malformed (.ackBeyond ack.cumulative g.board.top))) := by
  have hp : g.passOf ack now = .error (.malformed (.ackBeyond ack.cumulative g.board.top)) :=
    if_pos hlt
  unfold processAck
  rw [hp]

/-- Any other ack is taken in: it is a pass over the scoreboard and some relabelling. -/
theorem Sound.processAck (h : g.Sound) {ack : Ack} (hle : ack.cumulative ≤ g.board.top) (now : Nat) :
    Relabelled (g.acked ack now) (g.processAck ack now).1 ∧
    ∃ actions, (g.processAck ack now).2 = .ok actions ∧ actions.StartBelow g.board.top := by
  have hp : g.passOf ack now = .ok (g.passState.run (g.ackInput ack now)) :=
    AckPass.process_eq_ok hle
  have hs := h.acked hle now
  have htop := h.acked_top hle now
  obtain ⟨mid, r1, hlost, r2⟩ := conclude_eq (g.acked ack now) ack
    (g.passState.run (g.ackInput ack now)).outcome now
  have s1 := r1.sound hs
  have s2 := r2.sound s1
  have r3 := relabelled_respond
    ((g.acked ack now).conclude ack (g.passState.run (g.ackInput ack now)).outcome now).1
    g.schedule.stage ack (g.passState.run (g.ackInput ack now)).outcome
    ((g.acked ack now).conclude ack (g.passState.run (g.ackInput ack now)).outcome now).2 now
  unfold Engine.processAck
  rw [hp]
  refine ⟨(r1.trans r2).trans r3, _, (r3.sound s2).audited _, ?_⟩
  have hbelow := s2.startBelow_respond g.schedule.stage ack
    (g.passState.run (g.ackInput ack now)).outcome now
    fun r (hr : r ∈ ((g.acked ack now).conclude ack
      (g.passState.run (g.ackInput ack now)).outcome now).2) => by
      rw [hlost] at hr
      have := s1.board.start_le_top (s1.mem_of_detectLosses hr)
      rwa [r2.edges.2]
  rw [r2.edges.2, r1.edges.2, htop] at hbelow
  exact hbelow

/-! ## Errors -/

omit [CongestionLaw κ] in
/-- An error that is no violation is counted, and that is all. -/
theorem kept_fail (g : Engine κ) {e : Error} (he : e.isFatal = false) : Kept g (g.fail e) := by
  unfold fail
  dsimp only
  rw [if_neg (by rw [he]; exact Bool.false_ne_true)]
  cases e <;> exact rfl

omit [CongestionLaw κ] in
theorem guarded_eq {α : Type} {call : Engine κ → Engine κ × Except Error α}
    (ha : g.isAborted = false) :
    g.guarded call = match (call g).2 with
      | .ok a => ((call g).1, .ok a)
      | .error e => ((call g).1.fail e, .error e) := by
  unfold guarded
  exact if_neg (by rw [ha]; exact Bool.false_ne_true)

/-- While the engine runs, no firing is refused. -/
theorem onTimeout_eq (ha : g.isAborted = false) (timer : Timer) (generation : Nat) (hasData : Bool)
    (now : Nat) :
    g.onTimeout timer generation hasData now =
      ((g.processTimeout timer generation hasData now).1,
        .ok (g.processTimeout timer generation hasData now).2) := guarded_eq ha

/-! ## Carried out actions -/

theorem isFresh_flags (kind : SendKind) : kind.flags.IsFresh := by
  cases kind <;> exact ⟨rfl, rfl⟩

theorem start_lt_part (range : SeqRange) {n : Nat} (pos : 0 < n) :
    (⟨range.start, range.start + n⟩ : SeqRange).start
      < (⟨range.start, range.start + n⟩ : SeqRange).stop := Nat.lt_add_of_pos_right pos

/-- What becomes of a send that is carried out: it is dropped, it fails at the host, nothing of it
goes out, or what went out is reported, and refused or taken in. -/
inductive Carried {σ : Type} (host : Host σ) (g : Engine κ) (w : σ) (range : SeqRange)
    (kind : SendKind) (now : Nat) : Engine κ × σ × Except Error Nat → Prop
  | dropped : Carried host g w range kind now (g.noteStale range, w, .ok 0)
  | failed (m : String) :
      Carried host g w range kind now (g.tell (host.transmit w range kind.flags).events,
        (host.transmit w range kind.flags).host, .error (.transmitFailed m))
  | nothing :
      Carried host g w range kind now (g.tell (host.transmit w range kind.flags).events,
        (host.transmit w range kind.flags).host, .ok 0)
  | refused (n : Nat) (pos : 0 < n) {done : Engine κ} {e : Error}
      (report : (g.tell (host.transmit w range kind.flags).events).processSent
        ⟨range.start, range.start + n⟩ kind.flags now = (done, .error e)) :
      Carried host g w range kind now (done, (host.transmit w range kind.flags).host, .error e)
  | taken (n : Nat) (pos : 0 < n) {done : Engine κ} {actions : Actions}
      (report : (g.tell (host.transmit w range kind.flags).events).processSent
        ⟨range.start, range.start + n⟩ kind.flags now = (done, .ok actions)) :
      Carried host g w range kind now (done,
        actions.foldl (applyTimer host done) (host.transmit w range kind.flags).host, .ok n)

omit [CongestionLaw κ] in
theorem carried_sendRange {σ : Type} (host : Host σ) (g : Engine κ) (w : σ) (range : SeqRange)
    (kind : SendKind) (now : Nat) :
    Carried host g w range kind now (g.sendRange host w range kind now) := by
  unfold sendRange
  split
  · exact .dropped
  · dsimp only
    split
    · next e _ => cases e <;> exact .failed _
    · next count _ =>
      split
      · exact .nothing
      · next hzero =>
        split
        · next e he => exact .refused _ (Nat.pos_of_ne_zero hzero) (Prod.ext rfl he)
        · next actions hok => exact .taken _ (Nat.pos_of_ne_zero hzero) (Prod.ext rfl hok)

/-- What a carried out send makes known: nothing if it was dropped or failed. -/
def sendingOf (g : Engine κ) (range : SeqRange) (now : Nat) : Except Error Nat → List Sending
  | .ok n => if n = 0 then [] else [⟨g.board, ⟨range.start, range.start + n⟩, now⟩]
  | .error _ => []

/-- The sends taken in while actions are carried out, latest first. -/
def dispatchSends {σ : Type} (host : Host σ) (now : Nat) (g : Engine κ) (w : σ) :
    Actions → List Sending
  | [] => []
  | .send range _ kind :: rest =>
    let sent := g.sendRange host w range kind now
    match sent.2.2 with
    | .error e => g.sendingOf range now (.error e)
    | .ok n => dispatchSends host now sent.1 sent.2.1 rest ++ g.sendingOf range now (.ok n)
  | action :: rest => dispatchSends host now g (applyTimer host g w action) rest

end Engine

/-! ## Sessions -/

/-- An engine with the history of the calls made to it. -/
structure Session (κ : Type) where
  engine : Engine κ
  /-- What the engine has asked for. -/
  issued : List Actions := []
  /-- The sends taken in, latest first. -/
  sends : List Sending := []
  /-- When the calls were made, latest first. -/
  instants : List Nat := []

namespace Session

variable {κ : Type} [CongestionLaw κ]

/-- The actions asked for, if a call succeeds. -/
def asked : Except Error Actions → List Actions
  | .ok actions => [actions]
  | .error _ => []

/-- Report a send. -/
def send (s : Session κ) (range : SeqRange) (flags : Flags) (now : Nat) : Session κ :=
  let done := s.engine.onPacketSent range flags now
  { engine := done.1
    issued := asked done.2 ++ s.issued
    sends := (asked done.2).map (fun _ => ⟨s.engine.board, range, now⟩) ++ s.sends
    instants := now :: s.instants }

/-- Report an ack. -/
def ack (s : Session κ) (a : Ack) (now : Nat) : Session κ :=
  let done := s.engine.onAck a now
  { s with
    engine := done.1
    issued := asked done.2 ++ s.issued
    instants := now :: s.instants }

/-- Report the firing of a timer. -/
def fire (s : Session κ) (timer : Timer) (generation : Nat) (hasData : Bool) (now : Nat) :
    Session κ :=
  let done := s.engine.onTimeout timer generation hasData now
  { s with
    engine := done.1
    issued := asked done.2 ++ s.issued
    instants := now :: s.instants }

/-- Carry out actions. -/
def dispatch {σ : Type} (s : Session κ) (host : Host σ) (w : σ) (actions : Actions) (now : Nat) :
    Session κ :=
  { s with
    engine := (s.engine.dispatch host w actions now).1.1
    sends := s.engine.dispatchSends host now w actions ++ s.sends
    instants := now :: s.instants }

/-- One call of a sender that keeps the rules. -/
inductive Step (s : Session κ) : Session κ → Prop
  | send (range : SeqRange) (flags : Flags) (now : Nat)
      (from_below : range.start ≤ s.engine.board.top) (fresh : flags.IsFresh) :
      Step s (s.send range flags now)
  | ack (a : Ack) (now : Nat) : Step s (s.ack a now)
  | fire (timer : Timer) (generation : Nat) (hasData : Bool) (now : Nat) :
      Step s (s.fire timer generation hasData now)
  | dispatch {σ : Type} (host : Host σ) (w : σ) (actions : Actions) (now : Nat)
      (issued : actions ∈ s.issued) : Step s (s.dispatch host w actions now)

/-- The sessions that calls lead to from a fresh engine. -/
inductive Reachable : Session κ → Prop
  | start {settings : Settings} {law : κ} {sink : Sink} {una now : Nat} {g : Engine κ}
      (started : Engine.start settings law sink una now = .ok g) : Reachable { engine := g }
  | step {s s' : Session κ} (before : Reachable s) (call : Step s s') : Reachable s'

end Session

/-! ## What is kept throughout -/

section Preservation

variable {κ : Type} [CongestionLaw κ] {g g' : Engine κ}

/-- A property of an engine and the sends taken in that relabelling, sends and passes over acks
keep. -/
structure Preserved (P : Engine κ → List Sending → Prop) : Prop where
  relabel : ∀ {g g' sends}, g.Sound → Engine.Relabelled g g' → P g sends → P g' sends
  sent : ∀ {g g' sends x now}, g.Sound → g'.Sound → x.start < x.stop → x.start ≤ g.board.top →
    g.board.Sent x now g'.board → Engine.SameDelivery g g' → P g sends →
    P g' (⟨g.board, x, now⟩ :: sends)
  acked : ∀ {g sends ack} (now : Nat), g.Sound → ack.cumulative ≤ g.board.top → P g sends →
    P (g.acked ack now) sends

/-- What every engine of a reachable session is: sound, and not stopped. -/
structure Engine.Running (g : Engine κ) : Prop where
  sound : g.Sound
  isAborted : g.isAborted = false

omit [CongestionLaw κ] in
theorem Engine.Running.relabel (h : g.Running) (hr : Engine.Relabelled g g') : g'.Running :=
  ⟨hr.sound h.sound, hr.isAborted.trans h.isAborted⟩

/-- A call made to `g` left a running engine with the property, whose right edge did not move
back. -/
structure Continued (P : Engine κ → List Sending → Prop) (g : Engine κ) (sends : List Sending)
    (g' : Engine κ) : Prop where
  running : g'.Running
  top_le : g.board.top ≤ g'.board.top
  property : P g' sends

variable {P : Engine κ → List Sending → Prop} {sends : List Sending} {now : Nat}

namespace Continued

omit [CongestionLaw κ] in
theorem refl (h : g.Running) (hp : P g sends) : Continued P g sends g :=
  ⟨h, Nat.le_refl _, hp⟩

omit [CongestionLaw κ] in
theorem relabel (hP : Preserved P) (h : Continued P g sends g') {g'' : Engine κ}
    (hr : Engine.Relabelled g' g'') : Continued P g sends g'' :=
  ⟨h.running.relabel hr, by rw [hr.edges.2]; exact h.top_le,
    hP.relabel h.running.sound hr h.property⟩

omit [CongestionLaw κ] in
theorem trans {more : List Sending} {g'' : Engine κ} (h : Continued P g sends g')
    (h' : Continued P g' more g'') : Continued P g more g'' :=
  ⟨h'.running, Nat.le_trans h.top_le h'.top_le, h'.property⟩

end Continued

namespace Engine.Running

omit [CongestionLaw κ] in
/-- A report of a send that is not empty. -/
theorem processSent (hP : Preserved P) (h : g.Running) (hp : P g sends) {x : SeqRange} {flags : Flags}
    (hx : x.start < x.stop) (hs : x.start ≤ g.board.top) (hf : flags.IsFresh) (now : Nat) :
    Continued P g (⟨g.board, x, now⟩ :: sends) (g.processSent x flags now).1 := by
  obtain ⟨-, hsent, hsound, hmem⟩ := h.sound.processSent hx hs hf now
  refine ⟨⟨hsound, hmem.isAborted.trans h.isAborted⟩, ?_,
    hP.sent h.sound hsound hx hs hsent hmem hp⟩
  rw [hsent.edges.2]
  exact Nat.le_max_left _ _

omit [CongestionLaw κ] in
theorem send (hP : Preserved P) (h : g.Running) (hp : P g sends) {x : SeqRange} {flags : Flags}
    (hs : x.start ≤ g.board.top) (hf : flags.IsFresh) (now : Nat) :
    Continued P g ((Session.asked (g.onPacketSent x flags now).2).map
      (fun _ => (⟨g.board, x, now⟩ : Sending)) ++ sends) (g.onPacketSent x flags now).1 ∧
    ∀ as ∈ Session.asked (g.onPacketSent x flags now).2,
      as.StartBelow (g.onPacketSent x flags now).1.board.top := by
  unfold onPacketSent
  rw [guarded_eq h.isAborted]
  by_cases hx : x.start < x.stop
  · obtain ⟨⟨actions, hok⟩, -, -, -⟩ := h.sound.processSent hx hs hf now
    rw [hok]
    refine ⟨h.processSent hP hp hx hs hf now, ?_⟩
    intro as has
    rw [List.mem_singleton.mp has]
    exact startBelow_processSent g hok _
  · -- An empty or reversed range is refused, and the refusal is counted.
    rw [processSent_of_empty g (Nat.le_of_not_lt hx)]
    dsimp only
    exact ⟨(Continued.refl h hp).relabel hP (.of_kept (kept_fail g rfl)),
      fun as has => absurd has List.not_mem_nil⟩

/-- An ack within the data sent is taken in: it is a pass over the scoreboard and some relabelling. -/
theorem onAck (h : g.Running) {a : Ack} (hle : a.cumulative ≤ g.board.top) (now : Nat) :
    Engine.Relabelled (g.acked a now) (g.onAck a now).1 ∧
    ∃ actions, (g.onAck a now).2 = .ok actions ∧ actions.StartBelow g.board.top := by
  obtain ⟨hr, actions, hok, hbelow⟩ := h.sound.processAck hle now
  unfold Engine.onAck
  rw [guarded_eq h.isAborted, hok]
  exact ⟨hr, actions, rfl, hbelow⟩

theorem ack (hP : Preserved P) (h : g.Running) (hp : P g sends) (a : Ack) (now : Nat) :
    Continued P g sends (g.onAck a now).1 ∧
    ∀ as ∈ Session.asked (g.onAck a now).2, as.StartBelow (g.onAck a now).1.board.top := by
  by_cases hle : a.cumulative ≤ g.board.top
  · obtain ⟨hr, actions, hok, hbelow⟩ := h.onAck hle now
    have htop := h.sound.acked_top hle now
    have hc : Continued P g sends (g.acked a now) :=
      ⟨⟨h.sound.acked hle now, h.isAborted⟩, Nat.le_of_eq htop.symm, hP.acked now h.sound hle hp⟩
    refine ⟨hc.relabel hP hr, ?_⟩
    rw [hok]
    intro as has
    rw [List.mem_singleton.mp has]
    exact hbelow.mono (Nat.le_of_eq (by rw [hr.edges.2, htop]))
  · unfold Engine.onAck
    rw [guarded_eq h.isAborted, processAck_of_beyond (Nat.lt_of_not_le hle)]
    dsimp only
    exact ⟨(Continued.refl h hp).relabel hP (.of_kept (kept_fail g rfl)),
      fun as has => absurd has List.not_mem_nil⟩

theorem fire (hP : Preserved P) (h : g.Running) (hp : P g sends) (timer : Timer)
    (generation : Nat) (hasData : Bool) (now : Nat) :
    Continued P g sends (g.onTimeout timer generation hasData now).1 ∧
    ∀ as ∈ Session.asked (g.onTimeout timer generation hasData now).2,
      as.StartBelow (g.onTimeout timer generation hasData now).1.board.top := by
  rw [onTimeout_eq h.isAborted]
  have hr := relabelled_processTimeout g timer generation hasData now
  refine ⟨(Continued.refl h hp).relabel hP hr, ?_⟩
  intro as has
  rw [List.mem_singleton.mp has]
  exact (h.sound.startBelow_processTimeout timer generation hasData).mono
    (Nat.le_of_eq hr.edges.2.symm)

/-! ### Carried out actions -/

variable {σ : Type} (host : Host σ) (now : Nat)

omit [CongestionLaw κ] in
/-- A send that is carried out is dropped, fails without harm, or is reported. -/
theorem sendRange (hP : Preserved P) (h : g.Running) (hp : P g sends) (w : σ) {range : SeqRange}
    (kind : SendKind) (hs : range.start ≤ g.board.top) :
    Continued P g (g.sendingOf range now (g.sendRange host w range kind now).2.2 ++ sends)
      (g.sendRange host w range kind now).1 ∧
    ∀ e, (g.sendRange host w range kind now).2.2 = .error e → e.isFatal = false := by
  have hk : Engine.Kept g (g.tell (host.transmit w range kind.flags).events) := rfl
  have htold := (Continued.refl h hp).relabel hP (.of_kept hk)
  have hcarried := carried_sendRange host g w range kind now
  generalize g.sendRange host w range kind now = done at hcarried ⊢
  cases hcarried with
  | dropped =>
    exact ⟨(Continued.refl h hp).relabel hP (.of_kept (kept_noteStale g range)),
      fun e he => nomatch he⟩
  | failed m =>
    -- No error of the host is a violation.
    refine ⟨htold, ?_⟩
    intro e he
    injection he with he
    exact he ▸ rfl
  | nothing => exact ⟨htold, fun e he => nomatch he⟩
  | refused n pos report =>
    obtain ⟨⟨actions, hok⟩, -, -, -⟩ :=
      htold.running.sound.processSent (start_lt_part range pos) hs (isFresh_flags kind) now
    rw [report] at hok
    cases hok
  | taken n pos report =>
    have hsent := htold.running.processSent hP htold.property (start_lt_part range pos) hs
      (isFresh_flags kind) now
    rw [report] at hsent
    refine ⟨?_, fun e he => nomatch he⟩
    unfold sendingOf
    dsimp only
    rw [if_neg (Nat.ne_of_gt pos)]
    exact htold.trans hsent

omit [CongestionLaw κ] in
theorem dispatchAll (hP : Preserved P) (h : g.Running) (hp : P g sends) (w : σ) (total : Nat)
    {actions : Actions} (ha : actions.StartBelow g.board.top) :
    Continued P g (g.dispatchSends host now w actions ++ sends)
      (g.dispatchAll host now w total actions).1 ∧
    ∀ e, (g.dispatchAll host now w total actions).2.2 = .error e → e.isFatal = false := by
  -- Along the actions. The right edge does not move back, so what was asked for stays below it.
  induction actions generalizing g w total sends with
  | nil => exact ⟨Continued.refl h hp, fun e he => nomatch he⟩
  | cons action rest ih =>
    have hrest : Actions.StartBelow rest g.board.top := fun range n kind hm =>
      ha range n kind (List.mem_cons_of_mem _ hm)
    cases action with
    | send range n kind =>
      obtain ⟨hc, he⟩ := h.sendRange host now hP hp w kind
        (ha range n kind List.mem_cons_self)
      unfold Engine.dispatchAll dispatchSends
      dsimp only
      cases hres : (g.sendRange host w range kind now).2.2 with
      | error e =>
        rw [hres] at hc
        refine ⟨hc, ?_⟩
        intro e' he'
        injection he' with he'
        rw [← he']
        exact he e hres
      | ok n =>
        rw [hres] at hc
        obtain ⟨hc', he'⟩ := ih hc.running hc.property (g.sendRange host w range kind now).2.1
          (total + n) (hrest.mono hc.top_le)
        rw [List.append_assoc]
        exact ⟨hc.trans hc', he'⟩
    | arm timer duration generation => exact ih h hp _ total hrest
    | cancel => exact ih h hp _ total hrest

omit [CongestionLaw κ] in
theorem dispatch (hP : Preserved P) (h : g.Running) (hp : P g sends) (w : σ) {actions : Actions}
    (ha : actions.StartBelow g.board.top) :
    Continued P g (g.dispatchSends host now w actions ++ sends)
      (g.dispatch host w actions now).1.1 := by
  obtain ⟨hc, he⟩ := h.dispatchAll host now hP hp w 0 ha
  unfold Engine.dispatch
  rw [if_neg (by rw [h.isAborted]; exact Bool.false_ne_true)]
  dsimp only
  split
  · exact hc
  · next e hres => exact hc.relabel hP (.of_kept (kept_fail _ (he e hres)))

end Engine.Running

/-! ## Reachable sessions -/

/-- What an engine starts with, once its settings passed. -/
def Engine.fresh (s : Settings) (law : κ) (sink : Sink) (first now : Nat) : Engine κ where
  settings := s
  board := Scoreboard.empty first s.maxSegments
  tracker := SackTracker.start first s.sackFilterRanges
  ledger := {}
  recent := {}
  rtt := RttEstimator.start s now
  goodput := GoodputEstimator.start (Word.mul s.goodputMinSegments s.mss) s.goodputRttDecay
  probe := ⟨s.probeRttInterval, s.probeRttDuration, Word.mul s.probeRttFloorSegments s.mss, none⟩
  pacing := PacingController.start s now
  law := law
  schedule := {}
  window := Word.max64
  delivered := 0
  saturationTold := false
  stats := {}
  sink := sink
  isAborted := false
  trace := ""
  journal := []

omit [CongestionLaw κ] in
theorem Engine.start_eq_ok_iff {settings : Settings} {law : κ} {sink : Sink} {first : Nat} :
    Engine.start settings law sink first now = .ok g ↔
      settings.validate = .ok () ∧ g = Engine.fresh settings law sink first now := by
  unfold Engine.start
  cases settings.validate with
  | error e => simp
  | ok u => exact ⟨fun h => ⟨rfl, (Except.ok.inj h).symm⟩, fun h => congrArg _ h.2.symm⟩

omit [CongestionLaw κ] in
/-- A fresh engine has sent nothing, and nothing was delivered. -/
theorem Engine.start_board {settings : Settings} {law : κ} {sink : Sink} {una : Nat}
    (h : Engine.start settings law sink una now = .ok g) :
    g.board = Scoreboard.empty una settings.maxSegments ∧ g.recent = {} := by
  obtain ⟨-, rfl⟩ := Engine.start_eq_ok_iff.mp h
  exact ⟨rfl, rfl⟩

omit [CongestionLaw κ] in
theorem Engine.Sound.start {settings : Settings} {law : κ} {sink : Sink} {una : Nat}
    (h : Engine.start settings law sink una now = .ok g) : g.Running := by
  obtain ⟨-, rfl⟩ := Engine.start_eq_ok_iff.mp h
  refine ⟨⟨Scoreboard.Coherent.empty _ _, ⟨rfl, rfl⟩, ?_⟩, rfl⟩
  refine ⟨RangeSet.canonical_empty _, fun seq hs => absurd hs (RangeSet.not_holds_empty _),
    Nat.le_refl _, fun seq hs => Bool.noConfusion hs, Or.inl rfl⟩

/-- What holds of every reachable session: its engine runs, what was asked for starts at or below
the right edge, and what sends, passes and relabelling keep holds. -/
structure Session.Healthy (P : Engine κ → List Sending → Prop) (s : Session κ) : Prop where
  running : s.engine.Running
  issued : ∀ as ∈ s.issued, as.StartBelow s.engine.board.top
  property : P s.engine s.sends

omit [CongestionLaw κ] in
/-- A call that continues its session keeps it healthy. -/
theorem Session.Healthy.of_continued {s s' : Session κ} (h : s.Healthy P)
    (hc : Continued P s.engine s'.sends s'.engine)
    (hi : ∀ as ∈ s'.issued, as ∈ s.issued ∨ as.StartBelow s'.engine.board.top) : s'.Healthy P := by
  refine ⟨hc.running, ?_, hc.property⟩
  intro as has
  rcases hi as has with hold | hnew
  · exact (h.issued as hold).mono hc.top_le
  · exact hnew

theorem Session.Healthy.step (hP : Preserved P) {s s' : Session κ} (h : s.Healthy P)
    (call : Session.Step s s') : s'.Healthy P := by
  have asked : ∀ {new : List Actions} {edge : Nat}, (∀ as ∈ new, as.StartBelow edge) →
      ∀ as ∈ new ++ s.issued, as ∈ s.issued ∨ as.StartBelow edge := by
    intro new edge hnew as has
    rcases List.mem_append.mp has with has | has
    · exact Or.inr (hnew as has)
    · exact Or.inl has
  cases call with
  | send range flags now hs hf =>
    obtain ⟨hc, hi⟩ := h.running.send hP h.property hs hf now
    exact h.of_continued hc (asked hi)
  | ack a now =>
    obtain ⟨hc, hi⟩ := h.running.ack hP h.property a now
    exact h.of_continued hc (asked hi)
  | fire timer generation hasData now =>
    obtain ⟨hc, hi⟩ := h.running.fire hP h.property timer generation hasData now
    exact h.of_continued hc (asked hi)
  | dispatch host w actions now issued =>
    have hc := h.running.dispatch host now hP h.property w
      (h.issued actions issued)
    exact h.of_continued hc fun as has => Or.inl has

/-- What sends, passes and relabelling keep holds in every reachable session if it holds at the
start. -/
theorem Session.Reachable.healthy (hP : Preserved P)
    (hstart : ∀ {settings law sink una now g},
      Engine.start settings law sink una now = .ok g → P g []) {s : Session κ} (h : s.Reachable) :
    s.Healthy P := by
  induction h with
  | start started =>
    exact ⟨Engine.Sound.start started, fun as has => absurd has List.not_mem_nil, hstart started⟩
  | step before call ih => exact ih.step hP call

/-- The engine of a reachable session is sound and not stopped. -/
theorem Session.Reachable.running {s : Session κ} (h : s.Reachable) : s.engine.Running :=
  (h.healthy (P := fun _ _ => True) ⟨fun _ _ _ => trivial, fun _ _ _ _ _ _ _ => trivial,
    fun _ _ _ _ => trivial⟩ fun _ => trivial).running

/-! ## Integrity -/

open Engine (totalLength)

/-- No call stops the engine of a reachable session, and its audit succeeds after each: the records
tile the outstanding numbers, the sending order lists the linked records, each once, and the counters
are the totals over the SACKed records and over the holes, which together fit into the flight. -/
theorem Session.Reachable.never_aborts {s : Session κ} (h : s.Reachable) :
    s.engine.isAborted = false ∧ s.engine.audit = .ok () ∧
    Tiles s.engine.board.una s.engine.board.records s.engine.board.top ∧
    (∀ r, r ∈ s.engine.board.ordered ↔ r ∈ s.engine.board.records ∧ r.linked = true) ∧
    s.engine.board.ordered.Nodup ∧ s.engine.board.ordered.length = s.engine.board.order.length ∧
    s.engine.ledger.sackedBytes = totalLength (·.flags.sacked) s.engine.board.records ∧
    s.engine.ledger.holeBytes = totalLength (·.hole) s.engine.board.records ∧
    s.engine.ledger.sackedBytes + s.engine.ledger.holeBytes
      ≤ s.engine.board.top - s.engine.board.una := by
  obtain ⟨hsound, haborted⟩ := h.running
  have hco := hsound.board
  refine ⟨haborted, hsound.audit, hco.tiles, fun r => hco.mem_ordered, ?_, hco.length_ordered.1,
    hsound.counts.sacked, hsound.counts.holes, hsound.counted_le⟩
  -- Two places in the order would share a start.
  have hstarts := hco.nodup_order
  rw [← hco.ordered_starts] at hstarts
  exact List.Pairwise.of_map (·.start) (fun _ _ hne he => hne (congrArg _ he)) hstarts

/-- A flight of two segments, an ack of the second one, a probe, and a timeout. -/
theorem never_aborts_after_timeout : ∃ s : Session FixedWindow, s.Reachable ∧
    s.engine.board.size = 2 ∧ s.engine.schedule.stage = .rtoPending ∧
    s.engine.isAborted = false ∧ s.engine.audit = .ok () := by
  have started : Engine.start {} (FixedWindow.ofSettings {}) .discard 0 0 = .ok _ := rfl
  have sent := (Session.Reachable.start started).step
    (.send ⟨0, 2920⟩ {} 0 (Nat.zero_le _) ⟨rfl, rfl⟩)
  have acked := sent.step (.ack { cumulative := 0, blocks := [⟨1460, 2920⟩] } 50)
  have probed := acked.step (.fire .tlp 2 false 1000)
  have fired := probed.step (.fire .rto 4 false 2000)
  obtain ⟨haborted, haudit, -⟩ := Session.Reachable.never_aborts fired
  exact ⟨_, fired, rfl, rfl, haborted, haudit⟩

end Preservation

end LossRecovery
