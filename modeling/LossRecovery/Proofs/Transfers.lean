import LossRecovery.Proofs.Exchanges
import LossRecovery.Proofs.Handover
import LossRecovery.Proofs.Plans
import LossRecovery.Simulation.Transfer

/-!
# `LossRecovery.Proofs.Transfers` — what happens in a transfer

Whatever happens in a transfer is a sequence of moves, each by one of its parts: the engine takes in a
send, an ack or a timer, the link hands over what has arrived. Throughout, the two ends agree on what
was sent. Of each call it is shown that it succeeds, and which moves it makes.

## Contents
- `Transfer.Segment`, `Transfer.Allows`: a segment on the link, and when one may be put there.
- `Transfer.Move stop t put t'`: one move, with what it puts on the link; `Transfer.Course`: any number.
- `Consistent`, `Extends`: what holds of both ends and of all that is on its way, and how far the right
  edge moves; `Move.keeps`.
- `Passes stop t done`: a call that succeeds, by moves; `Consistent.dispatch`: actions that are carried
  out.
- `hasData_of_fireProbe`, `Consistent.grants`: what calls ask for may be put on the link.
- `Consistent.step`, `Consistent.trySend`: what happens at one instant, and sending one segment.
-/

namespace LossRecovery

namespace Link

variable {l : Link} {range : SeqRange} {now : Nat} {p : Packet}

theorem mem_put (h : p ∈ (l.put range now).1.packets) : p ∈ l.packets ∨ p.range = range := by
  unfold put at h
  dsimp only at h
  split at h
  · exact .inl h
  · rcases List.mem_append.mp h with hold | hnew
    · exact .inl hold
    · rw [List.mem_singleton.mp hnew]
      exact .inr rfl

theorem mem_of_mem_takeArrived (h : p ∈ (l.takeArrived now).2) : p ∈ l.packets :=
  List.mem_of_mem_filter (Sorting.mem_sortByKey.mp h)

theorem takeArrived_sublist (l : Link) (now : Nat) :
    (l.takeArrived now).1.packets.Sublist l.packets := List.filter_sublist

end Link

namespace Transfer

variable {κ : Type} [CongestionLaw κ] {t t' u : Transfer κ} {stop now : Nat} {range : SeqRange}
  {kind : SendKind} {put more : List Segment}

/-! ## Moves -/

/-- A segment that was put on the link: by the sender itself, or as a send of some kind that the
engine asked for. -/
structure Segment where
  range : SeqRange
  kind? : Option SendKind

/-- Whether a segment may be put on the link while the data up to `stop` is transferred. The sender
itself stays below `stop`. What is asked for was sent before, or it is a whole segment as a probe with
new data, of which there is some left. -/
def Allows (stop : Nat) (t : Transfer κ) (s : Segment) : Prop :=
  s.range.start < s.range.stop ∧ s.range.start ≤ t.engine.board.top ∧
    match s.kind? with
    | none => s.range.stop ≤ stop
    | some .newDataProbe =>
      s.range.start < stop ∧ s.range.stop = s.range.start + t.engine.settings.mss
    | some _ => s.range.stop ≤ t.engine.board.top

/-- Take in that a range was sent, and put it on the link. -/
def takeIn (t : Transfer κ) (range : SeqRange) (flags : Flags) (now : Nat) : Transfer κ :=
  { t with
    engine := (t.engine.processSent range flags now).1
    link := (t.link.put range now).1 }

/-- One move of a transfer of the data up to `stop`, with what it puts on the link. -/
inductive Move (stop : Nat) (t : Transfer κ) : List Segment → Transfer κ → Prop
  | noted {g : Engine κ} (notes : Engine.Noted t.engine g) : Move stop t [] { t with engine := g }
  | rearmed (armed : Option ArmedTimer) : Move stop t [] { t with armed := armed }
  | sent (s : Segment) (flags : Flags) (now : Nat) (fresh : flags.IsFresh)
      (allowed : t.Allows stop s) :
      Move stop t [s] (t.takeIn s.range flags now)
  | received (now : Nat) : Move stop t [] (t.receive now)
  | drained (now : Nat) : Move stop t [] { t with acks := t.acks.filter (now < ·.1) }
  | acked (a : Ack) (now : Nat) (sent : a.cumulative ≤ t.engine.board.top) :
      Move stop t [] { t with engine := (t.engine.onAck a now).1 }
  | fired (timer : Timer) (generation : Nat) (hasData : Bool) (now : Nat) :
      Move stop t [] { t with engine := (t.engine.onTimeout timer generation hasData now).1 }

/-- Any number of moves, with all that they put on the link. -/
inductive Course (stop : Nat) (t : Transfer κ) : List Segment → Transfer κ → Prop
  | refl : Course stop t [] t
  | tail {put more : List Segment} {u v : Transfer κ} (before : Course stop t put u)
      (move : Move stop u more v) : Course stop t (put ++ more) v

namespace Course

theorem single (move : Move stop t put u) : Course stop t put u := by
  have h := Course.refl.tail move
  rwa [List.nil_append] at h

theorem trans {v : Transfer κ} (h : Course stop t put u) (h' : Course stop u more v) :
    Course stop t (put ++ more) v := by
  induction h' with
  | refl =>
    rw [List.append_nil]
    exact h
  | tail _ move ih =>
    rw [← List.append_assoc]
    exact ih.tail move

end Course

/-! ## Consistency -/

/-- The engine works on, and nothing that is on its way, or was received, lies above what it sent. -/
structure Consistent (t : Transfer κ) : Prop where
  engine : Engine.Sustains (fun g => g.control.AtRest) t.engine
  packets : ∀ p ∈ t.link.packets, p.range.stop ≤ t.engine.board.top
  held : ∀ seq, t.receiver.Holds seq → seq < t.engine.board.top
  acks : ∀ a ∈ t.acks, a.2.cumulative ≤ t.engine.board.top

/-- Let one segment arrive at the receiver. -/
def answer (now : Nat) (t : Transfer κ) (p : Packet) : Transfer κ :=
  let answered := t.receiver.onSegment p.range p.sent
  { t with receiver := answered.1, acks := t.acks ++ [(now + t.ackDelay, answered.2)] }

omit [CongestionLaw κ] in
theorem receive_eq (t : Transfer κ) (now : Nat) : t.receive now
    = (t.link.takeArrived now).2.foldl (answer now) { t with link := (t.link.takeArrived now).1 } :=
  rfl

namespace Consistent

omit [CongestionLaw κ] in
/-- What happens to the engine alone, and leaves its right edge where it was or moves it up. -/
theorem of_engine (h : t.Consistent) {g : Engine κ}
    (hg : Engine.Sustains (fun g => g.control.AtRest) g) (hle : t.engine.board.top ≤ g.board.top) :
    Consistent { t with engine := g } :=
  ⟨hg, fun p hp => Nat.le_trans (h.packets p hp) hle,
    fun seq hs => Nat.lt_of_lt_of_le (h.held seq hs) hle,
    fun a ha => Nat.le_trans (h.acks a ha) hle⟩

omit [CongestionLaw κ] in
/-- An answer to a segment covers no more than was sent. -/
theorem answer (h : t.Consistent) (now : Nat) {p : Packet} (hp : p.range.stop ≤ t.engine.board.top) :
    (t.answer now p).Consistent := by
  have hheld : ∀ seq, (t.receiver.onSegment p.range p.sent).1.Holds seq →
      seq < t.engine.board.top := by
    intro seq hs
    rcases (Receiver.holds_onSegment _ _ _ _).mp hs with hold | hnew
    · exact h.held seq hold
    · exact Nat.lt_of_lt_of_le (SeqRange.contains_iff.mp hnew).2 hp
  refine ⟨h.engine, h.packets, hheld, ?_⟩
  intro a ha
  rcases List.mem_append.mp ha with hold | hnew
  · exact h.acks a hold
  · rw [List.mem_singleton.mp hnew]
    show (t.receiver.onSegment p.range p.sent).2.cumulative ≤ t.engine.board.top
    by_contra hbeyond
    have hlast := hheld ((t.receiver.onSegment p.range p.sent).2.cumulative - 1)
      (Receiver.claims_onSegment (.inl (by omega)))
    omega

omit [CongestionLaw κ] in
theorem receive (h : t.Consistent) (now : Nat) :
    (t.receive now).Consistent ∧ (t.receive now).engine = t.engine := by
  have hwalk : ∀ (arrived : List Packet) (t : Transfer κ), t.Consistent →
      (∀ p ∈ arrived, p.range.stop ≤ t.engine.board.top) →
      (arrived.foldl (Transfer.answer now) t).Consistent ∧
        (arrived.foldl (Transfer.answer now) t).engine = t.engine := by
    intro arrived
    induction arrived with
    | nil => exact fun t h _ => ⟨h, rfl⟩
    | cons p rest ih =>
      intro t h hbelow
      exact ih (t.answer now p) (h.answer now (hbelow p List.mem_cons_self))
        fun q hq => hbelow q (List.mem_cons_of_mem _ hq)
  rw [receive_eq]
  refine hwalk _ _ ⟨h.engine, ?_, h.held, h.acks⟩ ?_
  · exact fun p hp => h.packets p ((t.link.takeArrived_sublist now).subset hp)
  · exact fun p hp => h.packets p (Link.mem_of_mem_takeArrived hp)

end Consistent

/-! ## What moves do -/

/-- From `t` to `t'`, the settings stay, and the right edge moves up to the end of what was put on the
link. -/
inductive Extends (stop : Nat) (t : Transfer κ) : List Segment → Transfer κ → Prop
  | still {t' : Transfer κ} (settings : t'.engine.settings = t.engine.settings)
      (top : t'.engine.board.top = t.engine.board.top) : Extends stop t [] t'
  | put {t' : Transfer κ} (s : Segment) (allowed : t.Allows stop s)
      (settings : t'.engine.settings = t.engine.settings)
      (top : t'.engine.board.top = max t.engine.board.top s.range.stop) : Extends stop t [s] t'

omit [CongestionLaw κ] in
theorem Extends.settings (h : Extends stop t put t') :
    t'.engine.settings = t.engine.settings := by
  cases h <;> assumption

omit [CongestionLaw κ] in
theorem Extends.top_le (h : Extends stop t put t') :
    t.engine.board.top ≤ t'.engine.board.top := by
  cases h with
  | still _ top => exact Nat.le_of_eq top.symm
  | put _ _ _ top =>
    rw [top]
    exact Nat.le_max_left _ _

/-- A timer that fires leaves settings and edges alone. -/
theorem relabelled_onTimeout {g : Engine κ} (h : g.Running) (timer : Timer) (generation : Nat)
    (hasData : Bool) (now : Nat) :
    Engine.Relabelled g (g.onTimeout timer generation hasData now).1 := by
  unfold Engine.onTimeout
  rw [Engine.guarded_eq h.isAborted]
  exact Engine.relabelled_processTimeout g timer generation hasData now

/-- Every move leaves a transfer consistent, and the right edge where it was or at the end of what was
put on the link. -/
theorem Move.keeps (move : Move stop t put t') (h : t.Consistent) :
    t'.Consistent ∧ Extends stop t put t' := by
  have hrun := h.engine.1
  cases move with
  | noted notes =>
    have hboard := congrArg Engine.Conduct.board notes
    have htop := congrArg Scoreboard.top hboard
    exact ⟨h.of_engine (h.engine.note Engine.maintained_atRest.aside.sends notes)
      (Nat.le_of_eq htop.symm), .still (congrArg Engine.Conduct.settings notes) htop⟩
  | rearmed armed => exact ⟨⟨h.engine, h.packets, h.held, h.acks⟩, .still rfl rfl⟩
  | sent s flags now fresh allowed =>
    have hx := allowed.1
    have hs := allowed.2.1
    obtain ⟨-, hsent, -, -⟩ := hrun.sound.processSent hx hs fresh now
    have htop := hsent.edges.2
    have hsustains : Engine.Sustains (fun g => g.control.AtRest)
        (t.engine.processSent s.range flags now).1 :=
      ⟨Engine.Sustains.running_processSent hrun hx hs fresh now,
        Engine.maintained_atRest.sent now hrun hx hs fresh h.engine.2⟩
    have hgrown := h.of_engine hsustains (by rw [htop]; exact Nat.le_max_left _ _)
    refine ⟨⟨hsustains, ?_, hgrown.held, hgrown.acks⟩,
      .put s allowed (Engine.settings_processSent t.engine s.range flags now) htop⟩
    intro p hp
    rcases Link.mem_put hp with hold | hnew
    · exact hgrown.packets p hold
    · show p.range.stop ≤ (t.engine.processSent s.range flags now).1.board.top
      rw [hnew, htop]
      exact Nat.le_max_right _ _
  | received now =>
    obtain ⟨hreceived, hengine⟩ := h.receive now
    exact ⟨hreceived, .still (by rw [hengine]) (by rw [hengine])⟩
  | drained now =>
    refine ⟨⟨h.engine, h.packets, h.held, ?_⟩, .still rfl rfl⟩
    exact fun a ha => h.acks a (List.mem_of_mem_filter ha)
  | acked a now sent =>
    obtain ⟨-, htop, -⟩ := hrun.claimed sent now
    exact ⟨h.of_engine (h.engine.ack Engine.maintained_atRest a now) (Nat.le_of_eq htop.symm),
      .still (hrun.onAck sent now).1.settings htop⟩
  | fired timer generation hasData now =>
    have hr := relabelled_onTimeout hrun timer generation hasData now
    exact ⟨h.of_engine (h.engine.fire Engine.maintained_atRest.aside timer generation hasData now)
      (Nat.le_of_eq hr.edges.2.symm), .still hr.settings hr.edges.2⟩

/-- What moves keep, courses keep. -/
theorem Course.consistent (course : Course stop t put u) (h : t.Consistent) : u.Consistent := by
  induction course with
  | refl => exact h
  | tail _ move ih => exact (move.keeps ih).1

theorem Course.settings (course : Course stop t put u) (h : t.Consistent) :
    u.engine.settings = t.engine.settings := by
  induction course with
  | refl => rfl
  | tail before move ih => exact (move.keeps (before.consistent h)).2.settings.trans ih

theorem Course.top_le (course : Course stop t put u) (h : t.Consistent) :
    t.engine.board.top ≤ u.engine.board.top := by
  induction course with
  | refl => exact Nat.le_refl _
  | tail before move ih =>
    exact Nat.le_trans ih (move.keeps (before.consistent h)).2.top_le

/-! ## Carrying out actions -/

/-- A call that succeeds, and does what it does by moves. -/
def Passes {α : Type} (stop : Nat) (t : Transfer κ) (done : Transfer κ × Except Error α) : Prop :=
  ∃ put a, Course stop t put done.1 ∧ done.2 = .ok a

/-- Everything that `actions` ask to send may be put on the link. -/
def Grants (stop : Nat) (t : Transfer κ) (actions : Actions) : Prop :=
  ∀ range n kind, .send range n kind ∈ actions → t.Allows stop ⟨range, some kind⟩

omit [CongestionLaw κ] in
/-- What may be put on the link may be put there later on. -/
theorem Allows.mono {s : Segment} (h : t.Allows stop s)
    (hs : u.engine.settings = t.engine.settings)
    (hle : t.engine.board.top ≤ u.engine.board.top) : u.Allows stop s := by
  obtain ⟨hx, hstart, hkind⟩ := h
  refine ⟨hx, Nat.le_trans hstart hle, ?_⟩
  cases hk : s.kind? with
  | none =>
    rw [hk] at hkind
    exact hkind
  | some kind =>
    rw [hk] at hkind
    cases kind with
    | newDataProbe => exact hs ▸ hkind
    | retransmit | tailProbe => exact Nat.le_trans hkind hle

theorem Course.grants {actions : Actions} (course : Course stop t put u) (h : t.Consistent)
    (hg : t.Grants stop actions) : u.Grants stop actions := fun range n kind hm =>
  (hg range n kind hm).mono (course.settings h) (course.top_le h)

/-- The transfer after its engine worked on the link and the armed timer. -/
def resume (t : Transfer κ) (g : Engine κ) (w : Link × Option ArmedTimer) : Transfer κ :=
  { t with engine := g, link := w.1, armed := w.2 }

omit [CongestionLaw κ] in
theorem link_applyTimer (now : Nat) (g : Engine κ) (w : Link × Option ArmedTimer) (action : Action) :
    (Engine.applyTimer (host now) g w action).1 = w.1 := by
  unfold Engine.applyTimer
  cases action with
  | send range n kind => rfl
  | arm timer duration generation =>
    dsimp only
    split <;> rfl
  | cancel =>
    dsimp only
    split <;> rfl

omit [CongestionLaw κ] in
theorem link_foldl_applyTimer (now : Nat) (g : Engine κ) (w : Link × Option ArmedTimer)
    (actions : Actions) : (actions.foldl (Engine.applyTimer (host now) g) w).1 = w.1 := by
  induction actions generalizing w with
  | nil => rfl
  | cons action rest ih => exact (ih _).trans (link_applyTimer now g w action)

/-- Timer actions set or clear the timer, and that is all. -/
theorem course_timers (stop : Nat) (t : Transfer κ) (now : Nat) (g : Engine κ) (actions : Actions) :
    Course stop t []
      (t.resume t.engine (actions.foldl (Engine.applyTimer (host now) g) (t.link, t.armed))) := by
  have hlink := link_foldl_applyTimer now g (t.link, t.armed) actions
  unfold resume
  rw [hlink]
  exact .single (.rearmed _)

omit [CongestionLaw κ] in
/-- Timer actions alone are carried out without sending anything. -/
theorem dispatch_timers (t : Transfer κ) (now : Nat) (ha : t.engine.isAborted = false)
    {timing : Actions} (ht : ∀ a ∈ timing, a.isTimer = true) : t.dispatch timing now
      = (t.resume t.engine (timing.foldl (Engine.applyTimer (host now) t.engine) (t.link, t.armed)),
          .ok ()) := by
  unfold Transfer.dispatch Engine.dispatch
  rw [if_neg (by simp [ha]), Engine.dispatchAll_timers t.engine (t.link, t.armed) 0 ht]
  rfl

omit [CongestionLaw κ] in
/-- A send that is not dropped enters the link as a whole. -/
theorem sendRange_host (hw : t.engine.stillWanted range kind = true) (hx : range.start < range.stop)
    {follow : Actions} (hok : ((t.engine.tell (t.link.put range now).2).processSent range kind.flags
      now).2 = .ok follow) :
    let reported := (t.engine.tell (t.link.put range now).2).processSent range kind.flags now
    t.engine.sendRange (host now) (t.link, t.armed) range kind now
      = (reported.1, follow.foldl (Engine.applyTimer (host now) reported.1)
          ((t.link.put range now).1, t.armed), .ok range.length) := by
  have hlength : range.length = range.stop - range.start := rfl
  have hwhole : (⟨range.start, range.start + range.length⟩ : SeqRange) = range := by
    rw [hlength, Nat.add_sub_cancel' (Nat.le_of_lt hx)]
  have hsome : range.length ≠ 0 := by omega
  simp only [Engine.sendRange, hw, host, Bool.not_true, Bool.false_eq_true, if_false, Nat.min_self,
    hsome, hwhole, hok]

namespace Consistent

/-- A send that may be carried out is dropped, or it enters the link and is taken in. -/
theorem sendRange (h : t.Consistent) (ha : t.Allows stop ⟨range, some kind⟩) (now : Nat) :
    let done := t.engine.sendRange (host now) (t.link, t.armed) range kind now
    ∃ put n, Course stop t put (t.resume done.1 done.2.1) ∧ done.2.2 = .ok n := by
  cases hw : t.engine.stillWanted range kind with
  | false =>
    have hdropped : t.engine.sendRange (host now) (t.link, t.armed) range kind now
        = (t.engine.noteStale range, (t.link, t.armed), .ok 0) := by
      simp [Engine.sendRange, hw]
    rw [hdropped]
    exact ⟨[], 0, .single (.noted (Engine.noted_noteStale t.engine range)), rfl⟩
  | true =>
    have hn : Engine.Noted t.engine (t.engine.tell (t.link.put range now).2) := rfl
    obtain ⟨⟨follow, hok⟩, -⟩ :=
      (hn.running h.engine.1).sound.processSent ha.1 ha.2.1 (Engine.isFresh_flags kind) now
    have told : Course stop t [] (t.tell (t.link.put range now).2) := .single (.noted hn)
    have sent := told.tail (.sent ⟨range, some kind⟩ kind.flags now (Engine.isFresh_flags kind)
      (ha.mono rfl (Nat.le_refl _)))
    rw [sendRange_host hw ha.1 hok]
    exact ⟨_, range.length, sent.trans (course_timers stop _ now _ follow), rfl⟩

/-- Actions whose sends may be carried out are carried out. -/
theorem dispatchAll (h : t.Consistent) {actions : Actions} (hg : t.Grants stop actions)
    (total now : Nat) :
    let done := t.engine.dispatchAll (host now) now (t.link, t.armed) total actions
    ∃ put n, Course stop t put (t.resume done.1 done.2.1) ∧ done.2.2 = .ok n := by
  -- Along the actions; what may be sent may be sent after the actions before it.
  induction actions generalizing t total with
  | nil => exact ⟨[], total, .refl, rfl⟩
  | cons action rest ih =>
    have hrest : t.Grants stop rest := fun range n kind hm =>
      hg range n kind (List.mem_cons_of_mem _ hm)
    cases action with
    | send range n kind =>
      obtain ⟨put, bytes, course, hok⟩ := h.sendRange (hg range n kind List.mem_cons_self) now
      obtain ⟨more, m, onward, hdone⟩ :=
        ih (course.consistent h) (course.grants h hrest) (total + bytes)
      unfold Engine.dispatchAll
      simp only [hok]
      exact ⟨put ++ more, m, course.trans onward, hdone⟩
    | arm timer duration generation =>
      have handed := course_timers stop t now t.engine [.arm timer duration generation]
      obtain ⟨put, n, onward, hdone⟩ := ih (handed.consistent h) hrest total
      exact ⟨put, n, handed.trans onward, hdone⟩
    | cancel =>
      have handed := course_timers stop t now t.engine [.cancel]
      obtain ⟨put, n, onward, hdone⟩ := ih (handed.consistent h) hrest total
      exact ⟨put, n, handed.trans onward, hdone⟩

theorem dispatch (h : t.Consistent) {actions : Actions} (hg : t.Grants stop actions) (now : Nat) :
    Passes stop t (t.dispatch actions now) := by
  obtain ⟨put, n, course, hok⟩ := h.dispatchAll hg 0 now
  have hdone : t.engine.dispatch (host now) (t.link, t.armed) actions now
      = (((t.engine.dispatchAll (host now) now (t.link, t.armed) 0 actions).1,
          (t.engine.dispatchAll (host now) now (t.link, t.armed) 0 actions).2.1), .ok n) := by
    unfold Engine.dispatch
    rw [if_neg (by simp [h.engine.1.isAborted])]
    simp only [hok]
  unfold Transfer.dispatch
  rw [hdone]
  exact ⟨put, (), course, rfl⟩

end Consistent

end Transfer

/-! ## What calls ask for -/

namespace Engine

variable {κ : Type} [CongestionLaw κ] {g : Engine κ} {actions : Actions} {x : SeqRange} {n now : Nat}
  {kind : SendKind}

/-- After an ack, nothing is sent but what was sent before. -/
theorem Sound.retransmits_of_ack (h : g.Sound) {ack : Ack} (hle : ack.cumulative ≤ g.board.top)
    (hok : (g.processAck ack now).2 = .ok actions) (hm : .send x n kind ∈ actions) :
    kind = .retransmit := by
  obtain ⟨timing, hanswer, -, hhanded⟩ := h.processAck_answer hle now
  injection hok.symm.trans hanswer with heq
  rw [heq] at hm
  rcases List.mem_append.mp hm with hplan | htiming
  · obtain ⟨y, hy, -⟩ := (h.concluded_resending hle now).each _ hplan
    injection hy
  · cases hhanded.isTimer _ htiming

omit [CongestionLaw κ] in
/-- A probe carries new data only if the sender has any. -/
theorem hasData_of_fireProbe {hasData : Bool}
    (hm : .send x n .newDataProbe ∈ (g.fireProbe hasData now).2) : hasData = true := by
  unfold fireProbe at hm
  split at hm
  · cases hm
  · dsimp only at hm
    rcases List.mem_append.mp hm with hprobe | harm
    · cases hp : g.probeFor hasData with
      | none =>
        rw [hp] at hprobe
        cases hprobe
      | some probe =>
        rw [hp] at hprobe
        injection List.mem_singleton.mp hprobe with _ _ hkind
        unfold probeFor at hp
        dsimp only at hp
        split at hp
        · next hfits => exact hfits.1
        · obtain ⟨y, -, rfl⟩ := Option.map_eq_some_iff.mp hp
          cases hkind
    · cases isTimer_arm _ _ _ _ _ harm

theorem Running.hasData_of_probe (h : g.Running) (hrest : g.control.AtRest) {timer : Timer}
    {generation : Nat} {hasData : Bool}
    (hm : .send x n .newDataProbe ∈ (g.processTimeout timer generation hasData now).2) :
    hasData = true := by
  cases hc : g.schedule.timers.isCurrent timer generation with
  | false => simp [processTimeout, hc] at hm
  | true =>
    obtain ⟨hlt, -⟩ := outstanding_of_current h hc hrest
    rw [processTimeout_eq g hc hasData now] at hm
    cases timer with
    | tlp => exact hasData_of_fireProbe hm
    | rto =>
      -- A timeout sends again what was sent before.
      have hkept : Kept g (g.takeOff .rto) := rfl
      have hcollapsed := (relabelled_collapsed (g.takeOff .rto) now).sound (hkept.sound h.sound)
      dsimp only at hm
      rw [fireTimeout_eq (g := g.takeOff .rto) hlt] at hm
      rcases List.mem_append.mp hm with hplan | harm
      · obtain ⟨y, hy, -⟩ := hcollapsed.resendLowest_resending.each _ hplan
        injection hy with _ _ hkind
        cases hkind
      · cases List.mem_singleton.mp harm

end Engine

namespace Transfer

variable {κ : Type} [CongestionLaw κ] {t t' u : Transfer κ} {stop now : Nat} {actions : Actions}
  {range : SeqRange}

namespace Consistent

omit [CongestionLaw κ] in
/-- What is asked for soundly may be put on the link, probes with new data while there is any. -/
theorem grants (h : t.Consistent) (stop : Nat) (hw : t.engine.Warrants actions)
    (hdata : ∀ x n, .send x n .newDataProbe ∈ actions → t.engine.board.top < stop) :
    t.Grants stop actions := by
  have hwanted : ∀ {x}, t.engine.board.Wants x → x.start < x.stop ∧
      x.start ≤ t.engine.board.top ∧ x.stop ≤ t.engine.board.top := by
    rintro x ⟨hx, r, hr, -, -, hstop⟩
    have := (h.engine.1.sound.board.tiles.bounds hr).2.2
    omega
  intro x n kind hm
  obtain ⟨hwarranted, -⟩ := hw.each x n kind hm
  cases kind with
  | retransmit => exact hwanted hwarranted
  | tailProbe => exact hwanted hwarranted.1
  | newDataProbe =>
    obtain ⟨rfl, -⟩ := hwarranted
    exact ⟨Nat.lt_add_of_pos_right h.engine.2.mss_pos, Nat.le_refl _, hdata _ n hm, rfl⟩

/-- An ack of what was sent is taken in, and its answer is carried out. -/
theorem follow_ack (h : t.Consistent) {a : Ack} (hle : a.cumulative ≤ t.engine.board.top)
    (stop now : Nat) : Passes stop t (t.follow (t.engine.onAck a now) now) := by
  have hrun := h.engine.1
  have move : Move stop t [] _ := .acked a now hle
  obtain ⟨-, actions, hok, -⟩ := hrun.onAck hle now
  obtain ⟨-, htaken⟩ := hrun.ack_taken hok
  have hafter := (move.keeps h).1
  have hresult := congrArg Prod.snd htaken
  obtain ⟨hwarrants, -⟩ := hrun.sound.processAck_warrants hle
    (by rw [htaken]; exact hafter.engine.2.mss_pos) hresult
  rw [htaken] at hwarrants
  have hgrants : Grants stop { t with engine := (t.engine.onAck a now).1 } actions :=
    hafter.grants stop hwarrants fun x n hm => nomatch hrun.sound.retransmits_of_ack hle hresult hm
  obtain ⟨put, u, course, hdone⟩ := hafter.dispatch hgrants now
  unfold follow
  rw [hok]
  exact ⟨put, u, (Course.single move).trans course, hdone⟩

/-- A firing timer is taken in, and its answer is carried out. -/
theorem follow_fire (h : t.Consistent) (timer : Timer) (generation stop now : Nat) :
    Passes stop t (t.follow (t.engine.onTimeout timer generation
      (decide (t.engine.board.top < stop)) now) now) := by
  have hrun := h.engine.1
  generalize hdata : decide (t.engine.board.top < stop) = hasData
  have move : Move stop t [] _ := .fired timer generation hasData now
  have htop := (relabelled_onTimeout hrun timer generation hasData now).edges.2
  have hafter := (move.keeps h).1
  obtain ⟨hwarrants, -⟩ := hrun.processTimeout_warrants h.engine.2 timer generation hasData now
  have hok : t.engine.onTimeout timer generation hasData now
      = ((t.engine.processTimeout timer generation hasData now).1,
        .ok (t.engine.processTimeout timer generation hasData now).2) := by
    unfold Engine.onTimeout
    rw [Engine.guarded_eq hrun.isAborted]
  rw [hok] at hafter htop ⊢
  have hgrants := hafter.grants stop hwarrants fun x n hm => by
    have := hrun.hasData_of_probe h.engine.2 hm
    rw [htop]
    simpa [this] using hdata
  obtain ⟨put, u, course, hdone⟩ := hafter.dispatch hgrants now
  rw [hok] at move
  exact ⟨put, u, (Course.single move).trans course, hdone⟩

/-! ## One instant -/

theorem reportAcks (h : t.Consistent) (stop now : Nat) (due : List (Nat × Ack))
    (hdue : ∀ a ∈ due, a.2.cumulative ≤ t.engine.board.top) :
    Passes stop t (reportAcks stop now t due) := by
  -- Along the acks; the right edge does not move back.
  induction due generalizing t with
  | nil => exact ⟨[], (), .refl, rfl⟩
  | cons a rest ih =>
    obtain ⟨put, u, course, hok⟩ := h.follow_ack (hdue a List.mem_cons_self) stop now
    unfold Transfer.reportAcks
    simp only [hok]
    split
    · exact ⟨put, (), course, rfl⟩
    · obtain ⟨more, v, onward, hdone⟩ := ih (course.consistent h) fun b hb =>
        Nat.le_trans (hdue b (List.mem_cons_of_mem _ hb)) (course.top_le h)
      exact ⟨put ++ more, v, course.trans onward, hdone⟩

theorem processAcks (h : t.Consistent) (stop now : Nat) :
    Passes stop t (t.processAcks stop now) := by
  have move : Move stop t [] _ := .drained now
  obtain ⟨put, u, course, hok⟩ := (move.keeps h).1.reportAcks stop now
    (Sorting.sortByKey (·.1) (t.acks.filter (·.1 ≤ now)))
    fun a ha => h.acks a (List.mem_of_mem_filter (Sorting.mem_sortByKey.mp ha))
  exact ⟨put, u, (Course.single move).trans course, hok⟩

theorem processTimer (h : t.Consistent) (stop now : Nat) :
    Passes stop t (t.processTimer stop now) := by
  unfold Transfer.processTimer
  split
  · exact ⟨[], (), .refl, rfl⟩
  · next armed _ =>
    split
    · exact ⟨[], (), .refl, rfl⟩
    · have move : Move stop t [] _ := .rearmed none
      obtain ⟨put, u, course, hok⟩ := (move.keeps h).1.follow_fire armed.timer
        armed.generation stop now
      exact ⟨put, u, (Course.single move).trans course, hok⟩

/-- At every instant, what arrives and what fires is taken in. -/
theorem step (h : t.Consistent) (stop now : Nat) : Passes stop t (t.step stop now) := by
  have move : Move stop t [] _ := .received now
  have hreceived := (move.keeps h).1
  obtain ⟨put, u, course, hok⟩ := hreceived.processAcks stop now
  obtain ⟨more, v, onward, hdone⟩ := (course.consistent hreceived).processTimer stop now
  unfold Transfer.step
  simp only [hok]
  exact ⟨_, v, ((Course.single move).trans course).trans onward, hdone⟩

/-! ## New data -/

/-- A segment at the right edge is taken in, and the right edge moves to its end. -/
theorem sendSegment (h : t.Consistent) (range : SeqRange) (hs : range.start = t.engine.board.top)
    (hx : range.start < range.stop) (hle : range.stop ≤ stop) (isLast : Bool) (now : Nat) :
    ∃ t', t.sendSegment range isLast now = .sent t' ∧ Course stop t [⟨range, none⟩] t' ∧
      t'.engine.board.top = range.stop := by
  generalize hflags : (if isLast then { Flags.empty with appLimited := true } else Flags.empty)
    = flags
  have hfresh : flags.IsFresh := by
    rw [← hflags]
    split <;> exact ⟨rfl, rfl⟩
  have hrun := h.engine.1
  obtain ⟨timing, hanswer, -, hhanded⟩ :=
    hrun.sound.processSent_answer hx (Nat.le_of_eq hs) hfresh now
  have hreport : t.engine.onPacketSent range flags now
      = ((t.engine.processSent range flags now).1, .ok timing) := by
    unfold Engine.onPacketSent
    rw [Engine.guarded_eq hrun.isAborted, hanswer]
  have move : Move stop t [⟨range, none⟩] _ :=
    .sent ⟨range, none⟩ flags now hfresh ⟨hx, Nat.le_of_eq hs, hle⟩
  have told : Course stop t [⟨range, none⟩]
      ((t.takeIn range flags now).tell (t.link.put range now).2) :=
    (Course.single move).tail (.noted (Engine.told_tell _ _).noted)
  have hdone := dispatch_timers ((t.takeIn range flags now).tell (t.link.put range now).2) now
    (move.keeps h).1.engine.1.isAborted hhanded.isTimer
  have timers := course_timers stop ((t.takeIn range flags now).tell (t.link.put range now).2) now
    ((t.takeIn range flags now).tell (t.link.put range now).2).engine timing
  obtain ⟨-, hsent, -, -⟩ := hrun.sound.processSent hx (Nat.le_of_eq hs) hfresh now
  refine ⟨_, ?_, told.trans timers, ?_⟩
  · unfold takeIn at hdone
    simp only [Transfer.sendSegment, hflags, hreport, hdone]
    rfl
  · show (t.engine.processSent range flags now).1.board.top = range.stop
    rw [hsent.edges.2]
    omega

/-- The sender waits, or it sends a segment up to `stop` at most, which moves the right edge up. -/
theorem trySend (h : t.Consistent) (stop now : Nat) :
    (∃ t' until?, t.trySend stop now = .wait t' until? ∧ Course stop t [] t') ∨
    ∃ t' s, t.trySend stop now = .sent t' ∧ Course stop t [s] t' ∧
      t.engine.board.top < t'.engine.board.top ∧ t'.engine.board.top ≤ stop := by
  unfold Transfer.trySend
  dsimp only
  split
  · exact .inl ⟨t, none, rfl, .refl⟩
  · next hsome =>
    have hbounds : t.engine.board.top < t.engine.board.top + min t.mss (stop - t.engine.board.top) ∧
        t.engine.board.top + min t.mss (stop - t.engine.board.top) ≤ stop := by omega
    generalize min t.mss (stop - t.engine.board.top) = length at *
    have told : Course stop t [] (t.tell t.engine.quotaEvents) :=
      .single (.noted (Engine.told_tell _ _).noted)
    split
    · exact .inl ⟨_, none, rfl, told⟩
    · have paced := told.tail (.noted (show Engine.Noted (t.tell t.engine.quotaEvents).engine
        ((t.tell t.engine.quotaEvents).engine.nextSendTime length now).1 from rfl))
      split
      · next later _ => exact .inl ⟨_, some later, rfl, paced⟩
      · obtain ⟨t', hsent, course, htop⟩ := (paced.consistent h).sendSegment
          ⟨t.engine.board.top, t.engine.board.top + length⟩ rfl hbounds.1 hbounds.2
          (t.engine.board.top + length == stop) now
        refine .inr ⟨t', _, hsent, paced.trans course, ?_⟩
        rw [htop]
        exact hbounds

end Consistent

end Transfer

end LossRecovery
