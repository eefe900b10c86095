import LossRecovery.Proofs.SackExactness
import LossRecovery.Proofs.Windows
import LossRecovery.Simulation.Receiver

/-!
# `LossRecovery.Proofs.Exchanges` — a sender and a receiver over a network

Segments that were sent, and the acks that answer them, reach the other end late, more than once, out
of order, in pieces, or never. Whatever the network does, the sender takes for delivered only what
has arrived, and no ack of the receiver is refused.

## Contents
- `Receiver.Holds`, `holds_onSegment`: the receiver holds what arrived, to the byte.
- `Ack.Claims`, `claims_onSegment`: its acks claim no more than it holds.
- `Engine.Outgoing g g' sent`: a call that brings no ack, with what it takes in as sent;
  `Outgoing.stop_le_top`: that lies below the right edge.
- `Exchange` with `Exchange.Step` and `Exchange.Reachable`: both ends and what is on its way.
- `Exchange.Faithful`: each end knows no more than the one before it.
- `Exchange.Reachable.delivery_is_real`: what the sender takes for delivered has arrived.
-/

namespace LossRecovery

theorem SeqRange.contains_of_within {x y : SeqRange} (h : x.within y = true) {seq : Nat}
    (hx : x.contains seq = true) : y.contains seq = true := by
  simp only [within, contains, Bool.and_eq_true, decide_eq_true_eq] at *
  omega

/-! ## The receiver -/

namespace Receiver

/-- Whether a byte has arrived, as far as the receiver knows. -/
def Holds (r : Receiver) (seq : Nat) : Prop :=
  seq < r.cumulative ∨ ∃ b ∈ r.blocks, b.contains seq = true

variable {r : Receiver} {x : SeqRange} {blocks : List SeqRange} {seq : Nat}

/-- Between two ranges that touch there is no gap for their hull to close. -/
theorem contains_hull {b : SeqRange} (h : touches b x = true) :
    (x.hull b).contains seq = true ↔ x.contains seq = true ∨ b.contains seq = true := by
  have htouch : b.start ≤ x.stop ∧ x.start ≤ b.stop := by simpa [touches] using h
  simp only [SeqRange.contains_iff]
  show min x.start b.start ≤ seq ∧ seq < max x.stop b.stop ↔ _
  omega

/-- Joining a segment with the blocks adds its bytes. -/
theorem absorb_contains (x : SeqRange) (blocks : List SeqRange) (seq : Nat) :
    ((absorb x blocks).1.contains seq = true ∨
        ∃ b ∈ (absorb x blocks).2, b.contains seq = true) ↔
      x.contains seq = true ∨ ∃ b ∈ blocks, b.contains seq = true := by
  induction blocks generalizing x with
  | nil => simp [absorb]
  | cons b rest ih =>
    unfold absorb
    split
    · next h =>
      rw [ih, contains_hull h]
      simp [or_assoc]
    · have hrest := ih x
      simp only [List.mem_cons, exists_eq_or_imp]
      rw [or_left_comm, hrest, or_left_comm]

/-- Moving the cumulative ack over a block forgets nothing. -/
theorem holds_advance (r : Receiver) (seq : Nat) : r.advance.Holds seq ↔ r.Holds seq := by
  unfold advance
  cases h : r.blocks.find? (·.start ≤ r.cumulative) with
  | none => rfl
  | some b =>
    obtain ⟨hb, before, after, hblocks, hbefore⟩ := List.find?_eq_some_iff_append.mp h
    have hb : b.start ≤ r.cumulative := by simpa using hb
    have herase : r.blocks.eraseP (·.start ≤ r.cumulative) = before ++ after := by
      rw [hblocks, List.eraseP_append_right _ (by simpa using hbefore), List.eraseP_cons_of_pos]
      simpa using hb
    -- The block that goes lies below the new cumulative ack, and reaches up to it.
    have hedge : seq < max r.cumulative b.stop ↔ seq < r.cumulative ∨ b.contains seq = true := by
      rw [SeqRange.contains_iff]
      omega
    unfold Holds
    simp only [herase, hedge]
    rw [hblocks]
    simp only [List.mem_append, List.mem_cons, or_and_right, exists_or, exists_eq_left]
    rw [or_assoc]
    exact or_congr_right or_left_comm

/-- The receiver holds what it held, and the segment. -/
theorem holds_accept (r : Receiver) (x : SeqRange) (seq : Nat) :
    (r.accept x).Holds seq ↔ r.Holds seq ∨ x.contains seq = true := by
  unfold accept
  split
  · next h =>
    -- All of a duplicate was held before.
    refine (or_iff_left_of_imp ?_).symm
    intro hx
    simp only [isDuplicate, Bool.or_eq_true, decide_eq_true_eq, List.any_eq_true] at h
    rcases h with hbelow | ⟨b, hb, hin⟩
    · exact .inl (Nat.lt_of_lt_of_le (SeqRange.contains_iff.mp hx).2 hbelow)
    · exact .inr ⟨b, hb, SeqRange.contains_of_within hin hx⟩
  · rw [holds_advance]
    have habsorb := absorb_contains x r.blocks seq
    unfold Holds
    simp only [List.mem_cons, exists_eq_or_imp, habsorb]
    rw [or_assoc]
    exact or_congr_right or_comm

end Receiver

/-- What an ack says has arrived. -/
def Ack.Claims (a : Ack) (seq : Nat) : Prop :=
  seq < a.cumulative ∨ ∃ b ∈ a.blocks, b.contains seq = true

namespace Receiver

/-- However its first block is read, an ack claims what was reported on the wire at most. -/
theorem claims_ofWire {cumulative : Nat} {blocks : List SeqRange} {window seq : Nat}
    (h : (Ack.ofWire cumulative blocks window).Claims seq) :
    seq < cumulative ∨ ∃ b ∈ blocks, b.contains seq = true := by
  cases blocks with
  | nil => exact h
  | cons first rest =>
    unfold Ack.ofWire at h
    dsimp only at h
    split at h
    · rcases h with h | ⟨b, hb, hc⟩
      · exact .inl h
      · exact .inr ⟨b, List.mem_cons_of_mem _ hb, hc⟩
    · exact h

variable {r : Receiver} {x : SeqRange} {sent seq : Nat}

theorem holds_onSegment (r : Receiver) (x : SeqRange) (sent seq : Nat) :
    (r.onSegment x sent).1.Holds seq ↔ r.Holds seq ∨ x.contains seq = true :=
  holds_accept r x seq

/-- An ack claims no more than the receiver holds when it answers. -/
theorem claims_onSegment (h : (r.onSegment x sent).2.Claims seq) :
    (r.onSegment x sent).1.Holds seq := by
  have hwire : seq < (r.accept x).cumulative ∨
      ∃ b ∈ (r.accept x).wireBlocks x (r.isDuplicate x), b.contains seq = true := claims_ofWire h
  rcases hwire with hlt | ⟨b, hb, hc⟩
  · exact .inl hlt
  · have hmem : b = x ∨ b ∈ (r.accept x).blocks := by
      unfold wireBlocks at hb
      split at hb
      · rcases List.mem_cons.mp hb with hx | hb
        · exact .inl hx
        · exact .inr (List.mem_of_mem_take hb)
      · exact .inr (List.mem_of_mem_take hb)
    rcases hmem with rfl | hmem
    · exact (holds_accept r b seq).mpr (.inr hc)
    · exact .inr ⟨b, hmem, hc⟩

end Receiver

/-! ## What the sender hears -/

namespace Engine

variable {κ : Type} [CongestionLaw κ] {g g' : Engine κ} {a : Ack} {now : Nat}

/-- What an ack makes the sender take for delivered was claimed by it. -/
theorem Running.claimed (h : g.Running) (hle : a.cumulative ≤ g.board.top) (now : Nat) :
    (g.onAck a now).1.board.una = max g.board.una a.cumulative ∧
    (g.onAck a now).1.board.top = g.board.top ∧
    ∀ seq, (g.onAck a now).1.board.sackedAt seq = true →
      g.board.sackedAt seq = true ∨ a.Claims seq := by
  have hsound := h.sound.acked hle now
  obtain ⟨hrelabelled, -⟩ := h.onAck hle now
  obtain ⟨huna, htop⟩ := hrelabelled.edges
  obtain ⟨f, hf, hboard⟩ := hrelabelled.board
  have hexact := h.sound.passState.exact (i := g.ackInput a now) rfl hle
  refine ⟨huna.trans hexact.una, htop.trans hexact.top, ?_⟩
  intro seq hs
  rw [hboard, hsound.board.sackedAt_modify hf] at hs
  have hbounds := hsound.board.bounds_of_sackedAt hs
  rcases (hexact.sacked seq hbounds.1 hbounds.2).mp hs with hold | ⟨x, hx, -, -, hc⟩
  · exact .inl hold
  · exact .inr (.inr ⟨x, Sorting.mem_sortByKey.mp (hexact.taken.subset hx), hc⟩)

end Engine

/-! ## What the sender sends -/

namespace Engine

variable {κ σ : Type} [CongestionLaw κ] {g g' : Engine κ} {sent : List SeqRange}

/-- A call that brings no ack, and the ranges that are taken in as sent by it. -/
inductive Outgoing (g : Engine κ) : Engine κ → List SeqRange → Prop
  | send (range : SeqRange) (flags : Flags) (now : Nat) (fresh : flags.IsFresh) :
      Outgoing g (g.onPacketSent range flags now).1
        ((Session.asked (g.onPacketSent range flags now).2).map fun _ => range)
  | dispatch {σ : Type} (host : Host σ) (w : σ) (actions : Actions) (now : Nat) :
      Outgoing g (g.dispatch host w actions now).1.1
        ((g.dispatchSends host now w actions).map (·.range))
  | none {g' : Engine κ} (call : Aside g g') : Outgoing g g' []

theorem Outgoing.aside (call : Outgoing g g' sent) : Aside g g' := by
  cases call with
  | send range flags now fresh => exact .send range flags now fresh
  | dispatch host w actions now => exact .dispatch host w actions now
  | none call => exact call

section Dispatch

variable (host : Host σ) (now : Nat)

omit [CongestionLaw κ] in
/-- What a carried out send takes in lies below the right edge after it. -/
theorem Running.stop_le_sendRange (h : g.Running) (w : σ) (range : SeqRange) (kind : SendKind) :
    ∀ s ∈ g.sendingOf range now (g.sendRange host w range kind now).2.2,
      s.range.stop ≤ (g.sendRange host w range kind now).1.board.top := by
  have hn : Noted g (g.tell (host.transmit w range kind.flags).events) := rfl
  have hcarried := carried_sendRange host g w range kind now
  generalize g.sendRange host w range kind now = done at hcarried ⊢
  cases hcarried with
  | dropped | failed | nothing | refused => simp [sendingOf]
  | taken n pos report =>
    have hx := start_lt_part range pos
    by_cases hs : range.start ≤ g.board.top
    · obtain ⟨-, hsent, -, -⟩ := (hn.running h).sound.processSent hx hs (isFresh_flags kind) now
      rw [report] at hsent
      simp only [sendingOf, Nat.ne_of_gt pos, if_false]
      intro s hmem
      rw [List.mem_singleton.mp hmem, hsent.edges.2]
      exact Nat.le_max_right _ _
    · rw [processSent_of_beyond (g.tell (host.transmit w range kind.flags).events) hx
        (Nat.lt_of_not_le hs)] at report
      cases report

/-- What carried out actions take in lies below the right edge after them. -/
theorem Running.stop_le_dispatchAll (h : g.Running) (w : σ) (total : Nat) (actions : Actions)
    (hgap : ∀ e, (g.dispatchAll host now w total actions).2.2 = .error e → e.isFatal = false) :
    ∀ s ∈ g.dispatchSends host now w actions,
      s.range.stop ≤ (g.dispatchAll host now w total actions).1.board.top := by
  -- Along the actions. The right edge does not move back while the rest is carried out.
  induction actions generalizing g w total with
  | nil => exact fun s hs => absurd hs List.not_mem_nil
  | cons action rest ih =>
    cases action with
    | send range n kind =>
      have hone := h.stop_le_sendRange host now w range kind
      have hkept := Sustains.sendRange host now (maintained_unheard g).sends isFresh_flags ⟨h, .refl g⟩ w
        range kind
      unfold Engine.dispatchAll at hgap ⊢
      unfold dispatchSends
      dsimp only at hgap ⊢
      cases hres : (g.sendRange host w range kind now).2.2 with
      | error e => simp [sendingOf]
      | ok bytes =>
        rw [hres] at hone hkept hgap
        obtain ⟨⟨hrun, -⟩, -⟩ | ⟨c, hc, -⟩ := hkept
        · have hrest := ih hrun (g.sendRange host w range kind now).2.1 (total + bytes) hgap
          have hup := Sustains.dispatchAll host now (maintained_unheard _).sends isFresh_flags
            ⟨hrun, .refl _⟩ (g.sendRange host w range kind now).2.1 (total + bytes) rest
          obtain ⟨⟨-, hup⟩, -⟩ | ⟨c, done, after, hc, -⟩ := hup
          · intro s hs
            rcases List.mem_append.mp hs with hs | hs
            · exact hrest s hs
            · exact Nat.le_trans (hone s hs) hup.top_le
          · cases hgap _ hc
        · cases hc
    | arm timer duration generation => exact ih h _ total hgap
    | cancel => exact ih h _ total hgap

theorem Running.stop_le_dispatch (h : g.Running) (w : σ) (actions : Actions)
    (ha : (g.dispatch host w actions now).1.1.isAborted = false) :
    ∀ s ∈ g.dispatchSends host now w actions,
      s.range.stop ≤ (g.dispatch host w actions now).1.1.board.top := by
  have hall := h.stop_le_dispatchAll host now w 0 actions
  unfold Engine.dispatch at ha ⊢
  rw [if_neg (by simp [h.isAborted])] at ha ⊢
  dsimp only at ha ⊢
  cases hres : (g.dispatchAll host now w 0 actions).2.2 with
  | ok total =>
    rw [hres] at hall
    exact hall fun e he => nomatch he
  | error e =>
    rw [hres] at hall ha
    -- A gap would have stopped the engine.
    have hfatal := isFatal_of_fail ha
    have hboard : ((g.dispatchAll host now w 0 actions).1.fail e).board
        = (g.dispatchAll host now w 0 actions).1.board :=
      congrArg Conduct.board (noted_fail _ hfatal)
    dsimp only
    rw [hboard]
    refine hall fun e' he => ?_
    injection he with he
    exact he ▸ hfatal

end Dispatch

/-- What a call takes in as sent lies below the right edge after it. -/
theorem Outgoing.stop_le_top (h : g.Running) (call : Outgoing g g' sent)
    (ha : g'.isAborted = false) : ∀ x ∈ sent, x.stop ≤ g'.board.top := by
  cases call with
  | send range flags now fresh =>
    intro x hx
    obtain ⟨actions, hactions, rfl⟩ := List.mem_map.mp hx
    cases hok : (g.onPacketSent range flags now).2 with
    | error e =>
      rw [hok] at hactions
      cases hactions
    | ok actions =>
      obtain ⟨hlt, hs, htaken⟩ := h.send_taken fresh hok
      obtain ⟨-, hsent, -, -⟩ := h.sound.processSent hlt hs fresh now
      rw [htaken] at hsent
      rw [hsent.edges.2]
      exact Nat.le_max_right _ _
  | dispatch host w actions now =>
    intro x hx
    obtain ⟨s, hs, rfl⟩ := List.mem_map.mp hx
    exact h.stop_le_dispatch host now w actions ha s hs
  | none call => exact fun x hx => absurd hx List.not_mem_nil

/-- A call that does not stop a running engine leaves it running. -/
theorem Running.step (h : g.Running) (call : Step g g') (ha : g'.isAborted = false) :
    g'.Running :=
  (Sustains.step maintained_true ⟨h, trivial⟩ call ha).1

end Engine

/-! ## Both ends -/

/-- A sender and a receiver, with what is on its way between them. -/
structure Exchange (κ : Type) where
  engine : Engine κ
  receiver : Receiver
  /-- The ranges taken in as sent, any of which may still reach the receiver. -/
  sent : List SeqRange := []
  /-- The answers of the receiver, any of which may still reach the sender. -/
  answers : List Ack := []
  /-- The segments that have arrived. -/
  arrived : List SeqRange := []

namespace Exchange

variable {κ : Type} [CongestionLaw κ]

/-- A segment reaches the receiver. -/
def deliver (e : Exchange κ) (x : SeqRange) (stamp : Nat) : Exchange κ :=
  let done := e.receiver.onSegment x stamp
  { e with receiver := done.1, answers := done.2 :: e.answers, arrived := x :: e.arrived }

/-- The sender makes a call of any kind that does not stop the engine, or the network hands something
over. A segment is a send that was taken in, or a piece of one; nothing that was handed over is used
up by it. -/
inductive Step (e : Exchange κ) : Exchange κ → Prop
  | call {g : Engine κ} {sent : List SeqRange} (made : e.engine.Outgoing g sent)
      (goes_on : g.isAborted = false) : Step e { e with engine := g, sent := sent ++ e.sent }
  | segment (x y : SeqRange) (stamp : Nat) (taken : y ∈ e.sent) (part : x.within y = true) :
      Step e (e.deliver x stamp)
  | ack (a : Ack) (now : Nat) (answered : a ∈ e.answers) :
      Step e { e with engine := (e.engine.onAck a now).1 }

/-- What sender, receiver and network do from the start, the first sequence number being `isn`. -/
inductive Reachable (isn : Nat) : Exchange κ → Prop
  | start {settings : Settings} {law : κ} {sink : Sink} {now : Nat} {g : Engine κ}
      (started : Engine.start settings law sink isn now = .ok g) :
      Reachable isn { engine := g, receiver := .start isn }
  | step {e e' : Exchange κ} (before : Reachable isn e) (happens : Step e e') : Reachable isn e'

variable {e e' : Exchange κ} {isn : Nat}

/-- The sender goes on for good. -/
theorem Reachable.running (h : e.Reachable isn) : e.engine.Running := by
  induction h with
  | start started => exact Engine.Sound.start started
  | step _ happens ih =>
    cases happens with
    | call made goes_on => exact ih.step made.aside.step goes_on
    | segment => exact ih
    | ack a now _ => exact (Engine.Sustains.ack Engine.maintained_true ⟨ih, trivial⟩ a now).1

/-- Each end knows no more than the one before it: the sender than the acks, the acks than the
receiver, and the receiver than the network. -/
structure Faithful (isn : Nat) (e : Exchange κ) : Prop where
  first_le : isn ≤ e.engine.board.una
  below : ∀ seq, seq < e.engine.board.una → e.receiver.Holds seq
  sacked : ∀ seq, e.engine.board.sackedAt seq = true → e.receiver.Holds seq
  claims : ∀ a ∈ e.answers, ∀ seq, a.Claims seq → e.receiver.Holds seq
  arrived : ∀ seq, e.receiver.Holds seq ↔ seq < isn ∨ ∃ x ∈ e.arrived, x.contains seq = true
  sent_le : ∀ x ∈ e.sent, x.stop ≤ e.engine.board.top
  sent : ∀ seq, e.receiver.Holds seq → seq < e.engine.board.top

namespace Faithful

omit [CongestionLaw κ] in
theorem start {settings : Settings} {law : κ} {sink : Sink} {now : Nat} {g : Engine κ}
    (started : Engine.start settings law sink isn now = .ok g) :
    Faithful isn { engine := g, receiver := .start isn } := by
  have hboard := (Engine.start_board started).1
  have hholds : ∀ seq, (Receiver.start isn).Holds seq ↔ seq < isn := by
    simp [Receiver.Holds, Receiver.start]
  refine ⟨?_, ?_, ?_, fun a ha => absurd ha List.not_mem_nil, ?_, ?_, ?_⟩
  · rw [hboard]
    exact Nat.le_refl isn
  · intro seq hseq
    rw [hboard] at hseq
    exact (hholds seq).mpr hseq
  · intro seq hs
    rw [hboard] at hs
    cases hs
  · simp [hholds]
  · exact fun x hx => absurd hx List.not_mem_nil
  · intro seq hseq
    rw [hboard]
    exact (hholds seq).mp hseq

/-- A call that brings no ack tells the sender nothing. -/
theorem call (h : Faithful isn e) (hrun : e.engine.Running) {g : Engine κ} {sent : List SeqRange}
    (made : e.engine.Outgoing g sent) (goes_on : g.isAborted = false) :
    Faithful isn { e with engine := g, sent := sent ++ e.sent } := by
  have hu := made.aside.unheard hrun goes_on
  refine ⟨hu.una ▸ h.first_le, ?_, ?_, h.claims, h.arrived, ?_, ?_⟩
  · intro seq hseq
    exact h.below seq (hu.una ▸ hseq)
  · intro seq hs
    exact h.sacked seq ((hu.sackedAt seq).symm.trans hs)
  · intro x hx
    rcases List.mem_append.mp hx with hnew | hold
    · exact made.stop_le_top hrun goes_on x hnew
    · exact Nat.le_trans (h.sent_le x hold) hu.top_le
  · intro seq hseq
    exact Nat.lt_of_lt_of_le (h.sent seq hseq) hu.top_le

omit [CongestionLaw κ] in
/-- A segment that arrives adds its bytes to what the receiver holds. -/
theorem segment (h : Faithful isn e) {x : SeqRange} (stamp : Nat)
    (hx : x.stop ≤ e.engine.board.top) : Faithful isn (e.deliver x stamp) := by
  have hholds := e.receiver.holds_onSegment x stamp
  refine ⟨h.first_le, ?_, ?_, ?_, ?_, h.sent_le, ?_⟩
  · intro seq hseq
    exact (hholds seq).mpr (.inl (h.below seq hseq))
  · intro seq hs
    exact (hholds seq).mpr (.inl (h.sacked seq hs))
  · intro a ha seq hc
    rcases List.mem_cons.mp ha with rfl | ha
    · exact Receiver.claims_onSegment hc
    · exact (hholds seq).mpr (.inl (h.claims a ha seq hc))
  · intro seq
    refine (hholds seq).trans ?_
    show _ ↔ seq < isn ∨ ∃ y ∈ x :: e.arrived, y.contains seq = true
    rw [h.arrived]
    simp only [List.mem_cons, exists_eq_or_imp]
    rw [or_assoc]
    exact or_congr_right or_comm
  · intro seq hseq
    rcases (hholds seq).mp hseq with hold | hnew
    · exact h.sent seq hold
    · exact Nat.lt_of_lt_of_le (SeqRange.contains_iff.mp hnew).2 hx

omit [CongestionLaw κ] in
/-- No answer covers data that was never sent. -/
theorem cumulative_le (h : Faithful isn e) {a : Ack} (ha : a ∈ e.answers) :
    a.cumulative ≤ e.engine.board.top := by
  by_contra hlt
  have hlast := h.claims a ha (a.cumulative - 1) (.inl (by omega))
  have := h.sent _ hlast
  omega

/-- The sender takes for delivered what the ack claims. -/
theorem ack (h : Faithful isn e) (hrun : e.engine.Running) {a : Ack} (ha : a ∈ e.answers)
    (now : Nat) : Faithful isn { e with engine := (e.engine.onAck a now).1 } := by
  obtain ⟨huna, htop, hsacked⟩ := hrun.claimed (h.cumulative_le ha) now
  refine ⟨?_, ?_, ?_, h.claims, h.arrived, ?_, ?_⟩
  · show isn ≤ (e.engine.onAck a now).1.board.una
    rw [huna]
    exact Nat.le_trans h.first_le (Nat.le_max_left _ _)
  · intro seq hseq
    change seq < (e.engine.onAck a now).1.board.una at hseq
    rw [huna] at hseq
    rcases Nat.lt_or_ge seq e.engine.board.una with hlt | hge
    · exact h.below seq hlt
    · exact h.claims a ha seq (.inl (by omega))
  · intro seq hs
    rcases hsacked seq hs with hold | hnew
    · exact h.sacked seq hold
    · exact h.claims a ha seq hnew
  · intro x hx
    show x.stop ≤ (e.engine.onAck a now).1.board.top
    rw [htop]
    exact h.sent_le x hx
  · intro seq hseq
    show seq < (e.engine.onAck a now).1.board.top
    rw [htop]
    exact h.sent seq hseq

/-- Whatever happens, both ends stay faithful. -/
theorem step (h : Faithful isn e) (hrun : e.engine.Running) (happens : Step e e') :
    Faithful isn e' := by
  cases happens with
  | call made goes_on => exact h.call hrun made goes_on
  | segment x y stamp taken part =>
    have hpart : x.stop ≤ y.stop := by
      simp only [SeqRange.within, Bool.and_eq_true, decide_eq_true_eq] at part
      exact part.2
    exact h.segment stamp (Nat.le_trans hpart (h.sent_le y taken))
  | ack a now answered => exact h.ack hrun answered now

end Faithful

theorem Reachable.faithful (h : e.Reachable isn) : Faithful isn e := by
  induction h with
  | start started => exact .start started
  | step before happens ih => exact ih.step before.running happens

/-- Whatever the network loses, repeats, delays or reorders, every byte below the left edge of the
sender and every byte of a SACKed record has arrived, the receiver knows of exactly the bytes that
have arrived, and the sender takes in every answer of the receiver. -/
theorem Reachable.delivery_is_real (h : e.Reachable isn) :
    (∀ seq, isn ≤ seq → seq < e.engine.board.una →
      ∃ x ∈ e.arrived, x.contains seq = true) ∧
    (∀ r ∈ e.engine.board.records, r.flags.sacked = true →
      ∀ seq, r.contains seq = true → ∃ x ∈ e.arrived, x.contains seq = true) ∧
    (∀ seq, isn ≤ seq → (e.receiver.Holds seq ↔ ∃ x ∈ e.arrived, x.contains seq = true)) ∧
    ∀ a ∈ e.answers, ∀ now, Engine.Succeeds (e.engine.onAck a now).2 := by
  have hfaithful := h.faithful
  have hrun := h.running
  have hcoherent := hrun.sound.board
  have harrived : ∀ seq, isn ≤ seq →
      (e.receiver.Holds seq ↔ ∃ x ∈ e.arrived, x.contains seq = true) := fun seq hseq =>
    (hfaithful.arrived seq).trans (or_iff_right (Nat.not_lt.mpr hseq))
  refine ⟨?_, ?_, harrived, ?_⟩
  · intro seq hge hlt
    exact (harrived seq hge).mp (hfaithful.below seq hlt)
  · intro r hr hsacked seq hc
    have hholds : e.engine.board.Holds seq r := ⟨hr, hc⟩
    have hge := (hcoherent.bounds_of_holds hholds).1
    have hs : e.engine.board.sackedAt seq = true := by
      rw [hcoherent.sackedAt_eq hholds]
      exact hsacked
    exact (harrived seq (Nat.le_trans hfaithful.first_le hge)).mp (hfaithful.sacked seq hs)
  · intro a ha now
    obtain ⟨-, actions, hok, -⟩ := hrun.onAck (hfaithful.cumulative_le ha) now
    exact ⟨actions, hok⟩

/-- The second of two segments arrives twice, and both answers reach the sender, the later one first.
The SACKed bytes have arrived. -/
theorem delivery_is_real_after_reordering : ∃ e : Exchange FixedWindow,
    e.Reachable 0 ∧ e.engine.board.sackedAt 2000 = true ∧
    (∃ x ∈ e.arrived, x.contains 2000 = true) ∧ e.answers.length = 2 ∧
    ∀ a ∈ e.answers, ∀ now, Engine.Succeeds (e.engine.onAck a now).2 := by
  have started : Engine.start {} (FixedWindow.ofSettings {}) .discard 0 0 = .ok _ := rfl
  have sent := (Reachable.start started).step (.call (.send ⟨0, 2920⟩ {} 0 ⟨rfl, rfl⟩) rfl)
  have arrived := sent.step (.segment ⟨1460, 2920⟩ ⟨0, 2920⟩ 0 List.mem_cons_self rfl)
  have repeated := arrived.step (.segment ⟨1460, 2920⟩ ⟨0, 2920⟩ 0 List.mem_cons_self rfl)
  have acked := repeated.step (.ack _ 50 List.mem_cons_self)
  have late := acked.step (.ack _ 60 (List.mem_cons_of_mem _ List.mem_cons_self))
  obtain ⟨-, hsacked, -, htaken⟩ := Reachable.delivery_is_real late
  refine ⟨_, late, rfl, ?_, rfl, htaken⟩
  exact hsacked _ (List.mem_cons_of_mem _ List.mem_cons_self) rfl 2000 rfl

end Exchange

end LossRecovery
