import LossRecovery.Proofs.Sessions

/-!
# `LossRecovery.Proofs.Histories` — records remember how their bytes were sent

All bytes of a record share one history. Whatever grows, cuts, trims or joins records in between, the
record of a byte that has not arrived tells how often the byte was sent, and when for the first, the
second and the last time.

Where the cuts of a resend do not fit under the record limit, the resend is accounted to whole
records. The histories are therefore followed by what was accounted, and it is shown apart that this
is what was sent as long as all cuts fit.

## Contents
- `SendRecord.Recounts r ts`: a record tells of sends at the times `ts`.
- `Scoreboard.Refreshes`: what an ack leaves of the records.
- `Sending.accounted`, `Sending.carries`: the bytes a send is accounted to, and those it carries.
- `Recorded`: the invariant that relates records and sends.
- `Scoreboard.edgesInside`, `cutsNeeded_eq`: the cuts of a resend, by the edges inside of missing records.
- `Reachable.recounts`: records tell how their bytes were sent.
-/

namespace LossRecovery

/-! ## What a record tells -/

/-- The remembered times are the first, the second and the last of some times, latest first. -/
structure SendTimes.OfSends (t : SendTimes) (ts : List Nat) : Prop where
  first : some t.first = ts.getLast?
  second : t.second = ts.reverse[1]?
  latest : t.latest = if 2 < ts.length then ts.head? else none

namespace SendRecord

/-- A record tells of sends at the times `ts`, latest first. -/
structure Recounts (r : SendRecord) (ts : List Nat) : Prop where
  sent : ts ≠ []
  resends : r.resends = min (ts.length - 1) Word.max32
  times : r.times.OfSends ts

variable {r p : SendRecord} {ts : List Nat} {t now : Nat}

theorem Recounts.congr (h : r.Recounts ts) (ht : p.times = r.times) (hr : p.resends = r.resends) :
    p.Recounts ts :=
  ⟨h.sent, hr.trans h.resends, ht ▸ h.times⟩

/-- The record of a single send. -/
theorem recounts_single (hr : r.resends = 0) (ht : r.times = ⟨t, none, none⟩) :
    r.Recounts [t] := by
  refine ⟨List.cons_ne_nil _ _, hr, ?_⟩
  rw [ht]
  exact ⟨rfl, rfl, rfl⟩

/-- A record that was never sent again was sent once. -/
theorem Recounts.single (h : r.Recounts ts) (hr : r.resends = 0) :
    ts = [r.lastSent] ∧ r.times = ⟨r.lastSent, none, none⟩ := by
  have hlen := h.resends
  rw [hr] at hlen
  have hmax : 0 < Word.max32 := by decide
  have hone : ts.length = 1 := by
    have := List.length_pos_iff.mpr h.sent
    omega
  obtain ⟨t, rfl⟩ := List.length_eq_one_iff.mp hone
  obtain ⟨h1, h2, h3⟩ := h.times
  have hlast : r.lastSent = r.times.first := by
    unfold lastSent
    rw [hr]
    rfl
  have hfirst : r.times.first = t := Option.some.inj h1
  refine ⟨by rw [hlast, hfirst], ?_⟩
  rw [hlast]
  cases htimes : r.times with
  | mk first second latest =>
    rw [htimes] at h2 h3
    simp only [SendTimes.mk.injEq, true_and]
    exact ⟨h2, h3⟩

/-- The time of the last send is known. -/
theorem Recounts.lastSent (h : r.Recounts ts) : ts.head? = some r.lastSent := by
  obtain ⟨h1, h2, h3⟩ := h.times
  have hlen := h.resends
  have hmax : 2 ≤ Word.max32 := by decide
  unfold SendRecord.lastSent
  -- One, two, or more sends: the last time stands in the first, second or third place.
  match ts, h.sent with
  | [t], _ =>
    rw [hlen]
    exact h1.symm
  | [t, t'], _ =>
    rw [hlen, show min ([t, t'].length - 1) Word.max32 = 1 from rfl]
    show some t = some (r.times.second.getD r.times.first)
    rw [h2]
    rfl
  | t :: t' :: t'' :: rest, _ =>
    have hslot : r.times.slot r.resends = some t := by
      have hge : 2 ≤ r.resends := by
        rw [hlen]
        simp only [List.length_cons]
        omega
      match r.resends, hge with
      | n + 2, _ => exact h3
    rw [hslot]
    rfl

/-- Sending a record again adds to what it tells. -/
theorem Recounts.resend (h : r.Recounts ts) (flags : Flags) (afterTimeout : Bool) (now : Nat) :
    (Engine.resentRecord flags afterTimeout now r).Recounts (now :: ts) := by
  obtain ⟨h1, h2, h3⟩ := h.times
  have hpos := List.length_pos_iff.mpr h.sent
  have hmax : 2 ≤ Word.max32 := by decide
  have hres : (Engine.resentRecord flags afterTimeout now r).resends
      = min ((now :: ts).length - 1) Word.max32 := by
    show min (r.resends + 1) Word.max32 = _
    rw [h.resends, List.length_cons]
    omega
  have htimes : (Engine.resentRecord flags afterTimeout now r).times
      = r.times.put (min ((now :: ts).length - 1) Word.max32) now := by
    rw [← hres]
    rfl
  refine ⟨List.cons_ne_nil _ _, hres, ?_⟩
  rw [htimes]
  match ts, h.sent with
  | [t], _ =>
    refine ⟨h1, rfl, ?_⟩
    exact h3
  | t :: t' :: rest, _ =>
    have hge : 2 ≤ min ((now :: t :: t' :: rest).length - 1) Word.max32 := by
      simp only [List.length_cons]
      omega
    match min ((now :: t :: t' :: rest).length - 1) Word.max32, hge with
    | n + 2, _ =>
      refine ⟨?_, ?_, ?_⟩
      · rw [List.getLast?_cons_cons]
        exact h1
      · rw [List.reverse_cons, List.getElem?_append_left (by simp)]
        exact h2
      · rw [if_pos (by simp)]
        rfl

end SendRecord

/-! ## Sends and bytes -/

namespace Sending

/-- The outstanding part of the range. -/
def resent (e : Sending) : SeqRange := e.board.resentPart e.range

/-- Whether a send carried a byte: the byte lies in the range, it was not released, and it had not
arrived by a SACK. -/
def carries (e : Sending) (seq : Nat) : Bool :=
  e.range.contains seq && decide (e.board.una ≤ seq) && !e.board.sackedAt seq

/-- Whether a send was accounted to a byte. -/
def accounted (e : Sending) (seq : Nat) : Bool :=
  if seq < e.board.top then
    (e.board.containing? seq).any fun r => !r.flags.sacked && decide (e.resent.start < e.resent.stop)
      && Scoreboard.Coherent.resendReaches e.resent (e.board.resendFits e.resent) r seq
  else e.range.contains seq

/-- Whether the cuts of a send, if it needs any, fit under the record limit. -/
def cutsFit (e : Sending) : Bool := e.resent.isEmpty || e.board.cutsFit e.resent

/-- The times at which sends carried a byte, latest first. -/
def transmissions (sends : List Sending) (seq : Nat) : List Nat :=
  (sends.filter (·.carries seq)).map (·.now)

/-- The times of the sends accounted to a byte, latest first. -/
def accountedTimes (sends : List Sending) (seq : Nat) : List Nat :=
  (sends.filter (·.accounted seq)).map (·.now)

variable {e : Sending} {sends : List Sending} {seq : Nat}

theorem accountedTimes_cons : accountedTimes (e :: sends) seq
    = if e.accounted seq then e.now :: accountedTimes sends seq else accountedTimes sends seq := by
  unfold accountedTimes
  rw [List.filter_cons]
  split <;> rfl

theorem cutsFit_resent (h : e.cutsFit = true) (hx : e.resent.start < e.resent.stop) :
    e.board.cutsFit e.resent = true := by
  unfold cutsFit at h
  rw [Bool.or_eq_true, SeqRange.isEmpty_iff] at h
  exact h.resolve_left (Nat.not_le.mpr hx)

/-- A send is accounted to nothing that was released before it. -/
theorem not_accounted_of_lt (hb : e.board.Coherent) (hseq : seq < e.board.una) :
    e.accounted seq = false := by
  unfold accounted
  have hle := hb.le
  rw [if_pos (by omega)]
  cases hc : e.board.containing? seq with
  | none => rfl
  | some r =>
    have := hb.bounds_of_holds (hb.containing?_eq_some.mp hc)
    omega

/-- A send is accounted to nothing that was SACKed before it. -/
theorem not_accounted_of_sacked (hb : e.board.Coherent) (hs : e.board.sackedAt seq = true) :
    e.accounted seq = false := by
  have hin := hb.bounds_of_sackedAt hs
  obtain ⟨r, hr⟩ := hb.exists_holds hin.1 hin.2
  unfold accounted
  rw [if_pos hin.2, hb.containing?_eq_some.mpr hr]
  rw [hb.sackedAt_eq hr] at hs
  simp [hs]

/-- What a send is accounted to among the bytes that were outstanding. -/
theorem accounted_of_holds (hb : e.board.Coherent) {r : SendRecord} (hr : e.board.Holds seq r) :
    e.accounted seq = (!r.flags.sacked && decide (e.resent.start < e.resent.stop)
      && Scoreboard.Coherent.resendReaches e.resent (e.board.resendFits e.resent) r seq) := by
  unfold accounted
  rw [if_pos (hb.bounds_of_holds hr).2, hb.containing?_eq_some.mpr hr]
  rfl

end Sending

/-! ## Records and sends -/

open Sending

section Recorded

variable {κ : Type} {g g' : Engine κ} {sends : List Sending}

/-- The records of the bytes that have not arrived tell of the sends accounted to them. -/
def Scoreboard.Tells (b : Scoreboard) (sends : List Sending) : Prop :=
  ∀ seq r, b.Holds seq r → r.flags.sacked = false → r.Recounts (accountedTimes sends seq)

/-- The sends came before the state of an engine, and its records tell of them. -/
structure Recorded (g : Engine κ) (sends : List Sending) : Prop where
  before : ∀ e ∈ sends, e.board.Coherent ∧ e.board.top ≤ g.board.top ∧
    e.range.stop ≤ g.board.top
  recounts : g.board.Tells sends

/-- Nothing was accounted to data that was not sent. -/
theorem Recorded.unsent (h : Recorded g sends) {seq : Nat} (hseq : g.board.top ≤ seq) :
    accountedTimes sends seq = [] := by
  unfold accountedTimes
  rw [List.map_eq_nil_iff, List.filter_eq_nil_iff]
  intro e he
  obtain ⟨-, h2, h3⟩ := h.before e he
  unfold accounted
  rw [if_neg (by omega), SeqRange.contains_iff]
  omega

/-- The bytes missing in the second scoreboard were missing in the first, with the same history. -/
abbrev Scoreboard.Refreshes (b b' : Scoreboard) : Prop :=
  b.Inherits (fun r => (r.times, r.resends)) b'

theorem Scoreboard.Tells.refresh {b b' : Scoreboard} (h : b.Tells sends) (hr : b.Refreshes b') :
    b'.Tells sends := by
  intro seq p hp hm
  obtain ⟨r, hrb, hrm, hsame⟩ := hr seq p hp hm
  obtain ⟨htimes, hresends⟩ := Prod.mk.inj hsame
  exact (h seq r hrb hrm).congr htimes hresends

theorem Recorded.refresh (h : Recorded g sends) (ht : g'.board.top = g.board.top)
    (hr : g.board.Refreshes g'.board) : Recorded g' sends := by
  refine ⟨?_, h.recounts.refresh hr⟩
  intro e he
  rw [ht]
  exact h.before e he

theorem Scoreboard.refreshes_modify {b : Scoreboard} {f : SendRecord → SendRecord}
    (hf : SendRecord.Relabels f) : b.Refreshes (b.modify f) := by
  refine inherits_modify (fun r => ⟨hf.start r, hf.stop r⟩) hf.sacked ?_
  intro r
  rw [hf.times, hf.resends]

theorem SendRecord.IsPart.history {p r : SendRecord} (h : p.IsPart r) :
    (p.times, p.resends) = (r.times, r.resends) := by
  rw [h.times, h.resends]

namespace AckPass

variable {i : AckInput} {p q : AckPass} {x : SeqRange}

theorem Still.refreshes (h : Still p q) : p.board.Refreshes q.board := by
  obtain ⟨f, hf, hb⟩ := h.board
  rw [hb]
  exact Scoreboard.refreshes_modify hf

theorem Sound.refreshes_advance (h : p.Sound) : p.board.Refreshes (p.advance i).board := by
  rw [advance_board]
  exact h.board.inherits_release SendRecord.IsPart.history _

theorem Sound.refreshes_markBlock (h : p.Sound) (hx : x.start < x.stop) :
    p.board.Refreshes (p.markBlock i x).board :=
  h.inherits_markBlock SendRecord.IsPart.history hx

/-- An ack leaves the histories of missing bytes alone. -/
theorem Sound.refreshes_run (h : p.Sound) (hle : i.ack.cumulative ≤ p.board.top) :
    p.board.Refreshes (p.run i).board := by
  have hkept : Kept i fun q => p.board.Refreshes q.board :=
    ⟨fun _ hstill hq => hq.trans hstill.refreshes, fun hs _ _ hq => hq.trans hs.refreshes_advance,
      fun hs hx _ _ _ hq => hq.trans (hs.refreshes_markBlock hx)⟩
  exact hkept.run h hle (.refl _ _)

end AckPass

/-! ## Sends keep the histories -/

/-- After the outstanding part of a range was sent again, the records of the missing bytes tell of
that send too. -/
theorem Recorded.resent (h : Recorded g sends) (hb : g.board.Coherent) {x : SeqRange} {now : Nat}
    {mid : Scoreboard} (hm : g.board.Resent (g.board.resentPart x) now mid) {seq : Nat}
    {p : SendRecord} (hp : mid.Holds seq p) (hs : p.flags.sacked = false) :
    p.Recounts (accountedTimes (⟨g.board, x, now⟩ :: sends) seq) := by
  rw [accountedTimes_cons]
  rcases hm with ⟨hx, rfl⟩ | ⟨hx, flags, afterTimeout, rfl⟩
  · have hnot : (⟨g.board, x, now⟩ : Sending).accounted seq = false := by
      rw [accounted_of_holds hb hp]
      have hlt : ¬ (g.board.resentPart x).start < (g.board.resentPart x).stop := Nat.not_lt.mpr hx
      show (_ && decide ((g.board.resentPart x).start < (g.board.resentPart x).stop) && _) = false
      rw [decide_eq_false hlt, Bool.and_false, Bool.false_and]
    rw [hnot]
    exact h.recounts seq p hp hs
  · obtain ⟨r, hr, ⟨hrs, hreach, hpart, rfl⟩ | ⟨hout, hpart⟩⟩ := hb.of_resendOnBoard hx
      (f := Engine.resentRecord flags afterTimeout now) (fun _ => rfl) (fun _ => rfl) hp
    · have hacc : (⟨g.board, x, now⟩ : Sending).accounted seq = true := by
        rw [accounted_of_holds hb hr, hrs]
        show (true && decide ((g.board.resentPart x).start < (g.board.resentPart x).stop) && _) = true
        rw [decide_eq_true hx]
        exact hreach
      rw [hacc]
      exact ((h.recounts seq r hr hrs).congr hpart.times hpart.resends).resend flags afterTimeout now
    · have hrs : r.flags.sacked = false := hpart.sacked.symm.trans hs
      have hnot : (⟨g.board, x, now⟩ : Sending).accounted seq = false := by
        rw [accounted_of_holds hb hr]
        rcases hout with hsk | hreach
        · rw [hrs] at hsk
          exact Bool.noConfusion hsk
        · exact Bool.and_eq_false_imp.mpr fun _ => hreach
      rw [hnot]
      exact (h.recounts seq r hr hrs).congr hpart.times hpart.resends

/-- A record that a send goes on with tells of that send alone, and still does when it has grown. -/
theorem SendRecord.Recounts.extend {last : SendRecord} {x : SeqRange} {flags : Flags} {now : Nat}
    {ts : List Nat} (h : last.Recounts ts)
    (hc : Scoreboard.continuesBurst last x flags now = true) :
    ts = [now] ∧ ({ last.restamp now with stop := x.stop } : SendRecord).Recounts [now] := by
  obtain ⟨-, hres, -, -, hnow, -⟩ := Scoreboard.continuesBurst_iff.mp hc
  obtain ⟨hts, htimes⟩ := h.single hres
  rw [hnow] at hts htimes
  refine ⟨hts, SendRecord.recounts_single hres ?_⟩
  show last.times.put last.resends now = _
  rw [hres, htimes]
  rfl

/-- A new byte was sent at this instant, and never before. -/
theorem Recorded.accountedTimes_new (h : Recorded g sends) {x : SeqRange} {now seq : Nat}
    (hs : x.start ≤ g.board.top) (hlo : g.board.top ≤ seq) (hhi : seq < x.stop) :
    accountedTimes (⟨g.board, x, now⟩ :: sends) seq = [now] := by
  have hacc : (⟨g.board, x, now⟩ : Sending).accounted seq = true := by
    unfold accounted
    rw [if_neg (Nat.not_lt.mpr hlo), SeqRange.contains_iff]
    exact ⟨Nat.le_trans hs hlo, hhi⟩
  rw [accountedTimes_cons, hacc, h.unsent hlo]
  rfl

/-- After new data was sent, the records tell of that send alone where they hold new bytes, and of
what they told before where they do not. -/
theorem Recorded.extended (h : Recorded g sends) (hb : g.board.Coherent) {x : SeqRange} {now : Nat}
    (hs : x.start ≤ g.board.top) {mid b' : Scoreboard}
    (hm : g.board.Resent (g.board.resentPart x) now mid)
    (he : mid.Extended ⟨g.board.top, x.stop⟩ now b') :
    b'.Tells (⟨g.board, x, now⟩ :: sends) := by
  intro seq p hp hsk
  have hmb := hm.coherent hb
  rcases he with ⟨-, rfl⟩ | ⟨hx, flags, mark, hf, ha⟩
  · exact h.resent hb hm hp hsk
  · rcases Scoreboard.Coherent.of_append hx hm.edges.2.symm ha hp with
      ⟨r, hr, rfl⟩ | ⟨last, hlast, hcont, rfl, hseq⟩ | ⟨hseq, rfl⟩
    · -- A byte of a record that was there before; next, of one that grew; last, of a new one.
      exact h.resent hb hm hr hsk
    · have hlsk : last.flags.sacked = false := hsk
      rcases hseq with hseq | hseq
      · obtain ⟨hts, hrec⟩ := (h.resent hb hm ⟨hlast, hseq⟩ hlsk).extend hcont
        rw [hts]
        exact hrec
      · -- The record that grew tells of its own bytes, so look at one of those.
        have hfirst : mid.Holds last.start last :=
          ⟨hlast, SendRecord.contains_iff.mpr ⟨Nat.le_refl _, (hmb.tiles.bounds hlast).2.1⟩⟩
        obtain ⟨-, hrec⟩ := (h.resent hb hm hfirst hlsk).extend hcont
        rw [SeqRange.contains_iff] at hseq
        rw [h.accountedTimes_new hs hseq.1 hseq.2]
        exact hrec
    · rw [SeqRange.contains_iff] at hseq
      rw [h.accountedTimes_new hs hseq.1 hseq.2]
      exact SendRecord.recounts_single rfl rfl

/-- A send adds itself to the history of every byte it is accounted to, and starts that of every new
byte. -/
theorem Recorded.sent (h : Recorded g sends) (hb : g.board.Coherent) {x : SeqRange} {now : Nat}
    (hs : x.start ≤ g.board.top) (hsent : g.board.Sent x now g'.board) :
    Recorded g' (⟨g.board, x, now⟩ :: sends) := by
  have hedges := hsent.edges
  obtain ⟨mid, hmid, hext⟩ := hsent
  refine ⟨?_, h.extended hb hs hmid hext⟩
  intro e he
  rw [hedges.2]
  rcases List.mem_cons.mp he with rfl | he
  · exact ⟨hb, Nat.le_max_left _ _, Nat.le_max_right _ _⟩
  · obtain ⟨h1, h2, h3⟩ := h.before e he
    exact ⟨h1, by omega, by omega⟩

theorem preserved_recorded : Preserved (Recorded (κ := κ)) := by
  constructor
  · intro g g' sends _ hr h
    obtain ⟨f, hf, hboard⟩ := hr.board
    refine h.refresh hr.edges.2 ?_
    rw [hboard]
    exact Scoreboard.refreshes_modify hf
  · intro g g' sends x now hg _ _ hs hsent _ h
    exact h.sent hg.board hs hsent
  · intro g sends ack now hg hle h
    exact h.refresh (hg.acked_top hle now) (hg.passState.refreshes_run hle)

theorem recorded_start {settings : Settings} {law : κ} {sink : Sink} {una now : Nat}
    (h : Engine.start settings law sink una now = .ok g) : Recorded g [] := by
  refine ⟨fun e he => absurd he List.not_mem_nil, ?_⟩
  intro seq r hr _
  rw [(Engine.start_board h).1] at hr
  exact absurd hr.1 List.not_mem_nil

/-- The records of a reachable session tell of the sends accounted to their bytes. -/
theorem Session.Reachable.recorded [CongestionLaw κ] {s : Session κ} (h : s.Reachable) :
    Recorded s.engine s.sends :=
  (h.healthy preserved_recorded recorded_start).property

end Recorded

/-! ## Cuts that fit -/

section Cuts

variable {b : Scoreboard} {x : SeqRange} {r : SendRecord}

/-- If none above another of a list is told of, the first one tells for all. -/
theorem any_head?_eq {α : Type} {q : α → Bool} {l : List α} (h : l.Pairwise fun _ a => q a = false) :
    l.head?.any q = l.any q := by
  cases l with
  | nil => rfl
  | cons a rest =>
    have hrest : rest.any q = false :=
      List.any_eq_false.mpr fun c hc => Bool.eq_false_iff.mp ((List.pairwise_cons.mp h).1 c hc)
    rw [List.head?_cons, Option.any_some, List.any_cons, hrest, Bool.or_false]

/-- If none below another of a list is told of, the last one tells for all. -/
theorem any_getLast?_eq {α : Type} {q : α → Bool} {l : List α}
    (h : l.Pairwise fun a _ => q a = false) : l.getLast?.any q = l.any q := by
  induction l with
  | nil => rfl
  | cons a rest ih =>
    obtain ⟨ha, hrest⟩ := List.pairwise_cons.mp h
    cases rest with
    | nil => simp
    | cons c rest =>
      rw [List.getLast?_cons_cons, ih hrest, List.any_cons, List.any_cons, List.any_cons,
        ha c List.mem_cons_self, Bool.false_or]

namespace Scoreboard

/-- How many edges of a range fall strictly inside a record that is not SACKed. -/
def edgesInside (b : Scoreboard) (x : SeqRange) : Nat :=
  [x.start, x.stop].countP fun edge => b.records.any fun r => !r.flags.sacked && r.straddles edge

namespace Coherent

/-- A record that an edge of a range lies inside of belongs to the range. -/
theorem any_straddles (h : b.Coherent) (hx : x.start < x.stop) {edge : Nat} (hlo : x.start ≤ edge)
    (hhi : edge ≤ x.stop) :
    ((b.overlapping x).any fun r => !r.isDelivered && r.straddles edge)
      = b.records.any fun r => !r.flags.sacked && r.straddles edge := by
  rw [Bool.eq_iff_iff, List.any_eq_true, List.any_eq_true]
  constructor
  · rintro ⟨r, hr, hq⟩
    have hrb := ((mem_overlapping hx).mp hr).1
    rw [(h.records r hrb).isDelivered] at hq
    exact ⟨r, hrb, hq⟩
  · rintro ⟨r, hrb, hq⟩
    obtain ⟨hlow, hhigh⟩ := SendRecord.straddles_iff.mp ((Bool.and_eq_true _ _).mp hq).2
    rw [← (h.records r hrb).isDelivered] at hq
    refine ⟨r, (mem_overlapping hx).mpr ⟨hrb, ?_⟩, hq⟩
    exact (SendRecord.overlaps_iff (by omega) hx).mpr (by omega)

/-- Only the lowest record of a range may reach over its start. -/
theorem head_straddles (h : b.Coherent) (hx : x.start < x.stop) :
    ((b.overlapping x).head?.any fun r => !r.isDelivered && r.straddles x.start)
      = b.records.any fun r => !r.flags.sacked && r.straddles x.start := by
  have habove := (h.straddles_start_above hx).imp fun {_ r} hnot =>
    show (!r.isDelivered && r.straddles x.start) = false by rw [hnot, Bool.and_false]
  rw [any_head?_eq habove, h.any_straddles hx (Nat.le_refl _) (Nat.le_of_lt hx)]

/-- Only the highest record of a range may reach over its stop. -/
theorem last_straddles (h : b.Coherent) (hx : x.start < x.stop) :
    ((b.overlapping x).getLast?.any fun r => !r.isDelivered && r.straddles x.stop)
      = b.records.any fun r => !r.flags.sacked && r.straddles x.stop := by
  have hbelow := (h.straddles_stop_below hx).imp fun {l _} hnot =>
    show (!l.isDelivered && l.straddles x.stop) = false by rw [hnot, Bool.and_false]
  rw [any_getLast?_eq hbelow, h.any_straddles hx (Nat.le_of_lt hx) (Nat.le_refl _)]

/-- Each edge that lies inside of a missing record takes a cut. -/
theorem cutsNeeded_eq (h : b.Coherent) (hx : x.start < x.stop) : b.cutsNeeded x = b.edgesInside x := by
  unfold cutsNeeded edgesInside
  dsimp only
  rw [h.head_straddles hx, h.last_straddles hx, List.countP_cons, List.countP_cons, List.countP_nil]
  generalize b.records.any _ = low
  generalize b.records.any _ = high
  cases low <;> cases high <;> rfl

/-- If no cut is needed, the missing records of a range lie inside of it. -/
theorem inside_of_cutsNeeded (h : b.Coherent) (hx : x.start < x.stop) (hcuts : b.cutsNeeded x = 0)
    (hr : r ∈ b.overlapping x) (hm : r.flags.sacked = false) : x.start ≤ r.start ∧ r.stop ≤ x.stop := by
  have hmeets := h.meets_of_overlapping hx hr
  have hout : ∀ edge ∈ [x.start, x.stop], ¬ r.straddles edge = true := by
    intro edge he hs
    rw [h.cutsNeeded_eq hx] at hcuts
    refine List.countP_eq_zero.mp hcuts edge he (List.any_eq_true.mpr ⟨r, ?_, by rw [hm, hs]; rfl⟩)
    exact ((mem_overlapping hx).mp hr).1
  have hlow := hout x.start (by simp)
  have hhigh := hout x.stop (by simp)
  rw [SendRecord.straddles_iff] at hlow hhigh
  omega

/-- As long as its cuts fit, a resend of a range reaches the missing bytes in the range. -/
theorem resendReaches_eq (h : b.Coherent) (hx : x.start < x.stop) (hfit : b.cutsFit x = true)
    {seq : Nat} (hr : b.Holds seq r) (hm : r.flags.sacked = false) :
    resendReaches x (b.resendFits x) r seq = x.contains seq := by
  unfold resendReaches
  split
  · rfl
  · next hover =>
    have hcuts : b.cutsNeeded x = 0 := by
      unfold cutsFit at hfit
      unfold resendFits at hover
      rw [Bool.or_eq_true, or_iff_left hover] at hfit
      exact eq_of_beq hfit
    rw [Bool.eq_iff_iff]
    constructor
    · intro ho
      have hmem := (mem_overlapping hx).mpr ⟨hr.1, ho⟩
      obtain ⟨hlo, hhi⟩ := h.inside_of_cutsNeeded hx hcuts hmem hm
      have hc := SendRecord.contains_iff.mp hr.2
      exact SeqRange.contains_iff.mpr (by omega)
    · exact SendRecord.overlaps_of_contains hr.2

end Coherent

end Scoreboard

end Cuts

/-- As long as its cuts fit, a send is accounted to the bytes it carried. -/
theorem Sending.accounted_eq_carries {e : Sending} (hb : e.board.Coherent)
    (hfit : e.cutsFit = true) (seq : Nat) : e.accounted seq = e.carries seq := by
  unfold carries
  -- A byte below the left edge, an outstanding one, and a new one.
  by_cases hlo : e.board.una ≤ seq
  · rw [decide_eq_true hlo, Bool.and_true]
    by_cases hhi : seq < e.board.top
    · obtain ⟨r, hr⟩ := hb.exists_holds hlo hhi
      rw [accounted_of_holds hb hr, hb.sackedAt_eq hr]
      cases hm : r.flags.sacked with
      | true => simp
      | false =>
        have hin : e.resent.contains seq = e.range.contains seq := by
          rw [Bool.eq_iff_iff, SeqRange.contains_iff, SeqRange.contains_iff]
          show max e.range.start e.board.una ≤ seq ∧ seq < min e.range.stop e.board.top ↔ _
          omega
        rw [← hin, Bool.not_false, Bool.true_and, Bool.and_true]
        by_cases hx : e.resent.start < e.resent.stop
        · rw [decide_eq_true hx, Bool.true_and, hb.resendReaches_eq hx (cutsFit_resent hfit hx) hr hm]
        · have hout : e.resent.contains seq = false := by
            rw [Bool.eq_false_iff, Ne, SeqRange.contains_iff]
            omega
          rw [decide_eq_false hx, Bool.false_and, hout]
    · unfold accounted
      rw [if_neg hhi, hb.sackedAt_eq_false (Or.inr (Nat.le_of_not_lt hhi)), Bool.not_false,
        Bool.and_true]
  · rw [not_accounted_of_lt hb (Nat.lt_of_not_le hlo), decide_eq_false hlo, Bool.and_false,
      Bool.false_and]

theorem Recorded.accountedTimes_eq {κ : Type} {g : Engine κ} {sends : List Sending}
    (h : Recorded g sends) (hfit : ∀ e ∈ sends, e.cutsFit = true) (seq : Nat) :
    accountedTimes sends seq = transmissions sends seq := by
  unfold accountedTimes transmissions
  rw [List.filter_congr fun e he => accounted_eq_carries (h.before e he).1 (hfit e he) seq]

/-! ## The histories of bytes -/

section Reachable

variable {κ : Type} [CongestionLaw κ]

/-- While all cuts fit, the record of a byte that has not arrived tells how often the byte was sent,
when for the last time, and when for the first, the second and the last time. -/
theorem Session.Reachable.recounts {s : Session κ} (h : s.Reachable)
    (hfit : ∀ e ∈ s.sends, e.cutsFit = true) {seq : Nat} (hlo : s.engine.board.una ≤ seq)
    (hhi : seq < s.engine.board.top) (hm : s.engine.board.sackedAt seq = false) :
    ∃ r, s.engine.board.containing? seq = some r ∧
      transmissions s.sends seq ≠ [] ∧
      r.resends = min ((transmissions s.sends seq).length - 1) Word.max32 ∧
      some r.lastSent = (transmissions s.sends seq).head? ∧
      r.times.OfSends (transmissions s.sends seq) := by
  have hb := h.running.sound.board
  obtain ⟨r, hr⟩ := hb.exists_holds hlo hhi
  rw [hb.sackedAt_eq hr] at hm
  have htold := h.recorded.recounts seq r hr hm
  rw [h.recorded.accountedTimes_eq hfit] at htold
  exact ⟨r, hb.containing?_eq_some.mpr hr, htold.sent, htold.resends, htold.lastSent.symm,
    htold.times⟩

end Reachable

/-- Two sends of one burst that share a record, a resend that cuts it, and a SACK that cuts it once
more. -/
theorem recounts_after_resend : ∃ s : Session FixedWindow, s.Reachable ∧
    s.engine.board.size = 3 ∧ transmissions s.sends 1500 = [40, 0] ∧
    ∃ r, s.engine.board.containing? 1500 = some r ∧ r.resends = 1 ∧ r.lastSent = 40 ∧
      r.times.OfSends (transmissions s.sends 1500) := by
  have started : Engine.start {} (FixedWindow.ofSettings {}) .discard 0 0 = .ok _ := rfl
  have first := (Session.Reachable.start started).step
    (.send ⟨0, 1460⟩ {} 0 (Nat.zero_le _) ⟨rfl, rfl⟩)
  have burst := first.step (.send ⟨1460, 2920⟩ {} 0 (Nat.le_refl _) ⟨rfl, rfl⟩)
  have resent := burst.step (.send ⟨1000, 2000⟩ {} 40 (by decide +kernel) ⟨rfl, rfl⟩)
  have sacked := resent.step (.ack { cumulative := 500, blocks := [⟨1800, 2920⟩] } 50)
  obtain ⟨r, hr, -, hres, hlast, htimes⟩ := Session.Reachable.recounts sacked (by decide +kernel)
    (show _ ≤ 1500 by decide +kernel) (by decide +kernel) (by decide +kernel)
  exact ⟨_, sacked, by decide +kernel, by decide +kernel, r, hr, hres.trans (by decide +kernel),
    Option.some.inj (hlast.trans (by decide +kernel)), htimes⟩

end LossRecovery
