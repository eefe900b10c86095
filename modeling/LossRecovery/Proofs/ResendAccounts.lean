import LossRecovery.Proofs.BlockCuts
import LossRecovery.Proofs.Histories
import LossRecovery.Proofs.RecordLimit
import LossRecovery.Proofs.SendingOrder

/-!
# `LossRecovery.Proofs.ResendAccounts` — what is accounted for data sent again

Data sent again is accounted byte by byte: the records it reaches over are cut at its edges. Where the
cuts do not fit under the record limit, the records are accounted whole. A scoreboard that is above its
limit is said to refuse even where no cut is needed; the bytes are right all the same.

## Contents
- `countBytes_contains`, `Tiles.countBytes_total`: the bytes of a range, and of the records of a tiling.
- `Scoreboard.Coherent.countBytes_accounted`: accounted bytes, one by one and record by record.
- `Engine.Accounts`: what is accounted, byte by byte and in the counters.
- `Engine.Reachable.resend_accounts`: a report of data sent again.
-/

namespace LossRecovery

/-! ## Counting bytes -/

section Count

variable {lo hi : Nat} {rs : List SendRecord}

theorem countBytes_none {g : Nat → Bool} (h : ∀ s, lo ≤ s → s < hi → g s = false) :
    countBytes g lo hi = 0 :=
  (countBytes_congr h).trans (by simp [countBytes])

theorem countBytes_all {g : Nat → Bool} (h : ∀ s, lo ≤ s → s < hi → g s = true) :
    countBytes g lo hi = hi - lo :=
  (countBytes_congr h).trans (by simp [countBytes])

/-- The bytes that a range shares with a stretch. -/
theorem countBytes_contains {x : SeqRange} (hlo : lo < x.stop) (hhi : x.start < hi) (hle : lo ≤ hi)
    (hx : x.start < x.stop) : countBytes x.contains lo hi = min hi x.stop - max lo x.start := by
  have hout : ∀ s, s < x.start ∨ x.stop ≤ s → x.contains s = false := by
    intro s hs
    rw [Bool.eq_false_iff, Ne, SeqRange.contains_iff]
    omega
  have hbelow : countBytes x.contains lo (max lo x.start) = 0 :=
    countBytes_none fun s _ _ => hout s (by omega)
  have habove : countBytes x.contains (min hi x.stop) hi = 0 :=
    countBytes_none fun s _ _ => hout s (by omega)
  have hin : countBytes x.contains (max lo x.start) (min hi x.stop)
      = min hi x.stop - max lo x.start :=
    countBytes_all fun s _ _ => SeqRange.contains_iff.mpr (by omega)
  have hlow : countBytes x.contains lo (max lo x.start)
      + countBytes x.contains (max lo x.start) hi = countBytes x.contains lo hi :=
    countBytes_append (by omega) (by omega)
  have hhigh : countBytes x.contains (max lo x.start) (min hi x.stop)
      + countBytes x.contains (min hi x.stop) hi = countBytes x.contains (max lo x.start) hi :=
    countBytes_append (by omega) (by omega)
  omega

/-- The bytes of a tiling, record by record. -/
theorem Tiles.countBytes_total (h : Tiles lo rs hi) (g : Nat → Bool) :
    countBytes g lo hi = Number.total (rs.map fun r => countBytes g r.start r.stop) := by
  induction rs generalizing lo with
  | nil =>
    rw [show lo = hi from h]
    simp [countBytes]
  | cons r rest ih =>
    obtain ⟨rfl, hne, ht⟩ := h
    rw [← countBytes_append (Nat.le_of_lt hne) ht.le, ih ht, List.map_cons, Number.total_cons]

theorem Number.total_filter {α : Type} (l : List α) (p : α → Bool) (f : α → Nat) :
    Number.total ((l.filter p).map f) = Number.total (l.map fun a => if p a then f a else 0) := by
  induction l with
  | nil => rfl
  | cons a rest ih =>
    rw [List.filter_cons, List.map_cons, Number.total_cons, ← ih]
    split
    · rfl
    · exact (Nat.zero_add _).symm

end Count

namespace Scoreboard

variable {b : Scoreboard} {x : SeqRange} {r : SendRecord} {seq : Nat}

/-! ## Bytes that are accounted -/

/-- Whether a byte counts as a hole. -/
def holeAt (b : Scoreboard) (seq : Nat) : Bool := (b.containing? seq).any (·.hole)

/-- Whether a byte belongs to a record that is not SACKed and shares a byte with `x`. -/
def sharesMissing (b : Scoreboard) (x : SeqRange) (seq : Nat) : Bool :=
  (b.containing? seq).any fun r => !r.flags.sacked && r.overlaps x

namespace Coherent

theorem any_containing? (h : b.Coherent) (hr : b.Holds seq r) (p : SendRecord → Bool) :
    (b.containing? seq).any p = p r := by
  rw [h.containing?_eq_some.mpr hr]
  rfl

/-- A resend stands for the bytes of a record that it reaches. -/
theorem countBytes_reaches (h : b.Coherent) (hx : x.start < x.stop) (hr : r ∈ b.records)
    (fits : Bool) : countBytes (resendReaches x fits r) r.start r.stop
      = if r.overlaps x then (Engine.resentPart x fits r).length else 0 := by
  have hne := (h.tiles.bounds hr).2.1
  have hover := SendRecord.overlaps_iff hne hx
  cases fits with
  | true =>
    change countBytes x.contains r.start r.stop
      = if r.overlaps x then (r.carve x).middle.length else 0
    split
    · next ho =>
      have hmeet := hover.mp ho
      rw [countBytes_contains hmeet.1 hmeet.2 (Nat.le_of_lt hne) hx, SendRecord.length,
        SendRecord.carve_middle_start, SendRecord.carve_middle_stop]
    · next ho =>
      refine countBytes_none fun s h1 h2 => Bool.eq_false_iff.mpr fun hs => ho ?_
      exact SendRecord.overlaps_of_contains (SendRecord.contains_iff.mpr ⟨h1, h2⟩) hs
  | false =>
    change countBytes (fun _ => r.overlaps x) r.start r.stop = if r.overlaps x then r.length else 0
    split
    · next ho => exact countBytes_all fun _ _ _ => ho
    · next ho => exact countBytes_none fun _ _ _ => Bool.eq_false_iff.mpr ho

/-- The accounted bytes in records chosen by `p`, byte by byte and record by record. -/
theorem countBytes_accounted (h : b.Coherent) (hx : x.start < x.stop) (fits : Bool)
    {accounted : Nat → Bool} {p : SendRecord → Bool}
    (hbytes : ∀ seq r, b.Holds seq r →
      accounted seq = (!r.flags.sacked && resendReaches x fits r seq && p r)) :
    countBytes accounted b.una b.top
      = Number.total (((b.overlapping x).filter fun r => !r.isDelivered).map fun r =>
          if p r then (Engine.resentPart x fits r).length else 0) := by
  rw [h.tiles.countBytes_total, missing_eq_filter hx, Number.total_filter]
  refine congrArg Number.total (List.map_congr_left fun r hr => ?_)
  have hin : ∀ s, r.start ≤ s → s < r.stop →
      accounted s = (!r.flags.sacked && resendReaches x fits r s && p r) := fun s h1 h2 =>
    hbytes s r ⟨hr, SendRecord.contains_iff.mpr ⟨h1, h2⟩⟩
  rw [countBytes_congr hin, (h.records r hr).isDelivered]
  cases hs : r.flags.sacked with
  | true => simp [countBytes]
  | false =>
    cases hp : p r with
    | false => simp [countBytes]
    | true =>
      simp only [Bool.not_false, Bool.true_and, Bool.and_true, if_true]
      exact h.countBytes_reaches hx hr fits

end Coherent

/-- `accounted` tells the bytes of missing records that a resend of `x` reaches. -/
def Accountable (b : Scoreboard) (x : SeqRange) (accounted : Nat → Bool) : Prop :=
  ∀ seq r, b.Holds seq r →
    accounted seq = (!r.flags.sacked && Coherent.resendReaches x (b.resendFits x) r seq)

/-- Accounted bytes carry a new sending time and are holes, and the others have the history they had. -/
def Stamped (b b' : Scoreboard) (now : Nat) (accounted : Nat → Bool) : Prop :=
  ∀ seq, b.una ≤ seq → seq < b.top → ∃ r r', b.Holds seq r ∧ b'.Holds seq r' ∧
    if accounted seq then
      r'.lastSent = now ∧ r'.resends = Word.incr32 r.resends ∧ r'.hole = true ∧
        r'.flags.sacked = false
    else r'.IsPart r

theorem Accountable.stamped {accounted : Nat → Bool} (hacc : b.Accountable x accounted)
    (h : b.Coherent) (hx : x.start < x.stop) (flags : Flags) (afterTimeout : Bool) (now : Nat) :
    b.Stamped (Engine.resendOnBoard b x (b.resendFits x) (Engine.resentRecord flags afterTimeout now))
      now accounted := by
  intro seq hlo hhi
  have hresent : b.Resent x now (Engine.resendOnBoard b x (b.resendFits x)
    (Engine.resentRecord flags afterTimeout now)) := .inr ⟨hx, flags, afterTimeout, rfl⟩
  obtain ⟨r', hr'⟩ := (hresent.coherent h).exists_holds (hresent.edges.1 ▸ hlo)
    (hresent.edges.2 ▸ hhi)
  obtain ⟨r, hr, hcase⟩ := h.of_resendOnBoard hx (f := Engine.resentRecord flags afterTimeout now)
    (fun _ => rfl) (fun _ => rfl) hr'
  refine ⟨r, r', hr, hr', ?_⟩
  have hseq := hacc seq r hr
  rcases hcase with ⟨hm, hreached, hpart, rfl⟩ | ⟨hleft, hpart⟩
  · have hyes : accounted seq = true := by
      rw [hseq, hm, hreached]
      rfl
    rw [if_pos hyes]
    exact ⟨SendRecord.lastSent_resend _, congrArg Word.incr32 hpart.resends, rfl,
      hpart.sacked.trans hm⟩
  · have hnot : accounted seq = false := by
      rw [hseq]
      rcases hleft with hsacked | hunreached
      · rw [hsacked]
        rfl
      · rw [hunreached, Bool.and_false]
    rw [if_neg (by rw [hnot]; exact Bool.false_ne_true)]
    exact hpart

end Scoreboard

namespace Engine

variable {κ : Type} {g g' : Engine κ} {range x : SeqRange} {flags : Flags} {now : Nat}

/-! ## The counters -/

/-- What is accounted when data is sent again at `now`: the bytes on the scoreboard, and in the counters
as many bytes as are accounted, or as are accounted and were no holes before. -/
structure Accounts (g : Engine κ) (now : Nat) (accounted : Nat → Bool) (g' : Engine κ) : Prop where
  edges : g'.board.una = g.board.una ∧ g'.board.top = g.board.top
  stamped : g.board.Stamped g'.board now accounted
  retransmitted : g'.stats.retransmittedBytes =
    if countBytes accounted g.board.una g.board.top = 0 then g.stats.retransmittedBytes
    else Word.add g.stats.retransmittedBytes (countBytes accounted g.board.una g.board.top)
  holes : g'.ledger.holeBytes = g.ledger.holeBytes
    + countBytes (fun seq => accounted seq && !g.board.holeAt seq) g.board.una g.board.top

theorem resentBytes_eq (hb : g.board.Coherent) (hx : x.start < x.stop) {accounted : Nat → Bool}
    (hacc : g.board.Accountable x accounted) :
    g.resentBytes x = countBytes accounted g.board.una g.board.top := by
  have hcount := hb.countBytes_accounted hx (g.board.resendFits x)
    fun seq r hr => (hacc seq r hr).trans (Bool.and_true _).symm
  rw [hcount]
  rfl

theorem resentEngine_holes_eq (hb : g.board.Coherent) (hx : x.start < x.stop) (flags : Flags)
    (now : Nat) {accounted : Nat → Bool} (hacc : g.board.Accountable x accounted) :
    (g.resentEngine x flags now).ledger.holeBytes = g.ledger.holeBytes
      + countBytes (fun seq => accounted seq && !g.board.holeAt seq) g.board.una g.board.top := by
  have hnew : ∀ seq r, g.board.Holds seq r → (accounted seq && !g.board.holeAt seq)
      = (!r.flags.sacked && Scoreboard.Coherent.resendReaches x (g.board.resendFits x) r seq
        && !r.hole) := by
    intro seq r hr
    rw [hacc seq r hr]
    exact congrArg (_ && !·) (hb.any_containing? hr (·.hole))
  rw [hb.countBytes_accounted hx _ hnew, resentEngine_holes]
  congr 2
  refine List.map_congr_left fun r hr => ?_
  obtain ⟨hrb, ho, -⟩ := (AckPass.mem_missing hb hx).mp hr
  rw [(isPart_resentPart hb hx (g.board.resendFits x) hrb ho).hole]
  cases r.hole <;> rfl

/-- A refusal is counted whenever the cuts and the records exceed the limit, also if there are no cuts. -/
theorem resendRange_splitsRefused (g : Engine κ) (range : SeqRange) (flags : Flags) (now : Nat)
    (hx : max range.start g.board.una < range.stop) :
    (g.resendRange range flags now).1.stats.splitsRefused
      = if g.board.resendFits ⟨max range.start g.board.una, range.stop⟩
        then g.stats.splitsRefused else g.stats.splitsRefused + 1 := by
  have hwalk := fun (x : SeqRange) (fits : Bool) (change : SendRecord → SendRecord) rs m =>
    foldl_keep (·.stats.splitsRefused) (g := countResent (κ := κ) x fits change) rs m fun _ _ => rfl
  have hresent : (g.resentEngine ⟨max range.start g.board.una, range.stop⟩ flags now).stats.splitsRefused
      = if g.board.resendFits ⟨max range.start g.board.una, range.stop⟩
        then g.stats.splitsRefused else g.stats.splitsRefused + 1 := by
    unfold resentEngine
    dsimp only
    rw [hwalk]
    split <;> rfl
  rw [resendRange_eq g range flags now hx, ← hresent]
  dsimp only
  split <;> rfl

theorem splitsRefused_accountSent (g : Engine κ) (sent now : Nat) :
    (g.accountSent sent now).1.stats.splitsRefused = g.stats.splitsRefused := by
  unfold accountSent
  split
  · rfl
  · dsimp only
    split
    · unfold rearm
      split <;> rfl
    · rfl

/-- A report of outstanding data is a resend, which is then counted as sent. -/
theorem Running.onPacketSent_of_below (h : g.Running) (hstop : range.stop ≤ g.board.top)
    (hx : max range.start g.board.una < range.stop) (flags : Flags) (now : Nat) :
    g.onPacketSent range flags now =
      let again := g.resendRange range flags now
      let done := again.1.accountSent again.2 now
      (done.1, .ok done.2) := by
  have hbelow : g.resendBelow range flags now = g.resendRange range flags now := by
    unfold resendBelow
    rw [if_pos (by omega), Nat.min_eq_left hstop]
  have hsound := (h.sound.resendRange range flags now).2.1
  have hdone := (kept_accountSent (g.resendRange range flags now).1
    (g.resendRange range flags now).2 now).sound hsound
  have heq : g.processSent range flags now = _ :=
    processSent_of_le (show range.start < range.stop by omega) hstop
  rw [hbelow] at heq
  dsimp only at heq ⊢
  rw [hdone.audited] at heq
  unfold onPacketSent
  rw [guarded_eq h.isAborted, heq]

theorem resendRange_retransmitted (g : Engine κ) (range : SeqRange) (flags : Flags) (now : Nat)
    (hx : max range.start g.board.una < range.stop) :
    (g.resendRange range flags now).1.stats.retransmittedBytes
      = if g.resentBytes ⟨max range.start g.board.una, range.stop⟩ = 0
        then g.stats.retransmittedBytes
        else Word.add g.stats.retransmittedBytes
          (g.resentBytes ⟨max range.start g.board.una, range.stop⟩) := by
  have hkept : (g.resentEngine ⟨max range.start g.board.una, range.stop⟩ flags now).stats.retransmittedBytes
      = g.stats.retransmittedBytes := congrArg ByteCounts.retransmitted (resentEngine_control g _ flags now).2
  rw [resendRange_eq g range flags now hx, ← hkept]
  dsimp only
  split <;> rfl

/-! ## A report of data sent again -/

section Resend

variable (h : g.Running) (hstop : range.stop ≤ g.board.top)
  (hx : max range.start g.board.una < range.stop)

include h hstop hx

theorem Running.splitsRefused_onPacketSent (flags : Flags) (now : Nat) :
    (g.onPacketSent range flags now).1.stats.splitsRefused
      = if g.board.resendFits ⟨max range.start g.board.una, range.stop⟩
        then g.stats.splitsRefused else g.stats.splitsRefused + 1 := by
  rw [h.onPacketSent_of_below hstop hx]
  dsimp only
  rw [splitsRefused_accountSent, resendRange_splitsRefused g range flags now hx]

/-- A resend accounts for the bytes of missing records that it reaches. -/
theorem Running.accounts (flags : Flags) (now : Nat) {accounted : Nat → Bool}
    (hacc : g.board.Accountable ⟨max range.start g.board.una, range.stop⟩ accounted) :
    Accounts g now accounted (g.onPacketSent range flags now).1 := by
  have hb := h.sound.board
  have hkept := kept_accountSent (g.resendRange range flags now).1
    (g.resendRange range flags now).2 now
  have hrange := kept_resendRange g range flags now hx
  have hboard := hkept.board.trans hrange.board
  have hcounted := congrArg ByteCounts.retransmitted (byteCounts_accountSent
    (g.resendRange range flags now).1 (g.resendRange range flags now).2 now)
  rw [h.onPacketSent_of_below hstop hx]
  dsimp only
  refine ⟨?_, ?_, ?_, ?_⟩
  · rw [hboard]
    exact Scoreboard.Resent.edges (.inr ⟨hx, flags, _, rfl⟩)
  · rw [hboard]
    exact hacc.stamped hb hx flags _ now
  · rw [← resentBytes_eq hb hx hacc]
    exact hcounted.trans (resendRange_retransmitted g range flags now hx)
  · rw [hkept.holes, hrange.holes]
    exact resentEngine_holes_eq hb hx flags now hacc

end Resend

/-- Data that is sent again is accounted byte by byte, unless cuts are needed that do not fit: then the
missing records are accounted whole. A refusal is counted whenever the records and the cuts exceed the
limit, although there may be no cut to refuse. -/
theorem Reachable.resend_accounts [CongestionLaw κ] {first : Nat} (h : g.Reachable first)
    (ha : g.isAborted = false) (hstop : range.stop ≤ g.board.top)
    (hx : max range.start g.board.una < range.stop) (flags : Flags) (now : Nat) :
    let x : SeqRange := ⟨max range.start g.board.una, range.stop⟩
    let records := g.board.size + g.board.edgesInside x
    let done := g.onPacketSent range flags now
    (∃ actions, done.2 = .ok actions) ∧
    (g.board.edgesInside x = 0 ∨ records ≤ g.settings.maxSegments →
      Accounts g now (fun seq => x.contains seq && !g.board.sackedAt seq) done.1) ∧
    (g.board.edgesInside x ≠ 0 ∧ g.settings.maxSegments < records →
      Accounts g now (g.board.sharesMissing x) done.1) ∧
    done.1.stats.splitsRefused = if records ≤ g.settings.maxSegments
      then g.stats.splitsRefused else g.stats.splitsRefused + 1 := by
  have hrun := h.running_of ha
  have hb := hrun.sound.board
  intro x records done
  have hne : x.start < x.stop := hx
  have hfits : g.board.resendFits x = decide (records ≤ g.settings.maxSegments) := by
    unfold Scoreboard.resendFits
    rw [hb.cutsNeeded_eq hne, h.limit_eq]
  refine ⟨?_, ?_, ?_, ?_⟩
  · exact ⟨_, congrArg Prod.snd (hrun.onPacketSent_of_below hstop hx flags now)⟩
  · intro hexact
    refine hrun.accounts hstop hx flags now fun seq r hr => ?_
    rw [hb.sackedAt_eq hr, Bool.and_comm]
    cases hm : r.flags.sacked with
    | true => rfl
    | false =>
      have hfit : g.board.cutsFit x = true := by
        unfold Scoreboard.cutsFit
        rw [hb.cutsNeeded_eq hne, h.limit_eq]
        simpa using hexact
      exact (hb.resendReaches_eq hne hfit hr hm).symm
  · rintro ⟨-, hfull⟩
    refine hrun.accounts hstop hx flags now fun seq r hr => ?_
    rw [hfits, decide_eq_false (Nat.not_le.mpr hfull)]
    exact hb.any_containing? hr _
  · refine (hrun.splitsRefused_onPacketSent hstop hx flags now).trans ?_
    rw [hfits]
    simp only [decide_eq_true_eq]

/-- The range starts inside of a missing record and ends inside of a SACKed one: one cut is made, and the
460 and 540 bytes of it that are missing are accounted. -/
theorem resend_accounts_partly : ∃ g : Engine FixedWindow,
    (g.Reachable 0 ∧ g.isAborted = false ∧ 2500 ≤ g.board.top ∧ max 1000 g.board.una < 2500) ∧
    g.board.edgesInside ⟨1000, 2500⟩ = 1 ∧
    Accounts g 60 (fun seq => (⟨1000, 2500⟩ : SeqRange).contains seq && !g.board.sackedAt seq)
      (g.onPacketSent ⟨1000, 2500⟩ {} 60).1 ∧
    (g.onPacketSent ⟨1000, 2500⟩ {} 60).1.stats.retransmittedBytes = 1000 ∧
    (g.onPacketSent ⟨1000, 2500⟩ {} 60).1.stats.splitsRefused = g.stats.splitsRefused := by
  have started : Engine.start {} (FixedWindow.ofSettings {}) .discard 0 0 = .ok _ := rfl
  have first := (Reachable.start started).step (.send ⟨0, 1460⟩ {} 0 ⟨rfl, rfl⟩)
  have second := first.step (.send ⟨1460, 4380⟩ {} 10 ⟨rfl, rfl⟩)
  have sacked := second.step (.ack { cumulative := 0, blocks := [⟨2000, 3000⟩] } 50)
  obtain ⟨-, hexact, -, hrefused⟩ := Reachable.resend_accounts sacked (by decide +kernel)
    (show (⟨1000, 2500⟩ : SeqRange).stop ≤ _ by decide +kernel) (by decide +kernel) {} 60
  exact ⟨_, ⟨sacked, by decide +kernel, by decide +kernel, by decide +kernel⟩, by decide +kernel,
    hexact (.inr (by decide +kernel)), by decide +kernel,
    hrefused.trans (if_pos (by decide +kernel))⟩

/-- Three records were sent although the limit is two. A resend of exactly one of them needs no cut, and
is said to have been refused one. -/
theorem refused_without_cut : ¬ ∀ (g : Engine FixedWindow) (first : Nat) (range : SeqRange)
    (flags : Flags) (now : Nat), g.Reachable first → g.isAborted = false →
    range.stop ≤ g.board.top → max range.start g.board.una < range.stop →
    g.board.edgesInside ⟨max range.start g.board.una, range.stop⟩ = 0 →
    (g.onPacketSent range flags now).1.stats.splitsRefused = g.stats.splitsRefused := by
  intro exact_refusals
  have started : Engine.start { maxSegments := 2 } (FixedWindow.ofSettings { maxSegments := 2 })
    .discard 0 0 = .ok _ := rfl
  have first := (Reachable.start started).step (.send ⟨0, 1460⟩ {} 0 ⟨rfl, rfl⟩)
  have second := first.step (.send ⟨1460, 2920⟩ {} 1 ⟨rfl, rfl⟩)
  have third := second.step (.send ⟨2920, 4380⟩ {} 2 ⟨rfl, rfl⟩)
  have hsame := exact_refusals _ 0 ⟨0, 1460⟩ {} 3 third (by decide +kernel) (by decide +kernel)
    (by decide +kernel) (by decide +kernel)
  exact absurd hsame (by decide +kernel)

end Engine

end LossRecovery
