import LossRecovery.Proofs.Requests
import Mathlib.Algebra.Order.Floor.Div

/-!
# `LossRecovery.Proofs.Plans` — what an engine asks to send

Every send an engine asks for is for data that is missing, or for new data the receiver has room
for. What is sent again goes in ascending order, no byte twice, within what the stage of loss
recovery grants.

## Contents
- `Actions.resends`: the ranges to send again; `Scoreboard.Wants`: a range missing as a whole.
- `Actions.Resending`: what is planned is wanted, in order, and within a budget.
- `planResends_resending`, with `Sound.concluded_resending` for an ack and
  `Sound.resendLowest_resending` for a timeout.
- `Coherent.highestMissing?_eq`, `Coherent.tailProbe_eq`: what a tail loss probe sends again.
- `Engine.Warranted`: what a send has to be, by its kind; `Engine.Warrants g as`: all that `as` asks
  to send is sound in `g`.
- `Reachable.warrants`: what is asked for by calls is.
-/

namespace LossRecovery

namespace Actions

/-- What is to be sent again because it is presumed lost. -/
def resends (as : Actions) : List SeqRange :=
  (as.sends.filter (·.2 == .retransmit)).map (·.1)

@[simp] theorem resends_nil : resends [] = [] := rfl

@[simp] theorem resends_cons_retransmit (x : SeqRange) (n : Nat) (as : Actions) :
    resends (.send x n .retransmit :: as) = x :: as.resends := rfl

/-- How many bytes are to be sent again. -/
def resentBytes (as : Actions) : Nat := Number.total (as.resends.map (·.length))

end Actions

/-- A range that is not empty and lies in one record that is not SACKed. -/
def Scoreboard.Wants (b : Scoreboard) (x : SeqRange) : Prop :=
  x.start < x.stop ∧ ∃ r ∈ b.records, r.flags.sacked = false ∧ r.start ≤ x.start ∧ x.stop ≤ r.stop

/-- What is planned to be sent again: wanted ranges in ascending order, apart from each other, within
a budget. -/
structure Actions.Resending (b : Scoreboard) (mss budget : Nat) (as : Actions) : Prop where
  each : ∀ a ∈ as, ∃ x, a = .send x (segments x.length mss) .retransmit ∧ b.Wants x
  ascending : as.resends.Pairwise fun x y => x.stop ≤ y.start
  total : as.resentBytes ≤ budget

/-! ## Spending a budget -/

section Budget

variable {mss left : Nat} {rs : List SeqRange}

theorem mem_spendBudget (hne : ∀ r ∈ rs, r.start < r.stop) {a : Action}
    (ha : a ∈ spendBudget mss left rs) :
    ∃ x, a = .send x (segments x.length mss) .retransmit ∧
      ∃ r ∈ rs, x.start = r.start ∧ x.start < x.stop ∧ x.stop ≤ r.stop := by
  induction rs generalizing left with
  | nil => cases ha
  | cons r rest ih =>
    unfold spendBudget at ha
    split at ha
    · cases ha
    · next hleft =>
      have hr := hne r List.mem_cons_self
      have hlength : r.length = r.stop - r.start := rfl
      rcases List.mem_cons.mp ha with rfl | ha
      · refine ⟨⟨r.start, r.start + min r.length left⟩, ?_, r, List.mem_cons_self, rfl, ?_, ?_⟩
        · simp [SeqRange.length]
        · dsimp only
          omega
        · dsimp only
          omega
      · obtain ⟨x, hx, q, hq, hrest⟩ := ih (fun q hq => hne q (List.mem_cons_of_mem _ hq)) ha
        exact ⟨x, hx, q, List.mem_cons_of_mem _ hq, hrest⟩

theorem mem_resends {as : Actions} {x : SeqRange} (hx : x ∈ as.resends) :
    ∃ n, Action.send x n .retransmit ∈ as := by
  obtain ⟨⟨y, kind⟩, hs, rfl⟩ := List.mem_map.mp hx
  obtain ⟨hs, hkind⟩ := List.mem_filter.mp hs
  obtain ⟨a, ha, hsend⟩ := List.mem_filterMap.mp hs
  cases a with
  | send range n k =>
    obtain ⟨rfl, rfl⟩ := Prod.mk.injEq .. ▸ Option.some.inj hsend
    have hkind : k = .retransmit := eq_of_beq hkind
    exact ⟨n, hkind ▸ ha⟩
  | arm | cancel => cases hsend

theorem ascending_spendBudget (hne : ∀ r ∈ rs, r.start < r.stop)
    (hp : rs.Pairwise fun x y => x.stop ≤ y.start) :
    (spendBudget mss left rs).resends.Pairwise fun x y => x.stop ≤ y.start := by
  induction rs generalizing left with
  | nil => exact List.Pairwise.nil
  | cons r rest ih =>
    have hr := hne r List.mem_cons_self
    have hrest := fun q hq => hne q (List.mem_cons_of_mem _ hq)
    obtain ⟨hfirst, hp⟩ := List.pairwise_cons.mp hp
    unfold spendBudget
    split
    · exact List.Pairwise.nil
    · refine List.pairwise_cons.mpr ⟨?_, ih hrest hp⟩
      intro y hy
      obtain ⟨n, hn⟩ := mem_resends hy
      obtain ⟨x, hx, q, hq, hstart, -, -⟩ := mem_spendBudget hrest hn
      injection hx with hx
      subst hx
      have hbeyond := hfirst q hq
      have hlength : r.length = r.stop - r.start := rfl
      dsimp only
      omega

/-- No more is sent than the budget. -/
theorem resentBytes_spendBudget (mss left : Nat) (rs : List SeqRange) :
    (spendBudget mss left rs).resentBytes ≤ left := by
  induction rs generalizing left with
  | nil => exact Nat.zero_le left
  | cons r rest ih =>
    unfold spendBudget
    split
    · exact Nat.zero_le left
    · have hrest := ih (left - min r.length left)
      have hsum : Actions.resentBytes (.send ⟨r.start, r.start + min r.length left⟩
          (segments (min r.length left) mss) .retransmit ::
            spendBudget mss (left - min r.length left) rest)
          = min r.length left + (spendBudget mss (left - min r.length left) rest).resentBytes := by
        simp [Actions.resentBytes, SeqRange.length]
      dsimp only
      rw [hsum]
      omega

end Budget

/-! ## Planners -/

namespace Scoreboard

variable {b : Scoreboard} {p q r : SendRecord} {x : SeqRange} {f : SendRecord → SendRecord}

/-- Of two records, the one that starts first stops before the other one starts. -/
theorem Coherent.stop_le_start (h : b.Coherent) (hp : p ∈ b.records) (hq : q ∈ b.records)
    (hlt : p.start < q.start) : p.stop ≤ q.start := by
  by_contra hover
  have hqlen := (h.tiles.bounds hq).2.1
  have heq := h.tiles.eq_of_contains hp hq (SendRecord.contains_iff.mpr ⟨Nat.le_of_lt hlt, by omega⟩)
    (SendRecord.contains_iff.mpr ⟨Nat.le_refl _, hqlen⟩)
  rw [heq] at hlt
  omega

theorem Coherent.nodup_ordered (h : b.Coherent) : (b.ordered.map (·.start)).Nodup := by
  rw [h.ordered_starts]
  exact h.nodup_order

theorem Wants.modify (hf : SendRecord.Relabels f) (h : b.Wants x) : (b.modify f).Wants x := by
  obtain ⟨hx, r, hr, hs, hlo, hhi⟩ := h
  refine ⟨hx, f r, List.mem_map_of_mem hr, (hf.sacked r).trans hs, ?_, ?_⟩
  · rwa [hf.start]
  · rwa [hf.stop]

/-- Records are sorted by their ranges into ranges that lie apart. -/
theorem Coherent.pairwise_sorted (h : b.Coherent) {lost : List SendRecord}
    (hl : ∀ r ∈ lost, r ∈ b.records) (hn : (lost.map (·.start)).Nodup) :
    (Sorting.sortByKey (·.start) (lost.map (·.range))).Pairwise fun x y => x.stop ≤ y.start := by
  have hsorted := Sorting.sorted_sortByKey (·.start) (lost.map (·.range))
  have hperm := Sorting.perm_sortByKey (·.start) (lost.map (·.range))
  have hstarts : ((Sorting.sortByKey (·.start) (lost.map (·.range))).map (·.start)).Nodup := by
    refine (hperm.map (·.start)).nodup_iff.mpr ?_
    rw [List.map_map]
    exact hn
  have hapart := hsorted.and (List.pairwise_map.mp hstarts)
  refine hapart.imp_of_mem ?_
  intro x y hx hy ⟨hle, hne⟩
  obtain ⟨p, hp, rfl⟩ := List.mem_map.mp (Sorting.mem_sortByKey.mp hx)
  obtain ⟨q, hq, rfl⟩ := List.mem_map.mp (Sorting.mem_sortByKey.mp hy)
  exact h.stop_le_start (hl p hp) (hl q hq) (Nat.lt_of_le_of_ne hle hne)

end Scoreboard

open Actions

variable {b : Scoreboard} {mss budget : Nat} {lost : List SendRecord}

theorem resending_nil (b : Scoreboard) (mss budget : Nat) : Resending b mss budget [] :=
  ⟨fun _ ha => absurd ha List.not_mem_nil, List.Pairwise.nil, Nat.zero_le _⟩

theorem Actions.Resending.modify {as : Actions} {f : SendRecord → SendRecord}
    (hf : SendRecord.Relabels f)
    (h : Resending b mss budget as) : Resending (b.modify f) mss budget as := by
  refine ⟨?_, h.ascending, h.total⟩
  intro a ha
  obtain ⟨x, hx, hw⟩ := h.each a ha
  exact ⟨x, hx, hw.modify hf⟩

/-- Distinct records of a scoreboard are sent again in order and within the budget, except for those
that are SACKed. -/
theorem planResends_resending (h : b.Coherent) (hl : ∀ r ∈ lost, r ∈ b.records)
    (hn : (lost.map (·.start)).Nodup) (budget mss : Nat) :
    Resending b mss budget (planResends lost budget mss) := by
  have hkept : ∀ r ∈ lost.filter fun r => !r.isDelivered,
      r ∈ b.records ∧ r.flags.sacked = false := by
    intro r hr
    obtain ⟨hmem, hd⟩ := List.mem_filter.mp hr
    refine ⟨hl r hmem, ?_⟩
    rw [← (h.records r (hl r hmem)).isDelivered]
    simpa using hd
  have hranges : ∀ x ∈ Sorting.sortByKey (·.start)
      ((lost.filter fun r => !r.isDelivered).map (·.range)),
      x.start < x.stop ∧ ∃ r ∈ b.records, r.flags.sacked = false ∧ r.range = x := by
    intro x hx
    obtain ⟨r, hr, rfl⟩ := List.mem_map.mp (Sorting.mem_sortByKey.mp hx)
    obtain ⟨hmem, hs⟩ := hkept r hr
    exact ⟨(h.tiles.bounds hmem).2.1, r, hmem, hs, rfl⟩
  have hapart := h.pairwise_sorted (fun r hr => (hkept r hr).1)
    (hn.sublist (List.filter_sublist.map _))
  refine ⟨?_, ascending_spendBudget (fun x hx => (hranges x hx).1) hapart,
    resentBytes_spendBudget _ _ _⟩
  intro a ha
  obtain ⟨x, rfl, y, hy, hstart, hlen, hstop⟩ := mem_spendBudget (fun x hx => (hranges x hx).1) ha
  obtain ⟨-, r, hr, hs, rfl⟩ := hranges y hy
  exact ⟨x, rfl, hlen, r, hr, hs, Nat.le_of_eq hstart.symm, hstop⟩

namespace Engine

variable {κ : Type} {g g' : Engine κ} {now : Nat} [CongestionLaw κ]

omit [CongestionLaw κ] in
theorem Sound.nodup_detectLosses (h : g.Sound) (now : Nat) :
    ((g.detectLosses now).map (·.start)).Nodup := by
  unfold detectLosses
  split
  · exact List.nodup_nil
  · exact h.board.nodup_ordered.sublist (List.filter_sublist.map _)

/-- How many bytes are granted to be sent again after an ack: in a recovery episode in proportion to
what was delivered, after a timeout up to the window, and none else. -/
def repairBudget (g : Engine κ) : Nat :=
  match g.schedule.stage with
  | .recovering => g.ledger.allowance g.pipe g.threshold g.settings.mss
  | .rtoPending => g.congestionWindow - g.pipe
  | _ => 0

theorem goBackN_sublist (b : Scoreboard) (start point fired : Nat) :
    (goBackN b start point fired).Sublist b.records :=
  List.filter_sublist.trans (b.overlapping_sublist _)

/-- After a timeout, what was sent before it is sent again within the window. -/
theorem Sound.planGoBackN_resending (h : g.Sound) :
    Resending g.board g.settings.mss (g.congestionWindow - g.pipe) g.planGoBackN.2 := by
  unfold planGoBackN
  split
  · exact resending_nil _ _ _
  · next fired _ =>
    have hsub := goBackN_sublist g.board (g.schedule.resumePoint g.board.una) g.schedule.rtoPoint fired
    have hn := h.board.tiles.nodup_starts.sublist (hsub.map _)
    exact planResends_resending h.board (fun r hr => hsub.subset hr) hn _ _

/-- What is planned after an ack, given that losses can be sent again. -/
theorem Sound.planSends_resending (h : g.Sound)
    (hl : ∀ budget, Resending g.board g.settings.mss budget (planResends lost budget g.settings.mss)) :
    Resending g.board g.settings.mss g.repairBudget (g.planSends lost).2 := by
  cases hstage : g.schedule.stage with
  | recovering =>
    simp only [planSends, repairBudget, hstage]
    exact hl _
  | rtoPending =>
    simp only [planSends, repairBudget, hstage]
    exact h.planGoBackN_resending
  | steady | tlpPending =>
    simp only [planSends, hstage]
    exact resending_nil _ _ _

/-- What is planned after an ack is sound in the engine that drew the conclusions. -/
theorem Sound.concluded_resending (h : g.Sound) {ack : Ack} (hle : ack.cumulative ≤ g.board.top)
    (now : Nat) : Resending (g.concluded ack now).1.board (g.concluded ack now).1.settings.mss
      (g.concluded ack now).1.repairBudget
      ((g.concluded ack now).1.planSends (g.concluded ack now).2).2 := by
  -- The losses were listed before records were relabelled.
  obtain ⟨mid, hjudged, hlost, hrest⟩ := conclude_eq (g.acked ack now) ack (g.outcomeOf ack now) now
  have hmid := hjudged.sound (h.acked hle now)
  obtain ⟨f, hf, hboard⟩ := hrest.board
  refine (hrest.sound hmid).planSends_resending fun budget => ?_
  show Resending ((g.acked ack now).conclude ack (g.outcomeOf ack now) now).1.board _ _
    (planResends ((g.acked ack now).conclude ack (g.outcomeOf ack now) now).2 _ _)
  rw [hboard, hlost]
  exact (planResends_resending hmid.board (fun r hr => hmid.mem_of_detectLosses hr)
    (hmid.nodup_detectLosses now) _ _).modify hf

/-- When the retransmission timer fires, the lowest missing record is sent again within the window,
but at least a segment of it. -/
theorem Sound.resendLowest_resending (h : g.Sound) :
    Resending g.board g.settings.mss (max g.congestionWindow g.settings.mss) g.resendLowest.2 := by
  unfold resendLowest
  split
  · exact resending_nil _ _ _
  · next r hr =>
    have hmem : r ∈ g.board.records := List.mem_of_find?_eq_some hr
    have hn : ([r].map (·.start)).Nodup := List.nodup_singleton r.start
    refine planResends_resending h.board ?_ hn _ _
    intro q hq
    rwa [List.mem_singleton.mp hq]

end Engine

/-! ## The end of what is missing -/

namespace Scoreboard

/-- The highest missing record stops right after the highest missing byte. -/
theorem Coherent.highestMissing?_eq (h : b.Coherent) {r : SendRecord}
    (hr : b.highestMissing? = some r) : r ∈ b.records ∧ r.start < r.stop ∧ r.flags.sacked = false ∧
      b.Missing (r.stop - 1) ∧ ∀ s, b.Missing s → s < r.stop := by
  obtain ⟨hd, before, after, hreversed, hbefore⟩ := List.find?_eq_some_iff_append.mp hr
  have hrecords : b.records = after.reverse ++ r :: before.reverse := by
    rw [← List.reverse_reverse b.records, hreversed]
    simp
  have hmem : r ∈ b.records := by
    rw [hrecords]
    simp
  have hlen := (h.tiles.bounds hmem).2.1
  have hd : r.isDelivered = false := by simpa using hd
  have hpair := h.tiles.pairwise
  rw [hrecords] at hpair
  refine ⟨hmem, hlen, (h.records r hmem).isDelivered ▸ hd, ?_, ?_⟩
  · have hlast : r.contains (r.stop - 1) = true := SendRecord.contains_iff.mpr (by omega)
    exact h.missing_iff.mpr ⟨r, ⟨hmem, hlast⟩, hd⟩
  · intro s hs
    obtain ⟨q, ⟨hqmem, hcontains⟩, hqd⟩ := h.missing_iff.mp hs
    have hqs := SendRecord.contains_iff.mp hcontains
    rw [hrecords] at hqmem
    rcases List.mem_append.mp hqmem with hin | hin
    · have hbelow := (List.pairwise_append.mp hpair).2.2 q hin r List.mem_cons_self
      omega
    · rcases List.mem_cons.mp hin with rfl | hin
      · exact hqs.2
      · -- The records after it have arrived.
        have := hbefore q (List.mem_reverse.mp hin)
        simp [hqd] at this

/-- A tail probe is the end of the highest missing record, at most a segment of it. -/
theorem Coherent.tailProbe_eq (h : b.Coherent) (hmss : 0 < mss) (hx : tailProbe b mss = some x) :
    b.Wants x ∧ x.length ≤ mss ∧ b.Missing (x.stop - 1) ∧ ∀ s, b.Missing s → s < x.stop := by
  unfold tailProbe at hx
  obtain ⟨r, hr, rfl⟩ := Option.map_eq_some_iff.mp hx
  obtain ⟨hmem, hlen, hs, hlast, hhighest⟩ := h.highestMissing?_eq hr
  refine ⟨⟨?_, r, hmem, hs, ?_, Nat.le_refl _⟩, ?_, hlast, hhighest⟩
  · show max (r.stop - mss) r.start < r.stop
    omega
  · exact Nat.le_max_right _ _
  · show r.stop - max (r.stop - mss) r.start ≤ mss
    omega

end Scoreboard

/-! ## What is asked to be sent -/

namespace Engine

variable {κ : Type} {g g' : Engine κ} {as timing : Actions} {now : Nat}

/-- What a send has to be in `g`, by its kind: data sent again is missing, a tail probe is at most a
segment up to the highest missing byte, and a probe carrying new data is the next segment and fits
the receive window. -/
def Warranted (g : Engine κ) (x : SeqRange) : SendKind → Prop
  | .retransmit => g.board.Wants x
  | .tailProbe => g.board.Wants x ∧ x.length ≤ g.settings.mss ∧ g.board.Missing (x.stop - 1) ∧
      ∀ seq, g.board.Missing seq → seq < x.stop
  | .newDataProbe => x = ⟨g.board.top, g.board.top + g.settings.mss⟩ ∧
      x.stop ≤ g.board.una + g.window

/-- What `as` asks to send is sound in `g`: each send is what it has to be, with its segments
counted, and what is sent again goes in ascending order. -/
structure Warrants (g : Engine κ) (as : Actions) : Prop where
  each : ∀ x n kind, .send x n kind ∈ as →
    g.Warranted x kind ∧ n = min (x.length ⌈/⌉ g.settings.mss) Word.max32
  ascending : as.resends.Pairwise fun x y => x.stop ≤ y.start

theorem segments_eq {length : Nat} (hmss : 0 < mss) :
    segments length mss = min (length ⌈/⌉ mss) Word.max32 := by
  rw [segments, Nat.max_eq_left hmss, Nat.ceilDiv_eq_add_pred_div]

/-- What is sent again within a budget is sound. -/
theorem warrants_of_resending (hmss : 0 < g.settings.mss)
    (h : Resending g.board g.settings.mss budget as) : g.Warrants as := by
  refine ⟨?_, h.ascending⟩
  intro x n kind hmem
  obtain ⟨y, heq, hw⟩ := h.each _ hmem
  injection heq with hx hn hkind
  subst hx hn hkind
  exact ⟨hw, segments_eq hmss⟩

theorem sends_of_timing (ht : ∀ a ∈ timing, a.isTimer = true) : timing.sends = [] := by
  apply List.filterMap_eq_nil_iff.mpr
  intro a ha
  have htimer := ht a ha
  cases a with
  | send => cases htimer
  | arm | cancel => rfl

theorem resends_append_timing (ht : ∀ a ∈ timing, a.isTimer = true) :
    (as ++ timing).resends = as.resends := by
  have hsends : (as ++ timing).sends = as.sends := by
    rw [Actions.sends, List.filterMap_append]
    show as.sends ++ timing.sends = as.sends
    rw [sends_of_timing ht, List.append_nil]
  rw [Actions.resends, hsends, Actions.resends]

/-- What is asked about the timers is no send. -/
theorem Warrants.append_timing (h : g.Warrants as) (ht : ∀ a ∈ timing, a.isTimer = true) :
    g.Warrants (as ++ timing) := by
  refine ⟨?_, ?_⟩
  · intro x n kind hmem
    rcases List.mem_append.mp hmem with hmem | htiming
    · exact h.each x n kind hmem
    · cases ht _ htiming
  · rw [resends_append_timing ht]
    exact h.ascending

theorem Warrants.kept (h : g.Warrants as) (hs : g'.settings = g.settings) (hb : g'.board = g.board)
    (hw : g'.window = g.window) : g'.Warrants as := by
  refine ⟨?_, h.ascending⟩
  intro x n kind hmem
  have heach := h.each x n kind hmem
  cases kind <;> simpa only [Warranted, hs, hb, hw] using heach

/-! ## Probes -/

theorem warrants_nil (g : Engine κ) : g.Warrants [] := by
  constructor <;> simp

/-- A probe carries new data only if the receive window takes it, and else the end of what is
missing. -/
theorem Sound.probeFor_warranted (h : g.Sound) (hmss : 0 < g.settings.mss) {hasData : Bool}
    {x : SeqRange} {kind : SendKind} (hp : g.probeFor hasData = some (x, kind)) :
    g.Warranted x kind ∧ kind ≠ .retransmit := by
  unfold probeFor at hp
  dsimp only at hp
  split at hp
  · next hfits =>
    obtain ⟨rfl, rfl⟩ := Prod.mk.injEq .. ▸ Option.some.inj hp
    have hwindow : g.windowEdge ≤ g.board.una + g.window := Nat.min_le_left _ _
    exact ⟨⟨rfl, Nat.le_trans hfits.2 hwindow⟩, nofun⟩
  · obtain ⟨y, hy, heq⟩ := Option.map_eq_some_iff.mp hp
    obtain ⟨rfl, rfl⟩ := Prod.mk.injEq .. ▸ heq
    exact ⟨h.board.tailProbe_eq hmss hy, nofun⟩

theorem warrants_probe (hmss : 0 < g.settings.mss) {x : SeqRange} {kind : SendKind}
    (hx : g.Warranted x kind) (hkind : kind ≠ .retransmit) :
    (g.startProbe x kind).1.Warrants (g.startProbe x kind).2 ∧
      (g.startProbe x kind).2.resends = [] := by
  have hnone : (g.startProbe x kind).2.resends = [] := by
    cases kind with
    | retransmit => exact absurd rfl hkind
    | tailProbe | newDataProbe => rfl
  refine ⟨Warrants.kept ⟨?_, hnone ▸ List.Pairwise.nil⟩ rfl rfl rfl, hnone⟩
  intro y n k hmem
  injection List.mem_singleton.mp hmem with hy hn hk
  subst hy hn hk
  exact ⟨hx, segments_eq hmss⟩

theorem isTimer_arm (g : Engine κ) (timer : Timer) (duration now : Nat) :
    ∀ a ∈ [(g.arm timer duration now).2], a.isTimer = true := by
  intro a ha
  rw [List.mem_singleton.mp ha]
  rfl

theorem Warrants.arm (h : g.Warrants as) (timer : Timer) (duration now : Nat) :
    (g.arm timer duration now).1.Warrants (as ++ [(g.arm timer duration now).2]) :=
  (h.append_timing (isTimer_arm g timer duration now)).kept rfl rfl rfl

/-- The probe timer asks for at most a probe. -/
theorem Sound.fireProbe_warrants (h : g.Sound) (hmss : 0 < g.settings.mss) (hasData : Bool)
    (now : Nat) : (g.fireProbe hasData now).1.Warrants (g.fireProbe hasData now).2 ∧
      (g.fireProbe hasData now).2.resends = [] := by
  unfold fireProbe
  split
  · exact ⟨warrants_nil g, rfl⟩
  · cases hp : g.probeFor hasData with
    | none => exact ⟨(warrants_nil g).arm _ _ _, rfl⟩
    | some probe =>
      obtain ⟨hx, hkind⟩ := h.probeFor_warranted hmss hp
      obtain ⟨hwarrants, hnone⟩ := warrants_probe hmss hx hkind
      refine ⟨hwarrants.arm _ _ _, ?_⟩
      exact (resends_append_timing (isTimer_arm _ _ _ _)).trans hnone

/-! ## Answers -/

variable [CongestionLaw κ]

theorem repairBudget_footing (h : g'.footing = g.footing) : g'.repairBudget = g.repairBudget := by
  simp only [repairBudget, congestionWindow, threshold, footing_stage h, footing_ledger h,
    footing_pipe h, footing_law h, footing_settings h]

/-- An ack is answered with sound sends within what the stage grants. -/
theorem Sound.processAck_warrants (h : g.Sound) {ack : Ack} (hle : ack.cumulative ≤ g.board.top)
    (hmss : 0 < (g.processAck ack now).1.settings.mss) {actions : Actions}
    (hok : (g.processAck ack now).2 = .ok actions) : (g.processAck ack now).1.Warrants actions ∧
      actions.resentBytes ≤ (g.processAck ack now).1.repairBudget := by
  obtain ⟨timing, hanswer, hfooting, hhanded⟩ := h.processAck_answer hle now
  have hplan := h.concluded_resending hle now
  rw [← repairBudget_footing hfooting, ← footing_board hfooting, ← footing_settings hfooting] at hplan
  injection hok.symm.trans hanswer with heq
  subst heq
  refine ⟨(warrants_of_resending hmss hplan).append_timing hhanded.isTimer, ?_⟩
  unfold Actions.resentBytes
  rw [resends_append_timing hhanded.isTimer]
  exact hplan.total

theorem footing_resendLowest (g : Engine κ) : g.resendLowest.1.footing = g.footing := by
  unfold resendLowest
  split <;> rfl

/-- A timeout is answered with the lowest missing data, within the window, or a segment if that is
more. -/
theorem Sound.fireTimeout_warrants (h : g.Sound) (hlt : g.board.una < g.board.top)
    (hmss : 0 < g.settings.mss) (now : Nat) :
    (g.fireTimeout now).1.Warrants (g.fireTimeout now).2 ∧ (g.fireTimeout now).2.resentBytes ≤
      max (g.fireTimeout now).1.congestionWindow (g.fireTimeout now).1.settings.mss := by
  have hrel := relabelled_collapsed g now
  have hplan := (hrel.sound h).resendLowest_resending
  have hfooting := footing_resendLowest (g.collapsed now)
  rw [← hrel.settings, ← footing_settings hfooting] at hmss
  rw [congestionWindow, ← footing_law hfooting, ← footing_board hfooting,
    ← footing_settings hfooting] at hplan
  have hwarrants := warrants_of_resending hmss hplan
  rw [fireTimeout_eq hlt]
  refine ⟨hwarrants.arm _ _ _, ?_⟩
  dsimp only
  unfold Actions.resentBytes
  rw [resends_append_timing (isTimer_arm _ _ _ _)]
  exact hplan.total

theorem Running.processTimeout_warrants (h : g.Running) (hrest : g.control.AtRest) (timer : Timer)
    (generation : Nat) (hasData : Bool) (now : Nat) :
    let fired := g.processTimeout timer generation hasData now
    fired.1.Warrants fired.2 ∧
      fired.2.resentBytes ≤ max fired.1.congestionWindow fired.1.settings.mss := by
  cases hc : g.schedule.timers.isCurrent timer generation with
  | false =>
    unfold processTimeout
    rw [hc]
    exact ⟨warrants_nil _, Nat.zero_le _⟩
  | true =>
    obtain ⟨hlt, -⟩ := outstanding_of_current h hc hrest
    rw [processTimeout_eq g hc hasData now]
    -- Taking the timer off concerns neither the records nor the settings.
    have hkept : Kept g (g.takeOff timer) := rfl
    have hsound := hkept.sound h.sound
    cases timer with
    | tlp =>
      obtain ⟨hwarrants, hnone⟩ := hsound.fireProbe_warrants hrest.mss_pos hasData now
      refine ⟨hwarrants, ?_⟩
      show Actions.resentBytes ((g.takeOff .tlp).fireProbe hasData now).2 ≤ _
      rw [Actions.resentBytes, hnone]
      exact Nat.zero_le _
    | rto => exact hsound.fireTimeout_warrants hlt hrest.mss_pos now

variable {first : Nat}

/-- What a call that succeeds asks to send is sound in the engine it leaves behind. A report of a
send asks for none. What is sent again stays within what the stage grants after an ack, and within
the window, or a segment if that is more, when a timer fires. -/
theorem Reachable.warrants (h : g.Reachable first) (now : Nat) :
    (∀ x flags actions, flags.IsFresh → (g.onPacketSent x flags now).2 = .ok actions →
      actions.sends = []) ∧
    (∀ ack actions, (g.onAck ack now).2 = .ok actions →
      let acked := (g.onAck ack now).1
      acked.Warrants actions ∧ actions.resentBytes ≤ acked.repairBudget) ∧
    ∀ timer generation hasData actions,
      (g.onTimeout timer generation hasData now).2 = .ok actions →
      let fired := (g.onTimeout timer generation hasData now).1
      fired.Warrants actions ∧
        actions.resentBytes ≤ max fired.congestionWindow fired.settings.mss := by
  refine ⟨?_, ?_, ?_⟩
  · intro x flags actions hf hok
    have hrun := h.running_of (guarded_ok hok).1
    obtain ⟨hx, hs, htaken⟩ := hrun.send_taken hf hok
    obtain ⟨timing, hanswer, -, hhanded⟩ := hrun.sound.processSent_answer hx hs hf now
    rw [htaken] at hanswer
    injection hanswer with heq
    exact sends_of_timing (heq ▸ hhanded.isTimer)
  · intro ack actions hok
    have hrun := h.running_of (guarded_ok hok).1
    obtain ⟨hle, htaken⟩ := hrun.ack_taken hok
    have hrest := atRest_acked hrun hle now (h.atRest (guarded_ok hok).1)
    have hwarrants := hrun.sound.processAck_warrants hle hrest.mss_pos (congrArg Prod.snd htaken)
    rwa [htaken] at hwarrants
  · intro timer generation hasData actions hok
    have ha := (guarded_ok hok).1
    have hwarrants := (h.running_of ha).processTimeout_warrants (h.atRest ha) timer generation
      hasData now
    rwa [fire_taken hok] at hwarrants

/-- The second of two segments is SACKed, the first one is presumed lost: it is asked for again, and
it is missing. -/
theorem warrants_after_sack : ∃ g : Engine FixedWindow, g.Reachable 0 ∧
    ∃ actions, (g.onAck { cumulative := 0, blocks := [⟨1460, 2920⟩] } 40000000).2 = .ok actions ∧
      actions.resends = [⟨0, 1460⟩] ∧ actions.resentBytes ≤ 2920 ∧
      (g.onAck { cumulative := 0, blocks := [⟨1460, 2920⟩] } 40000000).1.board.Wants ⟨0, 1460⟩ := by
  have started : Engine.start {} (FixedWindow.ofSettings {}) .discard 0 0 = .ok _ := rfl
  have sent := (Reachable.start started).step (.send ⟨0, 1460⟩ {} 0 ⟨rfl, rfl⟩)
  have again := sent.step (.send ⟨1460, 2920⟩ {} 20000000 ⟨rfl, rfl⟩)
  obtain ⟨-, hacked, -⟩ := Reachable.warrants again 40000000
  obtain ⟨hwarrants, hbudget⟩ := hacked { cumulative := 0, blocks := [⟨1460, 2920⟩] }
    [.send ⟨0, 1460⟩ 1 .retransmit, .arm .rto 200000000 4] rfl
  exact ⟨_, again, _, rfl, rfl, hbudget,
    (hwarrants.each _ _ _ List.mem_cons_self).1⟩

end Engine

end LossRecovery
