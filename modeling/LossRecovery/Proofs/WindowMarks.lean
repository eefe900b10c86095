import LossRecovery.Proofs.Windows

/-!
# `LossRecovery.Proofs.WindowMarks` — records beyond the receive window

An ack whose window ends below the right edge marks the records that start at or beyond the edge of
the window. The marks are taken back once a window reaches over all data, so that a mark lingers while
windows grow over its record and not over all. And they are set before the blocks of the ack are
applied, so that what a block cuts off behind the edge goes without.

## Contents
- `Scoreboard.Clear`: no missing record is marked.
- `AckPass.Settled p q`: from `p` to `q`, missing bytes keep their marks; `Sound.marked_run`: the marks
  after a pass.
- `Engine.Tidy`: no mark without a collapsed window; `maintained_tidy`, `Running.marked`.
- `Unmarked first g`: calls that report no send as marked lead to `g`.
- `Unmarked.marks_window`: the marks after an ack; `marks_untrue_after_cut_and_growth`.
-/

namespace LossRecovery

/-! ## Marks on a scoreboard -/

theorem SendRecord.IsPart.collapsed {p r : SendRecord} (h : p.IsPart r) :
    p.flags.collapsed = r.flags.collapsed := by rw [h.same]

namespace Scoreboard

variable {b b' : Scoreboard} {r : SendRecord} {x : SeqRange} {now : Nat}

theorem Coherent.holds_start (h : b.Coherent) (hr : r ∈ b.records) : b.Holds r.start r := by
  have := h.tiles.bounds hr
  exact ⟨hr, SendRecord.contains_iff.mpr ⟨Nat.le_refl _, this.2.1⟩⟩

/-- The missing bytes keep their marks. -/
abbrev KeepsMarks (b b' : Scoreboard) : Prop := b.Inherits (·.flags.collapsed) b'

theorem keepsMarks_of_outlines (h : b'.outlines = b.outlines) : b.KeepsMarks b' := by
  intro seq p hp hm
  have hmem : p.outline ∈ b.outlines := by
    rw [← h]
    exact List.mem_map_of_mem hp.1
  obtain ⟨r, hr, hsame⟩ := List.mem_map.mp hmem
  injection hsame with hstart hstop hsacked hdupacks hcollapsed
  refine ⟨r, ⟨hr, ?_⟩, hsacked.trans hm, hcollapsed.symm⟩
  rw [SendRecord.contains_iff, hstart, hstop]
  exact SendRecord.contains_iff.mp hp.2

theorem Resent.keepsMarks (h : b.Resent x now b') (hb : b.Coherent) : b.KeepsMarks b' := by
  rcases h with ⟨-, rfl⟩ | ⟨hx, flags, afterTimeout, rfl⟩
  · exact .refl _ _
  · intro seq p hp hm
    obtain ⟨r, hr, ⟨hrm, -, hpart, rfl⟩ | ⟨-, hpart⟩⟩ := hb.of_resendOnBoard hx
      (f := Engine.resentRecord flags afterTimeout now) (fun _ => rfl) (fun _ => rfl) hp
    · exact ⟨r, hr, hrm, hpart.collapsed⟩
    · exact ⟨r, hr, hpart.sacked.symm.trans hm, hpart.collapsed⟩

/-- No missing record is marked. -/
def Clear (b : Scoreboard) : Prop :=
  ∀ r ∈ b.records, r.flags.sacked = false → r.flags.collapsed = false

instance (b : Scoreboard) : Decidable b.Clear :=
  inferInstanceAs (Decidable (∀ r ∈ b.records, r.flags.sacked = false → r.flags.collapsed = false))

theorem Clear.inherit (h : b.Clear) (hk : b.KeepsMarks b') (hb' : b'.Coherent) : b'.Clear := by
  intro p hp hm
  obtain ⟨r, hr, hrm, hsame⟩ := hk _ p (hb'.holds_start hp) hm
  exact hsame.trans (h r hr.1 hrm)

/-- A record that grows has the flags of the send. -/
theorem Clear.append (h : b.Clear) {flags : Flags} {mark : Nat} (hc : flags.collapsed = false)
    (hx : x.start < x.stop) (hs : x.start = b.top) (ha : b.append x flags now mark = .ok b')
    (hb' : b'.Coherent) : b'.Clear := by
  intro p hp hm
  rcases Coherent.of_append hx hs ha (hb'.holds_start hp) with
    ⟨r, hr, rfl⟩ | ⟨last, -, hcont, rfl, -⟩ | ⟨-, rfl⟩
  · exact h p hr.1 hm
  · have hflags : last.flags = flags := (continuesBurst_iff.mp hcont).2.2.1
    show last.flags.collapsed = false
    rw [hflags]
    exact hc
  · exact hc

end Scoreboard

/-! ## A pass over an ack -/

namespace AckPass

variable {i : AckInput} {p q r : AckPass} {x : SeqRange} {seq : Nat}

/-- From `p` to `q`, the missing bytes keep their marks, and whether the window is collapsed stays
as it is. -/
structure Settled (p q : AckPass) : Prop where
  board : p.board.KeepsMarks q.board
  collapsed : q.tracker.collapsed = p.tracker.collapsed

namespace Settled

theorem refl (p : AckPass) : Settled p p := ⟨.refl _ _, rfl⟩

theorem trans (h : Settled p q) (h' : Settled q r) : Settled p r :=
  ⟨h.board.trans h'.board, h'.collapsed.trans h.collapsed⟩

theorem of_outlines (hb : q.board.outlines = p.board.outlines)
    (hc : q.tracker.collapsed = p.tracker.collapsed) : Settled p q :=
  ⟨Scoreboard.keepsMarks_of_outlines hb, hc⟩

end Settled

theorem collapsed_applyBlock (i : AckInput) (p : AckPass) (x : SeqRange) :
    (p.applyBlock i x).tracker.collapsed = p.tracker.collapsed := by
  rcases applyBlock_cases i p x with ⟨-, he⟩ | ⟨-, -, he⟩ | ⟨-, he⟩ | ⟨-, -, -, he⟩
  · rw [he]; rfl
  · rw [he]
  · rw [he]; rfl
  · rw [he]
    exact foldl_keep (fun p : AckPass => p.tracker.collapsed) _ _ fun _ _ => rfl

theorem Sound.settled_foldBlocks (h : p.Sound) (i : AckInput) (blocks : List SeqRange) :
    Settled p (blocks.foldl (AckPass.applyBlock i) p) :=
  ⟨h.inherits_foldBlocks SendRecord.IsPart.collapsed i blocks,
    foldl_keep (fun p : AckPass => p.tracker.collapsed) _ _ (collapsed_applyBlock i)⟩

theorem settled_countPassed : Settled p p.countPassed := by
  refine ⟨Scoreboard.inherits_modify (fun r => ?_) (fun r => ?_) (fun r => ?_), rfl⟩ <;> split
  · exact ⟨rfl, rfl⟩
  · exact ⟨rfl, rfl⟩
  all_goals rfl

theorem settled_countRepeated (h : p.board.Coherent) : Settled p p.countRepeated := by
  cases hrec : p.board.records with
  | nil =>
    unfold countRepeated
    rw [hrec]
    exact .refl p
  | cons head rest =>
    cases hc : countable head with
    | true =>
      refine ⟨?_, ?_⟩
      · rw [countRepeated_board h hrec hc]
        refine Scoreboard.inherits_modify (fun r => ?_) (fun r => ?_) (fun r => ?_) <;> split
        · exact ⟨rfl, rfl⟩
        · exact ⟨rfl, rfl⟩
        all_goals rfl
      · simp [countRepeated, hrec, hc, tell]
    | false =>
      simp only [countRepeated, hrec, hc, Bool.false_eq_true, if_false]
      exact .refl p

theorem settled_countAgainst (h : p.board.Coherent) : Settled p p.countAgainst := by
  unfold countAgainst
  split
  · exact settled_countPassed
  · split
    · exact settled_countRepeated h
    · exact .refl p

theorem settled_applyDuplicate : Settled p (p.applyDuplicate i x) := by
  unfold applyDuplicate
  split
  · exact .of_outlines rfl rfl
  · refine .of_outlines (Scoreboard.outlines_modify fun r => ?_) rfl
    split <;> rfl

/-- Whatever follows the look at the window leaves its marks on the missing bytes. -/
theorem Sound.settled_run (h : (p.beforeBlocks i).Sound) : Settled (p.beforeBlocks i) (p.run i) := by
  have hcounted : Settled (p.beforeBlocks i) ((p.beforeBlocks i).applyBlocks i).countAgainst :=
    (h.settled_foldBlocks i _).trans (settled_countAgainst (h.foldBlocks i _).1.board)
  rw [run_eq]
  cases i.ack.duplicate with
  | none => exact hcounted
  | some x => exact hcounted.trans settled_applyDuplicate

/-- A byte above the new left edge stays in its record, which loses what lies below. -/
theorem Sound.holds_atEdge (h : p.Sound) {r : SendRecord} (hr : (p.atEdge i).board.Holds seq r) :
    ∃ s, p.board.Holds seq s ∧ r = s.above (max p.board.una i.ack.cumulative) := by
  unfold AckPass.atEdge at hr
  split at hr
  · next hlo =>
    rw [advance_board] at hr
    obtain ⟨s, hs, rfl, -⟩ := h.board.of_release hr
    exact ⟨s, hs, by rw [Nat.max_eq_right (Nat.le_of_lt hlo)]⟩
  · next hlo =>
    refine ⟨r, hr, (SendRecord.above_eq_self ?_).symm⟩
    rw [Nat.max_eq_left (Nat.le_of_not_lt hlo)]
    exact (h.board.tiles.bounds hr.1).1

theorem checkWindow_collapsed : (p.checkWindow i).tracker.collapsed
    = decide (Word.add p.board.una i.ack.window < p.board.top) := by
  unfold checkWindow
  by_cases hlt : Word.add p.board.una i.ack.window < p.board.top
  · simp only [hlt, if_true, decide_true]
    rfl
  · cases hc : p.tracker.collapsed <;> simp [hlt, hc]

/-- A look at the window marks what starts at or beyond its edge and leaves the other marks, or takes
all marks back. -/
theorem holds_checkWindow (hclear : p.tracker.collapsed = false → p.board.Clear) {r : SendRecord}
    (hr : (p.checkWindow i).board.Holds seq r) (hm : r.flags.sacked = false) :
    ∃ s, p.board.Holds seq s ∧ s.flags.sacked = false ∧ (r.flags.collapsed = true ↔
      Word.add p.board.una i.ack.window < p.board.top ∧
        (s.flags.collapsed = true ∨ Word.add p.board.una i.ack.window ≤ s.start)) := by
  unfold checkWindow at hr
  by_cases hlt : Word.add p.board.una i.ack.window < p.board.top
  · simp only [hlt, if_true] at hr
    obtain ⟨s, hs, rfl⟩ := Scoreboard.Coherent.of_modify (fun s => by split <;> exact ⟨rfl, rfl⟩) hr
    refine ⟨s, hs, ?_, ?_⟩
    · split at hm <;> exact hm
    · by_cases hedge : Word.add p.board.una i.ack.window ≤ s.start
      · simp [hlt, hedge]
      · simp [hlt, hedge]
  · simp only [hlt, if_false] at hr
    cases hc : p.tracker.collapsed with
    | true =>
      simp only [hc, if_true] at hr
      obtain ⟨s, hs, rfl⟩ := Scoreboard.Coherent.of_modify
        (f := fun s => { s with flags := { s.flags with collapsed := false } })
        (fun _ => ⟨rfl, rfl⟩) hr
      exact ⟨s, hs, hm, by simp [hlt]⟩
    | false =>
      simp only [hc, Bool.false_eq_true, if_false] at hr
      exact ⟨r, hr, hm, by simp [hlt, hclear hc r hr.1 hm]⟩

/-- The marks after a pass. -/
theorem Sound.marked_run (h : p.Sound) (hle : i.ack.cumulative ≤ p.board.top)
    (hclear : p.tracker.collapsed = false → p.board.Clear) {una edge : Nat}
    (huna : una = max p.board.una i.ack.cumulative) (hedge : edge = Word.add una i.ack.window) :
    (p.run i).tracker.collapsed = decide (edge < p.board.top) ∧
    ∀ seq r, (p.run i).board.Holds seq r → r.flags.sacked = false →
      ∃ s, p.board.Holds seq s ∧ s.flags.sacked = false ∧ (r.flags.collapsed = true ↔
        edge < p.board.top ∧ (s.flags.collapsed = true ∨ edge ≤ max s.start una)) := by
  obtain ⟨hsound, hedged⟩ := h.atEdge hle
  -- What is looked at is the pass at the new left edge.
  have hnoted : ((p.atEdge i).noteDuplicateAck i).Sound := quiet_noteDuplicateAck.sound hsound
  have hsettled := Sound.settled_run (quiet_checkWindow.sound hnoted)
  have hstart : Word.add ((p.atEdge i).noteDuplicateAck i).board.una i.ack.window = edge := by
    rw [hedge, huna, ← hedged.una]
    rfl
  have htop : ((p.atEdge i).noteDuplicateAck i).board.top = p.board.top := hedged.top
  have hclear' : ((p.atEdge i).noteDuplicateAck i).tracker.collapsed = false →
      ((p.atEdge i).noteDuplicateAck i).board.Clear := by
    intro hc
    have hsame : (p.atEdge i).tracker.collapsed = p.tracker.collapsed := by
      unfold AckPass.atEdge
      split
      · rw [advance_tracker]
      · rfl
    refine Scoreboard.Clear.inherit (hclear (hsame.symm.trans hc)) ?_ hnoted.board
    intro seq r hr hm
    obtain ⟨s, hs, rfl⟩ := h.holds_atEdge hr
    exact ⟨s, hs, hm, rfl⟩
  refine ⟨?_, ?_⟩
  · rw [hsettled.collapsed, show (p.beforeBlocks i).tracker.collapsed = _ from checkWindow_collapsed,
      hstart, htop]
  · intro seq r hr hm
    obtain ⟨q, hq, hqm, hsame⟩ := hsettled.board seq r hr hm
    change r.flags.collapsed = q.flags.collapsed at hsame
    obtain ⟨t, ht, htm, hiff⟩ := holds_checkWindow hclear' hq hqm
    obtain ⟨s, hs, rfl⟩ := h.holds_atEdge ht
    rw [hstart, htop] at hiff
    refine ⟨s, hs, htm, ?_⟩
    rw [hsame, huna]
    exact hiff

end AckPass

namespace Engine

variable {κ : Type} {g g' : Engine κ} {now first : Nat}

/-! ## What calls keep -/

/-- Without a collapsed window, no missing record is marked. -/
def Tidy (g : Engine κ) : Prop := g.tracker.collapsed = false → g.board.Clear

theorem Relabelled.tidy (h : Relabelled g g') (hg : g.Sound) (ht : g.Tidy) : g'.Tidy := by
  intro hc
  rw [h.tracker] at hc
  exact (ht hc).inherit (Scoreboard.keepsMarks_of_outlines h.outlines) (h.sound hg).board

theorem appendNew_board {x : SeqRange} {flags : Flags}
    (hok : (g.appendNew x flags now).2 = .ok ()) :
    ∃ mark, g.board.append x flags now mark = .ok (g.appendNew x flags now).1.board := by
  refine ⟨if flags.appLimited then x.stop else 0, ?_⟩
  unfold appendNew at hok ⊢
  cases hres : g.board.append x flags now (if flags.appLimited then x.stop else 0) with
  | error e =>
    rw [hres] at hok
    cases hok
  | ok b =>
    dsimp only
    split <;> rfl

/-- A send without the mark marks nothing. -/
theorem Sound.clear_processSent (h : g.Sound) {x : SeqRange} {flags : Flags} (hx : x.start < x.stop)
    (hs : x.start ≤ g.board.top) (hf : flags.IsFresh) (hc : flags.collapsed = false) (now : Nat)
    (hclear : g.board.Clear) : (g.processSent x flags now).1.board.Clear := by
  obtain ⟨hresent, hsound, -⟩ := h.resendBelow hx hs flags now
  have hbelow := hclear.inherit (hresent.keepsMarks h.board) hsound.board
  by_cases hstop : x.stop ≤ g.board.top
  · rw [processSent_of_le hx hstop]
    dsimp only
    rw [(kept_accountSent _ _ now).board]
    exact hbelow
  · have hnew : (⟨g.board.top, x.stop⟩ : SeqRange).start = (g.resendBelow x flags now).1.board.top :=
      hresent.edges.2.symm
    obtain ⟨hok, -, hsound', -⟩ := hsound.appendNew (x := ⟨g.board.top, x.stop⟩)
      (Nat.lt_of_not_le hstop) hnew hf now
    obtain ⟨mark, happend⟩ := appendNew_board hok
    rw [processSent_of_lt hx hs (Nat.lt_of_not_le hstop) hok]
    dsimp only
    rw [(kept_accountSent _ _ now).board]
    exact hbelow.append hc (Nat.lt_of_not_le hstop) hnew happend hsound'.board

variable [CongestionLaw κ]

theorem maintained_tidy :
    MaintainedUnder (fun flags => flags.IsFresh ∧ flags.collapsed = false) (Tidy (κ := κ)) where
  noted {g g'} hn h := by
    intro hc
    rw [show g'.tracker = g.tracker from congrArg Conduct.tracker hn] at hc
    rw [show g'.board = g.board from congrArg Conduct.board hn]
    exact h hc
  sent {g x flags} now hrun hx hs hf h := by
    intro hc
    obtain ⟨sent, hterms⟩ := terms_processSent g x flags now
    have htracker : (g.processSent x flags now).1.tracker = g.tracker :=
      congrArg Terms.tracker hterms
    rw [htracker] at hc
    exact hrun.sound.clear_processSent hx hs hf.1 hf.2 now (h hc)
  fired {g timer generation} hasData now hrun hc h :=
    (relabelled_processTimeout g timer generation hasData now).tidy hrun.sound h

/-- The right edge of the window that an ack offers, counted from where the ack leaves the left
edge. -/
def edgeOffered (g : Engine κ) (a : Ack) : Nat := Word.add (max g.board.una a.cumulative) a.window

/-- The marks after an ack that is taken in. -/
theorem Running.marked (h : g.Running) (htidy : g.Tidy) {a : Ack} {actions : Actions}
    (hok : (g.onAck a now).2 = .ok actions) :
    (g.onAck a now).1.tracker.collapsed = decide (g.edgeOffered a < g.board.top) ∧
    ∀ seq r, (g.onAck a now).1.board.Holds seq r → r.flags.sacked = false →
      ∃ s, g.board.Holds seq s ∧ s.flags.sacked = false ∧ (r.flags.collapsed = true ↔
        g.edgeOffered a < g.board.top ∧
          (s.flags.collapsed = true ∨ g.edgeOffered a ≤ max s.start (max g.board.una a.cumulative))) := by
  obtain ⟨hle, -⟩ := h.ack_taken hok
  obtain ⟨hrelabelled, -⟩ := h.onAck hle now
  obtain ⟨hcollapsed, hmarks⟩ := h.sound.passState.marked_run (i := g.ackInput a now) hle htidy rfl rfl
  refine ⟨?_, ?_⟩
  · rw [hrelabelled.tracker]
    exact hcollapsed
  · intro seq r hr hm
    obtain ⟨q, hq, hqm, hsame⟩ := Scoreboard.keepsMarks_of_outlines hrelabelled.outlines seq r hr hm
    change r.flags.collapsed = q.flags.collapsed at hsame
    obtain ⟨s, hs, hsm, hiff⟩ := hmarks seq q hq hqm
    refine ⟨s, hs, hsm, ?_⟩
    rw [hsame]
    exact hiff

/-- Once a window reaches over all data, all marks are taken back. -/
theorem Running.tidy_ack (h : g.Running) (htidy : g.Tidy) (a : Ack) (now : Nat) :
    (g.onAck a now).1.Tidy := by
  rcases h.ack_ends a now with ⟨-, -, hcounted⟩ | ⟨-, actions, hok⟩
  · rw [hcounted]
    exact htidy
  · obtain ⟨hcollapsed, hmarks⟩ := h.marked htidy hok
    obtain ⟨hrun, -, -⟩ := h.heard hok
    intro hc r hr hm
    obtain ⟨s, -, -, hiff⟩ := hmarks _ r (hrun.sound.board.holds_start hr) hm
    rw [hcollapsed, decide_eq_false_iff_not] at hc
    rw [← Bool.not_eq_true, hiff]
    exact fun hmark => hc hmark.1

/-! ## Runs -/

/-- Calls that report no send as marked lead from a fresh engine to `g`. -/
inductive Unmarked (first : Nat) : Engine κ → Prop
  | start {settings : Settings} {law : κ} {sink : Sink} {now : Nat} {g : Engine κ}
      (started : start settings law sink first now = .ok g) : Unmarked first g
  | send {g : Engine κ} (before : Unmarked first g) (range : SeqRange) (flags : Flags) (now : Nat)
      (fresh : flags.IsFresh) (unmarked : flags.collapsed = false) :
      Unmarked first (g.onPacketSent range flags now).1
  | ack {g : Engine κ} (before : Unmarked first g) (a : Ack) (now : Nat) :
      Unmarked first (g.onAck a now).1
  | fire {g : Engine κ} (before : Unmarked first g) (timer : Timer) (generation : Nat)
      (hasData : Bool) (now : Nat) : Unmarked first (g.onTimeout timer generation hasData now).1
  | dispatch {g : Engine κ} (before : Unmarked first g) {σ : Type} (host : Host σ) (w : σ)
      (actions : Actions) (now : Nat) : Unmarked first (g.dispatch host w actions now).1.1
  | nextSendTime {g : Engine κ} (before : Unmarked first g) (bytes now : Nat) :
      Unmarked first (g.nextSendTime bytes now).1
  | setFixedRate {g : Engine κ} (before : Unmarked first g) (rate : Option Nat) :
      Unmarked first (g.setFixedRate rate)
  | setHardware {g : Engine κ} (before : Unmarked first g) (table : RateTable) :
      Unmarked first (g.setHardware table)
  | setTrace {g : Engine κ} (before : Unmarked first g) (trace : String) :
      Unmarked first (g.setTrace trace)

variable {a : Ack} {actions : Actions}

theorem Unmarked.reachable (h : Unmarked first g) : g.Reachable first := by
  induction h with
  | start started => exact .start started
  | send _ range flags now fresh _ ih => exact ih.step (.send range flags now fresh)
  | ack _ a now ih => exact ih.step (.ack a now)
  | fire _ timer generation hasData now ih => exact ih.step (.fire timer generation hasData now)
  | dispatch _ host w actions now ih => exact ih.step (.dispatch host w actions now)
  | nextSendTime _ bytes now ih => exact ih.step (.nextSendTime bytes now)
  | setFixedRate _ rate ih => exact ih.step (.setFixedRate rate)
  | setHardware _ table ih => exact ih.step (.setHardware table)
  | setTrace _ trace ih => exact ih.step (.setTrace trace)

theorem Unmarked.tidy (h : Unmarked first g) (ha : g.isAborted = false) : g.Tidy := by
  have hsustains : ∀ {g g' : Engine κ}, Unmarked first g → Step g g' → g'.isAborted = false →
      (g.isAborted = false → g.Tidy) → Sustains Tidy g := by
    intro g g' before call ha ih
    have hbefore := call.isAborted_eq_false ha
    exact ⟨before.reachable.running_of hbefore, ih hbefore⟩
  induction h with
  | start started =>
    intro _ r hr
    rw [(start_board started).1] at hr
    exact absurd hr List.not_mem_nil
  | send before range flags now fresh unmarked ih =>
    have hg := hsustains before (.send range flags now fresh) ha ih
    exact (hg.send maintained_tidy.sends fresh ⟨fresh, unmarked⟩ ha).2
  | ack before a now ih =>
    have hg := hsustains before (.ack a now) ha ih
    exact hg.1.tidy_ack hg.2 a now
  | fire before timer generation hasData now ih =>
    have hg := hsustains before (.fire timer generation hasData now) ha ih
    exact (hg.fire maintained_tidy timer generation hasData now).2
  | dispatch before host w actions now ih =>
    have hg := hsustains before (.dispatch host w actions now) ha ih
    have hunmarked : ∀ kind : SendKind, kind.flags.IsFresh ∧ kind.flags.collapsed = false := by
      intro kind
      exact ⟨isFresh_flags kind, by cases kind <;> rfl⟩
    exact (hg.dispatch host now maintained_tidy.sends hunmarked w actions ha).2
  | nextSendTime _ bytes now ih => exact ih ha
  | setFixedRate _ rate ih => exact ih ha
  | setHardware _ table ih => exact ih ha
  | setTrace _ trace ih => exact ih ha

/-! ## The marks after an ack -/

/-- Whether what an ack leaves missing of a record is marked: the window ends below the right edge, and
the record was marked before or starts, as far as it is outstanding, at or beyond the edge of the
window. -/
def OutOfReach (g : Engine κ) (s : SendRecord) : Prop :=
  g.windowEdge < g.board.top ∧
    (s.flags.collapsed = true ∨ g.windowEdge ≤ max s.start g.board.una)

/-- The window has grown over `r`, but not over all data, since it was marked as a part of `s`. -/
def Lingers (g : Engine κ) (s r : SendRecord) : Prop :=
  s.flags.collapsed = true ∧ r.start < g.windowEdge ∧ g.windowEdge < g.board.top

/-- The edge of the window lies inside `s`, and `r` was cut off it beyond that edge. -/
def CutOff (g : Engine κ) (s r : SendRecord) : Prop :=
  s.flags.collapsed = false ∧ max s.start g.board.una < g.windowEdge ∧ g.windowEdge ≤ r.start

/-- After an ack, a missing record is marked by what it was a part of before. Its mark says whether it
starts at or beyond the edge of the window, unless the mark lingers or the record was cut off, and
then it does not. -/
theorem Unmarked.marks_window (h : Unmarked first g) (hok : (g.onAck a now).2 = .ok actions) :
    (g.onAck a now).1.windowEdge = Word.add (g.onAck a now).1.board.una a.window ∧
    ∀ r ∈ (g.onAck a now).1.board.records, r.flags.sacked = false →
      ∃ s, g.board.Holds r.start s ∧ s.flags.sacked = false ∧
        (r.flags.collapsed = true ↔ (g.onAck a now).1.OutOfReach s) ∧
        ((r.flags.collapsed = true ↔ (g.onAck a now).1.windowEdge ≤ r.start) ↔
          ¬ ((g.onAck a now).1.Lingers s r ∨ (g.onAck a now).1.CutOff s r)) := by
  have ha : g.isAborted = false := (guarded_ok hok).1
  have hrunning := h.reachable.running_of ha
  obtain ⟨hrun, huna, hwindow⟩ := hrunning.heard hok
  obtain ⟨-, hmarks⟩ := hrunning.marked (h.tidy ha) hok
  have hedge : (g.onAck a now).1.windowEdge = Word.add (g.onAck a now).1.board.una a.window := by
    unfold windowEdge
    rw [hwindow]
  have htop : (g.onAck a now).1.board.top = g.board.top := by
    obtain ⟨hle, -⟩ := hrunning.ack_taken hok
    exact (hrunning.onAck hle now).1.edges.2.trans (hrunning.sound.acked_top hle now)
  refine ⟨hedge, ?_⟩
  intro r hr hm
  obtain ⟨s, hs, hsm, hiff⟩ := hmarks _ r (hrun.sound.board.holds_start hr) hm
  rw [← htop, edgeOffered, ← huna, ← hedge] at hiff
  refine ⟨s, hs, hsm, hiff, ?_⟩
  -- What is left is how the edge lies to the starts of both records.
  have hstart := (SendRecord.contains_iff.mp hs.2).1
  have hbounds := hrun.sound.board.tiles.bounds hr
  rw [hiff]
  unfold Lingers CutOff
  cases s.flags.collapsed with
  | true =>
    simp only [true_or, and_true, true_and, Bool.true_eq_false, false_and, or_false]
    omega
  | false =>
    simp only [Bool.false_eq_true, false_or, false_and, true_and]
    omega

/-- A window that ends where a record does: the records beyond it are marked, and no others. -/
theorem marks_window_at_record_end : ∃ g : Engine FixedWindow,
    (Unmarked 0 g ∧
      ∃ actions, (g.onAck { cumulative := 1000, window := 2000 } 50000000).2 = .ok actions) ∧
    ∀ r ∈ (g.onAck { cumulative := 1000, window := 2000 } 50000000).1.board.records,
      r.flags.sacked = false → (r.flags.collapsed = true ↔ 3000 ≤ r.start) := by
  have started : Engine.start {} (FixedWindow.ofSettings {}) .discard 0 0 = .ok _ := rfl
  have sent := ((Unmarked.start started).send ⟨0, 3000⟩ {} 0 ⟨rfl, rfl⟩ rfl).send ⟨3000, 4000⟩ {} 1
    ⟨rfl, rfl⟩ rfl
  refine ⟨_, ⟨sent, _, rfl⟩, ?_⟩
  intro r hr hm
  obtain ⟨hedge, hmarks⟩ := Unmarked.marks_window sent
    (rfl : (Engine.onAck _ { cumulative := 1000, window := 2000 } 50000000).2 = .ok _)
  obtain ⟨s, hs, -, -, htrue⟩ := hmarks r hr hm
  have hends := hedge.trans (by decide +kernel : _ = 3000)
  rw [hends] at htrue
  refine htrue.mpr ?_
  -- Nothing was marked before, and no record reaches over the edge.
  have hbefore := (by decide +kernel :
    ∀ s ∈ _, s.flags.collapsed = false ∧ (s.stop ≤ 3000 ∨ 3000 ≤ s.start)) s hs.1
  have hcontains := SendRecord.contains_iff.mp hs.2
  rintro (⟨hmarked, -, -⟩ | ⟨-, hlo, hhi⟩)
  · rw [hbefore.1] at hmarked
    cases hmarked
  · rw [hends] at hlo hhi
    omega

/-- A block cuts a record off beyond the edge of the window, and goes without a mark; then the window
grows over a marked record, which keeps its mark. -/
theorem marks_untrue_after_cut_and_growth : ∃ g : Engine FixedWindow, Unmarked 0 g ∧
    let cut := g.onAck { cumulative := 0, window := 1000, blocks := [⟨1500, 2000⟩] } 50000000
    let grown := cut.1.onAck { cumulative := 0, window := 3500 } 60000000
    ((∃ actions, cut.2 = .ok actions) ∧
      ∃ r ∈ cut.1.board.records, r.flags.sacked = false ∧ r.flags.collapsed = false ∧
        cut.1.board.una + 1000 ≤ r.start) ∧
    ((∃ actions, grown.2 = .ok actions) ∧
      ∃ r ∈ grown.1.board.records, r.flags.sacked = false ∧ r.flags.collapsed = true ∧
        r.start < grown.1.board.una + 3500) := by
  have started : Engine.start {} (FixedWindow.ofSettings {}) .discard 0 0 = .ok _ := rfl
  have sent := ((Unmarked.start started).send ⟨0, 3000⟩ {} 0 ⟨rfl, rfl⟩ rfl).send ⟨3000, 4000⟩ {} 1
    ⟨rfl, rfl⟩ rfl
  refine ⟨_, sent, ⟨⟨_, rfl⟩, ?_⟩, ⟨⟨_, rfl⟩, ?_⟩⟩
  · decide +kernel
  · decide +kernel

end Engine

end LossRecovery
