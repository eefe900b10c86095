import Mathlib.Data.List.Nodup
import LossRecovery.Scoreboard.Linked

/-!
# `LossRecovery.Proofs.Links` — a sending order that runs both ways

In a linked board the sending order is not a list: each record names the one before and the one
after it, and the board names both ends. This module relates these names to a list of numbers.
Taking a record out and putting one in change the names of two neighbours, or an end, and no others.

## Contents
- `LinkedBoard.links?`, `record?_changeCell`: what a record names, and what changing a record
  changes.
- `LinkedBoard.Touches number f b b'`: one record was changed, and nothing that files the records.
- `Chained links before numbers after`: numbers that name each other in turn; `chained_append`,
  `Chained.newAfter`, `Chained.newBefore`.
- `LinkedBoard.Threaded b numbers`: the sending order of a board; `Threaded.unlink_middle`,
  `Threaded.linkBetween`.
- `LinkedBoard.Parted`: the sending order below and above a place, where a number is taken out or put
  in.
- `LinkedBoard.InOrder b numbers`: the sending order holds the linked records; `InOrder.unlink`,
  `InOrder.relink`, `InOrder.linkAfter`.
- `Threaded.ordered_eq`, `walkEnd_eq`: following the links visits the numbers in turn.
-/

namespace LossRecovery

namespace LinkedBoard

variable {b b' b'' : LinkedBoard} {n m : Nat} {f g : SendRecord → SendRecord}

/-! ## What changes about a board when a record is changed -/

/-- The numbers before and after a record in the sending order, as it names them. -/
def links? (b : LinkedBoard) (number : Nat) : Option (Option Nat × Option Nat) :=
  (b.cell? number).map fun c => (c.older, c.newer)

theorem cell?_changeCell (b : LinkedBoard) (n : Nat) (f : Linked → Linked) (m : Nat) :
    (b.changeCell n f).cell? m = if m = n then (b.cell? m).map f else b.cell? m := by
  unfold cell? changeCell
  induction b.cells with
  | nil => simp
  | cons c rest ih =>
    have hkey : (if c.1 = n then (c.1, f c.2) else c).1 = c.1 := by split <;> rfl
    rw [List.map_cons, List.lookup_cons, List.lookup_cons, hkey]
    cases hm : m == c.1 with
    | true =>
      rw [eq_of_beq hm]
      by_cases hc : c.1 = n <;> simp [hc]
    | false => exact ih

theorem numbers_changeCell (b : LinkedBoard) (n : Nat) (f : Linked → Linked) :
    (b.changeCell n f).cells.map (·.1) = b.cells.map (·.1) := by
  unfold changeCell
  rw [List.map_map]
  refine List.map_congr_left fun c _ => ?_
  by_cases hc : c.1 = n <;> simp [hc]

theorem record?_changeCell {h : Linked → Linked} (hf : ∀ c, (h c).record = f c.record) :
    (b.changeCell n h).record? m = if m = n then (b.record? m).map f else b.record? m := by
  unfold record?
  rw [cell?_changeCell]
  split
  · cases b.cell? m with
    | none => rfl
    | some c => simp [hf]
  · rfl

/-- From `b` to `b'`, the record with the number `n` was changed by `f`, and maybe some links. -/
structure Touches (n : Nat) (f : SendRecord → SendRecord) (b b' : LinkedBoard) : Prop where
  records : ∀ m, b'.record? m = if m = n then (b.record? m).map f else b.record? m
  numbers : b'.cells.map (·.1) = b.cells.map (·.1)
  index : b'.index = b.index
  vacant : b'.vacant = b.vacant
  una : b'.una = b.una
  top : b'.top = b.top
  limit : b'.limit = b.limit

namespace Touches

theorem trans (h : Touches n f b b') (h' : Touches n g b' b'') : Touches n (g ∘ f) b b'' := by
  refine ⟨fun m => ?_, h'.numbers.trans h.numbers, h'.index.trans h.index, h'.vacant.trans h.vacant,
    h'.una.trans h.una, h'.top.trans h.top, h'.limit.trans h.limit⟩
  rw [h'.records, h.records]
  by_cases hm : m = n <;> simp [hm]

theorem changeCell {h : Linked → Linked} (hf : ∀ c, (h c).record = f c.record) :
    Touches n f b (b.changeCell n h) :=
  ⟨fun _ => record?_changeCell hf, numbers_changeCell b n h, rfl, rfl, rfl, rfl, rfl⟩

/-- Links alone are changed without changing records. -/
theorem of_links {h : Linked → Linked} (hc : ∀ c, (h c).record = c.record) (m : Nat) :
    Touches n id b (b.changeCell m h) := by
  have hm := changeCell (b := b) (n := m) (f := id) (h := h) hc
  refine ⟨fun k => ?_, hm.numbers, rfl, rfl, rfl, rfl, rfl⟩
  rw [hm.records]
  simp

theorem refl : Touches n id b b := ⟨fun m => by simp, rfl, rfl, rfl, rfl, rfl, rfl⟩

theorem setOlder (m? older : Option Nat) : Touches n id b (b.setOlder m? older) := by
  cases m? with
  | none => exact ⟨refl.records, rfl, rfl, rfl, rfl, rfl, rfl⟩
  | some m => exact of_links (h := fun c => { c with older := older }) (fun _ => rfl) m

theorem setNewer (m? newer : Option Nat) : Touches n id b (b.setNewer m? newer) := by
  cases m? with
  | none => exact ⟨refl.records, rfl, rfl, rfl, rfl, rfl, rfl⟩
  | some m => exact of_links (h := fun c => { c with newer := newer }) (fun _ => rfl) m

theorem counted (h : Touches n f b b') (count : Nat) : Touches n f b { b' with count := count } :=
  ⟨h.records, h.numbers, h.index, h.vacant, h.una, h.top, h.limit⟩

end Touches

theorem touches_change (b : LinkedBoard) (n : Nat) (f : SendRecord → SendRecord) :
    Touches n f b (b.change n f) := .changeCell fun _ => rfl

theorem touches_linkBetween (b : LinkedBoard) (n : Nat) (older newer : Option Nat) :
    Touches n (fun r => { r with linked := true }) b (b.linkBetween n older newer) := by
  have hfirst : Touches n (fun r => { r with linked := true }) b
      (b.changeCell n fun c => ⟨{ c.record with linked := true }, newer, older⟩) :=
    .changeCell fun _ => rfl
  exact ((hfirst.trans (.setOlder newer (some n))).trans (.setNewer older (some n))).counted _

/-- Taking a record out of the sending order changes the record unless it was not linked. -/
theorem touches_unlink (b : LinkedBoard) (n : Nat) :
    Touches n (fun r => { r with linked := false }) b (b.unlink n) := by
  unfold unlink
  cases hc : b.cell? n with
  | none =>
    refine ⟨fun m => ?_, rfl, rfl, rfl, rfl, rfl, rfl⟩
    by_cases hm : m = n
    · simp [hm, record?, hc]
    · simp [hm]
  | some c =>
    cases hl : c.record.linked with
    | false =>
      simp only [hl, Bool.not_false, if_true]
      have hsame : ({ c.record with linked := false } : SendRecord) = c.record := by rw [← hl]
      refine ⟨fun m => ?_, rfl, rfl, rfl, rfl, rfl, rfl⟩
      by_cases hm : m = n
      · simp [hm, record?, hc, hsame]
      · simp [hm]
    | true =>
      have hfirst : Touches n (fun r => { r with linked := false }) b
          (b.changeCell n fun c => ⟨{ c.record with linked := false }, none, none⟩) :=
        .changeCell fun _ => rfl
      simp only [hl, Bool.not_true, Bool.false_eq_true, if_false]
      exact ((hfirst.trans (.setOlder c.newer c.older)).trans (.setNewer c.older c.newer)).counted _

theorem touches_relink (b : LinkedBoard) (n : Nat) :
    Touches n (fun r => { r with linked := true }) b (b.relink n) :=
  (touches_unlink b n).trans (touches_linkBetween _ n _ none)

end LinkedBoard

/-- Of distinct elements, all but one remain when that one is left out. -/
theorem filter_ne_middle {α β : Type} [BEq β] [LawfulBEq β] (f : α → β) {x : α} {key : β}
    {below above : List α} (hx : f x = key) (h : ∀ q ∈ below ++ above, f q ≠ key) :
    (below ++ x :: above).filter (fun q => f q != key) = below ++ above := by
  rw [List.filter_append, List.filter_cons_of_neg (by simp [hx]), ← List.filter_append]
  exact List.filter_eq_self.mpr fun q hq => by simpa using h q hq

/-! ## Numbers that name each other -/

/-- Each of some numbers names the one before and the one after it, the first one `before` and the
last one `after`. -/
def Chained (links : Nat → Option (Option Nat × Option Nat)) :
    Option Nat → List Nat → Option Nat → Prop
  | _, [], _ => True
  | before, n :: rest, after =>
    links n = some (before, rest.head?.or after) ∧ Chained links (some n) rest after

section Chained

variable {links links' : Nat → Option (Option Nat × Option Nat)}
  {before before' after after' : Option Nat}
  {ns below above : List Nat}

theorem chained_append : Chained links before (below ++ above) after ↔
    Chained links before below (above.head?.or after) ∧
      Chained links (below.getLast?.or before) above after := by
  induction below generalizing before with
  | nil => simp [Chained]
  | cons n rest ih =>
    have hlast : (n :: rest).getLast?.or before = rest.getLast?.or (some n) := by
      cases h : rest.getLast? <;> simp [List.getLast?_cons, h]
    rw [List.cons_append, Chained, Chained, ih, hlast, List.head?_append, Option.or_assoc,
      and_assoc]

theorem Chained.congr (h : Chained links before ns after) (hs : ∀ n ∈ ns, links' n = links n) :
    Chained links' before ns after := by
  induction ns generalizing before with
  | nil => trivial
  | cons n rest ih =>
    exact ⟨(hs n List.mem_cons_self).trans h.1, ih h.2 fun m hm => hs m (List.mem_cons_of_mem n hm)⟩

/-- The first number may be told another one before it. -/
theorem Chained.newBefore (h : Chained links before ns after) (hd : ns.Nodup)
    (hs : ∀ n ∈ ns, links' n = if ns.head? = some n then (links n).map fun l => (before', l.2)
      else links n) : Chained links' before' ns after := by
  cases ns with
  | nil => trivial
  | cons n rest =>
    have hout := (List.nodup_cons.mp hd).1
    refine ⟨?_, h.2.congr fun m hm => ?_⟩
    · rw [hs n List.mem_cons_self, h.1]
      simp
    · have hne : ¬ n = m := fun he => hout (he ▸ hm)
      rw [hs m (List.mem_cons_of_mem n hm)]
      simp [hne]

/-- The last number may be told another one after it. -/
theorem Chained.newAfter (h : Chained links before ns after) (hd : ns.Nodup)
    (hs : ∀ n ∈ ns, links' n = if ns.getLast? = some n then (links n).map fun l => (l.1, after')
      else links n) : Chained links' before ns after' := by
  rcases List.eq_nil_or_concat ns with rfl | ⟨init, n, rfl⟩
  · trivial
  · rw [List.concat_eq_append] at h hd hs ⊢
    have hout : n ∉ init := fun hn => (List.nodup_append.mp hd).2.2 n hn n (by simp) rfl
    rw [chained_append] at h ⊢
    refine ⟨h.1.congr fun m hm => ?_, ?_, trivial⟩
    · have hne : ¬ n = m := fun he => hout (he ▸ hm)
      rw [hs m (by simp [hm])]
      simp [hne]
    · rw [hs n (by simp), h.2.1]
      simp

end Chained

/-! ## The sending order of a board -/

namespace LinkedBoard

variable {b b' : LinkedBoard} {n : Nat} {below above ns : List Nat}

/-- The links of a board run through some numbers, each of them once. -/
structure Threaded (b : LinkedBoard) (ns : List Nat) : Prop where
  links : Chained b.links? none ns none
  nodup : ns.Nodup
  oldest : b.oldest = ns.head?
  newest : b.newest = ns.getLast?
  count : b.count = ns.length

/-- The links of a board, but for those of one record, are those of another board. -/
theorem Threaded.congr (h : b.Threaded ns) (hl : ∀ m ∈ ns, b'.links? m = b.links? m)
    (ho : b'.oldest = b.oldest) (hn : b'.newest = b.newest) (hc : b'.count = b.count) :
    b'.Threaded ns :=
  ⟨h.links.congr hl, h.nodup, ho.trans h.oldest, hn.trans h.newest, hc.trans h.count⟩

theorem links?_changeCell (b : LinkedBoard) (n : Nat) (f : Linked → Linked) (m : Nat) :
    (b.changeCell n f).links? m
      = if m = n then (b.cell? m).map fun c => ((f c).older, (f c).newer) else b.links? m := by
  unfold links?
  rw [cell?_changeCell]
  split
  · rw [Option.map_map]
    rfl
  · rfl

theorem links?_setOlder (b : LinkedBoard) (n? older : Option Nat) (m : Nat) :
    (b.setOlder n? older).links? m
      = if n? = some m then (b.links? m).map fun l => (older, l.2) else b.links? m := by
  cases n? with
  | none => simp [setOlder, links?, cell?]
  | some n =>
    unfold setOlder
    rw [links?_changeCell]
    by_cases hm : m = n
    · simp [hm, links?, Function.comp_def]
    · simp [hm, Ne.symm hm]

theorem links?_setNewer (b : LinkedBoard) (n? newer : Option Nat) (m : Nat) :
    (b.setNewer n? newer).links? m
      = if n? = some m then (b.links? m).map fun l => (l.1, newer) else b.links? m := by
  cases n? with
  | none => simp [setNewer, links?, cell?]
  | some n =>
    unfold setNewer
    rw [links?_changeCell]
    by_cases hm : m = n
    · simp [hm, links?, Function.comp_def]
    · simp [hm, Ne.symm hm]

/-! ### Taking a record out, and putting one in -/

/-- The parts of a sending order below and above some place. The last number of the lower part, or
the board if there is none, is told what comes `after` it, and the first one of the upper part what
comes `before` it. -/
structure Parted (b : LinkedBoard) (below above : List Nat) (before after : Option Nat) : Prop where
  lower : Chained b.links? none below after
  upper : Chained b.links? before above none
  nodup : (below ++ above).Nodup
  oldest : b.oldest = below.head?.or after
  newest : b.newest = above.getLast?.or before

namespace Parted

variable {before before' after after' : Option Nat}

theorem congr (h : b.Parted below above before after)
    (hl : ∀ m ∈ below ++ above, b'.links? m = b.links? m) (ho : b'.oldest = b.oldest)
    (hn : b'.newest = b.newest) : b'.Parted below above before after :=
  ⟨h.lower.congr fun m hm => hl m (List.mem_append_left _ hm),
    h.upper.congr fun m hm => hl m (List.mem_append_right _ hm), h.nodup, ho.trans h.oldest,
    hn.trans h.newest⟩

theorem tellAbove (h : b.Parted below above before after) (before' : Option Nat) :
    (b.setOlder above.head? before').Parted below above before' after := by
  obtain ⟨-, habove, hdisjoint⟩ := List.nodup_append.mp h.nodup
  refine ⟨h.lower.congr fun m hm => ?_, h.upper.newBefore habove fun m _ => ?_, h.nodup, ?_, ?_⟩
  · have hne : ¬ above.head? = some m := fun he => hdisjoint m hm m (List.mem_of_mem_head? he) rfl
    rw [links?_setOlder, if_neg hne]
  · rw [links?_setOlder]
  · cases above <;> exact h.oldest
  · have hnewest := h.newest
    cases above with
    | nil => simp [setOlder]
    | cons k rest => simpa [setOlder, changeCell, List.getLast?_cons] using hnewest

theorem tellBelow (h : b.Parted below above before after) (after' : Option Nat) :
    (b.setNewer below.getLast? after').Parted below above before after' := by
  obtain ⟨hbelow, -, hdisjoint⟩ := List.nodup_append.mp h.nodup
  refine ⟨h.lower.newAfter hbelow fun m _ => ?_, h.upper.congr fun m hm => ?_, h.nodup, ?_, ?_⟩
  · rw [links?_setNewer]
  · have hne : ¬ below.getLast? = some m := fun he => hdisjoint m (List.mem_of_getLast? he) m hm rfl
    rw [links?_setNewer, if_neg hne]
  · have holdest := h.oldest
    cases below with
    | nil => simp [setNewer]
    | cons k rest => simpa [setNewer, changeCell, List.getLast?_cons] using holdest
  · have hnewest := h.newest
    cases hlast : below.getLast? <;> exact hnewest

end Parted

theorem threaded_append_iff : b.Threaded (below ++ above) ↔
    b.Parted below above below.getLast? above.head? ∧ b.count = (below ++ above).length := by
  have hhead : (below ++ above).head? = below.head?.or above.head? := List.head?_append
  have hlast : (below ++ above).getLast? = above.getLast?.or below.getLast? := List.getLast?_append
  constructor
  · intro h
    obtain ⟨hdown, hup⟩ := chained_append.mp h.links
    rw [Option.or_none] at hdown hup
    exact ⟨⟨hdown, hup, h.nodup, h.oldest.trans hhead, h.newest.trans hlast⟩, h.count⟩
  · rintro ⟨hp, hcount⟩
    refine ⟨chained_append.mpr ?_, hp.nodup, hp.oldest.trans hhead.symm, hp.newest.trans hlast.symm,
      hcount⟩
    rw [Option.or_none, Option.or_none]
    exact ⟨hp.lower, hp.upper⟩

/-- The links run through a number if it names its neighbours, and these name it. -/
theorem threaded_middle_iff : b.Threaded (below ++ n :: above) ↔
    b.Parted below above (some n) (some n) ∧ n ∉ below ++ above ∧
      b.links? n = some (below.getLast?, above.head?) ∧
      b.count = (below ++ above).length + 1 := by
  have hnodup : (below ++ n :: above).Nodup ↔ (below ++ above).Nodup ∧ n ∉ below ++ above :=
    List.nodup_middle.trans (List.nodup_cons.trans and_comm)
  have hlength : (below ++ n :: above).length = (below ++ above).length + 1 := by
    simp [Nat.add_assoc]
  constructor
  · intro h
    obtain ⟨hdown, hn, hup⟩ := chained_append.mp h.links
    obtain ⟨hd, hout⟩ := hnodup.mp h.nodup
    rw [Option.or_none] at hn
    refine ⟨⟨hdown, hup, hd, ?_, ?_⟩, hout, ?_, h.count.trans hlength⟩
    · simpa [List.head?_append] using h.oldest
    · rw [h.newest, List.getLast?_append, List.getLast?_cons]
      cases above.getLast? <;> rfl
    · simpa using hn
  · rintro ⟨hp, hout, hn, hcount⟩
    refine ⟨chained_append.mpr ⟨hp.lower, ?_, hp.upper⟩, hnodup.mpr ⟨hp.nodup, hout⟩, ?_, ?_,
      hcount.trans hlength.symm⟩
    · simpa using hn
    · simpa [List.head?_append] using hp.oldest
    · rw [hp.newest, List.getLast?_append, List.getLast?_cons]
      cases above.getLast? <;> rfl

@[simp] theorem count_setOlder (b : LinkedBoard) (n? older : Option Nat) :
    (b.setOlder n? older).count = b.count := by
  cases n? <;> rfl

@[simp] theorem count_setNewer (b : LinkedBoard) (n? newer : Option Nat) :
    (b.setNewer n? newer).count = b.count := by
  cases n? <;> rfl

/-- Taking out a linked record joins the parts of the sending order below and above it. -/
theorem Threaded.unlink_middle (h : b.Threaded (below ++ n :: above)) {r : SendRecord}
    (hr : b.record? n = some r) (hl : r.linked = true) :
    (b.unlink n).Threaded (below ++ above) := by
  obtain ⟨hp, hout, hn, hcount⟩ := threaded_middle_iff.mp h
  obtain ⟨c, hc, rfl⟩ := Option.map_eq_some_iff.mp hr
  obtain ⟨holder, hnewer⟩ : c.older = below.getLast? ∧ c.newer = above.head? := by
    simpa [links?, hc] using hn
  have hcleared : Parted (b.changeCell n fun c => ⟨{ c.record with linked := false }, none, none⟩)
      below above (some n) (some n) := by
    refine hp.congr (fun m hm => ?_) rfl rfl
    have hne : m ≠ n := fun he => hout (he ▸ hm)
    rw [links?_changeCell, if_neg hne]
  have htold := (hcleared.tellAbove below.getLast?).tellBelow above.head?
  unfold LinkedBoard.unlink
  simp only [hc, hl, Bool.not_true, Bool.false_eq_true, if_false, holder, hnewer]
  refine threaded_append_iff.mpr ⟨htold.congr (fun _ _ => rfl) rfl rfl, ?_⟩
  rw [count_setNewer, count_setOlder]
  exact congrArg (· - 1) hcount

/-- Putting a record in between two parts of the sending order. -/
theorem Threaded.linkBetween (h : b.Threaded (below ++ above)) (hout : n ∉ below ++ above)
    {r : SendRecord} (hr : b.record? n = some r) :
    (b.linkBetween n below.getLast? above.head?).Threaded (below ++ n :: above) := by
  obtain ⟨hp, hcount⟩ := threaded_append_iff.mp h
  obtain ⟨c, hc, -⟩ := Option.map_eq_some_iff.mp hr
  have hplaced : Parted (b.changeCell n fun c =>
      ⟨{ c.record with linked := true }, above.head?, below.getLast?⟩) below above below.getLast?
        above.head? := by
    refine hp.congr (fun m hm => ?_) rfl rfl
    have hne : m ≠ n := fun he => hout (he ▸ hm)
    rw [links?_changeCell, if_neg hne]
  have htold := (hplaced.tellAbove (some n)).tellBelow (some n)
  unfold LinkedBoard.linkBetween
  refine threaded_middle_iff.mpr ⟨htold.congr (fun _ _ => rfl) rfl rfl, hout, ?_, ?_⟩
  · -- Neither neighbour is the record itself, whose own links stay as they were set.
    rw [List.mem_append, not_or] at hout
    have hlast : ¬ below.getLast? = some n := fun he => hout.1 (List.mem_of_getLast? he)
    have hhead : ¬ above.head? = some n := fun he => hout.2 (List.mem_of_mem_head? he)
    show LinkedBoard.links? (setNewer _ _ _) n = _
    rw [links?_setNewer, if_neg hlast, links?_setOlder, if_neg hhead, links?_changeCell, if_pos rfl,
      hc]
    rfl
  · show (setNewer _ _ _).count + 1 = _
    rw [count_setNewer, count_setOlder]
    exact congrArg (· + 1) hcount

/-! ### Operations on the sending order -/

/-- The links run through the numbers of the linked records. -/
structure InOrder (b : LinkedBoard) (ns : List Nat) : Prop where
  threaded : b.Threaded ns
  linked : ∀ n, n ∈ ns ↔ ∃ r, b.record? n = some r ∧ r.linked = true

namespace InOrder

theorem unlink (h : b.InOrder ns) (n : Nat) : (b.unlink n).InOrder (ns.filter (· != n)) := by
  have htouch := touches_unlink b n
  constructor
  · by_cases hn : n ∈ ns
    · obtain ⟨below, above, rfl⟩ := List.append_of_mem hn
      obtain ⟨r, hr, hl⟩ := (h.linked n).mp hn
      have hout := (threaded_middle_iff.mp h.threaded).2.1
      have hrest : (below ++ n :: above).filter (· != n) = below ++ above :=
        filter_ne_middle (fun m => m) rfl fun m hm he => hout (he ▸ hm)
      rw [hrest]
      exact h.threaded.unlink_middle hr hl
    · -- A record that is not linked is left alone.
      have hsame : ns.filter (· != n) = ns := by
        refine List.filter_eq_self.mpr fun m hm => ?_
        simpa using fun he : m = n => hn (he ▸ hm)
      have halone : b.unlink n = b := by
        unfold LinkedBoard.unlink
        cases hc : b.cell? n with
        | none => rfl
        | some c =>
          have hl : c.record.linked = false := by
            rw [h.linked] at hn
            simpa using fun hl : c.record.linked = true =>
              hn ⟨c.record, by simp [record?, hc], hl⟩
          simp [hl]
      rw [hsame, halone]
      exact h.threaded
  · intro m
    rw [htouch.records]
    by_cases hm : m = n
    · simp [hm]
    · simp [hm, h.linked m]

/-- A record that is made the most recently sent is the last one in the sending order. -/
theorem relink (h : b.InOrder ns) {r : SendRecord} (hr : b.record? n = some r) :
    (b.relink n).InOrder (ns.filter (· != n) ++ [n]) := by
  have hout := h.unlink n
  have htouch := touches_relink b n
  have hr' : (b.unlink n).record? n = some { r with linked := false } := by
    rw [(touches_unlink b n).records, if_pos rfl, hr]
    rfl
  constructor
  · have hall : (b.unlink n).Threaded (ns.filter (· != n) ++ []) := by simpa using hout.threaded
    have hthread := hall.linkBetween (by simp) hr'
    unfold LinkedBoard.relink
    dsimp only
    rw [hout.threaded.newest]
    exact hthread
  · intro m
    rw [htouch.records]
    by_cases hm : m = n
    · simp [hm, hr]
    · simp [hm, h.linked m]

/-- A record may be linked right after another one. -/
theorem linkAfter (h : b.InOrder (below ++ m :: above)) (hn : n ∉ below ++ m :: above)
    {r : SendRecord} (hr : b.record? n = some r) :
    (b.linkAfter m n).InOrder (below ++ m :: n :: above) := by
  obtain ⟨-, -, hlinks, -⟩ := threaded_middle_iff.mp h.threaded
  have hnewer : (b.cell? m).bind (·.newer) = above.head? := by
    obtain ⟨c, hc, hnames⟩ := Option.map_eq_some_iff.mp hlinks
    simpa [hc] using congrArg Prod.snd hnames
  have htouch : Touches n (fun r => { r with linked := true }) b (b.linkAfter m n) :=
    touches_linkBetween b n _ _
  constructor
  · have hparts : b.Threaded ((below ++ [m]) ++ above) := by simpa using h.threaded
    have hthread := hparts.linkBetween (by simpa using hn) hr
    unfold LinkedBoard.linkAfter
    rw [hnewer]
    simpa using hthread
  · intro k
    rw [htouch.records]
    by_cases hk : k = n
    · simp [hk, hr]
    · rw [if_neg hk, ← h.linked k]
      simp [hk]

/-- A record may be changed as long as its link is kept. -/
theorem change (h : b.InOrder ns) {f : SendRecord → SendRecord}
    (hf : ∀ r, b.record? n = some r → (f r).linked = r.linked) : (b.change n f).InOrder ns := by
  constructor
  · refine h.threaded.congr (fun m _ => ?_) rfl rfl rfl
    unfold LinkedBoard.change
    rw [links?_changeCell]
    by_cases hm : m = n
    · simp [hm, links?]
    · simp [hm]
  · intro m
    rw [(touches_change b n f).records, h.linked m]
    by_cases hm : m = n
    · rw [if_pos hm, hm]
      cases hr : b.record? n with
      | none => simp
      | some r => simp [hf r hr]
    · rw [if_neg hm]

end InOrder

/-! ## Following the links -/

/-- Following the links visits the numbers in turn. -/
theorem walk_eq {before : Option Nat} (h : Chained b.links? before ns none) :
    b.walk ns.length ns.head? = ns.filterMap b.record? := by
  induction ns generalizing before with
  | nil => rfl
  | cons n rest ih =>
    obtain ⟨c, hc, hnames⟩ := Option.map_eq_some_iff.mp h.1
    have hnewer : c.newer = rest.head? := by simpa using congrArg Prod.snd hnames
    have hr : b.record? n = some c.record := by simp [record?, hc]
    rw [List.filterMap_cons, hr, List.length_cons, List.head?_cons, walk]
    simp only [hc, hnewer]
    rw [ih h.2]

theorem Threaded.ordered_eq (h : b.Threaded ns) : b.ordered = ns.filterMap b.record? := by
  unfold ordered
  rw [h.count, h.oldest]
  exact walk_eq h.links

/-- The audit of the links visits the numbers in turn too, and finds each one linked back. -/
theorem walkEnd_eq {steps : Nat} {before : Option Nat} (h : Chained b.links? before ns none)
    (hl : ∀ n ∈ ns, ∃ r, b.record? n = some r ∧ r.linked = true) (hs : ns.length ≤ steps) :
    b.walkEnd steps before ns.head? = .ok (ns.length, ns.getLast?.or before) := by
  induction ns generalizing before steps with
  | nil => cases steps <;> rfl
  | cons n rest ih =>
    obtain ⟨c, hc, hnames⟩ := Option.map_eq_some_iff.mp h.1
    obtain ⟨holder, hnewer⟩ : c.older = before ∧ c.newer = rest.head? := by simpa using hnames
    obtain ⟨r, hr, hlinked⟩ := hl n List.mem_cons_self
    have hrecord : c.record = r := by simpa [record?, hc] using hr
    obtain ⟨more, rfl⟩ : ∃ more, steps = more + 1 := ⟨steps - 1, by simp at hs; omega⟩
    have hmore : rest.length ≤ more := by simpa using hs
    have hrest := ih h.2 (fun m hm => hl m (List.mem_cons_of_mem n hm)) hmore
    have hlast : (n :: rest).getLast?.or before = rest.getLast?.or (some n) := by
      cases hg : rest.getLast? <;> simp [List.getLast?_cons, hg]
    rw [List.head?_cons, walkEnd]
    simp only [hc, hrecord, hlinked, holder, hnewer, hrest]
    rw [hlast]
    simp [bind, Except.bind]

end LinkedBoard

end LossRecovery
