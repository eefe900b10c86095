import LossRecovery.Pacing.Controller
import Mathlib.Logic.Relation
import Mathlib.Order.Bounds.Basic

/-!
# `LossRecovery.Proofs.PacingRates` — the limits of the pacing rate

An update cuts the wanted rate down to the greatest rate allowed. A hardware pacer in use then takes
the greatest of its rates that is not above, or goes out of use if there is none. The computed rate is
cut down to a word before it is compared with any limit, so a bandwidth that is too large for its
percentage comes out as a low rate instead of the greatest one.

## Contents
- `RateTable.offered`: the rates of a list that a limit leaves; `supported?_ofList`: the greatest of them.
- `PacingController.Call`, `PacingController.Used`: calls, and a controller after any of them.
- `PacingController.Fits`: the invariant; one call, then all.
- `Used.limited`: the rate, the use of the pacer and the fallbacks after any calls.
- `rate_scales`: which computed rates scale with the bandwidth; `rate_wraps`: one that does not.
-/

namespace LossRecovery

namespace RateTable

variable {rate limit x y top : Nat} {rates : List Nat}

/-! ## The rates of a table -/

theorem mem_insertRate : y ∈ insertRate rate rates ↔ y = rate ∨ y ∈ rates := by
  induction rates with
  | nil => simp [insertRate]
  | cons r rest ih =>
    unfold insertRate
    split
    · simp
    · split
      · next heq =>
        subst heq
        simp
      · simp [ih, or_left_comm]

theorem ascending_insertRate (h : rates.Pairwise (· < ·)) :
    (insertRate rate rates).Pairwise (· < ·) := by
  induction rates with
  | nil => exact List.pairwise_singleton _ _
  | cons r rest ih =>
    obtain ⟨hr, hrest⟩ := List.pairwise_cons.mp h
    unfold insertRate
    split
    · next hlt =>
      refine List.pairwise_cons.mpr ⟨fun y hy => ?_, h⟩
      rcases List.mem_cons.mp hy with rfl | hy
      · exact hlt
      · exact Nat.lt_trans hlt (hr y hy)
    · split
      · exact h
      · next hle hne =>
        refine List.pairwise_cons.mpr ⟨fun y hy => ?_, ih hrest⟩
        rcases mem_insertRate.mp hy with rfl | hy
        · omega
        · exact hr y hy

theorem mem_ofList : x ∈ (ofList rates).rates ↔ x ∈ rates ∧ 0 < x := by
  have hmem : ∀ l : List Nat, x ∈ l.foldr insertRate [] ↔ x ∈ l := by
    intro l
    induction l with
    | nil => exact Iff.rfl
    | cons r rest ih => rw [List.foldr_cons, mem_insertRate, ih, List.mem_cons]
  unfold ofList
  rw [hmem, List.mem_filter, decide_eq_true_eq]

theorem ascending_ofList (rates : List Nat) : (ofList rates).rates.Pairwise (· < ·) := by
  unfold ofList
  dsimp only
  induction rates.filter (0 < ·) with
  | nil => exact List.Pairwise.nil
  | cons r rest ih => exact ascending_insertRate ih

/-- The last number of an ascending list is the greatest one. -/
theorem getLast?_eq_some_iff_isGreatest {l : List Nat} (h : l.Pairwise (· < ·)) :
    l.getLast? = some x ↔ IsGreatest {y | y ∈ l} x := by
  have hlast : ∀ z, l.getLast? = some z → IsGreatest {y | y ∈ l} z := by
    intro z hz
    obtain ⟨before, rfl⟩ := List.getLast?_eq_some_iff.mp hz
    refine ⟨by simp, fun y hy => ?_⟩
    rcases List.mem_append.mp hy with hy | hy
    · exact Nat.le_of_lt ((List.pairwise_append.mp h).2.2 y hy z (List.mem_singleton_self z))
    · exact Nat.le_of_eq (List.mem_singleton.mp hy)
  refine ⟨hlast x, fun hx => ?_⟩
  cases hz : l.getLast? with
  | none =>
    rw [List.getLast?_eq_none_iff.mp hz] at hx
    exact absurd hx.1 List.not_mem_nil
  | some z => rw [(hlast z hz).unique hx]

/-- The rates of a list that are not above a limit; zero is no rate. -/
def offered (rates : List Nat) (limit : Nat) : Set Nat := {x | x ∈ rates ∧ 0 < x ∧ x ≤ limit}

/-- A table supports the greatest of the rates that a limit leaves. -/
theorem supported?_ofList :
    (ofList rates).supported? limit = some x ↔ IsGreatest (offered rates limit) x := by
  have hset : {y | y ∈ (ofList rates).rates.filter (· ≤ limit)} = offered rates limit := by
    ext y
    simp [offered, mem_ofList, and_assoc]
  rw [← hset]
  exact getLast?_eq_some_iff_isGreatest ((ascending_ofList rates).filter _)

theorem supported?_ofList_eq_none :
    (ofList rates).supported? limit = none ↔ ∀ y ∈ rates, 0 < y → limit < y := by
  rw [supported?, List.getLast?_eq_none_iff, List.filter_eq_nil_iff]
  simp [mem_ofList]

theorem le_maximum_ofList (hy : y ∈ rates) : y ≤ (ofList rates).maximum := by
  rcases Nat.eq_zero_or_pos y with rfl | hpos
  · exact Nat.zero_le _
  · have hmem := mem_ofList.mpr ⟨hy, hpos⟩
    have hlast := List.getLast?_eq_some_getLast (List.ne_nil_of_mem hmem)
    rw [maximum, hlast]
    exact ((getLast?_eq_some_iff_isGreatest (ascending_ofList rates)).mp hlast).2 hmem

theorem maximum_ofList (h : IsGreatest {y | y ∈ rates ∧ 0 < y} top) :
    (ofList rates).maximum = top := by
  have hset : {y | y ∈ (ofList rates).rates} = {y | y ∈ rates ∧ 0 < y} := by
    ext y
    exact mem_ofList
  rw [← hset, ← getLast?_eq_some_iff_isGreatest (ascending_ofList rates)] at h
  rw [maximum, h]
  rfl

theorem maximum_ofList_pos : 0 < (ofList rates).maximum ↔ ∃ y ∈ rates, 0 < y := by
  constructor
  · intro hpos
    cases hz : (ofList rates).rates.getLast? with
    | none =>
      rw [maximum, hz] at hpos
      cases hpos
    | some z => exact ⟨z, mem_ofList.mp (List.mem_of_getLast? hz)⟩
  · rintro ⟨y, hy, hpos⟩
    exact Nat.lt_of_lt_of_le hpos (le_maximum_ofList hy)

/-- Cutting a limit down to the greatest rate of a table leaves the same rates. -/
theorem supported?_min_maximum :
    (ofList rates).supported? (min limit (ofList rates).maximum)
      = (ofList rates).supported? limit := by
  unfold supported?
  congr 1
  refine List.filter_congr fun y hy => ?_
  have hle := le_maximum_ofList (mem_ofList.mp hy).1
  exact decide_eq_decide.mpr (by omega)

end RateTable

namespace PacingController

open RateTable (offered)

variable {s : Settings} {begun x top : Nat} {rates : List Nat} {c c' : PacingController}
  {phase : Phase} {bandwidth : Nat}

/-! ## One update -/

/-- The rate that an update may choose up to: the wanted one, unless it is above what is allowed. -/
def limit (c : PacingController) (phase : Phase) (bandwidth : Nat) : Nat :=
  min (c.wanted phase bandwidth) c.maxRate

/-- Without a hardware pacer in use the rate is the limit. -/
theorem chooseRate_of_plain (h : c.engaged = false ∨ c.hardware = none) (phase : Phase)
    (bandwidth : Nat) :
    c.chooseRate phase bandwidth = ⟨c.limit phase bandwidth, c.engaged, false, []⟩ := by
  unfold chooseRate
  split
  · next he ht => simp [he, ht] at h
  · rfl

/-- A hardware pacer in use takes its greatest rate within the limit. -/
theorem chooseRate_of_supported (he : c.engaged = true) (ht : c.hardware = some (.ofList rates))
    (hx : IsGreatest (offered rates (c.limit phase bandwidth)) x) :
    let choice := c.chooseRate phase bandwidth
    choice.rate = x ∧ choice.engaged = true ∧
      (choice.fellBack = true ↔
        x ≠ min (c.limit phase bandwidth) (RateTable.ofList rates).maximum) := by
  have hsupported := RateTable.supported?_min_maximum.trans (RateTable.supported?_ofList.mpr hx)
  unfold limit at hsupported ⊢
  rw [chooseRate, he, ht]
  dsimp only
  rw [hsupported]
  dsimp only
  split
  · next heq => exact ⟨rfl, rfl, iff_of_false Bool.false_ne_true (not_not_intro heq)⟩
  · next hne => exact ⟨rfl, rfl, iff_of_true rfl hne⟩

/-- It goes out of use if it has no rate within the limit. -/
theorem chooseRate_of_rejected (he : c.engaged = true) (ht : c.hardware = some (.ofList rates))
    (hnone : ∀ y ∈ rates, 0 < y → c.limit phase bandwidth < y) :
    let choice := c.chooseRate phase bandwidth
    choice.rate = c.limit phase bandwidth ∧ choice.engaged = false ∧ choice.fellBack = true := by
  have hrejected :=
    RateTable.supported?_min_maximum.trans (RateTable.supported?_ofList_eq_none.mpr hnone)
  unfold limit at hrejected ⊢
  rw [chooseRate, he, ht]
  dsimp only
  rw [hrejected]
  exact ⟨rfl, rfl, rfl⟩

/-! ## Any calls -/

/-- One call that sets no hardware pacer. -/
inductive Call (c : PacingController) : PacingController → Prop
  | update (phase : Phase) (bandwidth : Nat) : Call c (c.update phase bandwidth)
  | setFixed (rate : Option Nat) : Call c (c.setFixed rate)
  | schedule (bytes rtt window now : Nat) : Call c (c.schedule bytes rtt window now).1
  | spend (bytes : Nat) : Call c (c.spend bytes)

/-- A controller after any calls. The list is the one that the latest hardware pacer was made of. -/
inductive Used (s : Settings) (begun : Nat) : List Nat → PacingController → Prop
  | start : Used s begun [] (start s begun)
  | call {rates : List Nat} {c c' : PacingController} (before : Used s begun rates c)
      (call : Call c c') : Used s begun rates c'
  | setHardware {rates : List Nat} {c : PacingController} (before : Used s begun rates c)
      (rates' : List Nat) : Used s begun rates' (c.setHardware (.ofList rates'))

/-- The rate keeps to what the settings allow, and a hardware pacer in use has the rates of the list. -/
structure Fits (s : Settings) (rates : List Nat) (c : PacingController) : Prop where
  maxRate : c.maxRate = s.maxPacingRate
  rate : c.rate ≤ s.maxPacingRate
  table : c.engaged = true → c.hardware = some (.ofList rates)

theorem rate_chooseRate_le (table : c.engaged = true → c.hardware = some (.ofList rates))
    (phase : Phase) (bandwidth : Nat) :
    (c.chooseRate phase bandwidth).rate ≤ c.limit phase bandwidth := by
  cases he : c.engaged with
  | false => rw [chooseRate_of_plain (.inl he) phase bandwidth]
  | true =>
    cases hx : (RateTable.ofList rates).supported? (c.limit phase bandwidth) with
    | none =>
      have hnone := RateTable.supported?_ofList_eq_none.mp hx
      exact Nat.le_of_eq (chooseRate_of_rejected he (table he) hnone).1
    | some x =>
      have hgreatest := RateTable.supported?_ofList.mp hx
      rw [(chooseRate_of_supported he (table he) hgreatest).1]
      exact hgreatest.1.2.2

/-- An update only ever takes a hardware pacer out of use. -/
theorem Call.disengaged (h : Call c c') (he : c.engaged = false) : c'.engaged = false := by
  cases h with
  | update phase bandwidth =>
    have hplain := chooseRate_of_plain (.inl he) phase bandwidth
    exact (congrArg RateChoice.engaged hplain).trans he
  | setFixed | schedule | spend => exact he

theorem Fits.call (h : Fits s rates c) (call : Call c c') : Fits s rates c' := by
  cases hcall : call with
  | update phase bandwidth =>
    refine ⟨h.maxRate, ?_, fun he => ?_⟩
    · have hle := rate_chooseRate_le h.table phase bandwidth
      have hallowed : c.limit phase bandwidth ≤ c.maxRate := Nat.min_le_right _ _
      rw [h.maxRate] at hallowed
      exact Nat.le_trans hle hallowed
    · refine h.table (Bool.eq_true_of_not_eq_false fun hout => ?_)
      rw [call.disengaged hout] at he
      cases he
  | setFixed | schedule | spend => exact ⟨h.maxRate, h.rate, h.table⟩

theorem Used.fits (h : Used s begun rates c) : Fits s rates c := by
  induction h with
  | start => exact ⟨rfl, Nat.zero_le _, fun he => by cases he⟩
  | call _ call ih => exact ih.call call
  | setHardware _ rates' ih => exact ⟨ih.maxRate, ih.rate, fun _ => rfl⟩

theorem disengaged_of_calls (h : Relation.ReflTransGen Call c c') (he : c.engaged = false) :
    c'.engaged = false := by
  induction h with
  | refl => exact he
  | tail _ call ih => exact call.disengaged ih

/-- After any calls the rate keeps to what the settings allow. Of a hardware pacer in use an update
takes the greatest rate within the limit, and counts a fallback unless that is the limit or the pacer's
greatest rate. If there is none, the rate is the limit, a fallback is counted, and no hardware pacer is
used until one is set. Only one with some rate comes into use. -/
theorem Used.limited (h : Used s begun rates c) :
    c.rate ≤ s.maxPacingRate ∧
    (∀ phase bandwidth (sink : Sink),
      let r := min (c.wanted phase bandwidth) s.maxPacingRate
      let c' := c.update phase bandwidth
      let counted := c.countFallback phase bandwidth sink
      (c.engaged = true → (∃ x ∈ rates, 0 < x ∧ x ≤ r) →
        IsGreatest {x | x ∈ rates ∧ 0 < x ∧ x ≤ r} c'.rate ∧ c'.engaged = true ∧
        ∀ top, IsGreatest {x | x ∈ rates ∧ 0 < x} top →
          counted = if c'.rate = min r top then sink else sink.add .hwRateFallbacks 1) ∧
      (c.engaged = true → (∀ x ∈ rates, 0 < x → r < x) →
        c'.rate = r ∧ c'.engaged = false ∧ counted = sink.add .hwRateFallbacks 1) ∧
      (c.engaged = false → c'.rate = r ∧ c'.engaged = false ∧ counted = sink)) ∧
    (∀ c', c.engaged = false → Relation.ReflTransGen Call c c' → c'.engaged = false) ∧
    ∀ rates', (c.setHardware (.ofList rates')).engaged = true ↔ ∃ x ∈ rates', 0 < x := by
  have hfits := h.fits
  refine ⟨hfits.rate, ?_, fun c' he hcalls => disengaged_of_calls hcalls he, ?_⟩
  · intro phase bandwidth sink
    dsimp only
    rw [← hfits.maxRate, ← limit]
    refine ⟨?_, ?_, ?_⟩
    · rintro he ⟨y, hy⟩
      cases hx : (RateTable.ofList rates).supported? (c.limit phase bandwidth) with
      | none =>
        have habove := RateTable.supported?_ofList_eq_none.mp hx y hy.1 hy.2.1
        omega
      | some x =>
        have hgreatest := RateTable.supported?_ofList.mp hx
        obtain ⟨hrate, hengaged, hfell⟩ := chooseRate_of_supported he (hfits.table he) hgreatest
        have hupdated : (c.update phase bandwidth).rate = x := hrate
        rw [hupdated]
        refine ⟨hgreatest, hengaged, fun top htop => ?_⟩
        rw [RateTable.maximum_ofList htop] at hfell
        by_cases hkept : x = min (c.limit phase bandwidth) top
        · rw [if_pos hkept]
          exact if_neg (mt hfell.mp (not_not_intro hkept))
        · rw [if_neg hkept]
          exact if_pos (hfell.mpr hkept)
    · intro he hnone
      obtain ⟨hrate, hengaged, hfell⟩ := chooseRate_of_rejected he (hfits.table he) hnone
      exact ⟨hrate, hengaged, if_pos hfell⟩
    · intro he
      have hplain := chooseRate_of_plain (.inl he) phase bandwidth
      refine ⟨congrArg RateChoice.rate hplain, (congrArg RateChoice.engaged hplain).trans he, ?_⟩
      exact if_neg (by simp [hplain])
  · intro rates'
    exact decide_eq_true_iff.trans RateTable.maximum_ofList_pos

/-- A table made of an unsorted list with a zero and a rate twice: asked for 2500 it takes 2000, which
counts as a fallback; asked for 9000 it takes its greatest rate, which does not. -/
theorem limited_by_table : ∃ c,
    (Used {} 0 [3000, 1000, 0, 2000, 2000] c ∧ c.engaged = true) ∧
    (c.update .congestionAvoidance 2500).rate = 2000 ∧
    c.countFallback .congestionAvoidance 2500 .fresh = Sink.fresh.add .hwRateFallbacks 1 ∧
    (c.update .congestionAvoidance 9000).rate = 3000 ∧
    c.countFallback .congestionAvoidance 9000 .fresh = .fresh := by
  have used : Used {} 0 [3000, 1000, 0, 2000, 2000] _ := .setHardware .start _
  have hengaged : ((start {} 0).setHardware (.ofList [3000, 1000, 0, 2000, 2000])).engaged = true := rfl
  have htop : IsGreatest {x | x ∈ [3000, 1000, 0, 2000, 2000] ∧ 0 < x} 3000 :=
    ⟨by simp, fun x hx => by simp at hx; omega⟩
  obtain ⟨-, hupdate, -⟩ := used.limited
  obtain ⟨hbelow, -⟩ := hupdate .congestionAvoidance 2500 .fresh
  obtain ⟨hrate, -, hcounted⟩ := hbelow hengaged ⟨2000, by decide⟩
  have hgreatest : IsGreatest {x | x ∈ [3000, 1000, 0, 2000, 2000] ∧ 0 < x ∧ x ≤ 2500} 2000 :=
    ⟨by simp, fun x hx => by simp at hx; omega⟩
  obtain ⟨habove, -⟩ := hupdate .congestionAvoidance 9000 .fresh
  obtain ⟨hrate', -, hcounted'⟩ := habove hengaged ⟨3000, by decide⟩
  have hgreatest' : IsGreatest {x | x ∈ [3000, 1000, 0, 2000, 2000] ∧ 0 < x ∧ x ≤ 9000} 3000 :=
    ⟨by simp, fun x hx => by simp at hx; omega⟩
  have htwo := hrate.unique hgreatest
  have hthree := hrate'.unique hgreatest'
  refine ⟨_, ⟨used, hengaged⟩, htwo, ?_, hthree, ?_⟩
  · exact (hcounted 3000 htop).trans (if_neg (by rw [htwo]; decide))
  · exact (hcounted' 3000 htop).trans (if_pos (by rw [hthree]; decide))

/-! ## The computed rate -/

/-- Without a fixed rate and a hardware pacer, the rate is the percentage of the bandwidth up to the
greatest rate allowed, but of that percentage only the low 64 bits count. So it scales as long as the
percentage is a word, which it always is up to a hundred percent. Beyond a word it is right only where
the low bits reach the greatest rate by chance. -/
theorem rate_scales (hfixed : c.fixed = none) (hplain : c.engaged = false ∨ c.hardware = none)
    (hallowed : c.maxRate ≤ Word.max64) (phase : Phase) :
    let scaled := fun bandwidth => bandwidth * c.percent phase / 100
    let rate := fun bandwidth => (c.update phase bandwidth).rate
    (∀ bandwidth, rate bandwidth = min (Word.wrap (scaled bandwidth)) c.maxRate) ∧
    (∀ bandwidth, rate bandwidth = min (scaled bandwidth) c.maxRate ↔
      scaled bandwidth ≤ Word.max64 ∨ c.maxRate ≤ Word.wrap (scaled bandwidth)) ∧
    (∀ less more, less ≤ more → scaled more ≤ Word.max64 → rate less ≤ rate more) ∧
    (c.percent phase ≤ 100 → ∀ bandwidth ≤ Word.max64,
      rate bandwidth = min (scaled bandwidth) c.maxRate) := by
  intro scaled rate
  have hrate : ∀ bandwidth, rate bandwidth = min (Word.wrap (scaled bandwidth)) c.maxRate := by
    intro bandwidth
    have hchoice := congrArg RateChoice.rate (chooseRate_of_plain hplain phase bandwidth)
    rw [limit, wanted, hfixed] at hchoice
    exact hchoice
  have hexact : ∀ bandwidth, scaled bandwidth ≤ Word.max64 →
      rate bandwidth = min (scaled bandwidth) c.maxRate := by
    intro bandwidth hword
    rw [hrate, Word.wrap_eq hword]
  refine ⟨hrate, ?_, ?_, ?_⟩
  · intro bandwidth
    refine ⟨fun heq => ?_, fun h => ?_⟩
    · rw [hrate] at heq
      omega
    · rcases h with hword | hreached
      · exact hexact bandwidth hword
      · have hle := Word.wrap_le (scaled bandwidth)
        rw [hrate]
        omega
  · intro less more hle hword
    have hscaled : scaled less ≤ scaled more :=
      Nat.div_le_div_right (Nat.mul_le_mul_right _ hle)
    rw [hexact less (Nat.le_trans hscaled hword), hexact more hword]
    omega
  · intro hpercent bandwidth hword
    have hscaled : scaled bandwidth ≤ bandwidth :=
      Nat.div_le_of_le_mul (Nat.mul_comm 100 bandwidth ▸ Nat.mul_le_mul_left _ hpercent)
    exact hexact bandwidth (Nat.le_trans hscaled hword)

/-- In slow start the recommended settings pace at twice the bandwidth, as long as that is a word. -/
theorem rate_scales_below_half : let c := start {} 0
    (c.fixed = none ∧ (c.engaged = false ∨ c.hardware = none) ∧ c.maxRate ≤ Word.max64) ∧
    ∀ bandwidth ≤ 0x7fffffffffffffff, (c.update .slowStart bandwidth).rate = 2 * bandwidth := by
  obtain ⟨-, hscales, -⟩ :=
    rate_scales (c := start {} 0) rfl (.inl rfl) (Nat.le_refl _) .slowStart
  refine ⟨⟨rfl, .inl rfl, Nat.le_refl _⟩, fun bandwidth hle => ?_⟩
  have hword : bandwidth * 200 / 100 ≤ Word.max64 := by
    unfold Word.max64
    omega
  refine ((hscales bandwidth).mpr (.inl hword)).trans ?_
  change min (bandwidth * 200 / 100) Word.max64 = 2 * bandwidth
  omega

/-- One more byte a second, and the rate is zero instead of the greatest one. -/
theorem rate_wraps : let c := start {} 0
    c.fixed = none ∧ c.hardware = none ∧ 0 < c.percent .slowStart ∧
    0x8000000000000000 ≤ Word.max64 ∧
    (c.update .slowStart 0x7fffffffffffffff).rate = Word.max64 - 1 ∧
    (c.update .slowStart 0x8000000000000000).rate = 0 ∧
    min (0x8000000000000000 * c.percent .slowStart / 100) c.maxRate = Word.max64 := by
  decide

end PacingController

end LossRecovery
