import LossRecovery.Goodput
import Mathlib.Order.Basic

/-!
# `LossRecovery.Proofs.GoodputWindows` — what the ring of an estimator stands for

The ring is written in turn and read up to a count that stops at its maximum, so neither the place nor
the count alone says which samples it holds. Seen from the latest sample backwards it is simple: the
sample that is `i` places back stands `i` slots before the next one to be written, as long as `i` is less
than the size of the ring. All else an estimator knows is about the latest call that opened a window.

## Contents
- `Delivery`, `samples`, `LastOpening`: the calls of an estimator, the samples they returned, and the call
  that opened the current window; `opening?`: that call, computed.
- `Kept ring values`: the latest values stand in the ring; `Kept.set`, `Kept.mem_take_iff`.
- `Fed`: the estimators of all runs; `Follows`: what an estimator knows about its run.
- `Fed.measures`: the bandwidth, the count, the blended RTT, and what every sample covers.
-/

namespace LossRecovery

namespace GoodputEstimator

/-! ## Calls -/

/-- One call, and the sample that it returned. -/
structure Delivery where
  delivered : Nat
  appLimited : Bool
  rtt : Nat
  phase : Phase
  now : Nat
  sample? : Option GoodputSample

/-- The samples that were returned. Calls and samples are listed latest first. -/
def samples (log : List Delivery) : List GoodputSample := log.filterMap (·.sample?)

/-- The bandwidths of the samples. -/
def bandwidths (log : List Delivery) : List Nat := (samples log).map (·.bandwidth)

/-- The RTTs that were told in the calls that closed a window. -/
def closingRtts (log : List Delivery) : List Nat :=
  (log.filter (·.sample?.isSome)).map (·.rtt)

theorem closingRtts_eq_nil_iff {log : List Delivery} : closingRtts log = [] ↔ samples log = [] := by
  simp [closingRtts, samples, List.filter_eq_nil_iff, List.filterMap_eq_nil_iff]

/-- Whether the call opens a window after the older ones: the first call does, one of a sender without
data, and one that closes a window. -/
def Delivery.Opens (d : Delivery) (older : List Delivery) : Prop :=
  d.appLimited = true ∨ d.sample?.isSome = true ∨ older = []

instance (d : Delivery) (older : List Delivery) : Decidable (d.Opens older) :=
  inferInstanceAs (Decidable (_ ∨ _ ∨ _))

/-- The call `o` opened a window, and no call since then did. -/
def LastOpening (log : List Delivery) (o : Delivery) : Prop :=
  ∃ between older, log = between ++ o :: older ∧ o.Opens older ∧
    ∀ b ∈ between, b.appLimited = false ∧ b.sample? = none

/-- The latest call that opened a window. -/
def opening? : List Delivery → Option Delivery
  | [] => none
  | d :: older => if d.Opens older then some d else opening? older

theorem Delivery.not_opens_iff {d : Delivery} {older : List Delivery} :
    ¬ d.Opens older ↔ (d.appLimited = false ∧ d.sample? = none) ∧ older ≠ [] := by
  simp [Opens, and_assoc]

variable {log older : List Delivery} {d o : Delivery}

theorem opening?_eq_none_iff : opening? log = none ↔ log = [] := by
  induction log with
  | nil => simp [opening?]
  | cons d older ih =>
    by_cases h : d.Opens older
    · simp [opening?, h]
    · simpa [opening?, h, ih] using (Delivery.not_opens_iff.mp h).2

theorem lastOpening_iff : LastOpening log o ↔ opening? log = some o := by
  induction log with
  | nil => simp [LastOpening, opening?]
  | cons d older ih =>
    by_cases h : d.Opens older
    · simp only [opening?, h, if_true, Option.some.injEq]
      constructor
      · rintro ⟨between, rest, hlog, -, hbetween⟩
        -- A call in front of the opening one would be `d`, which opens a window itself.
        cases between with
        | nil => exact (List.cons.inj hlog).1
        | cons b between =>
          obtain ⟨rfl, rfl⟩ := List.cons.inj hlog
          have hquiet := hbetween _ (List.mem_cons_self ..)
          exact absurd h (Delivery.not_opens_iff.mpr ⟨hquiet, by simp⟩)
      · rintro rfl
        exact ⟨[], older, rfl, h, by simp⟩
    · simp only [opening?, h, if_false]
      rw [← ih]
      constructor
      · rintro ⟨between, rest, hlog, hopens, hbetween⟩
        cases between with
        | nil =>
          obtain ⟨rfl, rfl⟩ := List.cons.inj hlog
          exact absurd hopens h
        | cons b between =>
          obtain ⟨rfl, rfl⟩ := List.cons.inj hlog
          exact ⟨between, rest, rfl, hopens, fun x hx => hbetween x (List.mem_cons_of_mem _ hx)⟩
      · rintro ⟨between, rest, rfl, hopens, hbetween⟩
        refine ⟨d :: between, rest, rfl, hopens, ?_⟩
        intro x hx
        rcases List.mem_cons.mp hx with rfl | hx
        · exact (Delivery.not_opens_iff.mp h).1
        · exact hbetween x hx

/-! ## The ring -/

variable {ring : Vector Nat goodputRingSize} {values : List Nat} {bandwidth : Nat}

/-- As many of the values as the ring has slots stand in it, in front of the next slot to be written. -/
def Kept (ring : Vector Nat goodputRingSize) (values : List Nat) : Prop :=
  ∀ i b, i < goodputRingSize → values[i]? = some b →
    ring[(values.length - 1 - i) % goodputRingSize]? = some b

/-- The slot that is written held a value that is too old by now. -/
theorem Kept.set (h : Kept ring values) {next : Fin goodputRingSize}
    (hnext : next.val = values.length % goodputRingSize) (bandwidth : Nat) :
    Kept (ring.set next bandwidth) (bandwidth :: values) := by
  intro i b hi hb
  have hbound := next.isLt
  rw [List.length_cons, Vector.getElem?_set]
  cases i with
  | zero =>
    have hslot : next.val = (values.length + 1 - 1 - 0) % goodputRingSize := hnext
    rw [if_pos hslot]
    simpa using hb
  | succ i =>
    have hb : values[i]? = some b := by simpa using hb
    have hlt := (List.getElem?_eq_some_iff.mp hb).1
    have hslot : (values.length + 1 - 1 - (i + 1)) % goodputRingSize
        = (values.length - 1 - i) % goodputRingSize := by congr 1; omega
    rw [hslot, if_neg (by unfold goodputRingSize at *; omega)]
    exact h i b (by omega) hb

/-- Up to the count, wherever it stopped, the ring holds exactly the latest values. -/
theorem Kept.mem_take_iff (h : Kept ring values) :
    bandwidth ∈ ring.toList.take (min values.length maxMeasurements)
      ↔ bandwidth ∈ values.take goodputRingSize := by
  simp only [List.mem_take_iff_getElem, Vector.getElem_toList, Vector.length_toList]
  constructor
  · rintro ⟨j, hj, rfl⟩
    -- The value in slot `j` is the one that was written there last.
    have hi : (values.length - 1 - j) % goodputRingSize < values.length := by
      unfold goodputRingSize maxMeasurements at *
      omega
    have hslot : (values.length - 1 - (values.length - 1 - j) % goodputRingSize) % goodputRingSize
        = j := by
      unfold goodputRingSize maxMeasurements at *
      omega
    have hkept := h _ _ (Nat.mod_lt _ (by decide)) (List.getElem?_eq_getElem hi)
    rw [hslot] at hkept
    refine ⟨(values.length - 1 - j) % goodputRingSize, ?_, ?_⟩
    · unfold goodputRingSize at *
      omega
    · exact (Vector.getElem?_eq_some_iff.mp hkept).2.symm
  · rintro ⟨i, hi, rfl⟩
    have hkept := h i _ (by omega) (List.getElem?_eq_getElem (by omega))
    obtain ⟨hslot, heq⟩ := Vector.getElem?_eq_some_iff.mp hkept
    refine ⟨(values.length - 1 - i) % goodputRingSize, ?_, heq⟩
    unfold goodputRingSize maxMeasurements at *
    omega

/-! ## Runs -/

/-- The window that the call opens. -/
def Delivery.window (d : Delivery) : GoodputWindow := ⟨d.delivered, d.now, d.phase⟩

/-- The answer to a call. -/
def call (g : GoodputEstimator) (d : Delivery) : GoodputEstimator × Option GoodputSample :=
  g.deliver d.delivered d.appLimited d.rtt d.phase d.now

/-- An estimator after any calls, listed latest first with the samples they returned. -/
inductive Fed (minBytes decay : Nat) : List Delivery → GoodputEstimator → Prop
  | start : Fed minBytes decay [] (start minBytes decay)
  | deliver {log : List Delivery} {g : GoodputEstimator} (before : Fed minBytes decay log g)
      (d : Delivery) (answer : (g.call d).2 = d.sample?) : Fed minBytes decay (d :: log) (g.call d).1

variable {minBytes decay : Nat} {g : GoodputEstimator}

/-- What an estimator knows about its run: the window is the one opened last, the counters follow the
number of samples, and the ring holds the latest of them. The blended RTT lies within all bounds that hold
for the RTTs it was blended from. -/
structure Follows (minBytes decay : Nat) (log : List Delivery) (g : GoodputEstimator) : Prop where
  window : g.window = (opening? log).map Delivery.window
  count : g.measurements = min (bandwidths log).length maxMeasurements
  next : g.next.val = (bandwidths log).length % goodputRingSize
  kept : Kept g.ring (bandwidths log)
  least : g.minBytes = max minBytes 1
  weight : g.decay = max decay 1
  blended : ∀ low high, (∀ x ∈ closingRtts log, low ≤ x ∧ x ≤ high) →
    ∀ v ∈ g.smoothedRtt, low ≤ v ∧ v ≤ high
  unblended : g.smoothedRtt = none ↔ closingRtts log = []

theorem Follows.start (minBytes decay : Nat) : Follows minBytes decay [] (start minBytes decay) := by
  refine ⟨rfl, rfl, rfl, ?_, rfl, rfl, ?_, ?_⟩
  · intro i b _ hb
    simp [bandwidths, samples] at hb
  · intro low high _ v hv
    simp [GoodputEstimator.start] at hv
  · simp [GoodputEstimator.start, closingRtts]

/-- A call opens a window without a sample, leaves the window as it is, or closes it with a sample. -/
theorem call_cases (hwindow : g.window = (opening? log).map Delivery.window) (d : Delivery) :
    (g.call d = (g.reopen d.delivered d.phase d.now, none) ∧ (d.appLimited = true ∨ log = [])) ∨
    (∃ o, opening? log = some o ∧ d.appLimited = false ∧
      (d.delivered - o.delivered < g.minBytes ∨ d.now ≤ o.now) ∧ g.call d = (g, none)) ∨
    ∃ o, opening? log = some o ∧ d.appLimited = false ∧
      g.minBytes ≤ d.delivered - o.delivered ∧ o.now < d.now ∧
      g.call d = ((g.close (rate (d.delivered - o.delivered) (d.now - o.now)) d.rtt).reopen d.delivered
          d.phase d.now,
        some ⟨rate (d.delivered - o.delivered) (d.now - o.now), o.phase,
          g.measurements = maxMeasurements⟩) := by
  unfold call deliver
  cases hopening : opening? log with
  | none =>
    rw [hwindow, hopening]
    exact .inl ⟨rfl, .inr (opening?_eq_none_iff.mp hopening)⟩
  | some o =>
    rw [hwindow, hopening]
    cases hlimited : d.appLimited with
    | true => exact .inl ⟨rfl, .inl rfl⟩
    | false =>
      by_cases hshort : d.delivered - o.delivered < g.minBytes ∨ d.now - o.now = 0
      · refine .inr (.inl ⟨o, rfl, rfl, by omega, ?_⟩)
        simp [Delivery.window, Time.since, hshort]
      · refine .inr (.inr ⟨o, rfl, rfl, by omega, by omega, ?_⟩)
        simp [Delivery.window, Time.since, hshort]

/-! ## The effect of a call -/

/-- The blend of two numbers stays between the bounds of both, whatever is rounded off. -/
theorem blended_within {blended rtt decay low high : Nat} (hdecay : 0 < decay)
    (hblended : low ≤ blended ∧ blended ≤ high) (hrtt : low ≤ rtt ∧ rtt ≤ high) :
    low ≤ (blended * (decay - 1) + rtt) / decay ∧ (blended * (decay - 1) + rtt) / decay ≤ high := by
  obtain ⟨history, rfl⟩ : ∃ history, decay = history + 1 := ⟨decay - 1, by omega⟩
  rw [Nat.add_sub_cancel]
  constructor
  · rw [Nat.le_div_iff_mul_le hdecay]
    calc low * (history + 1) = low * history + low := Nat.mul_succ _ _
      _ ≤ blended * history + rtt := Nat.add_le_add (Nat.mul_le_mul_right _ hblended.1) hrtt.1
  · apply Nat.div_le_of_le_mul
    calc blended * history + rtt ≤ high * history + high :=
          Nat.add_le_add (Nat.mul_le_mul_right _ hblended.2) hrtt.2
      _ = (history + 1) * high := by rw [Nat.mul_comm, Nat.succ_mul]

section Effect

variable (h : Follows minBytes decay log g)
include h

/-- Without a sample, only the window may change. -/
theorem Follows.unsampled (hsample : d.sample? = none) {window : Option GoodputWindow}
    (hwindow : window = (opening? (d :: log)).map Delivery.window) :
    Follows minBytes decay (d :: log) { g with window := window } := by
  have hsamples : samples (d :: log) = samples log := by simp [samples, hsample]
  have hrtts : closingRtts (d :: log) = closingRtts log := by simp [closingRtts, hsample]
  have hbandwidths : bandwidths (d :: log) = bandwidths log :=
    congrArg (List.map GoodputSample.bandwidth) hsamples
  refine ⟨hwindow, ?_, ?_, ?_, h.least, h.weight, ?_, ?_⟩
  · rw [hbandwidths]
    exact h.count
  · rw [hbandwidths]
    exact h.next
  · rw [hbandwidths]
    exact h.kept
  · rw [hrtts]
    exact h.blended
  · rw [hrtts]
    exact h.unblended

theorem Follows.blend (bandwidth : Nat) {rtt low high v : Nat} (hrtt : low ≤ rtt ∧ rtt ≤ high)
    (hall : ∀ x ∈ closingRtts log, low ≤ x ∧ x ≤ high)
    (hv : v ∈ (g.close bandwidth rtt).smoothedRtt) : low ≤ v ∧ v ≤ high := by
  unfold close at hv
  cases hsmoothed : g.smoothedRtt with
  | none =>
    simp only [hsmoothed, Option.mem_def, Option.some.injEq] at hv
    exact hv ▸ hrtt
  | some blended =>
    simp only [hsmoothed, Option.mem_def, Option.some.injEq] at hv
    have hweight : 0 < g.decay := by
      rw [h.weight]
      omega
    exact hv ▸ blended_within hweight (h.blended low high hall blended hsmoothed) hrtt

/-- A sample takes the next slot of the ring. -/
theorem Follows.sampled {s : GoodputSample} (hsample : d.sample? = some s) :
    Follows minBytes decay (d :: log)
      ((g.close s.bandwidth d.rtt).reopen d.delivered d.phase d.now) := by
  have hbandwidths : bandwidths (d :: log) = s.bandwidth :: bandwidths log := by
    simp [bandwidths, samples, hsample]
  have hrtts : closingRtts (d :: log) = d.rtt :: closingRtts log := by simp [closingRtts, hsample]
  have hopens : d.Opens log := .inr (.inl (by simp [hsample]))
  refine ⟨?_, ?_, ?_, ?_, h.least, h.weight, ?_, ?_⟩
  · simp [opening?, hopens, reopen, Delivery.window]
  · have hcount := h.count
    simp only [reopen, close, hbandwidths, List.length_cons, hcount]
    omega
  · have hnext := h.next
    simp only [reopen, close, hbandwidths, List.length_cons, Fin.val_add, hnext]
    exact Nat.mod_add_mod ..
  · rw [hbandwidths]
    exact h.kept.set h.next s.bandwidth
  · intro low high hall v hv
    rw [hrtts] at hall
    obtain ⟨hrtt, hall⟩ := List.forall_mem_cons.mp hall
    exact h.blend s.bandwidth hrtt hall hv
  · rw [hrtts]
    simp only [reopen, close, reduceCtorEq, iff_false]
    split <;> simp

theorem Follows.call (answer : (g.call d).2 = d.sample?) :
    Follows minBytes decay (d :: log) (g.call d).1 := by
  rcases call_cases h.window d with ⟨hcall, hopens⟩ | ⟨o, ho, hlimited, -, hcall⟩ |
      ⟨o, ho, hlimited, -, -, hcall⟩
  · rw [hcall] at answer ⊢
    have hopens : d.Opens log := hopens.imp_right .inr
    apply h.unsampled answer.symm
    simp [opening?, hopens, Delivery.window]
  · rw [hcall] at answer ⊢
    have hlog : log ≠ [] := by
      rintro rfl
      cases ho
    have hquiet : ¬ d.Opens log := Delivery.not_opens_iff.mpr ⟨⟨hlimited, answer.symm⟩, hlog⟩
    apply h.unsampled answer.symm
    simpa [opening?, hquiet] using h.window
  · rw [hcall] at answer ⊢
    exact h.sampled answer.symm

/-- A call returns a sample if it closes the window that was opened last, and the sample is that of this
window. -/
theorem Follows.sample?_iff (answer : (g.call d).2 = d.sample?) {s : GoodputSample} :
    d.sample? = some s ↔ ∃ o, LastOpening log o ∧ d.appLimited = false ∧
      max minBytes 1 ≤ d.delivered - o.delivered ∧ o.now < d.now ∧
      s = ⟨Word.wrap ((d.delivered - o.delivered) * Time.second / (d.now - o.now)), o.phase,
        decide (255 ≤ (samples log).length)⟩ := by
  have hsaturated : decide (g.measurements = maxMeasurements) = decide (255 ≤ (samples log).length) := by
    rw [h.count, decide_eq_decide]
    simp only [bandwidths, maxMeasurements, List.length_map]
    omega
  rw [← h.least, ← answer]
  simp only [lastOpening_iff]
  rcases call_cases h.window d with ⟨hcall, hopens⟩ | ⟨o, ho, hlimited, hshort, hcall⟩ |
      ⟨o, ho, hlimited, hbytes, htime, hcall⟩
  · simp only [hcall, reduceCtorEq, false_iff]
    rintro ⟨o, ho, hlimited, -⟩
    rcases hopens with happ | rfl
    · simp [happ] at hlimited
    · cases ho
  · simp only [hcall, reduceCtorEq, false_iff]
    rintro ⟨o', ho', -, hbytes, htime, -⟩
    obtain rfl : o = o' := Option.some.inj (ho.symm.trans ho')
    omega
  · simp only [hcall, Option.some.injEq, hsaturated]
    constructor
    · rintro rfl
      exact ⟨o, ho, hlimited, hbytes, htime, rfl⟩
    · rintro ⟨o', ho', -, -, -, rfl⟩
      obtain rfl : o = o' := Option.some.inj (ho.symm.trans ho')
      rfl

end Effect

theorem Fed.follows (h : Fed minBytes decay log g) : Follows minBytes decay log g := by
  induction h with
  | start => exact .start minBytes decay
  | deliver _ d answer ih => exact ih.call answer

/-- What was fed before a call is a run of its own. -/
theorem Fed.before {newer : List Delivery} (h : Fed minBytes decay (newer ++ d :: older) g) :
    ∃ g', Fed minBytes decay older g' ∧ (g'.call d).2 = d.sample? := by
  induction newer generalizing g with
  | nil =>
    cases h with
    | deliver before _ answer => exact ⟨_, before, answer⟩
  | cons _ _ ih =>
    cases h with
    | deliver before _ _ => exact ih before

/-! ## Measurements -/

/-- The highest of a list depends on its elements alone. -/
theorem max?_congr {xs ys : List Nat} (h : ∀ b, b ∈ xs ↔ b ∈ ys) : xs.max? = ys.max? := by
  apply Option.ext
  intro b
  simp only [List.max?_eq_some_iff, h]

/-- The bandwidth is the highest of the latest eight samples, and there is none without samples. Samples
are counted up to 255 and marked from the next one on. The blended RTT lies between the RTTs of the calls
that closed a window. A call returns a sample if and only if data was never short since a window was
opened last and enough was delivered since then, and the sample covers just that time. -/
theorem Fed.measures (h : Fed minBytes decay log g) :
    g.bandwidth? = (((samples log).map (·.bandwidth)).take 8).max? ∧
    g.measurements = min (samples log).length 255 ∧
    (samples log = [] → g.smoothedRtt = none) ∧
    (∀ least greatest, (closingRtts log).min? = some least → (closingRtts log).max? = some greatest →
      ∃ v, g.smoothedRtt = some v ∧ least ≤ v ∧ v ≤ greatest) ∧
    ∀ newer d older, log = newer ++ d :: older → ∀ s, d.sample? = some s ↔
      ∃ o, LastOpening older o ∧ d.appLimited = false ∧
        max minBytes 1 ≤ d.delivered - o.delivered ∧ o.now < d.now ∧
        s = ⟨Word.wrap ((d.delivered - o.delivered) * Time.second / (d.now - o.now)), o.phase,
          decide (255 ≤ (samples older).length)⟩ := by
  have hfollows := h.follows
  refine ⟨?_, ?_, ?_, ?_, ?_⟩
  · apply max?_congr
    intro b
    rw [hfollows.count]
    exact hfollows.kept.mem_take_iff
  · simpa [bandwidths, maxMeasurements] using hfollows.count
  · intro hsamples
    exact hfollows.unblended.mpr (closingRtts_eq_nil_iff.mpr hsamples)
  · intro least greatest hleast hgreatest
    obtain ⟨hmem, hleast⟩ := List.min?_eq_some_iff.mp hleast
    obtain ⟨-, hgreatest⟩ := List.max?_eq_some_iff.mp hgreatest
    have hsome : g.smoothedRtt ≠ none :=
      mt hfollows.unblended.mp (List.ne_nil_of_mem hmem)
    obtain ⟨v, hv⟩ := Option.ne_none_iff_exists'.mp hsome
    exact ⟨v, hv, hfollows.blended least greatest (fun x hx => ⟨hleast x hx, hgreatest x hx⟩) v hv⟩
  · rintro newer d older rfl s
    obtain ⟨g', hbefore, answer⟩ := h.before
    exact hbefore.follows.sample?_iff answer

/-- Deliveries of a sender without data begin the second window anew, after which it takes the place of
the slower first one. -/
theorem measures_after_restart : ∃ closing older g, Fed 1000 8 (closing :: older) g ∧
    g.bandwidth? = some 2000 ∧ g.measurements = 2 ∧
    (∃ v, g.smoothedRtt = some v ∧ 20 ≤ v ∧ v ≤ 60) ∧
    closing.sample? = some ⟨2000, .congestionAvoidance, false⟩ ∧
    ∃ o, LastOpening older o ∧ 1000 ≤ closing.delivered - o.delivered ∧ o.now < closing.now := by
  have one : Fed 1000 8 _ _ := .deliver .start ⟨0, false, 10, .slowStart, 0, none⟩ rfl
  have two := one.deliver
    ⟨1000, false, 20, .slowStart, Time.second, some ⟨1000, .slowStart, false⟩⟩ rfl
  have three := two.deliver ⟨1500, true, 40, .congestionAvoidance, 2 * Time.second, none⟩ rfl
  have four := three.deliver
    ⟨3500, false, 60, .recovery, 3 * Time.second, some ⟨2000, .congestionAvoidance, false⟩⟩ (by decide)
  obtain ⟨hbandwidth, hcount, -, hrtt, hsamples⟩ := four.measures
  obtain ⟨o, hopening, -, hbytes, htime, -⟩ := (hsamples [] _ _ rfl _).mp rfl
  exact ⟨_, _, _, four, hbandwidth, hcount, hrtt 20 60 rfl rfl, rfl, o, hopening, hbytes, htime⟩

end GoodputEstimator

end LossRecovery
