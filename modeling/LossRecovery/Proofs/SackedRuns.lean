import Mathlib.Data.List.Chain
import LossRecovery.Proofs.Persistence

/-!
# `LossRecovery.Proofs.SackedRuns` — SACKed records are as long as they can be

Records that have arrived are joined only near the block that was just marked. That is enough: no two
SACKed records ever lie end to end, so wherever nothing was marked there is nothing to join, and no
other change of a scoreboard brings two of them together.

## Contents
- `Tiles.isChain_iff`: neighbours in a tiling are records of which one starts where the other stops.
- `Scoreboard.Apart`: no two neighbours are SACKed; `apart_of_sacked`, `Coherent.apart_release`,
  `Coherent.apart_mark` and their like: what each kind of change does to it.
- `isChain_coalesceFrom`, `covers_coalesceFrom`: what joining leaves.
- `persists_apart`, `Reachable.sacked_apart`: it holds in every state, which bounds how many records
  are SACKed.
-/

namespace LossRecovery

/-! ## Neighbours -/

/-- Neighbours in a tiling are the records of which one starts where the other stops. -/
theorem Tiles.isChain_iff {lo hi : Nat} {rs : List SendRecord}
    {R : SendRecord → SendRecord → Prop} (h : Tiles lo rs hi) :
    rs.IsChain R ↔ ∀ l ∈ rs, ∀ r ∈ rs, l.stop = r.start → R l r := by
  induction rs generalizing lo with
  | nil => simp
  | cons p rest ih =>
    obtain ⟨hs, hne, ht⟩ := h
    have hbounds := fun {q} hq => ht.bounds (r := q) hq
    rw [List.isChain_cons, ih ht]
    constructor
    · rintro ⟨hfirst, hrest⟩ l hl r hr hlr
      rcases List.mem_cons.mp hl with h1 | h1 <;> rcases List.mem_cons.mp hr with h2 | h2
      · subst h1 h2
        omega
      · -- What starts where the first record stops is the second one.
        subst h1
        cases rest with
        | nil => cases h2
        | cons q tail =>
          have hq : q = r := ht.eq_of_start List.mem_cons_self h2 (ht.1.trans hlr)
          exact hq ▸ hfirst q rfl
      · have h3 := hbounds h1
        subst h2
        omega
      · exact hrest l h1 r h2 hlr
    · intro hall
      refine ⟨?_, fun l hl r hr => hall l (List.mem_cons_of_mem _ hl) r (List.mem_cons_of_mem _ hr)⟩
      intro q hq
      have hmem := List.mem_of_mem_head? hq
      cases rest with
      | nil => cases hq
      | cons q' tail =>
        cases hq
        exact hall p List.mem_cons_self q (List.mem_cons_of_mem _ hmem) ht.1.symm

/-- Of two kinds in a row without two of the first kind together, the first is at most one ahead. -/
theorem countP_le_of_isChain {α : Type} {p : α → Bool} {l : List α}
    (h : l.IsChain fun a c => ¬ (p a = true ∧ p c = true)) :
    l.countP p ≤ l.countP (fun a => !p a) + 1 := by
  -- It is not ahead at all unless it begins.
  have both : l.countP p ≤ l.countP (fun a => !p a) + 1 ∧
      ((∀ a ∈ l.head?, p a = false) → l.countP p ≤ l.countP fun a => !p a) := by
    induction l with
    | nil => simp
    | cons a rest ih =>
      rw [List.isChain_cons] at h
      obtain ⟨hle, hlt⟩ := ih h.2
      cases ha : p a with
      | true =>
        have hrest := hlt fun c hc => by simpa [ha] using h.1 c hc
        simp [ha, hrest]
      | false =>
        simp [ha]
        omega
  exact both.1

namespace Scoreboard

variable {b b' : Scoreboard} {p q l r : SendRecord} {x : SeqRange}

/-- No two neighbours are both SACKed. -/
def Apart (b : Scoreboard) : Prop :=
  b.records.IsChain fun l r => ¬ (l.flags.sacked = true ∧ r.flags.sacked = true)

/-! ## Changes that join nothing -/

/-- Where all SACKed records were there before, none of them are brought together. -/
theorem apart_of_sacked (h : b.Coherent) (h' : b'.Coherent) (ha : b.Apart)
    (hold : ∀ p ∈ b'.records, p.flags.sacked = true → p ∈ b.records) : b'.Apart := by
  refine h'.tiles.isChain_iff.mpr fun l hl r hr hlr hboth => ?_
  exact h.tiles.isChain_iff.mp ha l (hold l hl hboth.1) r (hold r hr hboth.2) hlr hboth

theorem apart_modify (ha : b.Apart) {f : SendRecord → SendRecord} (hf : SendRecord.Relabels f) :
    (b.modify f).Apart := by
  refine (List.isChain_map f).mpr (List.IsChain.imp ?_ ha)
  intro l r hlr
  rwa [hf.sacked, hf.sacked]

namespace Coherent

theorem apart_release (h : b.Coherent) (ha : b.Apart) {edge : Nat} (hlo : b.una ≤ edge)
    (hhi : edge ≤ b.top) : (b.release edge).Apart := by
  have hkept : (b.release edge).records
      = (b.records.filter (edge < ·.stop)).map (·.above edge) := h.tiles.dropBelow_eq edge
  refine (h.release hlo hhi).tiles.isChain_iff.mpr ?_
  rw [hkept]
  intro l hl r hr hlr
  obtain ⟨l, hl', rfl⟩ := List.mem_map.mp hl
  obtain ⟨r, hr', rfl⟩ := List.mem_map.mp hr
  obtain ⟨hlb, hledge⟩ := List.mem_filter.mp hl'
  obtain ⟨hrb, -⟩ := List.mem_filter.mp hr'
  -- The upper one of two neighbours lies above the edge and was not trimmed.
  have hlr' : l.stop = max r.start edge := hlr
  have hledge' : edge < l.stop := of_decide_eq_true hledge
  exact h.tiles.isChain_iff.mp ha l hlb r hrb (by omega)

/-- What is sent again is missing, so that every SACKed record was left alone. -/
theorem apart_resendOnBoard (h : b.Coherent) (ha : b.Apart) (hx : x.start < x.stop) {fits : Bool}
    {flags : Flags} {afterTimeout : Bool} {now : Nat} :
    (Engine.resendOnBoard b x fits (Engine.resentRecord flags afterTimeout now)).Apart := by
  refine apart_of_sacked h (h.resendOnBoard hx) ha fun p hp hs => ?_
  -- The record of its lowest byte was SACKed before, and it is still there.
  have hne := ((h.resendOnBoard hx).tiles.bounds hp).2.1
  have hc : p.contains p.start = true := SendRecord.contains_iff.mpr ⟨Nat.le_refl _, hne⟩
  obtain ⟨r, hr, hcase⟩ := h.of_resendOnBoard hx
    (f := Engine.resentRecord flags afterTimeout now) (fun _ => rfl) (fun _ => rfl) ⟨hp, hc⟩
  have hsame : p.flags.sacked = r.flags.sacked := by
    rcases hcase with ⟨-, -, hpart, rfl⟩ | ⟨-, hpart⟩
    · exact hpart.sacked
    · exact hpart.sacked
  rw [hs] at hsame
  have hleft : ¬ (r.overlaps x && !r.isDelivered) = true := by
    rw [(h.records r hr.1).isDelivered, ← hsame]
    simp
  have hkept : r ∈ (Engine.resendOnBoard b x fits
      (Engine.resentRecord flags afterTimeout now)).records := by
    cases fits with
    | true => exact List.mem_flatMap.mpr ⟨r, hr.1, by rw [if_neg hleft]; exact List.mem_singleton_self r⟩
    | false => exact List.mem_map.mpr ⟨r, hr.1, if_neg hleft⟩
  rw [(h.resendOnBoard hx).tiles.eq_of_contains hp hkept hc hr.2]
  exact hr.1

theorem apart_append (h : b.Coherent) (ha : b.Apart) {flags : Flags} {now mark : Nat}
    (hx : x.start < x.stop) (hs : x.start = b.top) (hf : flags.IsFresh)
    (hb : b.append x flags now mark = .ok b') : b'.Apart := by
  refine apart_of_sacked h (h.append hx hs hf hb) ha ?_
  rcases append_eq_ok flags now mark hx hs with ⟨last, below, hrec, hcont, he⟩ | he
  · -- The record that grows is linked, so that it has not arrived.
    rw [he] at hb
    injection hb with hb
    rw [← hb]
    intro p hp hsacked
    rcases List.mem_append.mp hp with hp | hp
    · rw [hrec]
      exact List.mem_append_left _ hp
    · have hlast : last ∈ b.records := by
        rw [hrec]
        exact List.mem_append_right _ (List.mem_singleton_self last)
      have hlinked := (h.records last hlast).linked
      rw [(continuesBurst_iff.mp hcont).2.2.2.2.2] at hlinked
      rw [List.mem_singleton.mp hp] at hsacked
      have hsacked' : last.flags.sacked = true := hsacked
      rw [hsacked'] at hlinked
      cases hlinked
  · rw [he] at hb
    injection hb with hb
    rw [← hb]
    intro p hp hsacked
    rcases List.mem_append.mp hp with hp | hp
    · exact hp
    · rw [List.mem_singleton.mp hp] at hsacked
      cases hf.2.symm.trans hsacked

end Coherent

/-! ## Joining neighbours -/

section Joining

variable {near : SendRecord → Bool} {rest : List SendRecord}

/-- What a walk makes of its first record: that record, or one that began with a join. -/
theorem head_coalesceFrom (near : SendRecord → Bool) (l : SendRecord) (rest : List SendRecord) :
    ∃ p tail, (coalesceFrom near l rest).1 = p :: tail ∧
      (p = l ∨ near l = true ∧ l.isDelivered = true ∧ l.hole = false) := by
  induction rest generalizing l with
  | nil => exact ⟨l, [], rfl, .inl rfl⟩
  | cons r rest ih =>
    unfold coalesceFrom
    split
    · next hj =>
      obtain ⟨p, tail, he, -⟩ := ih (l.absorb r)
      simp only [SendRecord.canAbsorb, Bool.and_eq_true, Bool.not_eq_true'] at hj
      exact ⟨p, tail, he, .inr ⟨hj.1.1, hj.2.1.1.1, hj.2.1.2⟩⟩
    · exact ⟨l, _, rfl, .inl rfl⟩

/-- Of two neighbours that a walk leaves, one is not near, or they may not be joined. -/
theorem isChain_coalesceFrom (near : SendRecord → Bool) (l : SendRecord) (rest : List SendRecord) :
    (coalesceFrom near l rest).1.IsChain
      fun p q => ¬ (near p = true ∧ near q = true ∧ p.canAbsorb q = true) := by
  induction rest generalizing l with
  | nil => exact .singleton l
  | cons r rest ih =>
    unfold coalesceFrom
    split
    · exact ih (l.absorb r)
    · next hj =>
      obtain ⟨p, tail, he, hp⟩ := head_coalesceFrom near r rest
      have htail := ih r
      dsimp only
      rw [he] at htail ⊢
      refine List.isChain_cons_cons.mpr ⟨?_, htail⟩
      rintro ⟨hl, hnear, habsorb⟩
      -- The record joined to `r` is no excuse: `r` itself could have been joined to `l`.
      apply hj
      rw [hl, Bool.true_and, Bool.and_eq_true]
      rcases hp with rfl | ⟨hr, hdelivered, hhole⟩
      · exact ⟨hnear, habsorb⟩
      · simp only [SendRecord.canAbsorb, Bool.and_eq_true] at habsorb ⊢
        exact ⟨hr, ⟨⟨habsorb.1.1.1, hdelivered⟩, habsorb.1.2⟩, by simp [hhole]⟩

/-- Every record is covered by one that the walk leaves. -/
theorem covers_coalesceFrom {lo hi : Nat} (ht : Tiles lo (l :: rest) hi) (hq : q ∈ l :: rest) :
    ∃ p ∈ (coalesceFrom near l rest).1, p.start ≤ q.start ∧ q.stop ≤ p.stop := by
  induction rest generalizing lo l q with
  | nil =>
    rw [List.mem_singleton.mp hq]
    exact ⟨l, List.mem_singleton_self l, Nat.le_refl _, Nat.le_refl _⟩
  | cons r rest ih =>
    obtain ⟨hls, hlne, hrs, hrne, htail⟩ := ht
    unfold coalesceFrom
    split
    · -- The join of two records covers both of them.
      have hjoined : ∀ q : SendRecord, l.start ≤ q.start → q.stop ≤ r.stop → ∃ p ∈
          (coalesceFrom near (l.absorb r) rest).1, p.start ≤ q.start ∧ q.stop ≤ p.stop := by
        intro q h1 h2
        obtain ⟨p, hp, hstart, hstop⟩ := ih (l := l.absorb r) (q := l.absorb r)
          ⟨hls, by show l.start < r.stop; omega, htail⟩ List.mem_cons_self
        exact ⟨p, hp, Nat.le_trans hstart h1, Nat.le_trans h2 hstop⟩
      rcases List.mem_cons.mp hq with rfl | hq
      · exact hjoined q (Nat.le_refl _) (by omega)
      · rcases List.mem_cons.mp hq with rfl | hq
        · exact hjoined q (by omega) (Nat.le_refl _)
        · exact ih (l := l.absorb r) ⟨hls, by show l.start < r.stop; omega, htail⟩
            (List.mem_cons_of_mem _ hq)
    · rcases List.mem_cons.mp hq with rfl | hq
      · exact ⟨q, List.mem_cons_self, Nat.le_refl _, Nat.le_refl _⟩
      · obtain ⟨p, hp, hcover⟩ := ih (l := r) ⟨hrs, hrne, htail⟩ hq
        exact ⟨p, List.mem_cons_of_mem _ hp, hcover⟩

end Joining

namespace Coherent

/-- A SACKed record may be joined to another one that follows it. -/
theorem canAbsorb_of_sacked (h : b.Coherent) (hl : l ∈ b.records) (hr : r ∈ b.records)
    (hls : l.flags.sacked = true) (hrs : r.flags.sacked = true) : l.canAbsorb r = true := by
  have hole : ∀ q ∈ b.records, q.flags.sacked = true → q.hole = false := by
    intro q hq hs
    rw [Bool.eq_false_iff]
    intro hh
    rw [((h.records q hq).hole hh).1] at hs
    cases hs
  simp [SendRecord.canAbsorb, (h.records l hl).isDelivered, (h.records r hr).isDelivered, hls, hrs,
    hole l hl hls, hole r hr hrs]

/-- Joining leaves no two SACKed neighbours that both overlap the interval. -/
theorem far_of_coalesce (h : b.Coherent) (hl : l ∈ (b.coalesce x).1.records)
    (hr : r ∈ (b.coalesce x).1.records) (hlr : l.stop = r.start) (hls : l.flags.sacked = true)
    (hrs : r.flags.sacked = true) : ¬ (l.overlaps x = true ∧ r.overlaps x = true) := by
  have h' := h.coalesce x
  have habsorb := h'.canAbsorb_of_sacked hl hr hls hrs
  have hchain : (b.coalesce x).1.records.IsChain
      fun p q => ¬ (p.overlaps x = true ∧ q.overlaps x = true ∧ p.canAbsorb q = true) := by
    show (coalesceRecords (·.overlaps x) b.records).1.IsChain _
    cases b.records with
    | nil => exact .nil
    | cons l rest => exact isChain_coalesceFrom _ l rest
  rintro ⟨hlx, hrx⟩
  exact h'.tiles.isChain_iff.mp hchain l hl r hr hlr ⟨hlx, hrx, habsorb⟩

/-- Every record lies in one that joining leaves. -/
theorem covers_coalesce (h : b.Coherent) (hq : q ∈ b.records) :
    ∃ p ∈ (b.coalesce x).1.records, p.start ≤ q.start ∧ q.stop ≤ p.stop := by
  show ∃ p ∈ (coalesceRecords (·.overlaps x) b.records).1, _
  have ht := h.tiles
  cases hrec : b.records with
  | nil =>
    rw [hrec] at hq
    cases hq
  | cons l rest =>
    rw [hrec] at hq ht
    exact covers_coalesceFrom ht hq

/-- Where no two neighbours are SACKed, two SACKed bytes next to each other lie in one record. -/
theorem exists_sacked_around (h : b.Coherent) (ha : b.Apart) {seq : Nat} (hpos : 0 < seq)
    (hbelow : b.sackedAt (seq - 1) = true) (hat : b.sackedAt seq = true) :
    ∃ p ∈ b.records, p.flags.sacked = true ∧ p.start < seq ∧ seq < p.stop := by
  obtain ⟨hlow, htop⟩ := h.bounds_of_sackedAt hbelow
  obtain ⟨hlow', htop'⟩ := h.bounds_of_sackedAt hat
  obtain ⟨p, hp⟩ := h.exists_holds hlow htop
  obtain ⟨q, hq⟩ := h.exists_holds hlow' htop'
  rw [h.sackedAt_eq hp] at hbelow
  rw [h.sackedAt_eq hq] at hat
  have hpb := SendRecord.contains_iff.mp hp.2
  have hqb := SendRecord.contains_iff.mp hq.2
  refine ⟨p, hp.1, hbelow, by omega, ?_⟩
  -- Otherwise the record above would be its neighbour.
  by_contra hend
  have hpq : p.stop = q.start := by
    by_contra hne
    have := h.tiles.eq_of_contains hp.1 hq.1 hp.2 (SendRecord.contains_iff.mpr (by omega))
    subst this
    omega
  exact h.tiles.isChain_iff.mp ha p hp.1 q hq.1 hpq ⟨hbelow, hat⟩

/-- Marking a block leaves no two SACKed neighbours. Around the block they are joined, and further
away they were one record before. -/
theorem apart_mark (h : b.Coherent) (ha : b.Apart) (hx : x.start < x.stop) (hlo : b.una ≤ x.start)
    (hhi : x.stop ≤ b.top) (now : Nat) :
    ((b.carveMissing x (AckPass.sackedRecord now)).coalesce ⟨x.start - 1, x.stop + 1⟩).1.Apart := by
  have hcarved := h.sack hx now
  have hjoined := hcarved.coalesce ⟨x.start - 1, x.stop + 1⟩
  refine hjoined.tiles.isChain_iff.mpr ?_
  rintro l hl r hr hlr ⟨hls, hrs⟩
  have hlb := (hjoined.tiles.bounds hl).2.1
  have hrb := (hjoined.tiles.bounds hr).2.1
  have hfar := hcarved.far_of_coalesce hl hr hlr hls hrs
  rw [SendRecord.overlaps_iff hlb (by dsimp only; omega),
    SendRecord.overlaps_iff hrb (by dsimp only; omega)] at hfar
  dsimp only at hfar
  -- The last byte of the one and the first byte of the other, none of which lies in the block.
  have hlast : l.contains (r.start - 1) = true := SendRecord.contains_iff.mpr (by omega)
  have hfirst : r.contains r.start = true := SendRecord.contains_iff.mpr (by omega)
  have old : ∀ {seq p}, p ∈ ((b.carveMissing x (AckPass.sackedRecord now)).coalesce
      ⟨x.start - 1, x.stop + 1⟩).1.records → p.contains seq = true → p.flags.sacked = true →
      x.contains seq = false → b.sackedAt seq = true := by
    intro seq p hp hc hs hout
    have hat := hjoined.sackedAt_eq ⟨hp, hc⟩
    rwa [hs, hcarved.sackedAt_coalesce, h.sackedAt_sack hx hlo hhi, hout, Bool.or_false] at hat
  have hout : x.contains (r.start - 1) = false ∧ x.contains r.start = false := by
    simp only [Bool.eq_false_iff, Ne, SeqRange.contains_iff]
    omega
  -- One SACKed record held both bytes. It was left alone, and what covers it holds both bytes too.
  obtain ⟨p, hp, hps, hpl, hpr⟩ := h.exists_sacked_around ha (by omega) (old hl hlast hls hout.1)
    (old hr hfirst hrs hout.2)
  have hkept : p ∈ (b.carveMissing x (AckPass.sackedRecord now)).records := by
    refine List.mem_flatMap.mpr ⟨p, hp, ?_⟩
    rw [if_neg (by rw [(h.records p hp).isDelivered, hps]; simp)]
    exact List.mem_singleton_self p
  obtain ⟨c, hc, hstart, hstop⟩ := hcarved.covers_coalesce (x := ⟨x.start - 1, x.stop + 1⟩) hkept
  have hcl := hjoined.tiles.eq_of_contains hc hl
    (show c.contains (r.start - 1) = true from SendRecord.contains_iff.mpr (by omega)) hlast
  have hcr := hjoined.tiles.eq_of_contains hc hr
    (show c.contains r.start = true from SendRecord.contains_iff.mpr (by omega)) hfirst
  rw [← hcl, ← hcr] at hlr
  have hcb := (hjoined.tiles.bounds hc).2.1
  omega

end Coherent

/-- Nothing an engine does to a scoreboard brings SACKed records together. -/
theorem persists_apart (now : Nat) : Persists now Apart where
  relabel _ hf ha := apart_modify ha hf
  release h hlo hhi ha := h.apart_release ha (Nat.le_of_lt hlo) hhi
  mark h hx hlo hhi ha := h.apart_mark ha hx hlo hhi now
  resend _ _ h hx ha := h.apart_resendOnBoard ha hx
  append h hx hs hf hb ha := h.apart_append ha hx hs hf hb

end Scoreboard

namespace Engine

variable {κ : Type} [CongestionLaw κ] {g : Engine κ} {first : Nat}

/-- No two neighbours are both SACKed, so that the SACKed records are at most one more than the
others. -/
theorem Reachable.sacked_apart (h : g.Reachable first) :
    (g.board.records.IsChain fun l r => ¬ (l.flags.sacked = true ∧ r.flags.sacked = true)) ∧
    g.board.records.countP (·.flags.sacked) ≤ g.board.records.countP (!·.flags.sacked) + 1 := by
  have hapart : g.board.Apart := (h.persists Scoreboard.persists_apart fun _ => .nil).2
  exact ⟨hapart, countP_le_of_isChain hapart⟩

/-- Two blocks that meet are joined, also where they were parts of other records. The third block
lies apart. -/
theorem sacked_apart_after_sacks : ∃ g : Engine FixedWindow,
    (g.Reachable 0 ∧ g.board.records.map (fun r => (r.start, r.stop, r.flags.sacked))
      = [(0, 1000, false), (1000, 2920, true), (2920, 4000, false), (4000, 4380, true)]) ∧
    (g.board.records.IsChain fun l r => ¬ (l.flags.sacked = true ∧ r.flags.sacked = true)) ∧
    g.board.records.countP (·.flags.sacked) ≤ g.board.records.countP (!·.flags.sacked) + 1 := by
  have started : Engine.start {} (FixedWindow.ofSettings {}) .discard 0 0 = .ok _ := rfl
  have first := (Reachable.start started).step (.send ⟨0, 1460⟩ {} 0 ⟨rfl, rfl⟩)
  have second := first.step (.send ⟨1460, 4380⟩ {} 10 ⟨rfl, rfl⟩)
  have sacked := second.step (.ack { cumulative := 0, blocks := [⟨1460, 2920⟩] } 50)
  have met := sacked.step (.ack { cumulative := 0, blocks := [⟨1000, 1460⟩, ⟨4000, 4380⟩] } 60)
  exact ⟨_, ⟨met, by decide +kernel⟩, Reachable.sacked_apart met⟩

end Engine

end LossRecovery
