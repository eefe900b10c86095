import LossRecovery.Proofs.BoardOperations

/-!
# `LossRecovery.Proofs.LinkedBoards` — the operations keep a linked board well formed

Starting from a board without data, the operations may come in any order and with any arguments.
Each of them either fails, and then the board is left as it was, or succeeds, and then the records
still tile the outstanding data and the sending order still holds the linked ones.

## Contents
- `WellFormed`: what holds of the records, the order and the edges of a board.
- `AppendOutcome`, `SplitOutcome`, `MergeOutcome`, `TrimOutcome`: when an operation fails, and what
  it does otherwise.
- `Reachable`: the boards that come of any sequence of operations.
- `Reachable.operations_sound`: all of these boards are well formed, and their operations have these
  outcomes.
-/

namespace LossRecovery

namespace LinkedBoard

variable {b b' : LinkedBoard} {n m : Nat} {r p : SendRecord} {f : SendRecord → SendRecord}
  {nodes nodes' below above : List (Nat × SendRecord)} {ns ns' older newer : List Nat}

/-- The records tile the outstanding data, the sending order holds every linked record exactly once,
and the audit finds no fault. -/
structure WellFormed (b : LinkedBoard) : Prop where
  tiles : Tiles b.una b.records b.top
  linked : ∀ r, r ∈ b.ordered ↔ r ∈ b.records ∧ r.linked = true
  once : b.ordered.Nodup
  audited : b.audit = .ok ()

/-- The board after an operation, which is left as it was if the operation failed. -/
def after (b : LinkedBoard) : Except Error LinkedBoard → LinkedBoard
  | .ok b' => b'
  | .error _ => b

/-! ## Reading a board -/

namespace Intact

theorem records_eq (h : b.Intact nodes ns) : b.records = recordsOf nodes := h.shows.filed.records_eq

/-- No number has two records, and no record has two numbers. -/
theorem number_iff (h : b.Intact nodes ns) (hn : b.record? n = some p) (hm : b.record? m = some r) :
    n = m ↔ p = r := by
  constructor
  · rintro rfl
    exact Option.some.inj (hn.symm.trans hm)
  · rintro rfl
    obtain ⟨below, above, rfl⟩ := h.exists_place hn
    have hmem := (h.shows.filed.records m p).mp hm
    by_contra hne
    have hother : (m, p) ∈ below ++ above := by simpa [Ne.symm hne] using hmem
    exact h.start_ne _ hother rfl

theorem wellFormed (h : b.Intact nodes ns) : b.WellFormed := by
  refine ⟨h.records_eq ▸ h.tiles, fun r => ?_, ?_, h.shows.audit h.tiles⟩
  · rw [h.shows.ordered_eq, h.records_eq, List.mem_filterMap]
    constructor
    · rintro ⟨n, hn, hr⟩
      obtain ⟨q, hq, hl⟩ := (h.shows.inOrder.linked n).mp hn
      cases hr.symm.trans hq
      exact ⟨List.mem_map_of_mem ((h.shows.filed.records n r).mp hr), hl⟩
    · rintro ⟨hr, hl⟩
      obtain ⟨⟨n, q⟩, hq, rfl⟩ := List.mem_map.mp hr
      exact ⟨n, h.shows.mem_iff.mpr ⟨q, hq, hl⟩, (h.shows.filed.records n q).mpr hq⟩
  · rw [h.shows.ordered_eq]
    refine List.Nodup.filterMap ?_ h.shows.inOrder.threaded.nodup
    intro n m r hn hm
    exact (h.number_iff hn hm).mpr rfl

end Intact

/-- Where the sending order only loses numbers, the records in it are the ones before, less those
that are lost. -/
theorem Shows.ordered_of_kept (keep : Nat → Bool) (kept : SendRecord → Bool)
    (h : b.Shows nodes ns) (h' : b'.Shows nodes' (ns.filter keep))
    (hk : ∀ n r, b.record? n = some r →
      keep n = kept r ∧ (kept r = true → b'.record? n = some (f r))) :
    b'.ordered = (b.ordered.filter kept).map f := by
  have hlinked : ∀ n ∈ ns, ∃ r, b.record? n = some r := by
    intro n hn
    obtain ⟨r, hr, -⟩ := (h.inOrder.linked n).mp hn
    exact ⟨r, hr⟩
  rw [h'.ordered_eq, h.ordered_eq]
  clear h h'
  induction ns with
  | nil => rfl
  | cons n rest ih =>
    have hrest := ih fun m hm => hlinked m (List.mem_cons_of_mem n hm)
    obtain ⟨r, hr⟩ := hlinked n List.mem_cons_self
    obtain ⟨hkeep, hrecord⟩ := hk n r hr
    cases hkept : kept r with
    | true => simp [hkeep, hkept, hr, hrecord hkept, hrest]
    | false => simp [hkeep, hkept, hr, hrest]

/-- Numbers of records that were left alone stand for the same records as before. -/
theorem Shows.filterMap_eq (h : b.Shows nodes ns) (h' : b'.Filed nodes') (part : List Nat)
    (hpart : ∀ m ∈ part, m ∈ ns) (hsame : ∀ m ∈ part, ∀ p, (m, p) ∈ nodes → (m, p) ∈ nodes') :
    part.filterMap b'.record? = part.filterMap b.record? := by
  apply List.filterMap_congr
  intro m hm
  obtain ⟨p, hp, -⟩ := h.mem_iff.mp (hpart m hm)
  rw [(h.filed.records m p).mpr hp]
  exact (h'.records m p).mpr (hsame m hm p hp)

/-! ## New data -/

/-- What a send of new data leaves behind: the last record grew, or a new record is the last one in
both orders. -/
structure Appended (b : LinkedBoard) (x : SeqRange) (flags : Flags) (now mark : Nat)
    (b' : LinkedBoard) : Prop where
  una : b'.una = b.una
  top : b'.top = x.stop
  recorded :
    (∃ init last grown, Scoreboard.continuesBurst last x flags now = true ∧
      grown = { last.restamp now with stop := x.stop } ∧
      b.records = init ++ [last] ∧ b'.records = init ++ [grown] ∧
      b'.ordered = b.ordered.map fun r => if r = last then grown else r) ∨
    (∃ new, new = { SendRecord.ofSend x flags now mark with linked := true } ∧
      b'.records = b.records ++ [new] ∧ b'.ordered = b.ordered ++ [new])

/-- The result of a send of new data, and the board after it: why it was refused, or what it did. -/
inductive AppendOutcome (b : LinkedBoard) (x : SeqRange) (flags : Flags) (now mark : Nat) :
    Except Error LinkedBoard → LinkedBoard → Prop
  | malformed (hx : x.stop ≤ x.start) :
    AppendOutcome b x flags now mark (.error (.malformed (.emptySend x))) b
  | misplaced (hx : x.start < x.stop) (hs : x.start ≠ b.top) :
    AppendOutcome b x flags now mark (.error (.structural (.misplacedSend x b.top))) b
  | appended {b' : LinkedBoard} (hx : x.start < x.stop) (hs : x.start = b.top)
    (h : Appended b x flags now mark b') : AppendOutcome b x flags now mark (.ok b') b'

/-- Where one record took the place of another, the others are known by their numbers as before. -/
theorem Intact.record?_replaced {new : SendRecord} (h : b.Intact (below ++ (n, r) :: above) ns)
    (h' : b'.Filed (below ++ (n, new) :: above)) (hp : b.record? m = some p) :
    b'.record? m = some (if p = r then new else p) := by
  have hreplaced := h.number_iff hp h.shows.record?
  rw [h'.records, h.shows.filed.mem_middle_iff]
  by_cases hm : m = n
  · rw [if_pos hm, if_pos (hreplaced.mp hm)]
  · rw [if_neg hm, if_neg fun he => hm (hreplaced.mpr he)]
    exact (h.shows.filed.records m p).mp hp

/-- The board that a send may extend has a last record, which was sent in the same burst. -/
theorem Intact.exists_last (h : b.Intact nodes ns) {x : SeqRange} {flags : Flags} {now : Nat}
    (hg : b.grows x flags now = true) :
    ∃ below n r, nodes = below ++ [(n, r)] ∧ Scoreboard.continuesBurst r x flags now = true := by
  unfold grows at hg
  rw [h.highest?_eq] at hg
  rcases List.eq_nil_or_concat nodes with rfl | ⟨below, ⟨n, r⟩, rfl⟩
  · simp at hg
  · rw [List.concat_eq_append] at hg ⊢
    exact ⟨below, n, r, rfl, by simpa [Scoreboard.continuesBurst] using hg⟩

/-- New data is the last in both orders. -/
theorem Intact.appended (h : b.Intact nodes ns) {x : SeqRange} (flags : Flags) (now mark : Nat)
    (hx : x.start < x.stop) (hs : x.start = b.top) :
    ∃ b' nodes' ns', b.append x flags now mark = .ok b' ∧ Appended b x flags now mark b' ∧
      b'.Intact nodes' ns' := by
  cases hg : b.grows x flags now with
  | true =>
    obtain ⟨below, n, r, rfl, hburst⟩ := h.exists_last hg
    obtain ⟨b', hok, huna, htop, h'⟩ := h.append_extended mark hx hs hg
    have hordered := Shows.ordered_of_kept (fun _ => true) (fun _ => true)
      (f := fun p => if p = r then { r.restamp now with stop := x.stop } else p) h.shows
      (by simpa using h'.shows) fun m p hp => ⟨rfl, fun _ => h.record?_replaced h'.shows.filed hp⟩
    refine ⟨b', _, _, hok, ⟨huna, htop, .inl ?_⟩, h'⟩
    refine ⟨recordsOf below, r, _, hburst, rfl, ?_, ?_, by simpa using hordered⟩
    · simp [h.records_eq]
    · simp [h'.records_eq]
  | false =>
    obtain ⟨b', hok, huna, htop, h'⟩ := h.append_fresh mark hx hs hg
    have hold := h.shows.filterMap_eq h'.shows.filed ns (fun m hm => hm)
      fun m _ p hp => List.mem_append_left _ hp
    have hnew := h'.shows.record?
    refine ⟨b', _, _, hok, ⟨huna, htop, .inr ⟨_, rfl, ?_, ?_⟩⟩, h'⟩
    · simp [h.records_eq, h'.records_eq]
    · rw [h.shows.ordered_eq, h'.shows.ordered_eq, List.filterMap_append, hold]
      simp [hnew]

/-- A send that is not recorded changes nothing; otherwise the new data is last in both orders. -/
theorem Intact.appends (h : b.Intact nodes ns) (x : SeqRange) (flags : Flags) (now mark : Nat) :
    AppendOutcome b x flags now mark (b.append x flags now mark)
        (b.after (b.append x flags now mark)) ∧
      ∃ nodes' ns', (b.after (b.append x flags now mark)).Intact nodes' ns' := by
  by_cases hx : x.start < x.stop
  · by_cases hs : x.start = b.top
    · obtain ⟨b', nodes', ns', hok, happended, h'⟩ := h.appended flags now mark hx hs
      rw [hok]
      exact ⟨.appended hx hs happended, _, _, h'⟩
    · have herror : b.append x flags now mark = .error (.structural (.misplacedSend x b.top)) := by
        have hfull : x.isEmpty = false := by simpa [SeqRange.isEmpty] using hx
        simp [LinkedBoard.append, hfull, hs]
      rw [herror]
      exact ⟨.misplaced hx hs, _, _, h⟩
  · have herror : b.append x flags now mark = .error (.malformed (.emptySend x)) := by
      have hempty : x.isEmpty = true := by simpa [SeqRange.isEmpty] using hx
      simp [LinkedBoard.append, hempty]
    rw [herror]
    exact ⟨.malformed (Nat.le_of_not_lt hx), _, _, h⟩

/-! ## Dividing a record -/

/-- Two records tell the same of how their bytes were sent, and carry the same marks but for the
ends of the stream. -/
structure SameHistory (q p : SendRecord) : Prop where
  resends : q.resends = p.resends
  times : q.times = p.times
  flags : { q.flags with syn := p.flags.syn, fin := p.flags.fin } = p.flags

theorem sameHistory_refl (r : SendRecord) : SameHistory r r := ⟨rfl, rfl, rfl⟩

/-- What dividing a record leaves behind: its halves in its place, in both orders, and every byte
with the history it had. -/
structure Divided (b : LinkedBoard) (r : SendRecord) (point : Nat) (b' : LinkedBoard) : Prop where
  una : b'.una = b.una
  top : b'.top = b.top
  halves : ∃ init lower upper rest,
    lower = { r with stop := point, flags := { r.flags with fin := false } } ∧
    upper = { r with start := point, resentBytes := 0, flags := { r.flags with syn := false } } ∧
    b.records = init ++ r :: rest ∧ b'.records = init ++ lower :: upper :: rest ∧
    (r.linked = true → ∃ older newer,
      b.ordered = older ++ r :: newer ∧ b'.ordered = older ++ lower :: upper :: newer) ∧
    (r.linked = false → b'.ordered = b.ordered)
  history : ∀ seq, ∀ p ∈ b.records, ∀ q ∈ b'.records, p.contains seq = true →
    q.contains seq = true → SameHistory q p

/-- The result of dividing a record, and the board after it: why it was refused, or what it did. -/
inductive SplitOutcome (b : LinkedBoard) (n point : Nat) :
    Except Error LinkedBoard → LinkedBoard → Prop
  | unknown (hr : b.record? n = none) :
    SplitOutcome b n point (.error (.structural (.splitUnknown n))) b
  | outside {r : SendRecord} (hr : b.record? n = some r) (hp : point ≤ r.start ∨ r.stop ≤ point) :
    SplitOutcome b n point (.error (.structural (.splitOutside r point))) b
  | exhausted {r : SendRecord} (hr : b.record? n = some r) (hp : r.start < point ∧ point < r.stop)
    (hl : b.limit ≤ b.records.length) : SplitOutcome b n point (.error .exhausted) b
  | divided {r : SendRecord} {b' : LinkedBoard} (hr : b.record? n = some r)
    (hp : r.start < point ∧ point < r.stop) (hl : b.records.length < b.limit)
    (h : Divided b r point b') : SplitOutcome b n point (.ok b') b'

theorem sameHistory_of_cut {init rest : List SendRecord} {lo hi point seq : Nat} {q : SendRecord}
    (ht : Tiles lo (init ++ r :: rest) hi) (hp : r.start < point ∧ point < r.stop)
    (hmem : p ∈ init ++ r :: rest)
    (hq : q ∈ init ++ (r.cut point).1 :: (r.cut point).2 :: rest) (hpc : p.contains seq = true)
    (hqc : q.contains seq = true) : SameHistory q p := by
  have hr : r ∈ init ++ r :: rest := by simp
  have hcases : q ∈ init ++ r :: rest ∨ q = (r.cut point).1 ∨ q = (r.cut point).2 := by
    simp only [List.mem_append, List.mem_cons] at hq ⊢
    tauto
  -- A half of the record holds only numbers of the record.
  have hinside : r.contains seq = true → r = p := fun hrc => ht.eq_of_contains hr hmem hrc hpc
  rcases hcases with hold | rfl | rfl
  · rw [ht.eq_of_contains hold hmem hqc hpc]
    exact sameHistory_refl p
  · rw [SendRecord.contains_iff] at hqc
    obtain rfl := hinside (SendRecord.contains_iff.mpr ⟨hqc.1, Nat.lt_trans hqc.2 hp.2⟩)
    exact ⟨rfl, rfl, rfl⟩
  · rw [SendRecord.contains_iff] at hqc
    have hle : r.start ≤ seq := Nat.le_of_lt (Nat.lt_of_lt_of_le hp.1 hqc.1)
    obtain rfl := hinside (SendRecord.contains_iff.mpr ⟨hle, hqc.2⟩)
    exact ⟨rfl, rfl, rfl⟩

/-- Beside the record that was divided, the numbers stand for the records they stood for. -/
theorem Intact.filterMap_halves {k : Nat} {lower upper : SendRecord}
    (h : b.Intact (below ++ (n, r) :: above) ns)
    (h' : b'.Intact (below ++ (n, lower) :: (k, upper) :: above) ns') (part : List Nat)
    (hpart : ∀ m ∈ part, m ∈ ns) (hn : n ∉ part) :
    part.filterMap b'.record? = part.filterMap b.record? := by
  refine h.shows.filterMap_eq h'.shows.filed part hpart fun m hm p hp => ?_
  have hne : m ≠ n := fun he => hn (he ▸ hm)
  simp only [List.mem_append, List.mem_cons, Prod.mk.injEq, hne, false_and, false_or] at hp ⊢
  tauto

/-- The upper half of a linked record follows the lower one. -/
theorem Intact.ordered_halves {k : Nat} {lower upper : SendRecord}
    (h : b.Intact (below ++ (n, r) :: above) (older ++ n :: newer))
    (h' : b'.Intact (below ++ (n, lower) :: (k, upper) :: above) (older ++ n :: k :: newer)) :
    ∃ init rest, b.ordered = init ++ r :: rest ∧ b'.ordered = init ++ lower :: upper :: rest := by
  have hnodup := h.shows.inOrder.threaded.nodup
  rw [List.nodup_middle, List.nodup_cons, List.mem_append, not_or] at hnodup
  have hlower := h'.shows.record?
  have hparts : b'.Shows ((below ++ [(n, lower)]) ++ (k, upper) :: above)
      (older ++ n :: k :: newer) := by simpa using h'.shows
  have hupper := hparts.record?
  have holder := h.filterMap_halves h' older (by simp +contextual) hnodup.1.1
  have hnewer := h.filterMap_halves h' newer (by simp +contextual) hnodup.1.2
  refine ⟨older.filterMap b.record?, newer.filterMap b.record?, ?_, ?_⟩
  · simp [h.shows.ordered_eq, h.shows.record?]
  · simp [h'.shows.ordered_eq, hlower, hupper, holder, hnewer]

/-- The halves of a record take its place in both orders. -/
theorem Intact.divided (h : b.Intact (below ++ (n, r) :: above) ns) {point : Nat}
    (hp : r.start < point ∧ point < r.stop) (hroom : b.cells.length < b.limit) :
    ∃ b' ns', b.split n point = .ok b' ∧ b'.una = b.una ∧ b'.top = b.top ∧
      b'.Intact (below ++ (n, (r.cut point).1) :: (b.fresh, (r.cut point).2) :: above) ns' ∧
      (r.linked = true → ∃ older newer, b.ordered = older ++ r :: newer ∧
        b'.ordered = older ++ (r.cut point).1 :: (r.cut point).2 :: newer) ∧
      (r.linked = false → b'.ordered = b.ordered) := by
  have hlinked : n ∈ ns ↔ r.linked = true := by simp [h.shows.inOrder.linked, h.shows.record?]
  by_cases hn : n ∈ ns
  · obtain ⟨older, newer, rfl⟩ := List.append_of_mem hn
    obtain ⟨b', hok, huna, htop, h'⟩ := h.split_linked hp.1 hp.2 hroom
    have htrue := hlinked.mp hn
    exact ⟨b', _, hok, huna, htop, h', fun _ => h.ordered_halves h', by simp [htrue]⟩
  · obtain ⟨b', hok, huna, htop, h'⟩ := h.split_unlinked hn hp.1 hp.2 hroom
    have hordered : b'.ordered = b.ordered := by
      rw [h.shows.ordered_eq, h'.shows.ordered_eq]
      exact h.filterMap_halves h' ns (fun m hm => hm) hn
    exact ⟨b', _, hok, huna, htop, h', fun htrue => absurd (hlinked.mpr htrue) hn,
      fun _ => hordered⟩

/-- A record that is not divided stays as it was; otherwise every byte keeps its history. -/
theorem Intact.splits (h : b.Intact nodes ns) (n point : Nat) :
    SplitOutcome b n point (b.split n point) (b.after (b.split n point)) ∧
      ∃ nodes' ns', (b.after (b.split n point)).Intact nodes' ns' := by
  cases hr : b.record? n with
  | none =>
    have herror : b.split n point = .error (.structural (.splitUnknown n)) := by
      simp [LinkedBoard.split, hr]
    rw [herror]
    exact ⟨.unknown hr, _, _, h⟩
  | some r =>
    obtain ⟨below, above, rfl⟩ := h.exists_place hr
    have hrecords : b.records = recordsOf below ++ r :: recordsOf above := by simp [h.records_eq]
    have hlength : b.cells.length = b.records.length := by
      rw [h.records_eq, h.shows.filed.length_cells, List.length_map]
    by_cases hp : r.start < point ∧ point < r.stop
    · by_cases hl : b.records.length < b.limit
      · obtain ⟨b', ns', hok, huna, htop, h', hlinked, hunlinked⟩ :=
          h.divided hp (hlength ▸ hl)
        have hrecords' : b'.records
            = recordsOf below ++ (r.cut point).1 :: (r.cut point).2 :: recordsOf above := by
          simp [h'.records_eq]
        rw [hok]
        refine ⟨.divided hr hp hl ⟨huna, htop, ?_, ?_⟩, _, _, h'⟩
        · exact ⟨_, _, _, _, rfl, rfl, hrecords, hrecords', hlinked, hunlinked⟩
        · intro seq p hmem q hq
          have htiles := h.tiles
          rw [← h.records_eq, hrecords] at htiles
          rw [hrecords] at hmem
          rw [hrecords'] at hq
          exact sameHistory_of_cut htiles hp hmem hq
      · have herror : b.split n point = .error .exhausted := by
          have hfull := Nat.le_of_not_lt hl
          simp [LinkedBoard.split, hr, SendRecord.straddles, hp, hlength, hfull]
        rw [herror]
        exact ⟨.exhausted hr hp (Nat.le_of_not_lt hl), _, _, h⟩
    · have herror : b.split n point = .error (.structural (.splitOutside r point)) := by
        have houtside : r.straddles point = false := by simpa [SendRecord.straddles] using hp
        simp [LinkedBoard.split, hr, houtside]
      rw [herror]
      exact ⟨.outside hr (by omega), _, _, h⟩

/-! ## Joining two records -/

/-- What joining two neighbours leaves behind: one record over the bytes of both, in the place of
the lower one. -/
structure Joined (b : LinkedBoard) (l r : SendRecord) (b' : LinkedBoard) : Prop where
  una : b'.una = b.una
  top : b'.top = b.top
  records : ∃ init rest, b.records = init ++ l :: r :: rest ∧
    b'.records = init ++ l.absorb r :: rest
  ordered : b'.ordered
    = (b.ordered.filter (· ≠ r)).map fun p => if p = l then l.absorb r else p
  bytes : ∀ seq, (l.absorb r).contains seq = true ↔ l.contains seq = true ∨ r.contains seq = true

/-- The result of joining two records, and the board after it: why it was refused, or what it did.
-/
inductive MergeOutcome (b : LinkedBoard) (left right : Nat) :
    Except Error LinkedBoard → LinkedBoard → Prop
  | unknown (h : b.record? left = none ∨ b.record? right = none) :
    MergeOutcome b left right (.error (.structural (.mergeUnknown left right))) b
  | apart {l r : SendRecord} (hl : b.record? left = some l) (hr : b.record? right = some r)
    (h : l.stop ≠ r.start) : MergeOutcome b left right (.error (.structural (.mergeApart l r))) b
  | nothing {l r : SendRecord} (hl : b.record? left = some l) (hr : b.record? right = some r)
    (h : l.stop = r.start) (hj : l.canAbsorb r = false) :
    MergeOutcome b left right (.error .done) b
  | joined {l r : SendRecord} {b' : LinkedBoard} (hl : b.record? left = some l)
    (hr : b.record? right = some r) (h : l.stop = r.start) (hj : l.canAbsorb r = true)
    (h' : Joined b l r b') : MergeOutcome b left right (.ok b') b'

/-- A record that starts where another one ends is filed next to it. -/
theorem Intact.exists_neighbours {l : SendRecord} (h : b.Intact nodes ns)
    (hl : b.record? n = some l) (hr : b.record? m = some r) (hmeets : l.stop = r.start) :
    ∃ below above, nodes = below ++ (n, l) :: (m, r) :: above := by
  obtain ⟨below, above, rfl⟩ := h.exists_place hl
  have hmem := (h.shows.filed.records m r).mp hr
  obtain ⟨-, hne, hupper⟩ := h.parts
  rcases List.mem_append.mp hmem with hlow | hhigh
  · have hlt : r.start < l.start := h.below_lt _ hlow
    omega
  · rcases List.mem_cons.mp hhigh with heq | hhigh
    · cases heq
      omega
    · cases above with
      | nil => simp at hhigh
      | cons q rest =>
        obtain ⟨hstart, hfull, hrest⟩ := hupper
        rcases List.mem_cons.mp hhigh with rfl | hfar
        · exact ⟨below, rest, rfl⟩
        · -- Records further up start above the end of the next one.
          have hle : q.2.stop ≤ r.start := (hrest.bounds (List.mem_map_of_mem hfar)).1
          replace hstart : q.2.start = l.stop := hstart
          replace hfull : q.2.start < q.2.stop := hfull
          omega

/-- Of two neighbours, the upper one leaves both orders, and the lower one grows over it. -/
theorem Intact.joined {l : SendRecord} (h : b.Intact (below ++ (n, l) :: (m, r) :: above) ns)
    (hj : l.canAbsorb r = true) :
    ∃ b' ns', b.merge n m = .ok b' ∧ Joined b l r b' ∧
      b'.Intact (below ++ (n, l.absorb r) :: above) ns' := by
  obtain ⟨b', hok, huna, htop, h'⟩ := h.merge hj
  obtain ⟨-, hne, hstart, hne', -⟩ := h.parts
  replace hstart : r.start = l.stop := hstart
  replace hne' : r.start < r.stop := hne'
  have hparts : b.Shows ((below ++ [(n, l)]) ++ (m, r) :: above) ns := by simpa using h.shows
  have hr : b.record? m = some r := hparts.record?
  have hordered := Shows.ordered_of_kept (· != m) (· ≠ r)
    (f := fun p => if p = l then l.absorb r else p) h.shows h'.shows fun k p hp => ?_
  · refine ⟨b', _, hok, ⟨huna, htop, ⟨recordsOf below, recordsOf above, ?_, ?_⟩, hordered, ?_⟩, h'⟩
    · simp [h.records_eq]
    · simp [h'.records_eq]
    · intro seq
      rw [SendRecord.contains_iff, SendRecord.contains_iff, SendRecord.contains_iff]
      show l.start ≤ seq ∧ seq < r.stop ↔ _
      omega
  · have hright := h.number_iff hp hr
    have hleft := h.number_iff hp h.shows.record?
    constructor
    · rw [Bool.eq_iff_iff]
      simpa using not_congr hright
    · intro hk
      have hmem := (h.shows.filed.records k p).mp hp
      have hne : p ≠ r := by simpa using hk
      rw [h'.shows.filed.records]
      by_cases hlower : p = l
      · simp [hlower, hleft.mpr hlower]
      · have hk : k ≠ n := fun he => hlower (hleft.mp he)
        have hk' : k ≠ m := fun he => hne (hright.mp he)
        simpa [hlower, hk, hk'] using hmem

/-- Two records that are not joined stay as they were; otherwise one record takes their place. -/
theorem Intact.merges (h : b.Intact nodes ns) (left right : Nat) :
    MergeOutcome b left right (b.merge left right) (b.after (b.merge left right)) ∧
      ∃ nodes' ns', (b.after (b.merge left right)).Intact nodes' ns' := by
  have hunknown : b.record? left = none ∨ b.record? right = none →
      MergeOutcome b left right (b.merge left right) (b.after (b.merge left right)) ∧
        ∃ nodes' ns', (b.after (b.merge left right)).Intact nodes' ns' := by
    intro hnone
    have herror : b.merge left right = .error (.structural (.mergeUnknown left right)) := by
      rcases hnone with hnone | hnone
      · simp [LinkedBoard.merge, hnone]
      · cases hl : b.record? left <;> simp [LinkedBoard.merge, hl, hnone]
    rw [herror]
    exact ⟨.unknown hnone, _, _, h⟩
  cases hl : b.record? left with
  | none => exact hunknown (.inl hl)
  | some l =>
    cases hr : b.record? right with
    | none => exact hunknown (.inr hr)
    | some r =>
      by_cases hmeets : l.stop = r.start
      · cases hj : l.canAbsorb r with
        | true =>
          obtain ⟨below, above, rfl⟩ := h.exists_neighbours hl hr hmeets
          obtain ⟨b', ns', hok, hjoined, h'⟩ := h.joined hj
          rw [hok]
          exact ⟨.joined hl hr hmeets hj hjoined, _, _, h'⟩
        | false =>
          have herror : b.merge left right = .error .done := by
            simp [LinkedBoard.merge, hl, hr, hmeets, hj]
          rw [herror]
          exact ⟨.nothing hl hr hmeets hj, _, _, h⟩
      · have herror : b.merge left right = .error (.structural (.mergeApart l r)) := by
          simp [LinkedBoard.merge, hl, hr, hmeets]
        rw [herror]
        exact ⟨.apart hl hr hmeets, _, _, h⟩

/-! ## Releasing data -/

/-- What moving the left edge up leaves behind: the records without what lies below the edge, in
both orders. -/
structure Released (b : LinkedBoard) (edge : Nat) (b' : LinkedBoard) : Prop where
  una : b'.una = edge
  top : b'.top = b.top
  records : b'.records = (b.records.filter (edge < ·.stop)).map (·.above edge)
  ordered : b'.ordered = (b.ordered.filter (edge < ·.stop)).map (·.above edge)
  bytes : ∀ seq, (∃ r ∈ b'.records, r.contains seq = true) ↔
    (∃ r ∈ b.records, r.contains seq = true) ∧ edge ≤ seq

/-- The bytes that moving the left edge releases, and the board after it: why the edge was refused,
or what became of the data. -/
inductive TrimOutcome (b : LinkedBoard) (edge : Nat) : Except Error Nat → LinkedBoard → Prop
  | nothing (he : edge ≤ b.una) : TrimOutcome b edge (.ok 0) b
  | beyond (he : b.top < edge) :
    TrimOutcome b edge (.error (.malformed (.edgeBeyond edge b.top))) b
  | released {b' : LinkedBoard} (hlo : b.una < edge) (hhi : edge ≤ b.top) (h : Released b edge b') :
    TrimOutcome b edge (.ok (edge - b.una)) b'

theorem contains_above_iff {edge seq : Nat} :
    (edge < r.stop ∧ (r.above edge).contains seq = true) ↔ r.contains seq = true ∧ edge ≤ seq := by
  rw [SendRecord.contains_iff, SendRecord.contains_iff]
  show edge < r.stop ∧ max r.start edge ≤ seq ∧ seq < r.stop ↔ _
  omega

theorem Intact.released {edge : Nat} (h : b.Intact nodes ns) (hlo : b.una ≤ edge)
    (hhi : edge ≤ b.top) :
    Released b edge { b.releaseBelow edge b.index with una := edge } := by
  have h' := h.release hlo hhi
  have hrecords : { b.releaseBelow edge b.index with una := edge }.records
      = (b.records.filter (edge < ·.stop)).map (·.above edge) := by
    rw [h'.records_eq, recordsOf_dropNodes, h.records_eq]
  refine ⟨rfl, top_releaseBelow edge b b.index, hrecords, ?_, fun seq => ?_⟩
  · refine Shows.ordered_of_kept _ _ h.shows h'.shows fun n r hr => ?_
    have hmem := (h.shows.filed.records n r).mp hr
    constructor
    · -- A number is kept if its record is.
      rw [decide_eq_decide]
      constructor
      · intro hn
        obtain ⟨p, hp, hpe⟩ := mem_dropNodes_iff.mp hn
        obtain rfl := Option.some.inj (hr.symm.trans ((h.shows.filed.records n p).mpr hp))
        exact hpe
      · exact fun he => mem_dropNodes_iff.mpr ⟨r, hmem, he⟩
    · intro he
      rw [h'.shows.filed.records]
      exact List.mem_map.mpr ⟨(n, r), List.mem_filter.mpr ⟨hmem, he⟩, rfl⟩
  · rw [hrecords]
    constructor
    · rintro ⟨p, hp, hc⟩
      obtain ⟨r, hr, rfl⟩ := List.mem_map.mp hp
      obtain ⟨hr, he⟩ := List.mem_filter.mp hr
      obtain ⟨hc, hle⟩ := contains_above_iff.mp ⟨of_decide_eq_true he, hc⟩
      exact ⟨⟨r, hr, hc⟩, hle⟩
    · rintro ⟨⟨r, hr, hc⟩, hle⟩
      obtain ⟨he, hc⟩ := contains_above_iff.mpr ⟨hc, hle⟩
      exact ⟨_, List.mem_map_of_mem (List.mem_filter.mpr ⟨hr, decide_eq_true he⟩), hc⟩

/-- An edge at or below the left edge, or beyond the right one, changes nothing; otherwise the data
below it is released. -/
theorem Intact.trims (h : b.Intact nodes ns) (edge : Nat) :
    TrimOutcome b edge ((b.trim edge).map (·.2)) (b.after ((b.trim edge).map (·.1))) ∧
      ∃ nodes' ns', (b.after ((b.trim edge).map (·.1))).Intact nodes' ns' := by
  unfold LinkedBoard.trim
  by_cases hlo : edge ≤ b.una
  · rw [if_pos hlo]
    exact ⟨.nothing hlo, _, _, h⟩
  · rw [if_neg hlo]
    by_cases hhi : b.top < edge
    · rw [if_pos hhi]
      exact ⟨.beyond hhi, _, _, h⟩
    · rw [if_neg hhi]
      have hlt := Nat.lt_of_not_le hlo
      have hle := Nat.le_of_not_lt hhi
      exact ⟨.released hlt hle (h.released (Nat.le_of_lt hlt) hle), _, _,
        h.release (Nat.le_of_lt hlt) hle⟩

/-! ## Any sequence of operations -/

/-- A record is changed without moving its ends or its link, as marks and counts of sends are. -/
structure KeepsPlace (r r' : SendRecord) : Prop where
  start : r'.start = r.start
  stop : r'.stop = r.stop
  linked : r'.linked = r.linked

theorem keepsPlace_resend (r : SendRecord) (now : Nat) : KeepsPlace r (r.resend now) :=
  ⟨rfl, rfl, rfl⟩

theorem keepsPlace_flags (r : SendRecord) (flags : Flags) :
    KeepsPlace r { r with flags := flags } :=
  ⟨rfl, rfl, rfl⟩

/-- The boards that come of a board without data by any operations, in any order. -/
inductive Reachable (first limit : Nat) : LinkedBoard → Prop
  | empty : Reachable first limit (empty first limit)
  | append {b : LinkedBoard} (h : Reachable first limit b) (x : SeqRange) (flags : Flags)
    (now mark : Nat) : Reachable first limit (b.after (b.append x flags now mark))
  | split {b : LinkedBoard} (h : Reachable first limit b) (n point : Nat) :
    Reachable first limit (b.after (b.split n point))
  | merge {b : LinkedBoard} (h : Reachable first limit b) (left right : Nat) :
    Reachable first limit (b.after (b.merge left right))
  | trim {b : LinkedBoard} (h : Reachable first limit b) (edge : Nat) :
    Reachable first limit (b.after ((b.trim edge).map (·.1)))
  | change {b : LinkedBoard} (h : Reachable first limit b) {n : Nat} {r : SendRecord}
    {f : SendRecord → SendRecord} (hr : b.record? n = some r) (hf : KeepsPlace r (f r)) :
    Reachable first limit (b.change n f)
  | unlink {b : LinkedBoard} (h : Reachable first limit b) {n : Nat} {r : SendRecord}
    (hr : b.record? n = some r) : Reachable first limit (b.unlink n)
  | relink {b : LinkedBoard} (h : Reachable first limit b) {n : Nat} {r : SendRecord}
    (hr : b.record? n = some r) : Reachable first limit (b.relink n)

theorem Reachable.intact {first limit : Nat} (h : Reachable first limit b) :
    ∃ nodes ns, b.Intact nodes ns := by
  induction h with
  | empty => exact ⟨[], [], intact_empty first limit⟩
  | append _ x flags now mark ih =>
    obtain ⟨nodes, ns, h⟩ := ih
    exact (h.appends x flags now mark).2
  | split _ n point ih =>
    obtain ⟨nodes, ns, h⟩ := ih
    exact (h.splits n point).2
  | merge _ left right ih =>
    obtain ⟨nodes, ns, h⟩ := ih
    exact (h.merges left right).2
  | trim _ edge ih =>
    obtain ⟨nodes, ns, h⟩ := ih
    exact (h.trims edge).2
  | change _ hr hf ih =>
    obtain ⟨nodes, ns, h⟩ := ih
    obtain ⟨below, above, rfl⟩ := h.exists_place hr
    exact ⟨_, _, h.change hf.start hf.stop hf.linked⟩
  | unlink _ hr ih =>
    obtain ⟨nodes, ns, h⟩ := ih
    obtain ⟨below, above, rfl⟩ := h.exists_place hr
    exact ⟨_, _, h.unlink⟩
  | relink _ hr ih =>
    obtain ⟨nodes, ns, h⟩ := ih
    obtain ⟨below, above, rfl⟩ := h.exists_place hr
    exact ⟨_, _, h.relink⟩

/-- However a board came about, it is well formed, and each operation on it either fails for one of
the named reasons or does what it is meant to do. -/
theorem Reachable.operations_sound {first limit : Nat} (h : Reachable first limit b) :
    b.WellFormed ∧
      (∀ x flags now mark, AppendOutcome b x flags now mark (b.append x flags now mark)
        (b.after (b.append x flags now mark))) ∧
      (∀ n point, SplitOutcome b n point (b.split n point) (b.after (b.split n point))) ∧
      (∀ left right, MergeOutcome b left right (b.merge left right)
        (b.after (b.merge left right))) ∧
      (∀ edge, TrimOutcome b edge ((b.trim edge).map (·.2))
        (b.after ((b.trim edge).map (·.1)))) := by
  obtain ⟨nodes, ns, h⟩ := h.intact
  refine ⟨h.wellFormed, ?_, ?_, ?_, ?_⟩
  · intro x flags now mark
    exact (h.appends x flags now mark).1
  · intro n point
    exact (h.splits n point).1
  · intro left right
    exact (h.merges left right).1
  · intro edge
    exact (h.trims edge).1

/-- A burst that was cut in two, of which the upper half arrived and the lower one was sent again:
the board is well formed, and releasing the first two bytes trims the lower half. -/
theorem operations_sound_of_halves :
    let sent := (empty 0 4).after ((empty 0 4).append ⟨0, 10⟩ .empty 1 0)
    let cut := sent.after (sent.split 0 4)
    let marked := cut.change 1 fun r => { r with flags := { sacked := true } }
    let again := (marked.change 0 (·.resend 2)).relink 0
    (again.ordered.map fun r => (r.start, r.stop, r.resends)) = [(4, 10, 0), (0, 4, 1)] ∧
      again.WellFormed ∧ TrimOutcome again 2 (.ok 2) (again.after ((again.trim 2).map (·.1))) := by
  intro sent cut marked again
  have hsent : Reachable 0 4 sent := .append .empty ⟨0, 10⟩ .empty 1 0
  have hcut : Reachable 0 4 cut := .split hsent 0 4
  have hmarked : Reachable 0 4 marked := .change hcut rfl (keepsPlace_flags _ _)
  have hresent : Reachable 0 4 (marked.change 0 (·.resend 2)) :=
    .change hmarked rfl (keepsPlace_resend _ 2)
  have hagain : Reachable 0 4 again := .relink hresent rfl
  have hsound := Reachable.operations_sound hagain
  exact ⟨by decide +kernel, hsound.1, hsound.2.2.2.2 2⟩

end LinkedBoard

end LossRecovery
