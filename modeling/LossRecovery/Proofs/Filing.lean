import LossRecovery.Proofs.Links
import LossRecovery.Proofs.Tiling

/-!
# `LossRecovery.Proofs.Filing` — records filed by sequence and by sending time

A linked board keeps its records in cells that are known by number, files the numbers under the
starts of the records, and links them in sending order. Here all three are described by two lists:
the numbered records in ascending sequence, and the numbers in sending order. Each operation on a
board is an operation on these two lists.

## Contents
- `Filed b nodes`: the cells and the index of a board hold the numbered records `nodes`;
  `Filed.touched`, `Filed.insert`, `Filed.drop`.
- `Filed.fresh_not_mem`: the number of the next record is not in use.
- `Shows b nodes ns`: the board holds `nodes`, and the sending order is `ns`; `Shows.change`,
  `Shows.insert`, `Shows.drop` and their like.
- `Filed.records_eq`, `Filed.auditIndex`, `Shows.auditOrder`: what is read off such a board.
-/

namespace LossRecovery

namespace LinkedBoard

variable {b b' : LinkedBoard} {n m : Nat} {r : SendRecord} {f : SendRecord → SendRecord}
  {nodes below above : List (Nat × SendRecord)} {ns older newer : List Nat}

/-! ## Cells and index -/

/-- The records of a board are the numbered records `nodes`, filed in this order, and every number
is in use once or vacant. -/
structure Filed (b : LinkedBoard) (nodes : List (Nat × SendRecord)) : Prop where
  index : b.index = nodes.map fun q => (q.2.start, q.1)
  records : ∀ n r, b.record? n = some r ↔ (n, r) ∈ nodes
  used : (b.cells.map (·.1)).Perm (nodes.map (·.1))
  numbers : (nodes.map (·.1) ++ b.vacant).Perm (List.range (nodes.length + b.vacant.length))

theorem filed_empty (una limit : Nat) : (empty una limit).Filed [] :=
  ⟨rfl, fun n r => by simp [record?, cell?, empty], .refl _, .refl _⟩

theorem lookup_eq_none {α : Type} {cells : List (Nat × α)} :
    cells.lookup n = none ↔ n ∉ cells.map (·.1) := by
  rw [List.lookup_eq_none_iff]
  constructor
  · intro h hn
    obtain ⟨c, hc, rfl⟩ := List.mem_map.mp hn
    simpa using h c hc
  · intro h c hc
    simpa using fun he : n = c.1 => h (he ▸ List.mem_map_of_mem hc)

theorem lookup_filter {α : Type} (cells : List (Nat × α)) (n m : Nat) :
    (cells.filter (·.1 != n)).lookup m = if m = n then none else cells.lookup m := by
  induction cells with
  | nil => simp
  | cons c rest ih =>
    by_cases hc : c.1 = n
    · rw [List.filter_cons_of_neg (by simpa using hc), ih, List.lookup_cons]
      by_cases hm : m = n
      · simp [hm]
      · have hne : (m == c.1) = false := by simpa [hc] using hm
        rw [hne]
    · rw [List.filter_cons_of_pos (by simpa using hc), List.lookup_cons, List.lookup_cons, ih]
      by_cases hm : m = n
      · have hne : (n == c.1) = false := by simpa using Ne.symm hc
        simp [hm, hne]
      · simp [hm]

/-- An entry is filed between the lower and the higher ones. -/
theorem insertEntry_eq {start : Nat} {lower upper : List (Nat × Nat)}
    (hl : ∀ e ∈ lower, e.1 < start) (hu : ∀ e ∈ upper, start < e.1) :
    insertEntry start n (lower ++ upper) = lower ++ (start, n) :: upper := by
  induction lower with
  | nil =>
    cases upper with
    | nil => rfl
    | cons e rest =>
      have hlt := hu e List.mem_cons_self
      simp [insertEntry, hlt]
  | cons e rest ih =>
    have hlt := hl e List.mem_cons_self
    have hrest := ih fun e he => hl e (List.mem_cons_of_mem _ he)
    simp only [List.cons_append, insertEntry, hrest]
    rw [if_neg (by omega), if_neg (by omega)]

theorem drop_eq (hr : b.record? n = some r) : b.drop n =
    { (b.unlink n).withoutEntry r.start with
      cells := (b.unlink n).cells.filter (·.1 != n)
      vacant := n :: (b.unlink n).vacant } := by
  unfold LinkedBoard.drop
  rw [hr]
  rfl

theorem cell?_drop (hr : b.record? n = some r) (m : Nat) :
    (b.drop n).cell? m = if m = n then none else (b.unlink n).cell? m := by
  rw [drop_eq hr]
  exact lookup_filter _ _ _

/-- A board whose index files numbered records holds these records. -/
theorem records_eq_of_index (hindex : b.index = nodes.map fun q => (q.2.start, q.1))
    (hall : ∀ q ∈ nodes, b.record? q.1 = some q.2) : b.records = nodes.map (·.2) := by
  unfold LinkedBoard.records
  rw [hindex, List.filterMap_map]
  clear hindex
  induction nodes with
  | nil => rfl
  | cons q rest ih =>
    have hrest := ih fun p hp => hall p (List.mem_cons_of_mem q hp)
    have hq := hall q List.mem_cons_self
    rw [List.filterMap_cons, List.map_cons, ← hrest]
    simp [hq]

namespace Filed

theorem nodup (h : b.Filed nodes) : (nodes.map (·.1)).Nodup :=
  (h.numbers.nodup_iff.mpr List.nodup_range).of_append_left

theorem length_cells (h : b.Filed nodes) : b.cells.length = nodes.length := by
  simpa using h.used.length_eq

theorem not_mem_of_middle (h : b.Filed (below ++ (n, r) :: above)) :
    ∀ q ∈ below ++ above, q.1 ≠ n := by
  have hnodup := h.nodup
  rw [List.map_append, List.map_cons, List.nodup_middle, List.nodup_cons, ← List.map_append]
    at hnodup
  intro q hq he
  exact hnodup.1 (List.mem_map.mpr ⟨q, hq, he⟩)

theorem mem_middle_iff (h : b.Filed (below ++ (n, r) :: above)) (p : SendRecord) {m : Nat}
    {q : SendRecord} : (m, q) ∈ below ++ (n, p) :: above ↔
      if m = n then q = p else (m, q) ∈ below ++ (n, r) :: above := by
  by_cases hm : m = n
  · have hnot : (m, q) ∉ below ++ above := fun hq => h.not_mem_of_middle _ hq hm
    rw [List.mem_append, not_or, hm] at hnot
    simp [hm, hnot]
  · simp [hm]

/-- A changed record stays in its place if it is filed under its start again. -/
theorem refiled (h : b.Filed (below ++ (n, r) :: above)) {c : LinkedBoard} (ht : Touches n f b c)
    (hc : b'.cells = c.cells) (hv : b'.vacant = c.vacant)
    (hi : b'.index = (below ++ (n, f r) :: above).map fun q => (q.2.start, q.1)) :
    b'.Filed (below ++ (n, f r) :: above) := by
  have hr : b.record? n = some r := (h.records n r).mpr (by simp)
  refine ⟨hi, fun m q => ?_, ?_, ?_⟩
  · have hsame : b'.record? m = c.record? m := by
      unfold record? cell?
      rw [hc]
    rw [hsame, ht.records, h.mem_middle_iff]
    by_cases hm : m = n
    · simp [hm, hr, eq_comm]
    · simp only [hm, if_false]
      exact h.records m q
  · rw [hc, ht.numbers]
    simpa using h.used
  · rw [hv, ht.vacant]
    simpa using h.numbers

theorem touched (h : b.Filed (below ++ (n, r) :: above)) (ht : Touches n f b b')
    (hs : (f r).start = r.start) : b'.Filed (below ++ (n, f r) :: above) := by
  refine h.refiled ht rfl rfl ?_
  rw [ht.index, h.index]
  simp [hs]

/-! ### Making and dropping records -/

/-- The number of the next record is not in use. -/
theorem fresh_not_mem (h : b.Filed nodes) : b.fresh ∉ nodes.map (·.1) := by
  unfold fresh
  cases hv : b.vacant with
  | nil =>
    have hnumbers := h.numbers
    rw [hv] at hnumbers
    simp only [List.append_nil, List.length_nil, Nat.add_zero] at hnumbers
    rw [List.head?_nil, Option.getD_none, h.length_cells, hnumbers.mem_iff]
    simp
  | cons v rest =>
    have hnodup := h.numbers.nodup_iff.mpr List.nodup_range
    rw [hv] at hnodup
    exact fun hmem => (List.nodup_append.mp hnodup).2.2 v hmem v List.mem_cons_self rfl

theorem cell?_fresh (h : b.Filed nodes) : b.cell? b.fresh = none := by
  unfold cell?
  rw [lookup_eq_none, h.used.mem_iff]
  exact h.fresh_not_mem

theorem cell?_insert (h : b.Filed nodes) (r : SendRecord) (m : Nat) :
    (b.insert r).cell? m
      = if m = b.fresh then some ⟨{ r with linked := false }, none, none⟩ else b.cell? m := by
  unfold insert cell?
  rw [List.lookup_append]
  by_cases hm : m = b.fresh
  · have hnone : b.cells.lookup m = none := hm ▸ h.cell?_fresh
    rw [hnone]
    simp [hm]
  · have hne : (m == b.fresh) = false := by simpa using hm
    simp [hm, List.lookup_cons, hne]

theorem record?_insert (h : b.Filed nodes) (r : SendRecord) (m : Nat) :
    (b.insert r).record? m
      = if m = b.fresh then some { r with linked := false } else b.record? m := by
  unfold record?
  rw [h.cell?_insert]
  split <;> rfl

theorem insert (h : b.Filed (below ++ above)) (hl : ∀ q ∈ below, q.2.start < r.start)
    (hu : ∀ q ∈ above, r.start < q.2.start) :
    (b.insert r).Filed (below ++ (b.fresh, { r with linked := false }) :: above) := by
  have hfresh := h.fresh_not_mem
  refine ⟨?_, fun m q => ?_, ?_, ?_⟩
  · show insertEntry r.start b.fresh b.index = _
    rw [h.index, List.map_append, insertEntry_eq]
    · simp
    · intro e he
      obtain ⟨q, hq, rfl⟩ := List.mem_map.mp he
      exact hl q hq
    · intro e he
      obtain ⟨q, hq, rfl⟩ := List.mem_map.mp he
      exact hu q hq
  · rw [h.record?_insert]
    by_cases hm : m = b.fresh
    · have hnot : ∀ q, (b.fresh, q) ∉ below ++ above := fun q hq =>
        hfresh (List.mem_map_of_mem (f := (·.1)) hq)
      simp only [List.mem_append, not_or] at hnot
      simp [hm, hnot, eq_comm]
    · rw [if_neg hm, h.records]
      simp [hm]
  · have hcells : (b.insert r).cells.map (·.1) = b.cells.map (·.1) ++ [b.fresh] := by
      simp [LinkedBoard.insert]
    rw [hcells, List.map_append, List.map_cons]
    refine (List.perm_append_singleton _ _).trans (.trans ?_ List.perm_middle.symm)
    rw [← List.map_append]
    exact h.used.cons _
  · have hvacant : (b.insert r).vacant = b.vacant.tail := rfl
    have hlength := h.length_cells
    have hnumbers := h.numbers
    rw [hvacant, List.map_append, List.map_cons]
    refine (List.perm_middle.append_right _).trans ?_
    rw [← List.map_append]
    unfold fresh
    cases hv : b.vacant with
    | nil =>
      -- A number that was never in use is the next one.
      simp only [hv, List.append_nil, List.length_nil, Nat.add_zero] at hnumbers
      rw [hlength]
      simp only [List.head?_nil, Option.getD_none, List.tail_nil, List.append_nil,
        List.length_append, List.length_cons, List.length_nil, Nat.add_zero] at hnumbers ⊢
      rw [← Nat.add_assoc, List.range_succ]
      exact (hnumbers.cons _).trans (List.perm_append_singleton _ _).symm
    | cons v rest =>
      rw [hv] at hnumbers
      simp only [List.head?_cons, Option.getD_some, List.tail_cons, List.length_append,
        List.length_cons] at hnumbers ⊢
      have hcount : below.length + (above.length + 1) + rest.length
          = below.length + above.length + (rest.length + 1) := by omega
      rw [hcount]
      exact List.perm_middle.symm.trans hnumbers

/-- A record is dropped together with its entry, and its number is vacant. -/
theorem drop (h : b.Filed (below ++ (n, r) :: above))
    (hs : ∀ q ∈ below ++ above, q.2.start ≠ r.start) : (b.drop n).Filed (below ++ above) := by
  have hr : b.record? n = some r := (h.records n r).mpr (by simp)
  have hunlinked := h.touched (touches_unlink b n) rfl
  have hout := hunlinked.not_mem_of_middle
  refine ⟨?_, fun m q => ?_, ?_, ?_⟩
  · rw [drop_eq hr]
    show (b.unlink n).index.filter (·.1 != r.start) = _
    rw [hunlinked.index, List.filter_map]
    exact congrArg _ (filter_ne_middle (fun q : Nat × SendRecord => q.2.start) rfl hs)
  · have hdropped : (b.drop n).record? m = if m = n then none else (b.unlink n).record? m := by
      unfold record?
      rw [cell?_drop hr]
      split <;> rfl
    rw [hdropped]
    by_cases hm : m = n
    · have hnot : (m, q) ∉ below ++ above := fun hq => hout _ hq hm
      simp only [hm, if_true] at hnot ⊢
      simp [List.mem_append.not.mp hnot]
    · rw [if_neg hm, hunlinked.records]
      simp [hm]
  · rw [drop_eq hr]
    have hcells : ((b.unlink n).cells.filter (·.1 != n)).map (·.1)
        = ((b.unlink n).cells.map (·.1)).filter (· != n) := by
      rw [List.filter_map]
      rfl
    have hrest := filter_ne_middle (fun q : Nat × SendRecord => q.1)
      (x := (n, { r with linked := false })) rfl hout
    rw [hcells, ← hrest]
    refine (hunlinked.used.filter _).trans ?_
    rw [List.filter_map]
    exact .refl _
  · rw [drop_eq hr]
    have hnumbers := hunlinked.numbers
    show ((below ++ above).map (·.1) ++ n :: (b.unlink n).vacant).Perm
      (List.range ((below ++ above).length + ((b.unlink n).vacant.length + 1)))
    have hlength : (below ++ above).length + ((b.unlink n).vacant.length + 1)
        = (below ++ (n, { r with linked := false }) :: above).length
          + (b.unlink n).vacant.length := by
      simp only [List.length_append, List.length_cons]
      omega
    rw [hlength]
    refine List.perm_middle.trans (.trans ?_ hnumbers)
    rw [List.map_append, List.map_append, List.map_cons]
    exact List.perm_middle.symm.append_right _

/-! ### Reading the records -/

theorem records_eq (h : b.Filed nodes) : b.records = nodes.map (·.2) :=
  records_eq_of_index h.index fun q hq => (h.records q.1 q.2).mpr hq

/-- Where the records tile the outstanding data, the audit of the index ends at the right edge. -/
theorem tilingEnd_eq {lo hi : Nat} (h : ∀ q ∈ nodes, b.record? q.1 = some q.2)
    (ht : Tiles lo (nodes.map (·.2)) hi) :
    b.tilingEnd lo (nodes.map fun q => (q.2.start, q.1)) = .ok hi := by
  induction nodes generalizing lo with
  | nil =>
    have hedge : lo = hi := ht
    rw [hedge]
    rfl
  | cons q rest ih =>
    obtain ⟨hstart, hne, htail⟩ := ht
    have hrest := ih (fun p hp => h p (List.mem_cons_of_mem q hp)) htail
    have hfull : q.2.isEmpty = false := by simp [SendRecord.isEmpty, hne]
    rw [List.map_cons, tilingEnd, h q List.mem_cons_self]
    simp [hstart, hfull, hrest]

theorem auditIndex (h : b.Filed nodes) (ht : Tiles b.una (nodes.map (·.2)) b.top) :
    b.auditIndex = .ok () := by
  have hend := tilingEnd_eq (fun q hq => (h.records q.1 q.2).mpr hq) ht
  rw [← h.index] at hend
  have hlength : b.index.length = b.cells.length := by
    rw [h.index, List.length_map, h.length_cells]
  unfold LinkedBoard.auditIndex
  simp [hlength, hend, bind, Except.bind]

end Filed

/-! ## Both orders -/

/-- The records of a board are the numbered records `nodes` in ascending sequence, and those in the
sending order are the ones with the numbers `ns`. -/
structure Shows (b : LinkedBoard) (nodes : List (Nat × SendRecord)) (ns : List Nat) : Prop where
  filed : b.Filed nodes
  inOrder : b.InOrder ns

theorem shows_empty (una limit : Nat) : (empty una limit).Shows [] [] :=
  ⟨filed_empty una limit, ⟨trivial, List.nodup_nil, rfl, rfl, rfl⟩,
    fun n => by simp [record?, cell?, empty]⟩

namespace Shows

theorem record? (h : b.Shows (below ++ (n, r) :: above) ns) : b.record? n = some r :=
  (h.filed.records n r).mpr (by simp)

theorem mem_iff (h : b.Shows nodes ns) : n ∈ ns ↔ ∃ r, (n, r) ∈ nodes ∧ r.linked = true := by
  simp [h.inOrder.linked, h.filed.records]

/-- The edges of a board concern neither order. -/
theorem withEdges (h : b.Shows nodes ns) (una top : Nat) :
    { b with una := una, top := top }.Shows nodes ns :=
  ⟨⟨h.filed.index, h.filed.records, h.filed.used, h.filed.numbers⟩,
    ⟨⟨h.inOrder.threaded.links, h.inOrder.threaded.nodup, h.inOrder.threaded.oldest,
      h.inOrder.threaded.newest, h.inOrder.threaded.count⟩, h.inOrder.linked⟩⟩

theorem change (h : b.Shows (below ++ (n, r) :: above) ns) (hs : (f r).start = r.start)
    (hl : (f r).linked = r.linked) : (b.change n f).Shows (below ++ (n, f r) :: above) ns := by
  refine ⟨h.filed.touched (touches_change b n f) hs, h.inOrder.change ?_⟩
  intro q hq
  obtain rfl : r = q := Option.some.inj (h.record?.symm.trans hq)
  exact hl

theorem unlink (h : b.Shows (below ++ (n, r) :: above) ns) :
    (b.unlink n).Shows (below ++ (n, { r with linked := false }) :: above) (ns.filter (· != n)) :=
  ⟨h.filed.touched (touches_unlink b n) rfl, h.inOrder.unlink n⟩

theorem relink (h : b.Shows (below ++ (n, r) :: above) ns) :
    (b.relink n).Shows (below ++ (n, { r with linked := true }) :: above)
      (ns.filter (· != n) ++ [n]) :=
  ⟨h.filed.touched (touches_relink b n) rfl, h.inOrder.relink h.record?⟩

theorem linkAfter (h : b.Shows (below ++ (n, r) :: above) (older ++ m :: newer))
    (hn : n ∉ older ++ m :: newer) :
    (b.linkAfter m n).Shows (below ++ (n, { r with linked := true }) :: above)
      (older ++ m :: n :: newer) :=
  ⟨h.filed.touched (touches_linkBetween b n _ _) rfl, h.inOrder.linkAfter hn h.record?⟩

/-- The numbers in the sending order are in use. -/
theorem fresh_not_mem (h : b.Shows nodes ns) : b.fresh ∉ ns := by
  intro hmem
  obtain ⟨r, hr, -⟩ := h.mem_iff.mp hmem
  exact h.filed.fresh_not_mem (List.mem_map_of_mem (f := (·.1)) hr)

/-- A new record is not linked. -/
theorem insert (h : b.Shows (below ++ above) ns) (hl : ∀ q ∈ below, q.2.start < r.start)
    (hu : ∀ q ∈ above, r.start < q.2.start) :
    (b.insert r).Shows (below ++ (b.fresh, { r with linked := false }) :: above) ns := by
  have hout := h.fresh_not_mem
  refine ⟨h.filed.insert hl hu, h.inOrder.threaded.congr (fun m hm => ?_) rfl rfl rfl, fun m => ?_⟩
  · have hne : m ≠ b.fresh := fun he => hout (he ▸ hm)
    unfold links?
    rw [h.filed.cell?_insert, if_neg hne]
  · rw [h.filed.record?_insert]
    by_cases hm : m = b.fresh
    · simp [hm, hout]
    · rw [if_neg hm, h.inOrder.linked]

theorem drop (h : b.Shows (below ++ (n, r) :: above) ns)
    (hs : ∀ q ∈ below ++ above, q.2.start ≠ r.start) :
    (b.drop n).Shows (below ++ above) (ns.filter (· != n)) := by
  have hr := h.record?
  have hunlinked := h.inOrder.unlink n
  have hfiled := h.filed.drop hs
  refine ⟨hfiled, hunlinked.threaded.congr (fun m hm => ?_) ?_ ?_ ?_, fun m => ?_⟩
  · have hne : m ≠ n := by simpa using (List.mem_filter.mp hm).2
    unfold links?
    rw [cell?_drop hr, if_neg hne]
  · rw [drop_eq hr]
    rfl
  · rw [drop_eq hr]
    rfl
  · rw [drop_eq hr]
    rfl
  · rw [hunlinked.linked]
    unfold LinkedBoard.record?
    rw [cell?_drop hr]
    by_cases hm : m = n
    · have hnot := (touches_unlink b n).records n
      rw [if_pos rfl, hr] at hnot
      unfold LinkedBoard.record? at hnot
      simp [hm, hnot]
    · rw [if_neg hm]

/-! ### Reading the sending order -/

theorem ordered_eq (h : b.Shows nodes ns) : b.ordered = ns.filterMap b.record? :=
  h.inOrder.threaded.ordered_eq

/-- No more records are linked than there are. -/
theorem countP_linked (h : b.Shows nodes ns) :
    (nodes.map (·.2)).countP (·.linked) = ns.length := by
  have hperm : ((nodes.filter (·.2.linked)).map (·.1)).Perm ns := by
    refine (List.perm_ext_iff_of_nodup ?_ h.inOrder.threaded.nodup).mpr fun m => ?_
    · exact h.filed.nodup.sublist (List.filter_sublist.map _)
    · rw [h.mem_iff]
      simp
  rw [List.countP_map, List.countP_eq_length_filter, ← hperm.length_eq, List.length_map]
  rfl

theorem auditOrder (h : b.Shows nodes ns) : b.auditOrder = .ok () := by
  have hthread := h.inOrder.threaded
  have hle : ns.length ≤ b.cells.length + 1 := by
    rw [← h.countP_linked, h.filed.length_cells, ← List.length_map (f := (·.2))]
    exact Nat.le_succ_of_le List.countP_le_length
  have hwalk := walkEnd_eq hthread.links (fun m hm => (h.inOrder.linked m).mp hm) hle
  unfold LinkedBoard.auditOrder
  rw [hthread.oldest, hwalk, h.filed.records_eq]
  simp [bind, Except.bind, h.countP_linked, hthread.count, hthread.newest]

theorem audit (h : b.Shows nodes ns) (ht : Tiles b.una (nodes.map (·.2)) b.top) :
    b.audit = .ok () := by
  unfold LinkedBoard.audit
  rw [h.filed.auditIndex ht, h.auditOrder]
  rfl

end Shows

end LinkedBoard

end LossRecovery
