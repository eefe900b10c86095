import Mathlib.Data.List.Perm.Subperm
import Mathlib.Data.List.TakeWhile
import LossRecovery.Proofs.Carving
import LossRecovery.Proofs.LinkedBoards
import LossRecovery.Scoreboard.Store

/-!
# `LossRecovery.Proofs.RecordLookups` — finding records by sequence number

A linked board finds a record through its index: the entry filed last at or below a number, and then the
entries filed further up in a range. Where the records lie end to end, the entries at or below a number
are those of the records that start there, and of these only the last one reaches beyond the number. So
both searches visit what a scan of all records would find, in the same order.

## Contents
- `Tiled b nodes`: the records of a board lie end to end, filed under their starts;
  `exists_tiled_of_auditIndex`: where the audit of the index finds no fault, they do.
- `Tiled.exists_cut`: the records that start at or below a number, and those above it.
- `Tiled.toList_containing?`, `Tiled.overlapping_eq`: both searches against a scan of all records.
- `Tiled.lookups_exact`: what the searches find, by the numbers of the records.
-/

namespace LossRecovery

namespace LinkedBoard

variable {b : LinkedBoard} {n m seq lo hi : Nat} {r p : SendRecord} {x : SeqRange}
  {nodes below above : List (Nat × SendRecord)} {entries : List (Nat × Nat)}

/-! ## Boards whose records lie end to end -/

/-- The records of the board, with their numbers, are `nodes`: the index files them in this order, each
under its start, and they lie end to end from the left edge to the right one. -/
structure Tiled (b : LinkedBoard) (nodes : List (Nat × SendRecord)) : Prop where
  index : b.index = nodes.map fun q => (q.2.start, q.1)
  records : ∀ n r, b.record? n = some r ↔ (n, r) ∈ nodes
  tiles : Tiles b.una (recordsOf nodes) b.top

/-- The entries that the audit walks over lead to records that lie end to end. -/
theorem exists_nodes_of_tilingEnd (h : b.tilingEnd lo entries = .ok hi) :
    ∃ nodes, entries = nodes.map (fun q => (q.2.start, q.1)) ∧
      (∀ q ∈ nodes, b.record? q.1 = some q.2) ∧ Tiles lo (recordsOf nodes) hi := by
  induction entries generalizing lo with
  | nil =>
    cases h
    exact ⟨[], rfl, by simp, rfl⟩
  | cons e rest ih =>
    unfold tilingEnd at h
    cases hr : b.record? e.2 with
    | none => simp [hr] at h
    | some r =>
      simp only [hr] at h
      split at h
      · cases h
      · next hplaced =>
        simp only [not_or, ne_eq, Decidable.not_not] at hplaced
        obtain ⟨hstart, hlo, hfull⟩ := hplaced
        obtain ⟨nodes, rfl, hnodes, htiles⟩ := ih h
        refine ⟨(e.2, r) :: nodes, by simp [hstart], ?_, hstart.trans hlo, ?_, htiles⟩
        · intro q hq
          rcases List.mem_cons.mp hq with rfl | hq
          · exact hr
          · exact hnodes q hq
        · simpa [SendRecord.isEmpty] using hfull

/-- Different records have different starts, so that no number is filed twice. -/
theorem nodup_numbers (hnodes : ∀ q ∈ nodes, b.record? q.1 = some q.2)
    (ht : Tiles lo (recordsOf nodes) hi) : (nodes.map (·.1)).Nodup := by
  have hstarts := ht.nodup_starts
  rw [recordsOf, List.map_map] at hstarts
  refine List.Nodup.map_on ?_ (List.Nodup.of_map _ hstarts)
  intro q hq p hp hnumber
  have hrecord := (hnodes q hq).symm.trans (hnumber ▸ hnodes p hp)
  exact Prod.ext hnumber (Option.some.inj hrecord)

/-- If as many different numbers lead to records as there are cells, no record is left out. -/
theorem mem_of_length_cells (hnodes : ∀ q ∈ nodes, b.record? q.1 = some q.2)
    (hnodup : (nodes.map (·.1)).Nodup) (hlength : b.cells.length ≤ nodes.length)
    (hr : b.record? n = some r) : (n, r) ∈ nodes := by
  have hused : ∀ m p, b.record? m = some p → m ∈ b.cells.map (·.1) := by
    intro m p hp
    by_contra hout
    rw [record?, cell?, lookup_eq_none.mpr hout] at hp
    cases hp
  have hsub : nodes.map (·.1) ⊆ b.cells.map (·.1) := by
    intro m hm
    obtain ⟨q, hq, rfl⟩ := List.mem_map.mp hm
    exact hused _ _ (hnodes q hq)
  have hperm : (nodes.map (·.1)).Perm (b.cells.map (·.1)) := by
    apply (List.subperm_of_subset hnodup hsub).perm_of_length_le
    rwa [List.length_map, List.length_map]
  obtain ⟨⟨m, p⟩, hq, rfl⟩ := List.mem_map.mp (hperm.mem_iff.mpr (hused n r hr))
  cases (hnodes _ hq).symm.trans hr
  exact hq

/-- Where the audit of the index finds no fault, every record in use is filed, under its start, and the
records lie end to end. -/
theorem exists_tiled_of_auditIndex (h : b.auditIndex = .ok ()) : ∃ nodes, b.Tiled nodes := by
  unfold auditIndex at h
  by_cases hlength : b.index.length = b.cells.length
  · cases hend : b.tilingEnd b.una b.index with
    | error e => simp [hlength, hend, bind, Except.bind] at h
    | ok stop =>
      have htop : stop = b.top := by
        by_contra hne
        simp [hlength, hend, hne, bind, Except.bind] at h
      obtain ⟨nodes, hindex, hnodes, htiles⟩ := exists_nodes_of_tilingEnd (htop ▸ hend)
      have hcells : b.cells.length ≤ nodes.length := by
        rw [← hlength, hindex, List.length_map]
      have hnodup := nodup_numbers hnodes htiles
      exact ⟨nodes, hindex, fun n r => ⟨mem_of_length_cells hnodes hnodup hcells, hnodes (n, r)⟩,
        htiles⟩
  · simp [hlength, bind, Except.bind] at h

namespace Tiled

theorem nodup (h : b.Tiled nodes) : (nodes.map (·.1)).Nodup :=
  nodup_numbers (fun q hq => (h.records q.1 q.2).mpr hq) h.tiles

theorem records_view (h : b.Tiled nodes) : b.view.records = recordsOf nodes :=
  records_eq_of_index h.index fun q hq => (h.records q.1 q.2).mpr hq

theorem filled (h : b.Tiled nodes) : ∀ q ∈ nodes, q.2.start < q.2.stop := fun _ hq =>
  (h.tiles.bounds (List.mem_map_of_mem hq)).2.1

theorem pairwise (h : b.Tiled nodes) : nodes.Pairwise fun p q => p.2.stop ≤ q.2.start :=
  List.pairwise_map.mp h.tiles.pairwise

/-! ## The searches -/

/-- The records that start at or below a number come first. -/
theorem exists_cut (h : b.Tiled nodes) (seq : Nat) :
    ∃ below above, nodes = below ++ above ∧
      b.index.takeWhile (·.1 ≤ seq) = below.map (fun q => (q.2.start, q.1)) ∧
      (∀ q ∈ below, q.2.start ≤ seq) ∧ ∀ q ∈ above, seq < q.2.start := by
  refine ⟨nodes.takeWhile (·.2.start ≤ seq), nodes.dropWhile (·.2.start ≤ seq),
    List.takeWhile_append_dropWhile.symm, ?_, ?_, ?_⟩
  · rw [h.index, List.takeWhile_map]
    rfl
  · intro q hq
    simpa using List.mem_takeWhile_imp hq
  · have hpairwise := h.pairwise.sublist (List.dropWhile_sublist (·.2.start ≤ seq))
    have hfilled : ∀ q ∈ nodes.dropWhile (·.2.start ≤ seq), q.2.start < q.2.stop := fun q hq =>
      h.filled q ((List.dropWhile_sublist _).subset hq)
    cases habove : nodes.dropWhile (·.2.start ≤ seq) with
    | nil => simp
    | cons first rest =>
      have hfirst : seq < first.2.start := by
        have hhead := List.head?_dropWhile_not (·.2.start ≤ seq) nodes
        simpa [habove] using hhead
      rw [habove] at hpairwise hfilled
      intro q hq
      rcases List.mem_cons.mp hq with rfl | hq
      · exact hfirst
      · have hle := (List.pairwise_cons.mp hpairwise).1 q hq
        have hlt := hfilled first List.mem_cons_self
        omega

theorem filter_contains_above (habove : ∀ q ∈ above, seq < q.2.start) :
    above.filter (·.2.contains seq) = [] := by
  apply List.filter_eq_nil_iff.mpr
  intro q hq
  have hlt := habove q hq
  rw [SendRecord.contains_iff]
  omega

/-- Of the records that start at or below a number, only the last one can contain it. -/
theorem toList_containing? (h : b.Tiled nodes) (seq : Nat) :
    (b.containing? seq).toList = nodes.filter (·.2.contains seq) := by
  obtain ⟨below, above, hnodes, hindex, hbelow, habove⟩ := h.exists_cut seq
  have hpairwise := h.pairwise
  rw [hnodes] at hpairwise
  unfold containing?
  rw [hindex, List.getLast?_map, hnodes, List.filter_append, filter_contains_above habove,
    List.append_nil]
  rcases List.eq_nil_or_concat below with rfl | ⟨init, q, rfl⟩
  · rfl
  · rw [List.concat_eq_append] at hnodes hbelow hpairwise ⊢
    have hq : b.record? q.1 = some q.2 := (h.records q.1 q.2).mpr (by simp [hnodes])
    have hinit : init.filter (·.2.contains seq) = [] := by
      apply List.filter_eq_nil_iff.mpr
      intro p hp
      have hlast := hbelow q (by simp)
      have hle := (List.pairwise_append.mp (List.pairwise_append.mp hpairwise).1).2.2 p hp q
        List.mem_cons_self
      rw [SendRecord.contains_iff]
      omega
    rw [List.filter_append, hinit, List.getLast?_concat]
    cases hc : q.2.contains seq <;> simp [hq, hc, Option.filter]

/-- The record that the range begins in comes before those that start further up in it. -/
theorem overlapping_eq (h : b.Tiled nodes) (hx : ¬ x.isEmpty = true) :
    b.overlapping x = (nodes.filter (·.2.overlaps x)).map (·.1) := by
  obtain ⟨below, above, hnodes, -, hbelow, habove⟩ := h.exists_cut x.start
  have hfirst : (b.containing? x.start).toList = below.filter (·.2.overlaps x) := by
    rw [h.toList_containing?, hnodes, List.filter_append, filter_contains_above habove,
      List.append_nil]
    apply List.filter_congr
    intro q hq
    have hle := hbelow q hq
    have hnot : decide (x.start < q.2.start) = false := by simpa using hle
    rw [SendRecord.overlaps, hnot, Bool.false_and, Bool.or_false]
  have hothers : b.index.filter (fun e => x.start < e.1 && e.1 < x.stop)
      = (above.filter (·.2.overlaps x)).map fun q => (q.2.start, q.1) := by
    have hnone : below.filter (fun q => x.start < q.2.start && q.2.start < x.stop) = [] := by
      apply List.filter_eq_nil_iff.mpr
      intro q hq
      have hle := hbelow q hq
      simp [Nat.not_lt.mpr hle]
    have hall : above.filter (fun q => x.start < q.2.start && q.2.start < x.stop)
        = above.filter (·.2.overlaps x) := by
      apply List.filter_congr
      intro q hq
      have hnot : q.2.contains x.start = false := by
        simp [SendRecord.contains, Nat.not_le.mpr (habove q hq)]
      rw [SendRecord.overlaps, hnot, Bool.false_or]
    rw [h.index, List.filter_map, hnodes, List.filter_append]
    refine congrArg _ ?_
    exact (congrArg₂ _ hnone hall).trans (List.nil_append _)
  unfold overlapping
  rw [if_neg hx, hothers, hnodes, List.filter_append, List.map_append,
    ← hfirst, List.map_map, Option.toList_map]
  rfl

/-- Any range finds the records that a scoreboard with the same records finds. -/
theorem overlapping_view (h : b.Tiled nodes) (x : SeqRange) :
    (b.overlapping x).filterMap b.record? = b.view.overlapping x := by
  unfold Scoreboard.overlapping
  split
  · next hx =>
    rw [overlapping, if_pos hx]
    rfl
  · next hx =>
    rw [h.overlapping_eq hx, h.records_view, recordsOf, List.filter_map, List.filterMap_map,
      ← List.filterMap_eq_map]
    apply List.filterMap_congr
    intro q hq
    exact (h.records q.1 q.2).mpr (List.mem_filter.mp hq).1

/-- A range finds the records that share a sequence number with it. -/
theorem mem_overlapping_iff (h : b.Tiled nodes) : n ∈ b.overlapping x ↔
    ∃ r, b.record? n = some r ∧ ∃ seq, r.contains seq = true ∧ x.contains seq = true := by
  by_cases hx : x.isEmpty = true
  · rw [overlapping, if_pos hx]
    constructor
    · intro hmem
      exact absurd hmem List.not_mem_nil
    · rintro ⟨-, -, seq, -, hxc⟩
      rw [SeqRange.isEmpty_iff] at hx
      rw [SeqRange.contains_iff] at hxc
      omega
  · rw [h.overlapping_eq hx, List.mem_map]
    constructor
    · rintro ⟨q, hq, rfl⟩
      obtain ⟨hq, hmeets⟩ := List.mem_filter.mp hq
      have hfilled := h.filled q hq
      rw [SeqRange.isEmpty_iff] at hx
      rw [SendRecord.overlaps_iff hfilled (Nat.lt_of_not_le hx)] at hmeets
      refine ⟨q.2, (h.records q.1 q.2).mpr hq, max q.2.start x.start, ?_, ?_⟩
      · rw [SendRecord.contains_iff]
        omega
      · rw [SeqRange.contains_iff]
        omega
    · rintro ⟨r, hr, seq, hrc, hxc⟩
      refine ⟨(n, r), List.mem_filter.mpr ⟨(h.records n r).mp hr, ?_⟩, rfl⟩
      exact SendRecord.overlaps_of_contains hrc hxc

theorem nodup_overlapping (h : b.Tiled nodes) (x : SeqRange) : (b.overlapping x).Nodup := by
  by_cases hx : x.isEmpty = true
  · rw [overlapping, if_pos hx]
    exact List.nodup_nil
  · rw [h.overlapping_eq hx]
    exact h.nodup.sublist (List.filter_sublist.map _)

theorem pairwise_overlapping (h : b.Tiled nodes) (x : SeqRange) :
    ((b.overlapping x).filterMap b.record?).Pairwise fun p r => p.stop ≤ r.start := by
  rw [h.overlapping_view]
  unfold Scoreboard.overlapping
  split
  · exact List.Pairwise.nil
  · rw [h.records_view]
    exact h.tiles.pairwise.sublist List.filter_sublist

theorem containing?_view (h : b.Tiled nodes) (seq : Nat) :
    (b.containing? seq).map (·.2) = b.view.containing? seq := by
  have hfirst : b.containing? seq = nodes.find? (·.2.contains seq) := by
    rw [← List.head?_filter, ← h.toList_containing?, Option.head?_toList]
  unfold Scoreboard.containing?
  rw [h.records_view, hfirst, recordsOf, List.find?_map]
  rfl

theorem containing?_eq_some_iff (h : b.Tiled nodes) :
    b.containing? seq = some (n, r) ↔ b.record? n = some r ∧ r.contains seq = true := by
  rw [← Option.mem_toList, h.toList_containing?, List.mem_filter, h.records]

/-- Every outstanding number has a record that is found by it, and no other number has. -/
theorem exists_containing?_iff (h : b.Tiled nodes) :
    (∃ q, b.containing? seq = some q) ↔ b.una ≤ seq ∧ seq < b.top := by
  constructor
  · rintro ⟨⟨n, r⟩, hq⟩
    obtain ⟨hr, hc⟩ := h.containing?_eq_some_iff.mp hq
    have hbounds : b.una ≤ r.start ∧ r.start < r.stop ∧ r.stop ≤ b.top :=
      h.tiles.bounds (List.mem_map_of_mem ((h.records n r).mp hr))
    rw [SendRecord.contains_iff] at hc
    omega
  · rintro ⟨hlo, hhi⟩
    obtain ⟨r, hr, hc⟩ := h.tiles.exists_contains hlo hhi
    obtain ⟨q, hq, rfl⟩ := List.mem_map.mp hr
    exact ⟨q, h.containing?_eq_some_iff.mpr ⟨(h.records q.1 q.2).mpr hq, hc⟩⟩

/-- Where the records of a board lie end to end, a search by range finds the records that share a
sequence number with it, each of them once and in ascending sequence, whatever the range; a search by
number finds the record with this number, which there is if and only if the number is outstanding. Both
find what a scoreboard with the same records finds. -/
theorem lookups_exact (h : b.Tiled nodes) :
    (∀ x n, n ∈ b.overlapping x ↔
      ∃ r, b.record? n = some r ∧ ∃ seq, r.contains seq = true ∧ x.contains seq = true) ∧
    (∀ x, (b.overlapping x).Nodup) ∧
    (∀ x, ((b.overlapping x).filterMap b.record?).Pairwise fun p r => p.stop ≤ r.start) ∧
    (∀ seq n r, b.containing? seq = some (n, r) ↔
      b.record? n = some r ∧ r.contains seq = true) ∧
    (∀ seq, (∃ q, b.containing? seq = some q) ↔ b.una ≤ seq ∧ seq < b.top) ∧
    (∀ x, (b.overlapping x).filterMap b.record? = b.view.overlapping x) ∧
    ∀ seq, (b.containing? seq).map (·.2) = b.view.containing? seq := by
  exact ⟨fun x n => h.mem_overlapping_iff, h.nodup_overlapping, h.pairwise_overlapping,
    fun seq n r => h.containing?_eq_some_iff, fun seq => h.exists_containing?_iff,
    h.overlapping_view, h.containing?_view⟩

end Tiled

/-- Three records, the first and the last of one byte each: a range that begins below the left edge finds
the lower two, and the number below the edge finds none. -/
theorem lookups_exact_at_edges :
    let sent := (empty 1000 16).after ((empty 1000 16).append ⟨1000, 1010⟩ .empty 1 0)
    let cut := sent.after (sent.split 0 1001)
    let board := cut.after (cut.split 1 1009)
    (∃ nodes, board.Tiled nodes) ∧ board.overlapping ⟨999, 1002⟩ = [0, 1] ∧
      (∃ r, board.record? 0 = some r ∧
        ∃ seq, r.contains seq = true ∧ (⟨999, 1002⟩ : SeqRange).contains seq = true) ∧
      ((∃ q, board.containing? 999 = some q) ↔ 1000 ≤ 999 ∧ 999 < 1010) := by
  intro sent cut board
  obtain ⟨nodes, htiled⟩ := exists_tiled_of_auditIndex (b := board) (by decide +kernel)
  obtain ⟨hmem, -, -, -, hoccupied, -, -⟩ := htiled.lookups_exact
  have hfound : board.overlapping ⟨999, 1002⟩ = [0, 1] := by decide +kernel
  refine ⟨⟨nodes, htiled⟩, hfound, (hmem ⟨999, 1002⟩ 0).mp ?_, hoccupied 999⟩
  rw [hfound]
  exact List.mem_cons_self

end LinkedBoard

end LossRecovery
