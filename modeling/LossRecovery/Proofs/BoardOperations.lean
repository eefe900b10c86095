import LossRecovery.Proofs.Filing

/-!
# `LossRecovery.Proofs.BoardOperations` — what the operations make of a linked board

Sends, divisions, joins and releases edit the cells, the index and the links of a board by hand. On
a board that shows two lists of records, each of them leaves a board that shows the edited lists,
and the records tile the outstanding data as before.

## Contents
- `LinkedBoard.Intact`: a board that shows two lists, and whose records tile the outstanding data.
- `Intact.change`, `Intact.unlink`, `Intact.relink`: single records.
- `Intact.append_extended`, `Intact.append_fresh`: new data.
- `Intact.split_linked`, `Intact.split_unlinked`, `Intact.merge`: dividing a record, and joining two
  neighbours.
- `dropNodes`, `Intact.release`: releasing what lies below a new left edge.
-/

namespace LossRecovery

namespace LinkedBoard

variable {b b' : LinkedBoard} {n m : Nat} {r : SendRecord} {f : SendRecord → SendRecord}
  {nodes below above : List (Nat × SendRecord)} {ns older newer : List Nat}

/-- The records of a numbered list. -/
abbrev recordsOf (nodes : List (Nat × SendRecord)) : List SendRecord := nodes.map (·.2)

/-- A board that shows two lists of records, and whose records tile the outstanding data. -/
structure Intact (b : LinkedBoard) (nodes : List (Nat × SendRecord)) (ns : List Nat) : Prop where
  shows : b.Shows nodes ns
  tiles : Tiles b.una (recordsOf nodes) b.top

theorem intact_empty (una limit : Nat) : (empty una limit).Intact [] [] :=
  ⟨shows_empty una limit, rfl⟩

/-- A tiling around one record falls into a lower part, the record and an upper part. -/
theorem tiles_middle_iff {lo hi : Nat} : Tiles lo (recordsOf (below ++ (n, r) :: above)) hi ↔
    Tiles lo (recordsOf below) r.start ∧ r.start < r.stop ∧ Tiles r.stop (recordsOf above) hi := by
  rw [recordsOf, List.map_append, List.map_cons]
  constructor
  · intro h
    obtain ⟨mid, hlower, rfl, hne, hupper⟩ := h.of_append
    exact ⟨hlower, hne, hupper⟩
  · rintro ⟨hlower, hne, hupper⟩
    exact hlower.append ⟨rfl, hne, hupper⟩

theorem fresh_change (b : LinkedBoard) (n : Nat) (f : SendRecord → SendRecord) :
    (b.change n f).fresh = b.fresh := by
  simp [fresh, LinkedBoard.change, changeCell]

/-- The board with a record cut into halves, of which the upper one is not linked yet. -/
def halved (b : LinkedBoard) (n : Nat) (r : SendRecord) (point : Nat) : LinkedBoard :=
  (b.change n fun _ => (r.cut point).1).insert (r.cut point).2

theorem split_eq (hr : b.record? n = some r) {point : Nat} (hp : r.start < point)
    (hq : point < r.stop) (hroom : b.cells.length < b.limit) :
    b.split n point = .ok
      (if r.linked then (b.halved n r point).linkAfter n b.fresh else b.halved n r point) := by
  have hinside : r.straddles point = true := by simp [SendRecord.straddles, hp, hq]
  unfold LinkedBoard.split
  simp only [hr, hinside, Bool.not_true, Bool.false_eq_true, if_false, Nat.not_le.mpr hroom]
  rfl

theorem edges_drop (b : LinkedBoard) (n : Nat) :
    (b.drop n).una = b.una ∧ (b.drop n).top = b.top := by
  have htouch := touches_unlink b n
  cases hr : b.record? n with
  | none => simp [drop, hr]
  | some r =>
    rw [drop_eq hr]
    exact ⟨htouch.una, htouch.top⟩

namespace Intact

/-- A record that is known by its number has a place among the others. -/
theorem exists_place (h : b.Intact nodes ns) (hr : b.record? n = some r) :
    ∃ below above, nodes = below ++ (n, r) :: above :=
  List.append_of_mem ((h.shows.filed.records n r).mp hr)

theorem parts (h : b.Intact (below ++ (n, r) :: above) ns) :
    Tiles b.una (recordsOf below) r.start ∧ r.start < r.stop ∧
      Tiles r.stop (recordsOf above) b.top :=
  tiles_middle_iff.mp h.tiles

theorem below_lt (h : b.Intact (below ++ (n, r) :: above) ns) :
    ∀ q ∈ below, q.2.start < r.start := by
  intro q hq
  have hbounds := h.parts.1.bounds (List.mem_map_of_mem hq)
  omega

theorem above_le (h : b.Intact (below ++ (n, r) :: above) ns) :
    ∀ q ∈ above, r.stop ≤ q.2.start := by
  intro q hq
  exact (h.parts.2.2.bounds (List.mem_map_of_mem hq)).1

/-- No other record starts where a record starts. -/
theorem start_ne (h : b.Intact (below ++ (n, r) :: above) ns) :
    ∀ q ∈ below ++ above, q.2.start ≠ r.start := by
  intro q hq
  have hne := h.parts.2.1
  rcases List.mem_append.mp hq with hq | hq
  · exact Nat.ne_of_lt (h.below_lt q hq)
  · have hle := h.above_le q hq
    omega

/-! ## Single records -/

theorem change (h : b.Intact (below ++ (n, r) :: above) ns) (hs : (f r).start = r.start)
    (he : (f r).stop = r.stop) (hl : (f r).linked = r.linked) :
    (b.change n f).Intact (below ++ (n, f r) :: above) ns := by
  refine ⟨h.shows.change hs hl, ?_⟩
  rw [tiles_middle_iff, hs, he]
  exact h.parts

theorem unlink (h : b.Intact (below ++ (n, r) :: above) ns) :
    (b.unlink n).Intact (below ++ (n, { r with linked := false }) :: above)
      (ns.filter (· != n)) := by
  have htouch := touches_unlink b n
  refine ⟨h.shows.unlink, ?_⟩
  rw [htouch.una, htouch.top, tiles_middle_iff]
  exact h.parts

theorem relink (h : b.Intact (below ++ (n, r) :: above) ns) :
    (b.relink n).Intact (below ++ (n, { r with linked := true }) :: above)
      (ns.filter (· != n) ++ [n]) := by
  have htouch := touches_relink b n
  refine ⟨h.shows.relink, ?_⟩
  rw [htouch.una, htouch.top, tiles_middle_iff]
  exact h.parts

/-! ## New data -/

/-- The record that is filed last. -/
theorem highest?_eq (h : b.Intact nodes ns) : b.highest? = nodes.getLast?.map (·.2) := by
  unfold highest?
  rw [h.shows.filed.index, List.getLast?_map]
  cases hlast : nodes.getLast? with
  | none => rfl
  | some q => exact (h.shows.filed.records q.1 q.2).mpr (List.mem_of_getLast? hlast)

/-- A send that goes on with the burst of the last record makes it longer. -/
theorem append_extended (h : b.Intact (below ++ [(n, r)]) ns) {x : SeqRange} {flags : Flags}
    {now : Nat} (mark : Nat) (hx : x.start < x.stop) (hs : x.start = b.top)
    (hg : b.grows x flags now = true) :
    ∃ b', b.append x flags now mark = .ok b' ∧ b'.una = b.una ∧ b'.top = x.stop ∧
      b'.Intact (below ++ [(n, { r.restamp now with stop := x.stop })]) ns := by
  have hfull : x.isEmpty = false := by simpa [SeqRange.isEmpty] using hx
  have htarget : b.target x flags now = n := by simp [target, hg, h.shows.filed.index]
  obtain ⟨hlower, hne, hstop⟩ := h.parts
  have hedge : r.stop = b.top := hstop
  have hchanged := h.shows.change (f := fun r => { r.restamp now with stop := x.stop }) rfl rfl
  unfold LinkedBoard.append
  simp only [hfull, Bool.false_eq_true, if_false, hs, ne_eq, not_true_eq_false, hg, if_true,
    htarget]
  refine ⟨_, rfl, rfl, rfl, hchanged.withEdges b.una x.stop, tiles_middle_iff.mpr ⟨hlower, ?_, rfl⟩⟩
  show r.start < x.stop
  omega

/-- Any other send is recorded on its own, and was sent most recently. -/
theorem append_fresh (h : b.Intact nodes ns) {x : SeqRange} {flags : Flags} {now : Nat} (mark : Nat)
    (hx : x.start < x.stop) (hs : x.start = b.top) (hg : b.grows x flags now = false) :
    ∃ b', b.append x flags now mark = .ok b' ∧ b'.una = b.una ∧ b'.top = x.stop ∧
      b'.Intact (nodes ++ [(b.fresh, { SendRecord.ofSend x flags now mark with linked := true })])
        (ns ++ [b.fresh]) := by
  have hfull : x.isEmpty = false := by simpa [SeqRange.isEmpty] using hx
  have htarget : b.target x flags now = b.fresh := by simp [target, hg]
  have hkept : ns.filter (· != b.fresh) = ns := by
    rw [List.filter_eq_self]
    intro m hm
    simpa using fun he : m = b.fresh => h.shows.fresh_not_mem (he ▸ hm)
  have hall : b.Shows (nodes ++ []) ns := by simpa using h.shows
  have hinserted := hall.insert (r := SendRecord.ofSend x flags now mark) (fun q hq => ?_) (by simp)
  · have hrelinked := hinserted.relink
    rw [hkept] at hrelinked
    unfold LinkedBoard.append
    simp only [hfull, Bool.false_eq_true, if_false, hs, ne_eq, not_true_eq_false, hg, htarget]
    have htouch := touches_relink (b.insert (SendRecord.ofSend x flags now mark)) b.fresh
    refine ⟨_, rfl, htouch.una, rfl, hrelinked.withEdges _ x.stop, ?_⟩
    rw [tiles_middle_iff]
    refine ⟨?_, hx, rfl⟩
    have htiles := h.tiles
    rw [← hs] at htiles
    rw [htouch.una]
    exact htiles
  · -- All records end at the right edge, where the new one starts.
    have hbounds := h.tiles.bounds (List.mem_map_of_mem hq)
    show q.2.start < x.start
    omega

/-! ## Dividing and joining -/

theorem halved_shows (h : b.Intact (below ++ (n, r) :: above) ns) {point : Nat}
    (hp : r.start < point) (hq : point < r.stop) :
    (b.halved n r point).Shows (below ++ (n, (r.cut point).1) ::
      (b.fresh, { (r.cut point).2 with linked := false }) :: above) ns := by
  have hchanged := h.shows.change (f := fun _ => (r.cut point).1) rfl rfl
  have hparts : (b.change n fun _ => (r.cut point).1).Shows
      ((below ++ [(n, (r.cut point).1)]) ++ above) ns := by simpa using hchanged
  have hinserted := hparts.insert (r := (r.cut point).2) ?_ ?_
  · rw [fresh_change] at hinserted
    unfold halved
    simpa using hinserted
  · intro q hq
    show q.2.start < point
    rcases List.mem_append.mp hq with hq | hq
    · have hlt := h.below_lt q hq
      omega
    · obtain rfl := List.mem_singleton.mp hq
      exact hp
  · intro q hq
    have hle := h.above_le q hq
    show point < q.2.start
    omega

theorem halved_tiles (h : b.Intact (below ++ (n, r) :: above) ns) {point : Nat}
    (hp : r.start < point) (hq : point < r.stop) :
    Tiles b.una (recordsOf (below ++ (n, (r.cut point).1) :: (m, (r.cut point).2) :: above))
      b.top := by
  rw [tiles_middle_iff]
  exact ⟨h.parts.1, hp, rfl, hq, h.parts.2.2⟩

/-- The halves of a linked record take its place, the upper half being sent right after the lower.
-/
theorem split_linked (h : b.Intact (below ++ (n, r) :: above) (older ++ n :: newer)) {point : Nat}
    (hp : r.start < point) (hq : point < r.stop) (hroom : b.cells.length < b.limit) :
    ∃ b', b.split n point = .ok b' ∧ b'.una = b.una ∧ b'.top = b.top ∧
      b'.Intact (below ++ (n, (r.cut point).1) :: (b.fresh, (r.cut point).2) :: above)
        (older ++ n :: b.fresh :: newer) := by
  have hlinked : r.linked = true := by
    obtain ⟨q, hq, hl⟩ := (h.shows.inOrder.linked n).mp (by simp)
    cases h.shows.record?.symm.trans hq
    exact hl
  have hupper : ({ (r.cut point).2 with linked := true } : SendRecord) = (r.cut point).2 := by
    simp [SendRecord.cut, hlinked]
  have hhalved : (b.halved n r point).Shows ((below ++ [(n, (r.cut point).1)]) ++
      (b.fresh, { (r.cut point).2 with linked := false }) :: above) (older ++ n :: newer) := by
    simpa using h.halved_shows hp hq
  have hafter := hhalved.linkAfter h.shows.fresh_not_mem
  have htouch := touches_linkBetween (b.halved n r point) b.fresh (some n)
    (((b.halved n r point).cell? n).bind (·.newer))
  rw [split_eq h.shows.record? hp hq hroom, if_pos hlinked]
  refine ⟨_, rfl, htouch.una, htouch.top, ?_, ?_⟩
  · simpa [hupper] using hafter
  · rw [show ((b.halved n r point).linkAfter n b.fresh).una = b.una from htouch.una,
      show ((b.halved n r point).linkAfter n b.fresh).top = b.top from htouch.top]
    exact h.halved_tiles hp hq

/-- The halves of a record that is not linked are not linked either. -/
theorem split_unlinked (h : b.Intact (below ++ (n, r) :: above) ns) (hn : n ∉ ns) {point : Nat}
    (hp : r.start < point) (hq : point < r.stop) (hroom : b.cells.length < b.limit) :
    ∃ b', b.split n point = .ok b' ∧ b'.una = b.una ∧ b'.top = b.top ∧
      b'.Intact (below ++ (n, (r.cut point).1) :: (b.fresh, (r.cut point).2) :: above) ns := by
  have hlinked : r.linked = false := by
    simpa [h.shows.inOrder.linked, h.shows.record?] using hn
  have hupper : ({ (r.cut point).2 with linked := false } : SendRecord) = (r.cut point).2 := by
    simp [SendRecord.cut, hlinked]
  have hhalved := h.halved_shows hp hq
  rw [hupper] at hhalved
  rw [split_eq h.shows.record? hp hq hroom, if_neg (by simp [hlinked])]
  exact ⟨_, rfl, rfl, rfl, hhalved, h.halved_tiles hp hq⟩

/-- Two neighbours become one record, in the place of the lower one. -/
theorem merge {l : SendRecord} (h : b.Intact (below ++ (n, l) :: (m, r) :: above) ns)
    (hj : l.canAbsorb r = true) :
    ∃ b', b.merge n m = .ok b' ∧ b'.una = b.una ∧ b'.top = b.top ∧
      b'.Intact (below ++ (n, l.absorb r) :: above) (ns.filter (· != m)) := by
  have hpair : b.Intact ((below ++ [(n, l)]) ++ (m, r) :: above) ns := by simpa using h
  obtain ⟨hlower, hne, hstart, hne', hupper⟩ := h.parts
  replace hne' : r.start < r.stop := hne'
  have hmeets : l.stop = r.start := hstart.symm
  have hdropped := hpair.shows.drop hpair.start_ne
  have hchanged := Shows.change (n := n) (f := fun l => l.absorb r) (by simpa using hdropped)
    rfl rfl
  have hr : b.record? m = some r := hpair.shows.record?
  obtain ⟨huna, htop⟩ := edges_drop b m
  unfold LinkedBoard.merge
  simp only [h.shows.record?, hr, hmeets, ne_eq, not_true_eq_false, if_false, hj, if_true]
  refine ⟨_, rfl, huna, htop, hchanged, ?_⟩
  rw [tiles_middle_iff]
  show Tiles (b.drop m).una _ _ ∧ l.start < r.stop ∧ Tiles r.stop _ (b.drop m).top
  rw [huna, htop]
  exact ⟨hlower, by omega, hupper⟩

end Intact

/-! ## Releasing data -/

/-- The numbered records without what lies below an edge. -/
def dropNodes (edge : Nat) (nodes : List (Nat × SendRecord)) : List (Nat × SendRecord) :=
  (nodes.filter (edge < ·.2.stop)).map fun q => (q.1, q.2.above edge)

theorem recordsOf_dropNodes (edge : Nat) (nodes : List (Nat × SendRecord)) :
    recordsOf (dropNodes edge nodes)
      = ((recordsOf nodes).filter (edge < ·.stop)).map (·.above edge) := by
  simp [recordsOf, dropNodes, List.filter_map, Function.comp_def]

/-- Nothing is dropped of records that start at an edge or above it. -/
theorem dropNodes_eq_self {edge : Nat} (h : ∀ q ∈ nodes, edge ≤ q.2.start ∧ q.2.start < q.2.stop) :
    dropNodes edge nodes = nodes := by
  unfold dropNodes
  have hall : nodes.filter (edge < ·.2.stop) = nodes := by
    rw [List.filter_eq_self]
    intro q hq
    have hbounds := h q hq
    exact decide_eq_true (by omega)
  rw [hall]
  refine (List.map_congr_left fun q hq => ?_).trans (List.map_id nodes)
  rw [SendRecord.above_eq_self (h q hq).1]
  rfl

theorem dropNodes_of_below {edge : Nat} (h : r.stop ≤ edge) :
    dropNodes edge ((n, r) :: nodes) = dropNodes edge nodes := by
  simp [dropNodes, Nat.not_lt.mpr h]

theorem dropNodes_of_across {edge : Nat} (hs : r.start ≤ edge) (he : edge < r.stop)
    (h : ∀ q ∈ nodes, edge ≤ q.2.start ∧ q.2.start < q.2.stop) :
    dropNodes edge ((n, r) :: nodes) = (n, { r with start := edge }) :: nodes := by
  have hrest := dropNodes_eq_self h
  unfold dropNodes at hrest ⊢
  rw [List.filter_cons_of_pos (by simpa using he), List.map_cons, hrest, SendRecord.above,
    Nat.max_eq_right hs]

/-- The numbers that are kept. -/
theorem mem_dropNodes_iff {edge : Nat} :
    n ∈ (dropNodes edge nodes).map (·.1) ↔ ∃ r, (n, r) ∈ nodes ∧ edge < r.stop := by
  simp [dropNodes]

/-- A number that is not kept may be left out beforehand. -/
theorem filter_ne_filter {kept : List Nat} (h : n ∉ kept) :
    (ns.filter (· != n)).filter (· ∈ kept) = ns.filter (· ∈ kept) := by
  rw [List.filter_filter]
  apply List.filter_congr
  intro m _
  have hne : m ∈ kept → m ≠ n := fun hm he => h (he ▸ hm)
  simpa using hne

/-- The numbers in the sending order are numbers of records. -/
theorem Shows.filter_numbers (h : b.Shows nodes ns) : ns.filter (· ∈ nodes.map (·.1)) = ns := by
  rw [List.filter_eq_self]
  intro m hm
  obtain ⟨r, hr, -⟩ := h.mem_iff.mp hm
  exact decide_eq_true (List.mem_map_of_mem (f := (·.1)) hr)

/-- A record that reaches over an edge is filed under the edge. -/
theorem Shows.raise {edge : Nat} (h : b.Shows ((n, r) :: above) ns)
    (hs : ∀ q ∈ above, q.2.start ≠ r.start) (ha : ∀ q ∈ above, edge < q.2.start) {c : LinkedBoard}
    (hc : c = (b.withoutEntry r.start).change n fun r => { r with start := edge }) :
    { c with index := insertEntry edge n c.index }.Shows ((n, { r with start := edge }) :: above)
      ns := by
  subst hc
  have htouch := touches_change b n fun r => { r with start := edge }
  have hraised := h.inOrder.change (n := n) (f := fun r => { r with start := edge }) fun _ _ => rfl
  have hfiled : b.Filed ([] ++ (n, r) :: above) := h.filed
  have hdistinct : ∀ q ∈ [] ++ above, q.2.start ≠ r.start := hs
  refine ⟨hfiled.refiled htouch rfl rfl ?_, ?_, hraised.linked⟩
  · show insertEntry edge n (b.index.filter (·.1 != r.start)) = _
    have hrest := filter_ne_middle (fun q : Nat × SendRecord => q.2.start) (x := (n, r)) rfl
      hdistinct
    rw [h.filed.index, List.filter_map]
    refine (congrArg (fun kept => insertEntry edge n (List.map _ kept)) hrest).trans ?_
    have hnone : ∀ e ∈ ([] : List (Nat × Nat)), e.1 < edge := by simp
    refine insertEntry_eq hnone ?_
    intro e he
    obtain ⟨q, hq, rfl⟩ := List.mem_map.mp he
    exact ha q hq
  · exact hraised.threaded.congr (fun _ _ => rfl) rfl rfl rfl

/-- Releasing the entries below an edge leaves the records without what lies below it, and the
others in their order. -/
theorem Shows.releaseBelow {lo hi : Nat} (h : b.Shows nodes ns) (edge : Nat)
    (ht : Tiles lo (recordsOf nodes) hi) :
    (b.releaseBelow edge (nodes.map fun q => (q.2.start, q.1))).Shows (dropNodes edge nodes)
      (ns.filter (· ∈ (dropNodes edge nodes).map (·.1))) := by
  induction nodes generalizing lo b ns with
  | nil =>
    have hkept := h.filter_numbers
    rw [show dropNodes edge [] = [] from rfl, hkept]
    exact h
  | cons q rest ih =>
    obtain ⟨n, r⟩ := q
    obtain ⟨hstart, hne, htail⟩ := ht
    replace hne : r.start < r.stop := hne
    have hrest : ∀ q ∈ rest, r.stop ≤ q.2.start ∧ q.2.start < q.2.stop := by
      intro q hq
      have hbounds := htail.bounds (List.mem_map_of_mem hq)
      exact ⟨hbounds.1, hbounds.2.1⟩
    have hdistinct : ∀ q ∈ rest, q.2.start ≠ r.start := by
      intro q hq
      have hbounds := hrest q hq
      omega
    have hr : b.record? n = some r := (h.filed.records n r).mpr List.mem_cons_self
    rw [List.map_cons, LinkedBoard.releaseBelow]
    by_cases hwhole : edge ≤ r.start
    · have hall : dropNodes edge ((n, r) :: rest) = (n, r) :: rest := by
        apply dropNodes_eq_self
        rintro q (_ | ⟨_, hq⟩)
        · exact ⟨hwhole, hne⟩
        · have hbounds := hrest q hq
          omega
      rw [if_pos hwhole, hall, h.filter_numbers]
      exact h
    · rw [if_neg hwhole]
      by_cases hgone : r.stop ≤ edge
      · rw [if_pos (by simp [hr, hgone])]
        have hall : b.Shows ([] ++ (n, r) :: rest) ns := h
        have hout := hall.filed.not_mem_of_middle
        have hdropped := hall.drop hdistinct
        have hreleased := ih hdropped htail
        have hlost : n ∉ (dropNodes edge rest).map (·.1) := by
          intro hn
          obtain ⟨q, hq, -⟩ := mem_dropNodes_iff.mp hn
          exact hout (n, q) hq rfl
        rw [dropNodes_of_below hgone, ← filter_ne_filter hlost]
        exact hreleased
      · rw [if_neg (by simpa [hr] using hgone)]
        have habove : ∀ q ∈ rest, edge < q.2.start := by
          intro q hq
          have hbounds := hrest q hq
          omega
        have hnodes : dropNodes edge ((n, r) :: rest) = (n, { r with start := edge }) :: rest := by
          apply dropNodes_of_across (by omega) (by omega)
          intro q hq
          exact ⟨Nat.le_of_lt (habove q hq), (hrest q hq).2⟩
        have hraised := h.raise hdistinct habove rfl
        rw [hnodes, hraised.filter_numbers]
        exact hraised

theorem top_releaseBelow (edge : Nat) (b : LinkedBoard) (entries : List (Nat × Nat)) :
    (b.releaseBelow edge entries).top = b.top := by
  induction entries generalizing b with
  | nil => rfl
  | cons entry rest ih =>
    rw [releaseBelow]
    split
    · rfl
    · split
      · rw [ih, (edges_drop b entry.2).2]
      · rfl

/-- What is kept above a new left edge tiles the outstanding data again. -/
theorem Intact.release {edge : Nat} (h : b.Intact nodes ns) (hlo : b.una ≤ edge)
    (hhi : edge ≤ b.top) :
    Intact { b.releaseBelow edge b.index with una := edge } (dropNodes edge nodes)
      (ns.filter (· ∈ (dropNodes edge nodes).map (·.1))) := by
  have hreleased := h.shows.releaseBelow edge h.tiles
  have hkept := h.tiles.dropBelow hlo hhi
  rw [h.tiles.dropBelow_eq, ← recordsOf_dropNodes] at hkept
  rw [← h.shows.filed.index] at hreleased
  refine ⟨hreleased.withEdges edge _, ?_⟩
  show Tiles edge _ (b.releaseBelow edge b.index).top
  rw [top_releaseBelow]
  exact hkept

end LinkedBoard

end LossRecovery
