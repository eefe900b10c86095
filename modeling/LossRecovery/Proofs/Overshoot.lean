import LossRecovery.Proofs.Completion

/-!
# `LossRecovery.Proofs.Overshoot` — how far a transfer reaches

The sender stops at the end of the data, and what is sent again was sent before. A tail loss probe
with new data goes by nothing but a byte that is left: it is a whole segment all the same. So a
transfer reaches beyond the end of its data only through such a probe, and by less than a segment.

## Contents
- `Transfer.Overshoots`: a probe with new data that reaches beyond the end.
- `Transfer.Reaches`: how far the link and the right edge have got; `Course.reaches`: it holds all
  along.
- `Engine.Reachable.transfer_reaches`: what is put on the link, and what is delivered.
- `delivered_beyond_end`: more is delivered than was to be transferred.
-/

namespace LossRecovery

namespace Transfer

variable {κ : Type} [CongestionLaw κ] {t u : Transfer κ} {stop mss : Nat} {put more : List Segment}

/-- A probe with new data, a segment long, that starts below `stop` and reaches beyond it. -/
structure Overshoots (stop mss : Nat) (s : Segment) : Prop where
  kind : s.kind? = some .newDataProbe
  start_lt : s.range.start < stop
  beyond : stop < s.range.stop
  whole : s.range.stop = s.range.start + mss

/-- Nothing on the link ends above the right edge. The right edge is not above `stop`, or it is the end
of a probe that overshoots. -/
structure Reaches (stop mss : Nat) (put : List Segment) (t : Transfer κ) : Prop where
  below : ∀ s ∈ put, s.range.stop ≤ t.engine.board.top
  edge : t.engine.board.top ≤ stop ∨
    ∃ s ∈ put, Overshoots stop mss s ∧ s.range.stop = t.engine.board.top

namespace Reaches

omit [CongestionLaw κ] in
/-- Where the right edge stays, nothing changes. -/
theorem stay (h : Reaches stop mss put t) (htop : u.engine.board.top = t.engine.board.top)
    (hmore : ∀ s ∈ more, s.range.stop ≤ t.engine.board.top) : Reaches stop mss (put ++ more) u := by
  refine ⟨?_, ?_⟩
  · intro s hs
    rw [htop]
    rcases List.mem_append.mp hs with hold | hnew
    · exact h.below s hold
    · exact hmore s hnew
  · rw [htop]
    refine h.edge.imp_right ?_
    rintro ⟨s, hs, hover⟩
    exact ⟨s, List.mem_append_left _ hs, hover⟩

omit [CongestionLaw κ] in
/-- A segment that may be put on the link reaches beyond the end only as a probe. -/
theorem extend (h : Reaches stop mss put t) (hmss : t.engine.settings.mss = mss)
    (he : Extends stop t more u) : Reaches stop mss (put ++ more) u := by
  cases he with
  | still settings top => exact h.stay top fun s hs => absurd hs List.not_mem_nil
  | put s allowed settings top =>
    by_cases hle : s.range.stop ≤ t.engine.board.top
    · refine h.stay (top.trans (Nat.max_eq_left hle)) fun q hq => ?_
      rw [List.mem_singleton.mp hq]
      exact hle
    · rw [Nat.max_eq_right (by omega)] at top
      refine ⟨?_, ?_⟩
      · intro q hq
        rw [top]
        rcases List.mem_append.mp hq with hold | hnew
        · exact Nat.le_trans (h.below q hold) (by omega)
        · rw [List.mem_singleton.mp hnew]
      · rw [top]
        by_cases hend : s.range.stop ≤ stop
        · exact .inl hend
        · refine .inr ⟨s, List.mem_append_right _ List.mem_cons_self, ?_, rfl⟩
          obtain ⟨-, -, hkind⟩ := allowed
          -- What is neither new data of the sender nor below the right edge is a probe.
          cases hk : s.kind? with
          | none =>
            rw [hk] at hkind
            exact absurd hkind hend
          | some kind =>
            rw [hk] at hkind
            cases kind with
            | newDataProbe => exact ⟨hk, hkind.1, by omega, hmss ▸ hkind.2⟩
            | retransmit | tailProbe => exact absurd hkind hle

end Reaches

/-- All along a transfer, nothing reaches beyond the end of the data but a probe with new data. -/
theorem Course.reaches (course : Course stop t put u) (h : t.Consistent)
    (htop : t.engine.board.top ≤ stop) : Reaches stop t.engine.settings.mss put u := by
  induction course with
  | refl => exact ⟨fun s hs => absurd hs List.not_mem_nil, .inl htop⟩
  | tail before move ih =>
    exact ih.extend (congrArg Settings.mss (before.settings h)) (move.keeps (before.consistent h)).2

end Transfer

open Transfer (Course Overshoots)

variable {κ : Type} [CongestionLaw κ] {g : Engine κ} {first : Nat}

/-- A transfer of new data ends with a report, after a course of moves. Of every course that leads there
one of two things is true. Nothing that it put on the link reaches beyond the end of the data: then no
more than the data is delivered, and all of it if the transfer is complete. Or the furthest that
anything reaches is a probe with new data, which starts below the end: then less than a segment more
is delivered, and no less than the data if the transfer is complete. -/
theorem Engine.Reachable.transfer_reaches (h : g.Reachable first) (ha : g.isAborted = false)
    (hidle : g.board.top = g.board.una) (link : LinkSettings) (mss bytes duration now : Nat) :
    ∃ final report,
      (Transfer.start g link mss now).run bytes duration now = (final, .ok report) ∧
      (∃ put, Course (g.board.una + bytes) (Transfer.start g link mss now) put final) ∧
      ∀ put, Course (g.board.una + bytes) (Transfer.start g link mss now) put final →
        ((∀ s ∈ put, s.range.stop ≤ g.board.una + bytes) ∧ report.delivered ≤ bytes ∧
          (g.board.una + bytes ≤ final.engine.board.una → report.delivered = bytes)) ∨
        ∃ s ∈ put, Overshoots (g.board.una + bytes) g.settings.mss s ∧
          (∀ q ∈ put, q.range.stop ≤ s.range.stop) ∧
          report.delivered < bytes + g.settings.mss ∧
          (g.board.una + bytes ≤ final.engine.board.una → bytes ≤ report.delivered) := by
  have hstart := Transfer.Consistent.start h ha link mss now
  obtain ⟨taken, final, later, loop, course⟩ :=
    hstart.eventLoop (g.board.una + bytes) (now + duration) now
  refine ⟨final, _, loop.run_eq, ⟨taken, course⟩, ?_⟩
  intro put course
  have hbelow : (Transfer.start g link mss now).engine.board.top ≤ g.board.una + bytes := by
    show g.board.top ≤ _
    omega
  have hreaches := course.reaches hstart hbelow
  have hacked : final.engine.board.una ≤ final.engine.board.top :=
    (course.consistent hstart).engine.1.sound.board.le
  show (_ ∧ final.engine.board.una - g.board.una ≤ bytes ∧
      (_ → final.engine.board.una - g.board.una = bytes)) ∨ _
  rcases hreaches.edge with hle | ⟨s, hs, hover, htop⟩
  · refine .inl ⟨?_, by omega, by omega⟩
    exact fun s hs => Nat.le_trans (hreaches.below s hs) hle
  · refine .inr ⟨s, hs, hover, fun q hq => htop ▸ hreaches.below q hq, ?_, ?_⟩
    · have hwhole := hover.whole
      have hstart := hover.start_lt
      have hbeyond := hover.beyond
      show final.engine.board.una - g.board.una < bytes + g.settings.mss
      change s.range.stop = s.range.start + g.settings.mss at hwhole
      omega
    · show _ → bytes ≤ final.engine.board.una - g.board.una
      omega

/-! ## A probe that overshoots -/

/-- How many bytes are reported as delivered. -/
def Transfer.delivered? (t : Transfer κ) (bytes duration now : Nat) : Option Nat :=
  (t.run bytes duration now).2.toOption.map (·.delivered)

section

variable {t final : Transfer κ} {bytes duration now bound : Nat} {report : Report}

theorem Transfer.exists_report (h : (t.delivered? bytes duration now).any (bound < ·) = true) :
    ∃ final report, t.run bytes duration now = (final, .ok report) ∧ bound < report.delivered := by
  unfold delivered? at h
  cases hres : (t.run bytes duration now).2 with
  | error e =>
    rw [hres] at h
    cases h
  | ok report =>
    rw [hres] at h
    exact ⟨_, report, Prod.ext rfl hres, of_decide_eq_true h⟩

theorem Transfer.lt_delivered (hrun : t.run bytes duration now = (final, .ok report))
    (h : (t.delivered? bytes duration now).any (bound < ·) = true) : bound < report.delivered := by
  obtain ⟨final', report', hrun', hlt⟩ := exists_report h
  injection congrArg Prod.snd (hrun.symm.trans hrun') with heq
  rwa [heq]

end

/-- With a window of one segment and a round trip of a second, the probe timer fires before the first
ack. Of the 1560 bytes 100 are left, and a whole segment is sent. -/
theorem delivered_beyond_end : ∃ g : Engine FixedWindow, g.Reachable 0 ∧ g.isAborted = false ∧
    g.board.una = 0 ∧ g.board.top = 0 ∧ ∃ final report,
      (Transfer.start g { rtt := Time.second } g.settings.mss 0).run 1560 (20 * Time.second) 0
        = (final, .ok report) ∧ 1560 < report.delivered := by
  have started : Engine.start { initialWindowSegments := 1 }
    (.ofSettings { initialWindowSegments := 1 }) .discard 0 0 = .ok (_ : Engine FixedWindow) := rfl
  refine ⟨_, .start started, rfl, rfl, rfl, Transfer.exists_report ?_⟩
  decide +kernel

/-- What takes these 1560 bytes beyond their end is the probe. -/
theorem transfer_reaches_by_probe : ∃ (g : Engine FixedWindow) (put : List Transfer.Segment)
    (final : Transfer FixedWindow),
    Course 1560 (Transfer.start g { rtt := Time.second } 1460 0) put final ∧
      ∃ s ∈ put, Overshoots 1560 1460 s ∧ ∀ q ∈ put, q.range.stop ≤ s.range.stop := by
  have started : Engine.start { initialWindowSegments := 1 }
    (.ofSettings { initialWindowSegments := 1 }) .discard 0 0 = .ok (_ : Engine FixedWindow) := rfl
  obtain ⟨final, report, hrun, ⟨put, course⟩, hreach⟩ := Engine.Reachable.transfer_reaches
    (.start started) rfl rfl { rtt := Time.second } 1460 1560 (20 * Time.second) 0
  have hlt : 1560 < report.delivered := Transfer.lt_delivered hrun (by decide +kernel)
  rcases hreach put course with ⟨-, hle, -⟩ | ⟨s, hs, hover, hhighest, -⟩
  · omega
  · exact ⟨_, put, final, course, s, hs, hover, hhighest⟩

end LossRecovery
