import LossRecovery.Proofs.Persistence

/-!
# `LossRecovery.Proofs.FlightEstimates` — the bytes in flight, as estimated and as specified

The specified pipe is what is outstanding, less what has arrived, plus what was sent again into holes.
During a timeout the engine leaves out what was sent before the timer fired, as presumed lost. It leaves
out nothing of what was sent since, so that data which has arrived is counted as in flight.

## Contents
- `Engine.specifiedPipe`: the specified pipe; `Sound.specifiedPipe_eq`: it counts the missing bytes.
- `Engine.arrivedBeyond`, `Engine.missingBelow`: what the two estimates differ in during a timeout.
- `Reachable.pipe_le_specified_iff`: both estimates compared, in all stages.
- `pipe_above_specified`: a state where arrived data takes up the whole window.
-/

namespace LossRecovery

namespace Engine

variable {κ : Type} [CongestionLaw κ] {g : Engine κ} {first now : Nat}

/-! ## The specified pipe -/

/-- What is outstanding, less what has arrived, plus what was sent again into holes. -/
def specifiedPipe (g : Engine κ) : Nat :=
  g.board.top - g.board.una - g.ledger.sackedBytes + g.ledger.holeBytes

omit [CongestionLaw κ] in
theorem Sound.countBytes_sackedAt (h : g.Sound) :
    countBytes g.board.sackedAt g.board.una g.board.top = g.ledger.sackedBytes := by
  rw [h.counts.sacked, AckPass.countBytes_sackedAt h.board]

omit [CongestionLaw κ] in
/-- The specified pipe counts the bytes that have not arrived, and those sent again into holes. -/
theorem Sound.specifiedPipe_eq (h : g.Sound) :
    g.specifiedPipe
      = countBytes (fun s => !g.board.sackedAt s) g.board.una g.board.top + g.ledger.holeBytes := by
  have hsacked := h.countBytes_sackedAt
  have hall := countBytes_not g.board.sackedAt g.board.una g.board.top
  unfold specifiedPipe
  omega

/-! ## The point of a timeout -/

/-- During a timeout, where the data begins that was sent since the timer fired. -/
def firedEdge (g : Engine κ) : Nat := max g.schedule.rtoPoint g.board.una

/-- The bytes that were sent since the timer fired and have arrived. -/
def arrivedBeyond (g : Engine κ) : Nat := countBytes g.board.sackedAt g.firedEdge g.board.top

/-- The bytes that were sent before the timer fired and are missing. -/
def missingBelow (g : Engine κ) : Nat :=
  countBytes (fun s => !g.board.sackedAt s) g.board.una g.firedEdge

theorem Reachable.firedEdge_le (h : g.Reachable first) (hr : g.schedule.stage = .rtoPending) :
    g.firedEdge ≤ g.board.top := by
  obtain ⟨-, -, -, -, -, hpoint⟩ := h.staged.fits hr
  exact Nat.max_le.mpr ⟨hpoint, h.sound.board.le⟩

omit [CongestionLaw κ] in
/-- What was sent since the timer fired, against all that is missing. -/
theorem Sound.firedEdge_eq (h : g.Sound) (hle : g.firedEdge ≤ g.board.top) :
    g.missingBelow + (g.board.top - g.firedEdge)
      = g.board.top - g.board.una - g.ledger.sackedBytes + g.arrivedBeyond := by
  have hlo : g.board.una ≤ g.firedEdge := Nat.le_max_right _ _
  have hsacked := h.countBytes_sackedAt
  have hsplit := countBytes_append (g := g.board.sackedAt) hlo hle
  have hbelow := countBytes_not g.board.sackedAt g.board.una g.firedEdge
  have hbeyond := countBytes_not g.board.sackedAt g.firedEdge g.board.top
  unfold missingBelow arrivedBeyond
  omega

/-! ## Both estimates compared -/

/-- Outside a timeout, the estimate of the bytes in flight is the specified one. During a timeout it
leaves out what was sent before and is missing, and counts in addition what was sent since and has
arrived. So it exceeds the specified one exactly if more has arrived of the data sent since than is
missing of the data sent before. Estimates stop at the largest word. -/
theorem Reachable.pipe_le_specified_iff (h : g.Reachable first) :
    (g.schedule.stage ≠ .rtoPending → g.pipe = min g.specifiedPipe Word.max64) ∧
    (g.schedule.stage = .rtoPending → g.missingBelow ≤ g.specifiedPipe ∧
      g.pipe = min (g.specifiedPipe - g.missingBelow + g.arrivedBeyond) Word.max64) ∧
    (g.pipe ≤ g.specifiedPipe ↔
      (g.schedule.stage = .rtoPending →
        g.arrivedBeyond ≤ g.missingBelow ∨ Word.max64 ≤ g.specifiedPipe)) := by
  by_cases hr : g.schedule.stage = .rtoPending
  · have hle := h.firedEdge_le hr
    have hsince := h.sound.firedEdge_eq hle
    -- The missing bytes from before are some of all that are missing.
    have hmissing : g.missingBelow ≤ g.specifiedPipe := by
      have hsplit := countBytes_append (g := fun s => !g.board.sackedAt s)
        (Nat.le_max_right g.schedule.rtoPoint g.board.una) hle
      rw [h.sound.specifiedPipe_eq, ← hsplit]
      unfold missingBelow firedEdge
      omega
    have hpipe : g.pipe = min (g.specifiedPipe - g.missingBelow + g.arrivedBeyond) Word.max64 := by
      have hfired : g.pipe = min (g.ledger.holeBytes + (g.board.top - g.firedEdge)) Word.max64 := by
        unfold pipe
        rw [hr]
        rfl
      rw [hfired]
      unfold specifiedPipe at hmissing ⊢
      congr 1
      omega
    refine ⟨fun hn => absurd hr hn, fun _ => ⟨hmissing, hpipe⟩, ?_⟩
    rw [hpipe]
    simp only [hr, true_imp_iff]
    omega
  · have hpipe : g.pipe = min g.specifiedPipe Word.max64 := by
      unfold pipe
      split
      · next hstage => exact absurd hstage hr
      · rfl
    refine ⟨fun _ => hpipe, fun hn => absurd hn hr, ?_⟩
    rw [hpipe]
    exact ⟨fun _ hn => absurd hn hr, fun _ => Nat.min_le_left _ _⟩

/-- 100 bytes time out and are sent again. As long as no more than 100 of the new bytes have arrived, the
estimate is not above the specified one. -/
theorem pipe_le_specified_after_sack : ∃ g : Engine FixedWindow, g.Reachable 0 ∧
    g.schedule.stage = .rtoPending ∧ g.arrivedBeyond = 100 ∧ g.missingBelow = 100 ∧
    g.pipe ≤ g.specifiedPipe := by
  have started : Engine.start { tlpEnabled := false } (.ofSettings { tlpEnabled := false }) .discard 0 0
    = .ok (_ : Engine FixedWindow) := rfl
  have sent := (Reachable.start started).step (.send ⟨0, 100⟩ {} 0 ⟨rfl, rfl⟩)
  have fired := sent.step (.fire .rto 1 false Time.second)
  have again := fired.step (.send ⟨0, 100⟩ {} Time.second ⟨rfl, rfl⟩)
  have more := again.step (.send ⟨100, 1460⟩ {} Time.second ⟨rfl, rfl⟩)
  have acked := more.step
    (.ack { cumulative := 0, blocks := [⟨100, 200⟩] } (Time.second + 50000000))
  refine ⟨_, acked, rfl, ?_, ?_, (Reachable.pipe_le_specified_iff acked).2.2.mpr fun _ => .inl ?_⟩
  all_goals decide +kernel

/-- 100 bytes time out and are sent again, and 1360 new bytes arrive before them. What may be in flight
are the 100 bytes, but all 1460 are counted, and nothing may be sent. -/
theorem pipe_above_specified : ∃ g : Engine FixedWindow, g.Reachable 0 ∧ g.isAborted = false ∧
    g.schedule.stage = .rtoPending ∧ g.specifiedPipe = 200 ∧ g.pipe = 1460 ∧
    ¬ g.pipe ≤ g.specifiedPipe ∧ g.sendQuota = 0 := by
  have started : Engine.start { tlpEnabled := false } (.ofSettings { tlpEnabled := false }) .discard 0 0
    = .ok (_ : Engine FixedWindow) := rfl
  have sent := (Reachable.start started).step (.send ⟨0, 100⟩ {} 0 ⟨rfl, rfl⟩)
  have fired := sent.step (.fire .rto 1 false Time.second)
  have again := fired.step (.send ⟨0, 100⟩ {} Time.second ⟨rfl, rfl⟩)
  have more := again.step (.send ⟨100, 1460⟩ {} Time.second ⟨rfl, rfl⟩)
  have acked := more.step
    (.ack { cumulative := 0, blocks := [⟨100, 1460⟩] } (Time.second + 50000000))
  refine ⟨_, acked, ?_⟩
  decide +kernel

end Engine

end LossRecovery
