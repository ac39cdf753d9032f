import DrivingSim.Simulation.Kinematics

/-!
# Simulation — the window of the human

`find_accelerations` lets the human's window start at `calculate_time(disp, velocity, MAX_ACC)`.
However the human drives within the limits, it is there no earlier (`calculateTime_le_drive`).
Full acceleration is the furthest the capped motion goes in a time (`Capped.drive_le`), and
`calculate_time` is when full acceleration has gone the distance.
-/

namespace DrivingSim.Car
open XReal

/-- Position and velocity after a sequence of segments, each an acceleration held for a time. -/
def drive {D : Type} [Double D] (s : D × D) (segments : List (D × D)) : D × D :=
  segments.foldl (fun s g => (s.1 + calculatePos s.2 g.1 g.2, calculateVel s.2 g.1 g.2)) s

/-- The segments, read as doubles. -/
def toDoubles (l : List (ℝ × ℝ)) : List (XReal × XReal) := l.map fun g => (fin g.1, fin g.2)

theorem drive_fin (l : List (ℝ × ℝ)) : ∀ {x v : ℝ}, v ≤ 1 / 2 →
    drive (fin x, fin v) (toDoubles l) =
      (fin (Capped.drive (1 / 2) (x, v) l).1, fin (Capped.drive (1 / 2) (x, v) l).2) := by
  induction l with
  | nil => exact fun _ => rfl
  | cons g l ih =>
      intro x v hv
      have h := ih (x := x + Capped.pos (1 / 2) v g.1 g.2) (Capped.vel_le (1 / 2) v g.1 g.2)
      simp only [drive, toDoubles, Capped.drive, List.map_cons, List.foldl_cons,
        calculatePos_fin hv, calculateVel_fin, add_fin] at h ⊢
      exact h

/-- **The human does not beat its window.**  After any sequence of segments within the limits, a
car that has gone `disp` has taken at least `calculate_time(disp, v, MAX_ACC)`. -/
theorem calculateTime_le_drive {disp v : ℝ} (hd : 0 < disp) (hv : 0 ≤ v)
    (hvM : (fin v : XReal) ≤ maxVel) (l : List (ℝ × ℝ))
    (hl : ∀ g ∈ l, (minAcc : XReal) ≤ fin g.1 ∧ fin g.1 ≤ (maxAcc : XReal) ∧ 0 ≤ g.2)
    (h : fin disp ≤ (drive (fin 0, fin v) (toDoubles l)).1) :
    calculateTime (fin disp) (fin v) maxAcc ≤ fin (l.map Prod.snd).sum := by
  simp only [maxVel_eq, maxAcc_eq, minAcc_eq, fin_le_fin] at hvM hl ⊢
  rw [drive_fin l hvM, fin_le_fin] at h
  have hE : 0 ≤ v ^ 2 + 2 * 3 * disp := by positivity
  have hsum : 0 ≤ (l.map Prod.snd).sum := List.sum_nonneg fun t ht => by
    obtain ⟨g, hg, rfl⟩ := List.mem_map.mp ht
    exact (hl g hg).2.2
  have hle := Capped.drive_le (x := 0) l (fun g hg => (hl g hg).2) hvM
  rw [calculateTime_fin hE (.inl three_ne_zero), fin_le_fin]
  exact Capped.time_le (by norm_num) hv hvM (by norm_num) hE hsum (by linarith)

/-- The car speeds up to the limit, slows down, and speeds up to the limit again. -/
theorem calculateTime_le_drive_three : calculateTime (fin (3 / 4)) (fin 0) maxAcc ≤
    fin (([(3, 1 / 2), (-1, 1 / 4), (1, 1)] : List (ℝ × ℝ)).map Prod.snd).sum := by
  refine calculateTime_le_drive (by norm_num) le_rfl (by simp)
    [(3, 1 / 2), (-1, 1 / 4), (1, 1)] ?_ ?_
  · simp only [List.forall_mem_cons, minAcc_eq, maxAcc_eq, fin_le_fin]
    norm_num
  · rw [drive_fin _ (by norm_num), fin_le_fin]
    norm_num [Capped.drive, Capped.pos, Capped.vel]

end DrivingSim.Car
