import DrivingSim.Support.SpeedLimit
import DrivingSim.Simulation.Kinematics

/-!
# Simulation — the speed limit

`calculate_vel` caps the velocity by a minimum, and `calculate_pos` the displacement by a branch on
when the cap is reached.  They are one motion: the displacement is the integral of the velocity,
and the motion can be split at any instant (`calculatePos_integral`).

So a car is nowhere faster than at `MAX_VEL`, and the window that `create_window` plans for it
begins no earlier than it could be there, and is no shorter than it needs to go through
(`createWindow_limit`).
-/

namespace DrivingSim.Car
open XReal

variable {v a : ℝ}

/-- **One motion.**  Of a car that is not faster than `MAX_VEL`, `calculate_pos` is the integral of
`calculate_vel`; and where it is and how fast after `s + t` is what it is after `t` from where it
is and how fast after `s`. -/
theorem calculatePos_integral (hvM : v ≤ 1 / 2) :
    (∃ velocity : ℝ → ℝ,
      (∀ s, calculateVel (fin v) (fin a) (fin s) = fin (velocity s)) ∧
      ∀ t, 0 ≤ t → calculatePos (fin v) (fin a) (fin t) = fin (∫ s in (0)..t, velocity s)) ∧
    ∀ s t : ℝ, 0 ≤ s → 0 ≤ t →
      calculatePos (fin v) (fin a) (fin (s + t)) = calculatePos (fin v) (fin a) (fin s) +
        calculatePos (calculateVel (fin v) (fin a) (fin s)) (fin a) (fin t) ∧
      calculateVel (fin v) (fin a) (fin (s + t)) =
        calculateVel (calculateVel (fin v) (fin a) (fin s)) (fin a) (fin t) := by
  refine ⟨⟨Capped.vel (1 / 2) v a, calculateVel_fin v a, fun t ht => ?_⟩, fun s t hs ht => ⟨?_, ?_⟩⟩
  · rw [calculatePos_fin hvM, Capped.integral_vel hvM ht]
  · rw [calculateVel_fin, calculatePos_fin hvM, calculatePos_fin hvM,
      calculatePos_fin (Capped.vel_le _ _ _ _), add_fin, Capped.pos_add hvM hs ht]
  · rw [calculateVel_fin, calculateVel_fin, calculateVel_fin, Capped.vel_vel hvM hs ht]

/-- A car that starts at the cap. -/
theorem atCap_integral :
    calculatePos (fin (1 / 2)) (fin 3) (fin (1 + 2)) = calculatePos (fin (1 / 2)) (fin 3) (fin 1) +
      calculatePos (calculateVel (fin (1 / 2)) (fin 3) (fin 1)) (fin 3) (fin 2) :=
  ((calculatePos_integral le_rfl).2 1 2 zero_le_one zero_le_two).1

/-- **The least occupancy.**  The window of a car that moves or accelerates, and whose way out of
the intersection is ahead, begins no earlier than after the distance at `MAX_VEL`, and takes no
less than its length and the width of the intersection at `MAX_VEL`. -/
theorem createWindow_limit {c : Car XReal} {l w x : ℝ} (hlength : c.length = fin l) (hl : 0 ≤ l)
    (hw : 0 ≤ w) (hx : 0 ≤ x) (hv : 0 ≤ v) (hvM : v ≤ 1 / 2) (hav : ¬ (v = 0 ∧ a = 0))
    (hE : 0 ≤ v ^ 2 + 2 * a * (x + l + w)) :
    fin x / maxVel ≤ (c.createWindow (fin x) (fin v) (fin a) (fin w)).first ∧
    (fin l + fin w) / maxVel ≤ (c.createWindow (fin x) (fin v) (fin a) (fin w)).second -
      (c.createWindow (fin x) (fin v) (fin a) (fin w)).first := by
  have hM : (0 : ℝ) < 1 / 2 := by norm_num
  have hmoves : a ≠ 0 ∨ v ≠ 0 := (not_and_or.1 hav).symm
  have hmoves' : a ≠ 0 ∨ v ≠ 0 ∧ |v| ≤ 1 / 2 :=
    hmoves.imp_right fun hv0 => ⟨hv0, (abs_of_nonneg hv).le.trans hvM⟩
  have hxy : x ≤ x + l + w := by linarith
  have hE' := Capped.reaches_of_le hxy hx hE
  simp only [createWindow, hlength, add_fin, maxVel_eq, calculateTime_fin hE hmoves',
    calculateTime_fin hE' hmoves', sub_fin, div_fin hM.ne', fin_le_fin]
  have hthrough : x + l + w - x = l + w := by ring
  refine ⟨Capped.div_le_time hM hv hvM hmoves hx hE', ?_⟩
  rw [← hthrough]
  exact Capped.div_le_time_sub hM hv hvM hmoves hx hxy hE

/-- A car that speeds up from rest. -/
theorem fromRest_limit : fin 1 / maxVel ≤
    ((⟨0, fin 1, fin 0, fin 0⟩ : Car XReal).createWindow (fin 1) (fin 0) (fin 3) (fin 1)).first :=
  (createWindow_limit rfl zero_le_one zero_le_one zero_le_one le_rfl (by norm_num) (by norm_num)
    (by norm_num)).1

end DrivingSim.Car
