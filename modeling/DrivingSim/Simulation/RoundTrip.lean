import DrivingSim.Simulation.Kinematics

/-!
# Simulation — times and positions

`calculate_time` and `calculate_pos` each test for themselves whether the car reaches `MAX_VEL`:
the one by the velocity at the end of the distance, the other by the velocity at the end of the
time.  The two tests agree, and at the cap itself both branches do.  So a car is at a distance at
the time at which `calculate_time` says, and is there at that time only
(`calculateTime_calculatePos`).
-/

namespace DrivingSim.Car
open XReal

/-- **Round trips.**  A car that moves or accelerates, at a velocity between zero and `MAX_VEL`: of
any distance that it goes, `calculate_time` is a time from zero on, at which `calculate_pos` is the
distance; and as long as the car moves forwards, the position at any time is reached then. -/
theorem calculateTime_calculatePos {v a : ℝ} (hv : 0 ≤ v) (hvM : v ≤ 1 / 2)
    (hav : ¬ (v = 0 ∧ a = 0)) :
    (∀ disp : ℝ, 0 ≤ disp → 0 ≤ v ^ 2 + 2 * a * disp →
      0 ≤ calculateTime (fin disp) (fin v) (fin a) ∧
      calculatePos (fin v) (fin a) (calculateTime (fin disp) (fin v) (fin a)) = fin disp) ∧
    ∀ t : ℝ, 0 ≤ t → 0 ≤ v + a * t →
      calculateTime (calculatePos (fin v) (fin a) (fin t)) (fin v) (fin a) = fin t := by
  have hM : (0 : ℝ) < 1 / 2 := by norm_num
  have hmoves : a ≠ 0 ∨ v ≠ 0 := by
    by_contra hno
    obtain ⟨ha, hv0⟩ := not_or.1 hno
    exact hav ⟨not_not.1 hv0, not_not.1 ha⟩
  have hmoves' : a ≠ 0 ∨ v ≠ 0 ∧ |v| ≤ 1 / 2 :=
    hmoves.imp_right fun hv0 => ⟨hv0, (abs_of_nonneg hv).le.trans hvM⟩
  refine ⟨fun disp hdisp hE => ?_, fun t _ hforward => ?_⟩
  · rw [calculateTime_fin hE hmoves', calculatePos_fin hvM, zero_eq, fin_le_fin]
    exact ⟨Capped.zero_le_time hM hv hvM hmoves hdisp hE,
      congrArg fin (Capped.pos_time hM hv hvM hmoves hE)⟩
  · obtain ⟨hE, htime⟩ := Capped.time_pos hM hvM hmoves hforward
    rw [calculatePos_fin hvM, calculateTime_fin hE hmoves', htime]

/-- A car that slows down to rest. -/
theorem slowing_roundTrip :
    calculateTime (calculatePos (fin (1 / 2)) (fin (-1)) (fin (1 / 2))) (fin (1 / 2)) (fin (-1)) =
      fin (1 / 2) :=
  (calculateTime_calculatePos (by norm_num) le_rfl (by norm_num)).2 (1 / 2) (by norm_num)
    (by norm_num)

end DrivingSim.Car
