import DrivingSim.Support.SolvedMotion
import DrivingSim.Simulation.Kinematics

/-!
# Simulation — arriving in time

`calculate_acc` solves for the acceleration that brings a car to a distance in a time, as if there
were no speed limit, and clamps it to what the car can do.  Which of the three gets in the way
decides on which side the car errs: at `MAX_ACC` or at `MAX_VEL` it is late, and where it would have
to brake harder than at `MIN_ACC` it is early (`calculateAcc_arrives`).
-/

namespace DrivingSim.Car
open XReal

/-- **Where a car is in time.**  The acceleration of `calculate_acc` is within the limits.  Where
the car need not brake harder than at `MIN_ACC`, it is not beyond the distance at the time, and is
there exactly where it need not speed up more than at `MAX_ACC` nor beyond `MAX_VEL`; otherwise it
is beyond the distance. -/
theorem calculateAcc_arrives {x v t : ℝ} (hvM : v ≤ 1 / 2) (ht : 0 < t) :
    (minAcc ≤ calculateAcc (fin x) (fin v) (fin t) ∧
      calculateAcc (fin x) (fin v) (fin t) ≤ maxAcc) ∧
    (minAcc ≤ calculateAccRaw (fin x) (fin v) (fin t) →
      calculatePos (fin v) (calculateAcc (fin x) (fin v) (fin t)) (fin t) ≤ fin x ∧
      (calculatePos (fin v) (calculateAcc (fin x) (fin v) (fin t)) (fin t) = fin x ↔
        calculateAccRaw (fin x) (fin v) (fin t) ≤ maxAcc ∧
          fin v + calculateAccRaw (fin x) (fin v) (fin t) * fin t ≤ maxVel)) ∧
    (calculateAccRaw (fin x) (fin v) (fin t) < minAcc →
      fin x < calculatePos (fin v) (calculateAcc (fin x) (fin v) (fin t)) (fin t)) := by
  have hr : 2 * (x - v * t) / t ^ 2 * t ^ 2 = 2 * (x - v * t) :=
    div_mul_cancel₀ _ (pow_pos ht 2).ne'
  have hlo : (-3 : ℝ) ≤ 0 := by norm_num
  have hhi : (-3 : ℝ) ≤ 3 := by norm_num
  obtain ⟨hpos, hover⟩ := Capped.pos_solved hlo hhi hvM ht hr
  simp only [calculateAccRaw_fin x v ht.ne', calculateAcc_fin x v ht.ne', minAcc_eq, maxAcc_eq,
    maxVel_eq, calculatePos_fin hvM, mul_fin, add_fin, fin_le_fin, fin_lt_fin, XReal.fin.injEq]
  refine ⟨⟨le_max_left _ _, max_le (by norm_num) (min_le_left _ _)⟩, hpos, hover⟩

/-- A car that cannot be there in time. -/
theorem tooFar_late : calculatePos (fin 0) (calculateAcc (fin 10) (fin 0) (fin 1)) (fin 1) ≤
    fin 10 := by
  refine ((calculateAcc_arrives (by norm_num) zero_lt_one).2.1 ?_).1
  rw [calculateAccRaw_fin _ _ one_ne_zero, minAcc_eq, fin_le_fin]
  norm_num

end DrivingSim.Car
