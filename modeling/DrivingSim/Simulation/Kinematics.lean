import DrivingSim.Support.XReal
import DrivingSim.Support.CappedMotion
import DrivingSim.Simulation.Car

/-!
# Simulation — the kinematics at the reals

Where a double is read as a real, the functions of `car.cpp` are the motion of
`CappedMotion.lean` with the cap `1/2`: `calculate_vel` is its velocity, `calculate_pos` its
displacement, and `calculate_time` the time to go a distance, if the car gets that far
(`calculateTime_fin`).  Where it does not, the square root is not a number, and `calculate_time`
goes on as if the cap had been reached (`calculateTime_of_neg`).

`calculate_acc` solves for the acceleration and clamps it to `[-3, 3]` (`calculateAcc_fin`); what
is not a number it returns (`calculateAcc_of_raw_nan`).
-/

namespace DrivingSim.Car
open XReal

/-! ### Constants -/

@[simp] theorem maxVel_eq : (maxVel : XReal) = fin (1 / 2) := by
  rw [maxVel, ofScientific_eq]
  norm_num

@[simp] theorem maxAcc_eq : (maxAcc : XReal) = fin 3 := by
  rw [maxAcc, ofNat_eq]

@[simp] theorem minAcc_eq : (minAcc : XReal) = fin (-3) := by
  rw [minAcc, ofNat_eq, neg_fin]

/-! ### Velocity and position -/

@[simp] theorem calculateVelRaw_fin (v a t : ℝ) :
    calculateVelRaw (fin v) (fin a) (fin t) = fin (v + a * t) := rfl

theorem calculateVel_fin (v a t : ℝ) :
    calculateVel (fin v) (fin a) (fin t) = fin (Capped.vel (1 / 2) v a t) := by
  rw [calculateVel, calculateVelRaw_fin, ofScientific_eq, stdMin_fin, Capped.vel]
  norm_num

theorem calculatePos_fin {v : ℝ} (hv : v ≤ 1 / 2) (a t : ℝ) :
    calculatePos (fin v) (fin a) (fin t) = fin (Capped.pos (1 / 2) v a t) := by
  simp only [calculatePos, Capped.pos, calculateVelRaw_fin, maxVel_eq, fin_lt_fin, ofScientific_eq,
    sub_fin, mul_fin, pow2_fin, add_fin]
  split
  case isTrue h =>
    have ha : a ≠ 0 := fun e => by subst e; linarith
    rw [div_fin ha]
    simp only [mul_fin, pow2_fin, add_fin, sub_fin]
    congr 1
    field_simp
    ring
  case isFalse h =>
    congr 1
    ring

/-! ### Time -/

theorem calculateTimeRaw_fin {x v a : ℝ} (ha : a ≠ 0) (hE : 0 ≤ v ^ 2 + 2 * a * x) :
    calculateTimeRaw (fin x) (fin v) (fin a) = fin ((-v + √(v ^ 2 + 2 * a * x)) / a) := by
  have h₂ : (2.0 : ℝ) = 2 := by norm_num
  have h₁ : (1.0 : ℝ) = 1 := by norm_num
  simp only [calculateTimeRaw, zero_eq, beq_fin, ha, if_false, ofScientific_eq, pow2_fin, mul_fin,
    add_fin, neg_fin, h₁, h₂, sqrt_fin hE, div_fin ha]
  ring_nf

theorem calculateTimeRaw_zero {x v : ℝ} :
    calculateTimeRaw (fin x) (fin v) (fin 0) = fin x / fin v := by
  simp [calculateTimeRaw]

/-- The branch of `calculate_time` in which the cap is reached. -/
theorem cruise_fin {x v a : ℝ} (ha : a ≠ 0) :
    (fin (1 / 2) - fin v) / fin a +
        (fin x - (fin v * ((fin (1 / 2) - fin v) / fin a) +
          0.5 * fin a * Double.pow2 ((fin (1 / 2) - fin v) / fin a))) / fin (1 / 2) =
      (fin (Capped.cruise (1 / 2) v a x) : XReal) := by
  simp only [sub_fin, div_fin ha, mul_fin, pow2_fin, ofScientific_eq, add_fin,
    div_fin (show (1 / 2 : ℝ) ≠ 0 by norm_num), Capped.cruise]
  congr 1
  field_simp
  ring

/-- **`calculate_time`**, where the distance is gone: the time of the capped motion. -/
theorem calculateTime_fin {x v a : ℝ} (hE : 0 ≤ v ^ 2 + 2 * a * x)
    (hav : a ≠ 0 ∨ v ≠ 0 ∧ |v| ≤ 1 / 2) :
    calculateTime (fin x) (fin v) (fin a) = fin (Capped.time (1 / 2) v a x) := by
  simp only [calculateTime, ofNat_eq, pow2_fin, mul_fin, add_fin, sqrt_fin hE, maxVel_eq,
    fin_le_fin]
  by_cases h : √(v ^ 2 + 2 * a * x) ≤ 1 / 2
  · rw [if_pos h]
    by_cases ha : a = 0
    · subst ha
      have hv := hav.resolve_left (· rfl)
      rw [calculateTimeRaw_zero, div_fin hv.1, Capped.time_zero hv.2]
    · rw [calculateTimeRaw_fin ha hE, Capped.time_of_le ha h]
  · have ha : a ≠ 0 := hav.elim id fun hv => Capped.acc_ne_zero hv.2 (not_le.mp h)
    rw [if_neg h, cruise_fin ha, Capped.time_of_lt (not_le.mp h)]

/-- A car at `MAX_VEL` that accelerates stays there. -/
theorem calculateTime_cap {x : ℝ} (hx : 0 ≤ x) :
    calculateTime (fin x) (fin (1 / 2)) (fin 3) = fin (2 * x) := by
  rw [calculateTime_fin (by positivity) (.inl three_ne_zero),
    Capped.time_cap (by norm_num) (by norm_num) hx]
  congr 1
  ring

/-- `calculate_time` when the velocity at the end is known. -/
theorem calculateTime_of_sq {x v a r : ℝ} (ha : a ≠ 0) (hr : v ^ 2 + 2 * a * x = r ^ 2)
    (h₀ : 0 ≤ r) (h₁ : r ≤ 1 / 2) :
    calculateTime (fin x) (fin v) (fin a) = fin ((-v + r) / a) := by
  have hs : √(v ^ 2 + 2 * a * x) = r := by rw [hr, Real.sqrt_sq h₀]
  rw [calculateTime_fin (hr ▸ sq_nonneg r) (.inl ha), Capped.time_of_le ha (hs ▸ h₁), hs]

/-- `calculate_time` of a distance that is never gone. -/
theorem calculateTime_of_neg {x v a : ℝ} (hE : v ^ 2 + 2 * a * x < 0) :
    calculateTime (fin x) (fin v) (fin a) = fin (Capped.cruise (1 / 2) v a x) := by
  have ha : a ≠ 0 := fun e => by subst e; nlinarith [sq_nonneg v]
  simp only [calculateTime, ofNat_eq, pow2_fin, mul_fin, add_fin, sqrt_neg hE, maxVel_eq]
  rw [if_neg (not_nan_le _), cruise_fin ha]

/-- Of a car that speeds up, slows down or moves, `calculate_time` is a number. -/
theorem calculateTime_reckoned {v a : ℝ} (hav : a ≠ 0 ∨ v ≠ 0 ∧ |v| ≤ 1 / 2) (x : ℝ) :
    calculateTime (fin x) (fin v) (fin a) = fin (Capped.reckoned (1 / 2) v a x) := by
  rw [Capped.reckoned]
  split_ifs with hE
  · exact calculateTime_fin hE hav
  · exact calculateTime_of_neg (not_le.1 hE)

theorem isReal_calculateTime {v a : ℝ} (hav : a ≠ 0 ∨ v ≠ 0 ∧ |v| ≤ 1 / 2) (x : ℝ) :
    (calculateTime (fin x) (fin v) (fin a)).IsReal := ⟨_, calculateTime_reckoned hav x⟩

/-- Of one that does neither, and of one that is too fast and does not slow down, it is not. -/
theorem not_isReal_calculateTime {x v : ℝ} (hv : ¬ (v ≠ 0 ∧ |v| ≤ 1 / 2)) :
    ¬ (calculateTime (fin x) (fin v) (fin 0)).IsReal := by
  have hE : v ^ 2 + 2 * 0 * x = v ^ 2 := by ring
  simp only [calculateTime, ofNat_eq, pow2_fin, mul_fin, add_fin, hE, sqrt_fin (sq_nonneg v),
    Real.sqrt_sq_eq_abs, maxVel_eq, fin_le_fin]
  split_ifs with hslow
  · have hv0 : v = 0 := not_not.1 fun hv0 => hv ⟨hv0, hslow⟩
    rw [calculateTimeRaw_zero, hv0, XReal.div_zero]
    exact not_isReal_signed x
  · rw [sub_fin, XReal.div_zero]
    exact not_isReal_add (not_isReal_signed _) _

theorem isReal_calculateTime_iff {x v a : ℝ} :
    (calculateTime (fin x) (fin v) (fin a)).IsReal ↔ a ≠ 0 ∨ v ≠ 0 ∧ |v| ≤ 1 / 2 := by
  refine ⟨fun h => ?_, fun hav => isReal_calculateTime hav x⟩
  by_contra hno
  obtain ⟨ha, hv⟩ := not_or.1 hno
  rw [not_not.1 ha] at h
  exact not_isReal_calculateTime hv h

/-! ### Acceleration -/

theorem calculateAccRaw_fin (x v : ℝ) {t : ℝ} (ht : t ≠ 0) :
    calculateAccRaw (fin x) (fin v) (fin t) = fin (2 * (x - v * t) / t ^ 2) := by
  simp only [calculateAccRaw, ofScientific_eq, mul_fin, sub_fin, pow2_fin,
    div_fin (pow_ne_zero 2 ht)]
  norm_num

/-- The clamp of `calculate_acc`. -/
theorem calculateAcc_fin (x v : ℝ) {t : ℝ} (ht : t ≠ 0) :
    calculateAcc (fin x) (fin v) (fin t) = fin (max (-3) (min 3 (2 * (x - v * t) / t ^ 2))) := by
  simp only [calculateAcc, calculateAccRaw_fin x v ht, minAcc_eq, maxAcc_eq, fin_lt_fin]
  split
  case isTrue h => rw [min_eq_right (by linarith), max_eq_left h.le]
  case isFalse h =>
    split
    case isTrue h' => rw [min_eq_left h'.le, max_eq_right (by norm_num)]
    case isFalse h' => rw [min_eq_right (not_lt.mp h'), max_eq_right (not_lt.mp h)]

theorem calculateAcc_of_raw_nan {x v t : XReal} (h : calculateAccRaw x v t = nan) :
    calculateAcc x v t = nan := by
  simp [calculateAcc, h]

end DrivingSim.Car
