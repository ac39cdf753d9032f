import DrivingSim.Support.CappedMotion

/-!
# Support — how long a distance takes at least

The velocity of the point of `CappedMotion.lean` is at most the cap `M`, so that it goes at most
`M * t` in the time `t` (`pos_le_limit`).  It comes to what is further no earlier (`time_mono`),
and so takes at least `x / M` for a distance `x` (`div_le_time`), and at least `(y - x) / M` from
one distance to another (`div_le_time_sub`), whichever formula `time` takes for each of them.
-/

namespace DrivingSim.Capped

variable {M v a s t x y : ℝ}

/-- **The speed limit.** -/
theorem pos_le_limit (hvM : v ≤ M) (ht : 0 ≤ t) : pos M v a t ≤ M * t := by
  calc pos M v a t = ∫ s in (0)..t, vel M v a s := (integral_vel hvM ht).symm
    _ ≤ ∫ _ in (0)..t, M := intervalIntegral.integral_mono_on ht
        ((continuous_vel M v a).intervalIntegrable _ _) (by simp) fun s _ => vel_le M v a s
    _ = M * t := by
        rw [intervalIntegral.integral_const, smul_eq_mul, sub_zero, mul_comm]

/-- From one instant to a later one. -/
theorem pos_sub_le_limit (hvM : v ≤ M) (hs : 0 ≤ s) (hst : s ≤ t) :
    pos M v a t - pos M v a s ≤ M * (t - s) := by
  have hrest : 0 ≤ t - s := sub_nonneg.2 hst
  have hsplit := pos_add (a := a) hvM hs hrest
  have hlimit := pos_le_limit (a := a) (vel_le M v a s) hrest
  rw [add_sub_cancel] at hsplit
  linarith

/-- What is further is reached no earlier. -/
theorem time_mono (hM : 0 < M) (hv : 0 ≤ v) (hvM : v ≤ M) (hav : a ≠ 0 ∨ v ≠ 0) (hx : 0 ≤ x)
    (hxy : x ≤ y) (hE : 0 ≤ v ^ 2 + 2 * a * y) : time M v a x ≤ time M v a y := by
  rcases lt_or_ge 0 a with ha | ha
  · exact time_le_time hM ha (by positivity) hxy
  · rcases eq_or_lt_of_le hv with rfl | hv
    · -- a point at rest that slows down goes no distance
      have ha' : a < 0 := lt_of_le_of_ne ha (hav.resolve_right (· rfl))
      have hy : y = 0 := by nlinarith
      rw [hy, le_antisymm (hxy.trans hy.le) hx]
    · exact (time_le_time_of_nonpos ha hv hvM hx hxy).2

/-- Where the point comes to what is further, it comes to what is nearer. -/
theorem reaches_of_le (hxy : x ≤ y) (hx : 0 ≤ x) (hE : 0 ≤ v ^ 2 + 2 * a * y) :
    0 ≤ v ^ 2 + 2 * a * x := by
  rcases le_total 0 a with ha | ha
  · positivity
  · have := mul_le_mul_of_nonpos_left hxy ha
    linarith

/-- **The least time for a distance.** -/
theorem div_le_time (hM : 0 < M) (hv : 0 ≤ v) (hvM : v ≤ M) (hav : a ≠ 0 ∨ v ≠ 0) (hx : 0 ≤ x)
    (hE : 0 ≤ v ^ 2 + 2 * a * x) : x / M ≤ time M v a x := by
  have hlimit := pos_le_limit (a := a) hvM (zero_le_time hM hv hvM hav hx hE)
  rw [pos_time hM hv hvM hav hE] at hlimit
  rw [div_le_iff₀ hM, mul_comm]
  exact hlimit

/-- **The least time between two distances.** -/
theorem div_le_time_sub (hM : 0 < M) (hv : 0 ≤ v) (hvM : v ≤ M) (hav : a ≠ 0 ∨ v ≠ 0)
    (hx : 0 ≤ x) (hxy : x ≤ y) (hE : 0 ≤ v ^ 2 + 2 * a * y) :
    (y - x) / M ≤ time M v a y - time M v a x := by
  have hE' := reaches_of_le hxy hx hE
  have hlimit := pos_sub_le_limit (a := a) hvM (zero_le_time hM hv hvM hav hx hE')
    (time_mono hM hv hvM hav hx hxy hE)
  rw [pos_time hM hv hvM hav hE, pos_time hM hv hvM hav hE'] at hlimit
  rw [div_le_iff₀ hM, mul_comm]
  exact hlimit

end DrivingSim.Capped
