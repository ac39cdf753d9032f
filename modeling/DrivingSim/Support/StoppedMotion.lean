import DrivingSim.Support.CappedMotion

/-!
# Support — motion that comes to a stop

The point of `CappedMotion.lean`, which stays where it is once its velocity has come down to zero.
Its velocity is that of the capped motion while it is positive, and `held` its displacement
(`integral_heldVel`).

* `time_le_of_le_held`, `le_time_of_held_le`: a point that has gone `x` is there no earlier than
  `time`, and one that has not gone further than `x` is there no later, if it passes `x` at all.
  So it is between two distances between the two times (`passes_between`).
* `le_held_of_time_le`, `held_le`: a point that slows down has gone `x` from `time` on, and goes no
  further than where it stops.
* `pos_le_of_forward`: a point that still moves forwards at `T` has not been further before.
-/

noncomputable section

namespace DrivingSim.Capped

variable {M v a s t x y T : ℝ}

/-- The velocity after `t`, of a point that does not go back. -/
def heldVel (M v a t : ℝ) : ℝ := max 0 (vel M v a t)

/-- The displacement: that of the capped motion, and from the stop on that at the stop. -/
def held (M v a t : ℝ) : ℝ := if v + a * t < 0 then pos M v a (-v / a) else pos M v a t

theorem held_of_forward (h : 0 ≤ v + a * t) : held M v a t = pos M v a t := if_neg h.not_gt

theorem vel_at_stop (ha : a < 0) : v + a * (-v / a) = 0 := by
  rw [mul_div_cancel₀ _ ha.ne, add_neg_cancel]

theorem held_of_stopped (hM : 0 ≤ M) (ha : a < 0) (h : v + a * t < 0) :
    held M v a t = v ^ 2 / (-(2 * a)) := by
  have hne := ha.ne
  rw [held, if_pos h, pos_of_le ((vel_at_stop ha).le.trans hM)]
  field_simp
  ring

/-- A point that stops slows down. -/
theorem acc_neg (hv : 0 ≤ v) (ht : 0 ≤ t) (h : v + a * t < 0) : a < 0 := by
  by_contra ha
  have := mul_nonneg (not_lt.1 ha) ht
  linarith

/-- What moves forwards at an instant has done so before. -/
theorem forward_of_le (hv : 0 ≤ v) (hs : 0 ≤ s) (hst : s ≤ t) (h : 0 ≤ v + a * t) :
    0 ≤ v + a * s := by
  rcases le_total 0 a with ha | ha
  · have := mul_nonneg ha hs
    linarith
  · have := mul_le_mul_of_nonpos_left hst ha
    linarith

/-- **The displacement is the integral of the velocity.** -/
theorem integral_heldVel (hv : 0 ≤ v) (hvM : v ≤ M) (ht : 0 ≤ t) :
    ∫ s in (0)..t, heldVel M v a s = held M v a t := by
  have hmoving : ∀ r, 0 ≤ r → 0 ≤ v + a * r →
      ∫ s in (0)..r, heldVel M v a s = pos M v a r := by
    intro r hr hforward
    rw [← integral_vel hvM hr]
    refine intervalIntegral.integral_congr fun s hs => max_eq_right ?_
    rw [Set.uIcc_of_le hr] at hs
    exact le_min (forward_of_le hv hs.1 hs.2 hforward) (hv.trans hvM)
  rcases le_or_gt 0 (v + a * t) with h | h
  · rw [held_of_forward h]
    exact hmoving t ht h
  · -- the point stops at `-v / a`
    have ha := acc_neg hv ht h
    have h₀ : 0 ≤ -v / a := div_nonneg_of_nonpos (by linarith) ha.le
    have h₁ : -v / a ≤ t := by
      rw [div_le_iff_of_neg ha]
      linarith
    have hrest : ∫ s in (-v / a)..t, heldVel M v a s = ∫ _ in (-v / a)..t, (0 : ℝ) := by
      refine intervalIntegral.integral_congr fun s hs => max_eq_left ?_
      rw [Set.uIcc_of_le h₁] at hs
      have hs' : a * s ≤ a * (-v / a) := mul_le_mul_of_nonpos_left hs.1 ha.le
      exact (min_le_left _ _).trans (by linarith [vel_at_stop (v := v) ha])
    have hcont : Continuous (heldVel M v a) := continuous_const.max (continuous_vel M v a)
    rw [← intervalIntegral.integral_add_adjacent_intervals (hcont.intervalIntegrable 0 (-v / a))
      (hcont.intervalIntegrable _ _), hmoving _ h₀ (vel_at_stop ha).ge, hrest,
      intervalIntegral.integral_zero, add_zero, held, if_pos h]

/-- A point that does not go back is never behind one that does. -/
theorem pos_le_held (hM : 0 ≤ M) (hv : 0 ≤ v) (ht : 0 ≤ t) : pos M v a t ≤ held M v a t := by
  rcases le_or_gt 0 (v + a * t) with h | h
  · exact (held_of_forward h).ge
  · have ha := acc_neg hv ht h
    rw [held_of_stopped hM ha h, pos_of_le (h.le.trans hM), le_div_iff₀ (by linarith)]
    nlinarith [sq_nonneg (v + a * t)]

/-! ### Slowing down -/

/-- The square of the velocity, of a point that slows down. -/
theorem sq_of_slow (hvM : v ≤ M) (ha : a ≤ 0) (ht : 0 ≤ t) :
    v ^ 2 + 2 * a * pos M v a t = (v + a * t) ^ 2 := by
  have hle : v + a * t ≤ M := by
    have := mul_nonpos_of_nonpos_of_nonneg ha ht
    linarith
  rw [pos_of_le hle]
  ring

/-- Where the point stops. -/
theorem held_le (hv : 0 ≤ v) (hvM : v ≤ M) (ha : a < 0) (ht : 0 ≤ t) (hE : v ^ 2 + 2 * a * x ≤ 0) :
    held M v a t ≤ x := by
  rcases le_or_gt 0 (v + a * t) with h | h
  · rw [held_of_forward h]
    have hsq := sq_of_slow hvM ha.le ht
    have := sq_nonneg (v + a * t)
    nlinarith
  · rw [held_of_stopped (hv.trans hvM) ha h, div_le_iff₀ (by linarith)]
    linarith

/-- A point that slows down has gone `x` from `time` on. -/
theorem le_held_of_time_le (hv : 0 ≤ v) (hvM : v ≤ M) (ha : a < 0) (hx : 0 ≤ x)
    (hE : 0 ≤ v ^ 2 + 2 * a * x) (ht : 0 ≤ t) (h : time M v a x ≤ t) : x ≤ held M v a t := by
  rw [time_of_le ha.ne (sqrt_le_of_nonpos ha.le hv hvM hx), div_le_iff_of_neg ha] at h
  rcases le_or_gt 0 (v + a * t) with hforward | hstopped
  · rw [held_of_forward hforward]
    have hsq := sq_of_slow hvM ha.le ht
    have hle : (v + a * t) ^ 2 ≤ v ^ 2 + 2 * a * x := by
      rw [← Real.sq_sqrt hE]
      exact pow_le_pow_left₀ hforward (by linarith) 2
    nlinarith
  · rw [held_of_stopped (hv.trans hvM) ha hstopped, le_div_iff₀ (by linarith)]
    linarith

/-- **A point that has gone `x`** gets there, no later than now. -/
theorem time_le_of_le_held (hM : 0 < M) (hv : 0 ≤ v) (hvM : v ≤ M) (hav : a ≠ 0 ∨ v ≠ 0)
    (hx : 0 ≤ x) (ht : 0 ≤ t) (h : x ≤ held M v a t) :
    0 ≤ v ^ 2 + 2 * a * x ∧ time M v a x ≤ t := by
  rcases lt_trichotomy a 0 with ha | rfl | ha
  · have hroot := time_of_le (M := M) ha.ne (sqrt_le_of_nonpos ha.le hv hvM hx)
    rw [hroot, div_le_iff_of_neg ha]
    rcases le_or_gt 0 (v + a * t) with hforward | hstopped
    · rw [held_of_forward hforward] at h
      have hsq := sq_of_slow hvM ha.le ht
      have hle : (v + a * t) ^ 2 ≤ v ^ 2 + 2 * a * x := by nlinarith
      have := Real.le_sqrt_of_sq_le hle
      exact ⟨(sq_nonneg _).trans hle, by linarith⟩
    · rw [held_of_stopped hM.le ha hstopped, le_div_iff₀ (by linarith)] at h
      have := Real.sqrt_nonneg (v ^ 2 + 2 * a * x)
      exact ⟨by linarith, by linarith⟩
  · have hv0 : 0 < v := lt_of_le_of_ne hv (hav.resolve_left (· rfl)).symm
    rw [held_of_forward (by linarith), pos_of_le (by linarith)] at h
    rw [time_zero ((abs_of_pos hv0).le.trans hvM), div_le_iff₀ hv0]
    exact ⟨by positivity, by linarith⟩
  · have hE : 0 ≤ v ^ 2 + 2 * a * x := by positivity
    rw [held_of_forward (by positivity)] at h
    exact ⟨hE, time_le hM hv hvM ha hE ht h⟩

/-- **A point that has not gone further than `x`**, and that goes further, is there no earlier. -/
theorem le_time_of_held_le (hM : 0 < M) (hv : 0 ≤ v) (hvM : v ≤ M) (hav : a ≠ 0 ∨ v ≠ 0)
    (hx : 0 ≤ x) (ht : 0 ≤ t) (hpasses : a < 0 → 0 < v ^ 2 + 2 * a * x)
    (h : held M v a t ≤ x) : t ≤ time M v a x := by
  rcases lt_trichotomy a 0 with ha | rfl | ha
  · have hE := hpasses ha
    rw [time_of_le ha.ne (sqrt_le_of_nonpos ha.le hv hvM hx), le_div_iff_of_neg ha]
    rcases le_or_gt 0 (v + a * t) with hforward | hstopped
    · rw [held_of_forward hforward] at h
      have hsq := sq_of_slow hvM ha.le ht
      have hle : v ^ 2 + 2 * a * x ≤ (v + a * t) ^ 2 := by nlinarith
      have := Real.sqrt_le_iff.2 ⟨hforward, hle⟩
      linarith
    · rw [held_of_stopped hM.le ha hstopped, div_le_iff₀ (by linarith)] at h
      linarith
  · have hv0 : 0 < v := lt_of_le_of_ne hv (hav.resolve_left (· rfl)).symm
    rw [held_of_forward (by linarith), pos_of_le (by linarith)] at h
    rw [time_zero ((abs_of_pos hv0).le.trans hvM), le_div_iff₀ hv0]
    linarith
  · by_contra hlt
    have hE : 0 ≤ v ^ 2 + 2 * a * x := by positivity
    have hfurther := pos_lt_pos hM hv hvM ha (time_nonneg hM ha hx) (not_le.1 hlt)
    rw [pos_time hM hv hvM (.inl ha.ne') hE] at hfurther
    rw [held_of_forward (by positivity)] at h
    linarith

/-- The times between which a point that passes both distances is there. -/
theorem passes_between (hM : 0 < M) (hv : 0 ≤ v) (hvM : v ≤ M) (hav : a ≠ 0 ∨ v ≠ 0)
    (hx : 0 ≤ x) (hs : 0 ≤ s) (hpasses : a < 0 → 0 < v ^ 2 + 2 * a * y) (hxs : x ≤ held M v a s)
    (hsy : held M v a s ≤ y) : reckoned M v a x ≤ s ∧ s ≤ reckoned M v a y := by
  obtain ⟨hE, hfirst⟩ := time_le_of_le_held hM hv hvM hav hx hs hxs
  have hy : 0 ≤ y := hx.trans (hxs.trans hsy)
  have hE' : 0 ≤ v ^ 2 + 2 * a * y := by
    rcases lt_or_ge a 0 with ha | ha
    · exact (hpasses ha).le
    · positivity
  rw [reckoned, if_pos hE, reckoned, if_pos hE']
  exact ⟨hfirst, le_time_of_held_le hM hv hvM hav hy hs hpasses hsy⟩

/-! ### Moving forwards -/

/-- A point that has come to the cap has not gone as far as it would have without. -/
theorem pos_lt_uncapped (hvM : v ≤ M) (ht : 0 ≤ t) (h : M < v + a * t) :
    pos M v a t < v * t + a * t ^ 2 / 2 := by
  have ha : 0 < a := by
    by_contra hno
    have := mul_nonpos_of_nonpos_of_nonneg (not_lt.1 hno) ht
    linarith
  have hgain : v * t + a * t ^ 2 / 2 - pos M v a t = (v + a * t - M) ^ 2 / (2 * a) := by
    rw [pos, if_pos h]
    field_simp
    ring
  have hover : 0 < v + a * t - M := by linarith
  have : 0 < (v + a * t - M) ^ 2 / (2 * a) := by positivity
  linarith

/-- The cap does not bring the point further. -/
theorem pos_le_uncapped (hvM : v ≤ M) (ht : 0 ≤ t) : pos M v a t ≤ v * t + a * t ^ 2 / 2 := by
  rcases le_or_gt (v + a * t) M with h | h
  · exact (pos_of_le h).le
  · exact (pos_lt_uncapped hvM ht h).le

/-- **A point that still moves forwards at `T`** has not been further than without the cap then. -/
theorem pos_le_of_forward (hv : 0 ≤ v) (hvM : v ≤ M) (hs : 0 ≤ s) (hsT : s ≤ T)
    (hforward : 0 ≤ v + a * T) : pos M v a s ≤ v * T + a * T ^ 2 / 2 := by
  have hmean : 0 ≤ v + a * ((s + T) / 2) :=
    forward_of_le hv (by linarith) (by linarith) hforward
  have hrest : 0 ≤ (T - s) * (v + a * ((s + T) / 2)) :=
    mul_nonneg (by linarith) hmean
  have huncapped := pos_le_uncapped (a := a) hvM hs
  linarith

end DrivingSim.Capped

end
