import Mathlib.Analysis.SpecialFunctions.Integrals.Basic

/-!
# Support — motion under a speed cap

A point that starts at velocity `v` and accelerates at `a` until its velocity reaches the cap
`M`, and goes on at `M` from there.  `vel` is its velocity and `pos` its displacement after
`t`; `time` is when it has gone the distance `x`, by the velocity `√(v² + 2ax)` it would have
there without the cap.

* `integral_vel`: the displacement is the integral of the velocity.  So the motion can be split
  at any instant (`pos_add`), and more velocity or more acceleration brings it no less far
  (`pos_le_pos`).
* `pos_time`, `vel_time`: at `time`, the displacement is `x` and the velocity the capped
  `√(v² + 2ax)`.
* `drive_le`: over any sequence of segments, the point goes no further than at the greatest of
  its accelerations.
* `le_time`, `time_eq`: a point that would not have gone further than `x` by `T` is there no
  earlier; one that would have gone `x` exactly at `T`, and still moves forwards, is there then.
* `time_pos`: the time to go the displacement after `t` is `t`, while the point moves forwards.
-/

noncomputable section

namespace DrivingSim.Capped

variable {M v w a b s t x y T : ℝ}

/-- The velocity after `t`. -/
def vel (M v a t : ℝ) : ℝ := min (v + a * t) M

/-- The displacement after `t`: accelerating, and at the cap from when it is reached. -/
def pos (M v a t : ℝ) : ℝ :=
  if M < v + a * t then (M ^ 2 - v ^ 2) / (2 * a) + M * (t - (M - v) / a)
  else v * t + a * t ^ 2 / 2

/-- The time to go `x`, given that the cap is reached on the way. -/
def cruise (M v a x : ℝ) : ℝ := x / M + (M - v) ^ 2 / (2 * a * M)

/-- The time to go `x`. -/
def time (M v a x : ℝ) : ℝ :=
  if √(v ^ 2 + 2 * a * x) ≤ M then
    if a = 0 then x / v else (-v + √(v ^ 2 + 2 * a * x)) / a
  else cruise M v a x

/-- The time reckoned for `x`: as if at the cap where `x` is never gone. -/
def reckoned (M v a x : ℝ) : ℝ := if 0 ≤ v ^ 2 + 2 * a * x then time M v a x else cruise M v a x

/-- Solving for the acceleration that brings the point to `D` at `T`, within limits. -/
def solved (lo hi D T v : ℝ) : ℝ := max lo (min hi (2 * (D - v * T) / T ^ 2))

/-- By how much the square of the velocity after `x` would exceed that of the cap. -/
def excess (M v a x : ℝ) : ℝ := max (v ^ 2 + 2 * a * x) (M ^ 2) - M ^ 2

/-! ### The displacement is the integral of the velocity -/

theorem vel_le (M v a t : ℝ) : vel M v a t ≤ M := min_le_right _ _

theorem continuous_vel (M v a : ℝ) : Continuous (vel M v a) := by
  unfold vel; fun_prop

theorem pos_of_le (h : v + a * t ≤ M) : pos M v a t = v * t + a * t ^ 2 / 2 :=
  if_neg h.not_gt

theorem integral_linear (v a s t : ℝ) :
    ∫ r in s..t, (v + a * r) = v * (t - s) + a * (t ^ 2 - s ^ 2) / 2 := by
  rw [intervalIntegral.integral_add (by simp) (by apply Continuous.intervalIntegrable; fun_prop),
    intervalIntegral.integral_const, intervalIntegral.integral_const_mul, integral_id]
  simp only [smul_eq_mul]; ring

/-- The cap is not exceeded before it is reached. -/
theorem le_of_le_of_vel_le (hv : v ≤ M) (hs : 0 ≤ s) (hst : s ≤ t) (h : v + a * t ≤ M) :
    v + a * s ≤ M := by
  rcases le_total 0 a with ha | ha
  · nlinarith
  · nlinarith

/-- **The displacement is the integral of the velocity.** -/
theorem integral_vel (hv : v ≤ M) (ht : 0 ≤ t) : ∫ s in (0)..t, vel M v a s = pos M v a t := by
  by_cases h : M < v + a * t
  · have ha : 0 < a := by
      by_contra hc
      nlinarith
    have hr : 0 ≤ (M - v) / a := div_nonneg (by linarith) ha.le
    have hrt : (M - v) / a ≤ t := by rw [div_le_iff₀ ha]; linarith
    have h₁ : ∫ s in (0)..(M - v) / a, vel M v a s = ∫ s in (0)..(M - v) / a, (v + a * s) := by
      refine intervalIntegral.integral_congr fun s hs => min_eq_left ?_
      rw [Set.uIcc_of_le hr] at hs
      have := (le_div_iff₀ ha).mp hs.2
      linarith
    have h₂ : ∫ s in (M - v) / a..t, vel M v a s = ∫ _ in (M - v) / a..t, M := by
      refine intervalIntegral.integral_congr fun s hs => min_eq_right ?_
      rw [Set.uIcc_of_le hrt] at hs
      have := (div_le_iff₀ ha).mp hs.1
      linarith
    rw [← intervalIntegral.integral_add_adjacent_intervals
        ((continuous_vel M v a).intervalIntegrable 0 ((M - v) / a))
        ((continuous_vel M v a).intervalIntegrable _ _),
      h₁, h₂, integral_linear, intervalIntegral.integral_const, pos, if_pos h, smul_eq_mul]
    field_simp
    ring
  · have hle := not_lt.mp h
    have h₁ : ∫ s in (0)..t, vel M v a s = ∫ s in (0)..t, (v + a * s) := by
      refine intervalIntegral.integral_congr fun s hs => min_eq_left ?_
      rw [Set.uIcc_of_le ht] at hs
      exact le_of_le_of_vel_le hv hs.1 hs.2 hle
    rw [h₁, integral_linear, pos_of_le hle]
    ring

theorem vel_vel (hv : v ≤ M) (hs : 0 ≤ s) (ht : 0 ≤ t) :
    vel M (vel M v a s) a t = vel M v a (s + t) := by
  have same : v + a * s ≤ M → vel M (vel M v a s) a t = vel M v a (s + t) := fun h => by
    unfold vel
    rw [min_eq_left h]
    ring_nf
  rcases le_total a 0 with ha | ha
  · exact same (by nlinarith)
  · rcases le_total (v + a * s) M with h | h
    · exact same h
    · have hat : 0 ≤ a * t := mul_nonneg ha ht
      unfold vel
      rw [min_eq_right h, min_eq_right (by linarith), min_eq_right (by linarith)]

/-- **The motion can be split at any instant.** -/
theorem pos_add (hv : v ≤ M) (hs : 0 ≤ s) (ht : 0 ≤ t) :
    pos M v a (s + t) = pos M v a s + pos M (vel M v a s) a t := by
  have h : ∫ r in s..s + t, vel M v a r = ∫ r in (0)..t, vel M (vel M v a s) a r := by
    have hr : ∀ r ∈ Set.uIcc 0 t, vel M (vel M v a s) a r = vel M v a (s + r) := fun r hr => by
      rw [Set.uIcc_of_le ht] at hr
      exact vel_vel hv hs hr.1
    rw [intervalIntegral.integral_congr hr, intervalIntegral.integral_comp_add_left, add_zero]
  rw [← integral_vel hv (add_nonneg hs ht), ← integral_vel hv hs,
    ← integral_vel (vel_le M v a s) ht, ← h]
  exact (intervalIntegral.integral_add_adjacent_intervals
    ((continuous_vel M v a).intervalIntegrable _ _)
    ((continuous_vel M v a).intervalIntegrable _ _)).symm

theorem vel_le_vel (hvw : v ≤ w) (hab : a ≤ b) (ht : 0 ≤ t) : vel M v a t ≤ vel M w b t :=
  min_le_min_right M (add_le_add hvw (mul_le_mul_of_nonneg_right hab ht))

/-- **More velocity and more acceleration bring the point no less far.** -/
theorem pos_le_pos (hvw : v ≤ w) (hw : w ≤ M) (hab : a ≤ b) (ht : 0 ≤ t) :
    pos M v a t ≤ pos M w b t := by
  rw [← integral_vel (hvw.trans hw) ht, ← integral_vel hw ht]
  exact intervalIntegral.integral_mono_on ht
    ((continuous_vel M v a).intervalIntegrable _ _)
    ((continuous_vel M w b).intervalIntegrable _ _)
    fun s hs => vel_le_vel hvw hab hs.1

theorem pos_pos (hM : 0 < M) (hv : 0 ≤ v) (hvM : v ≤ M) (ha : 0 < a) (ht : 0 < t) :
    0 < pos M v a t := by
  unfold pos
  split
  case isTrue h =>
    have h₁ : 0 ≤ (M ^ 2 - v ^ 2) / (2 * a) := div_nonneg (by nlinarith) (by linarith)
    have h₂ : (M - v) / a < t := by rw [div_lt_iff₀ ha]; linarith
    have h₃ : 0 < M * (t - (M - v) / a) := mul_pos hM (by linarith)
    linarith
  case isFalse h => positivity

/-- A point that speeds up keeps going further. -/
theorem pos_lt_pos (hM : 0 < M) (hv : 0 ≤ v) (hvM : v ≤ M) (ha : 0 < a) (hs : 0 ≤ s)
    (hst : s < t) : pos M v a s < pos M v a t := by
  have hr : 0 < t - s := sub_pos.mpr hst
  have h := pos_add (a := a) hvM hs hr.le
  have hw : 0 ≤ vel M v a s := le_min (by positivity) hM.le
  have := pos_pos hM hw (vel_le M v a s) ha hr
  rw [add_sub_cancel] at h
  linarith

/-! ### A sequence of segments -/

/-- Displacement and velocity after a sequence of segments, each an acceleration held for a
time. -/
def drive (M : ℝ) (s : ℝ × ℝ) (l : List (ℝ × ℝ)) : ℝ × ℝ :=
  l.foldl (fun s g => (s.1 + pos M s.2 g.1 g.2, vel M s.2 g.1 g.2)) s

/-- **Full acceleration all the way is the furthest.**  A point that never accelerates at more
than `a` goes no further than one that does so all the time. -/
theorem drive_le (l : List (ℝ × ℝ)) (hl : ∀ g ∈ l, g.1 ≤ a ∧ 0 ≤ g.2) :
    ∀ {x v}, v ≤ M → (drive M (x, v) l).1 ≤ x + pos M v a (l.map Prod.snd).sum := by
  induction l with
  | nil =>
      intro x v hv
      rw [List.map_nil, List.sum_nil, pos_of_le (by simpa using hv)]
      simp [drive]
  | cons g l ih =>
      intro x v hv
      obtain ⟨hga, hg⟩ := hl g List.mem_cons_self
      have hl' : ∀ h ∈ l, h.1 ≤ a ∧ 0 ≤ h.2 := fun h hh => hl h (List.mem_cons_of_mem g hh)
      have hsum : 0 ≤ (l.map Prod.snd).sum := List.sum_nonneg fun t ht => by
        obtain ⟨h, hh, rfl⟩ := List.mem_map.mp ht
        exact (hl' h hh).2
      have h₁ := ih hl' (x := x + pos M v g.1 g.2) (vel_le M v g.1 g.2)
      have h₂ : pos M v g.1 g.2 ≤ pos M v a g.2 := pos_le_pos le_rfl hv hga hg
      have h₃ : pos M (vel M v g.1 g.2) a (l.map Prod.snd).sum ≤
          pos M (vel M v a g.2) a (l.map Prod.snd).sum :=
        pos_le_pos (vel_le_vel le_rfl hga hg) (vel_le M v a g.2) le_rfl hsum
      rw [List.map_cons, List.sum_cons, pos_add hv hg hsum]
      calc (drive M (x, v) (g :: l)).1
          ≤ x + pos M v g.1 g.2 + pos M (vel M v g.1 g.2) a (l.map Prod.snd).sum := h₁
        _ ≤ x + (pos M v a g.2 + pos M (vel M v a g.2) a (l.map Prod.snd).sum) := by linarith

/-! ### When a distance has been gone -/

theorem time_of_le (ha : a ≠ 0) (h : √(v ^ 2 + 2 * a * x) ≤ M) :
    time M v a x = (-v + √(v ^ 2 + 2 * a * x)) / a := by
  rw [time, if_pos h, if_neg ha]

theorem time_of_lt (h : M < √(v ^ 2 + 2 * a * x)) : time M v a x = cruise M v a x :=
  if_neg h.not_ge

/-- Without acceleration the velocity does not change. -/
theorem time_zero (hv : |v| ≤ M) : time M v 0 x = x / v := by
  rw [time, if_pos (by simpa [Real.sqrt_sq_eq_abs] using hv), if_pos rfl]

theorem sqrt_zero_acc (v x : ℝ) : √(v ^ 2 + 2 * 0 * x) = |v| := by
  rw [mul_zero, zero_mul, add_zero, Real.sqrt_sq_eq_abs]

/-- Where the cap is passed there is an acceleration. -/
theorem acc_ne_zero (hv : |v| ≤ M) (h : M < √(v ^ 2 + 2 * a * x)) : a ≠ 0 := by
  rintro rfl
  rw [sqrt_zero_acc] at h
  linarith

/-- The velocity without a cap at the end of a `cruise`. -/
theorem vel_cruise (hM : 0 < M) (ha : a ≠ 0) :
    v + a * cruise M v a x = M + (v ^ 2 + 2 * a * x - M ^ 2) / (2 * M) := by
  unfold cruise
  field_simp
  ring

/-- Without the cap, the velocity when the distance has been gone. -/
theorem velRaw_time_of_le (hv : 0 ≤ v) (h : √(v ^ 2 + 2 * a * x) ≤ M) :
    v + a * time M v a x = √(v ^ 2 + 2 * a * x) := by
  by_cases ha : a = 0
  · subst ha
    rw [sqrt_zero_acc, abs_of_nonneg hv, zero_mul, add_zero]
  · rw [time_of_le ha h, mul_div_cancel₀ _ ha, add_neg_cancel_left]

variable (hM : 0 < M)
include hM

theorem excess_of_le (h : √(v ^ 2 + 2 * a * x) ≤ M) : excess M v a x = 0 := by
  rw [excess, max_eq_right ((Real.sqrt_le_left hM.le).mp h), sub_self]

theorem excess_of_lt (h : M < √(v ^ 2 + 2 * a * x)) :
    0 < excess M v a x ∧ excess M v a x = v ^ 2 + 2 * a * x - M ^ 2 := by
  have hE : M ^ 2 < v ^ 2 + 2 * a * x := (Real.lt_sqrt hM.le).mp h
  have he : excess M v a x = v ^ 2 + 2 * a * x - M ^ 2 := by rw [excess, max_eq_left hE.le]
  exact ⟨by linarith, he⟩

theorem velRaw_time_of_lt (hv : 0 ≤ v) (hvM : v ≤ M) (h : M < √(v ^ 2 + 2 * a * x)) :
    v + a * time M v a x = M + excess M v a x / (2 * M) := by
  rw [time_of_lt h, vel_cruise hM (acc_ne_zero ((abs_of_nonneg hv).le.trans hvM) h),
    (excess_of_lt hM h).2]

/-- **The velocity when the distance has been gone.** -/
theorem vel_time (hv : 0 ≤ v) (hvM : v ≤ M) :
    vel M v a (time M v a x) = min √(v ^ 2 + 2 * a * x) M := by
  unfold vel
  rcases le_or_gt √(v ^ 2 + 2 * a * x) M with h | h
  · rw [velRaw_time_of_le hv h]
  · have hp : 0 < excess M v a x / (2 * M) := div_pos (excess_of_lt hM h).1 (by linarith)
    rw [velRaw_time_of_lt hM hv hvM h, min_eq_right h.le, min_eq_right (by linarith)]

/-- **The displacement at `time` is the distance.** -/
theorem pos_time (hv : 0 ≤ v) (hvM : v ≤ M) (hav : a ≠ 0 ∨ v ≠ 0) (hE : 0 ≤ v ^ 2 + 2 * a * x) :
    pos M v a (time M v a x) = x := by
  by_cases h : √(v ^ 2 + 2 * a * x) ≤ M
  · by_cases ha : a = 0
    · subst ha
      have hv0 : v ≠ 0 := hav.resolve_left (· rfl)
      rw [time_zero ((abs_of_nonneg hv).le.trans hvM), pos_of_le (by linarith)]
      field_simp
      ring
    · have ht := velRaw_time_of_le hv h
      rw [pos_of_le (ht ▸ h), time_of_le ha h]
      have hs := Real.sq_sqrt hE
      generalize √(v ^ 2 + 2 * a * x) = r at hs
      field_simp
      linear_combination hs
  · have h := not_le.mp h
    have ha := acc_ne_zero ((abs_of_nonneg hv).le.trans hvM) h
    have hp : 0 < excess M v a x / (2 * M) := div_pos (excess_of_lt hM h).1 (by linarith)
    rw [pos, if_pos (by rw [velRaw_time_of_lt hM hv hvM h]; linarith), time_of_lt h, cruise]
    field_simp
    ring

/-- A point that speeds up has gone a distance no earlier than `time`. -/
theorem time_le (hv : 0 ≤ v) (hvM : v ≤ M) (ha : 0 < a) (hE : 0 ≤ v ^ 2 + 2 * a * x) (hT : 0 ≤ T)
    (h : x ≤ pos M v a T) : time M v a x ≤ T := by
  by_contra hlt
  have := pos_lt_pos hM hv hvM ha hT (not_le.mp hlt)
  rw [pos_time hM hv hvM (.inl ha.ne') hE] at this
  linarith

/-- A point that speeds up is nowhere before it starts. -/
theorem time_nonneg (ha : 0 < a) (hx : 0 ≤ x) : 0 ≤ time M v a x := by
  by_cases h : √(v ^ 2 + 2 * a * x) ≤ M
  · rw [time_of_le ha.ne' h]
    have : v ≤ √(v ^ 2 + 2 * a * x) := Real.le_sqrt_of_sq_le (by nlinarith)
    exact div_nonneg (by linarith) ha.le
  · rw [time_of_lt (not_le.mp h), cruise]
    positivity

/-- While the point speeds up, the formula without the cap gives no later time than the one
with it. -/
theorem le_cruise (ha : 0 < a) (hE : 0 ≤ v ^ 2 + 2 * a * x) :
    (-v + √(v ^ 2 + 2 * a * x)) / a ≤ cruise M v a x := by
  have h : cruise M v a x - (-v + √(v ^ 2 + 2 * a * x)) / a =
      (M - √(v ^ 2 + 2 * a * x)) ^ 2 / (2 * a * M) := by
    have hs := Real.sq_sqrt hE
    generalize √(v ^ 2 + 2 * a * x) = r at hs
    unfold cruise
    field_simp
    linear_combination -hs
  have : 0 ≤ (M - √(v ^ 2 + 2 * a * x)) ^ 2 / (2 * a * M) := by positivity
  linarith

theorem cruise_le_cruise (hxy : x ≤ y) : cruise M v a x ≤ cruise M v a y := by
  unfold cruise
  gcongr

/-- A point that speeds up reaches what is further no earlier. -/
theorem time_le_time (ha : 0 < a) (hE : 0 ≤ v ^ 2 + 2 * a * x) (hxy : x ≤ y) :
    time M v a x ≤ time M v a y := by
  have hs : √(v ^ 2 + 2 * a * x) ≤ √(v ^ 2 + 2 * a * y) := Real.sqrt_le_sqrt (by nlinarith)
  have hE' : 0 ≤ v ^ 2 + 2 * a * y := by nlinarith
  by_cases hy : √(v ^ 2 + 2 * a * y) ≤ M
  · rw [time_of_le ha.ne' hy, time_of_le ha.ne' (hs.trans hy)]
    gcongr
  · rw [time_of_lt (not_le.mp hy)]
    by_cases hx : √(v ^ 2 + 2 * a * x) ≤ M
    · rw [time_of_le ha.ne' hx]
      exact (le_cruise hM ha hE).trans (cruise_le_cruise hM hxy)
    · rw [time_of_lt (not_le.mp hx)]
      exact cruise_le_cruise hM hxy

/-- **A point that speeds up and would not have gone further than `x` by `T`** is there no
earlier than `T`. -/
theorem le_time (ha : 0 < a) (hx : v * T + a * T ^ 2 / 2 ≤ x) : T ≤ time M v a x := by
  have hE : (v + a * T) ^ 2 ≤ v ^ 2 + 2 * a * x := by nlinarith
  have hT : T ≤ (-v + √(v ^ 2 + 2 * a * x)) / a := by
    rw [le_div_iff₀ ha]
    have := Real.le_sqrt_of_sq_le hE
    linarith
  by_cases h : √(v ^ 2 + 2 * a * x) ≤ M
  · rwa [time_of_le ha.ne' h]
  · rw [time_of_lt (not_le.mp h)]
    exact hT.trans (le_cruise hM ha ((sq_nonneg _).trans hE))

/-- At the cap, a point that speeds up stays there. -/
theorem time_cap (ha : 0 < a) (hx : 0 ≤ x) : time M M a x = x / M := by
  by_cases h : √(M ^ 2 + 2 * a * x) ≤ M
  · have hx0 : x = 0 := by
      have := (Real.sqrt_le_left hM.le).mp h
      nlinarith
    subst hx0
    rw [time_of_le ha.ne' h, mul_zero, add_zero, Real.sqrt_sq hM.le]
    simp
  · rw [time_of_lt (not_le.mp h), cruise]
    simp

omit hM

/-- **A point that moves forwards at `T`, within the cap**, has gone the distance of the uncapped
motion exactly at `T`. -/
theorem time_eq (hx : v * T + a * T ^ 2 / 2 = x) (hv : 0 ≤ v + a * T) (hM : v + a * T ≤ M)
    (hav : a ≠ 0 ∨ v ≠ 0) : time M v a x = T := by
  have hs : √(v ^ 2 + 2 * a * x) = v + a * T := by
    rw [show v ^ 2 + 2 * a * x = (v + a * T) ^ 2 by rw [← hx]; ring, Real.sqrt_sq hv]
  by_cases ha : a = 0
  · subst ha
    have hv0 : v ≠ 0 := hav.resolve_left (· rfl)
    rw [time, if_pos (hs ▸ hM), if_pos rfl, ← hx]
    field_simp
    ring
  · rw [time_of_le ha (hs ▸ hM), hs]
    field_simp
    ring

/-! ### A point that slows down -/

theorem sqrt_le_of_nonpos (ha : a ≤ 0) (hv : 0 ≤ v) (hvM : v ≤ M) (hx : 0 ≤ x) :
    √(v ^ 2 + 2 * a * x) ≤ M :=
  Real.sqrt_le_iff.mpr ⟨hv.trans hvM, by nlinarith⟩

/-- A point that slows down and goes the distance `y` has gone less before, and goes forwards. -/
theorem time_le_time_of_nonpos (ha : a ≤ 0) (hv : 0 < v) (hvM : v ≤ M) (hx : 0 ≤ x) (hxy : x ≤ y) :
    0 ≤ time M v a x ∧ time M v a x ≤ time M v a y := by
  by_cases ha0 : a = 0
  · subst ha0
    rw [time_zero (by rwa [abs_of_pos hv]), time_zero (by rwa [abs_of_pos hv])]
    exact ⟨by positivity, by gcongr⟩
  · have ha' : a < 0 := lt_of_le_of_ne ha ha0
    have hx' := sqrt_le_of_nonpos ha hv.le hvM hx
    have hy' := sqrt_le_of_nonpos ha hv.le hvM (hx.trans hxy)
    rw [time_of_le ha0 hx', time_of_le ha0 hy']
    have h₁ : √(v ^ 2 + 2 * a * x) ≤ v := Real.sqrt_le_iff.mpr ⟨hv.le, by nlinarith⟩
    have h₂ : √(v ^ 2 + 2 * a * y) ≤ √(v ^ 2 + 2 * a * x) := Real.sqrt_le_sqrt (by nlinarith)
    exact ⟨div_nonneg_of_nonpos (by linarith) ha, (div_le_div_right_of_neg ha').mpr (by linarith)⟩

/-- The distance is gone at no time before the start. -/
theorem zero_le_time (hM : 0 < M) (hv : 0 ≤ v) (hvM : v ≤ M) (hav : a ≠ 0 ∨ v ≠ 0) (hx : 0 ≤ x)
    (hE : 0 ≤ v ^ 2 + 2 * a * x) : 0 ≤ time M v a x := by
  rcases lt_or_ge 0 a with ha | ha
  · exact time_nonneg hM ha hx
  · rcases eq_or_lt_of_le hv with rfl | hv
    · -- a point at rest that slows down goes no distance
      have ha' : a < 0 := lt_of_le_of_ne ha (hav.resolve_right (· rfl))
      have hx0 : x = 0 := by nlinarith
      rw [hx0, time_of_le ha'.ne (by simpa using hM.le)]
      simp
    · exact (time_le_time_of_nonpos ha hv hvM hx le_rfl).1

/-- Where the cap is passed, the square of the velocity without it. -/
theorem sq_of_lt (ha : a ≠ 0) (h : M < v + a * t) :
    v ^ 2 + 2 * a * pos M v a t = M ^ 2 + 2 * M * (v + a * t - M) := by
  rw [pos, if_pos h]
  field_simp
  ring

/-- **The displacement after `t` has been gone at `t`**, by a point that moves forwards. -/
theorem time_pos (hM : 0 < M) (hvM : v ≤ M) (hav : a ≠ 0 ∨ v ≠ 0) (hforward : 0 ≤ v + a * t) :
    0 ≤ v ^ 2 + 2 * a * pos M v a t ∧ time M v a (pos M v a t) = t := by
  rcases le_or_gt (v + a * t) M with h | h
  · rw [pos_of_le h]
    refine ⟨?_, time_eq rfl hforward h hav⟩
    have hsq : v ^ 2 + 2 * a * (v * t + a * t ^ 2 / 2) = (v + a * t) ^ 2 := by ring
    rw [hsq]
    exact sq_nonneg _
  · have ha : a ≠ 0 := by
      rintro rfl
      rw [zero_mul, add_zero] at h
      exact absurd hvM h.not_ge
    have hsq := sq_of_lt ha h
    have hover : 0 < 2 * M * (v + a * t - M) := mul_pos (by linarith) (by linarith)
    have hcap : M < √(v ^ 2 + 2 * a * pos M v a t) := by
      rw [hsq]
      exact Real.lt_sqrt_of_sq_lt (by linarith)
    refine ⟨hsq ▸ by positivity, ?_⟩
    rw [time_of_lt hcap, cruise, pos, if_pos h]
    field_simp
    ring

end DrivingSim.Capped

end
