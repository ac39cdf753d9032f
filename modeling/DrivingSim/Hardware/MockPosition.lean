import DrivingSim.Support.CappedMotion
import DrivingSim.Hardware.MockMotor

/-!
# Hardware — the position of the mock of the motor

`position` multiplies the time since the last calibration with the velocity at the instant of
the call, in place of the mean velocity over that time.  At a constant acceleration `a`, what it
is too far after a time `r` is `a * r ^ 2 / 2`; every change of the acceleration stores what has
come together so far, and a calibration discards it (`after_position`).  So `position` is the
integral of the velocity exactly where the sum of all `a * r ^ 2` since the last calibration is
zero, as it is at constant speed (`position_integral_iff`).
-/

noncomputable section

namespace DrivingSim.MockMotor

/-- What `velocity` reads at the instant `s`, which may lie between two microseconds. -/
def velocityBetween (m : MockMotor ℝ) (s : ℝ) : ℝ :=
  m.velocityOffset + m.accel * ((s - m.lastVelocityCalibration) / 1e6)

/-- What `velocity` reads at the instant `s`, after those of the calls that are not later. -/
def velocityAt (m : MockMotor ℝ) : List (ℤ × Call ℝ) → ℝ → ℝ
  | [], s => m.velocityBetween s
  | (t, c) :: calls, s =>
    if s < t then m.velocityBetween s else (m.call t c).velocityAt calls s

/-- From the instant `t` on, each call is no earlier than the one before, and none is later
than `T`. -/
def Chronological (t : ℤ) : List (ℤ × Call ℝ) → ℤ → Prop
  | [], T => t ≤ T
  | (t', _) :: calls, T => t ≤ t' ∧ Chronological t' calls T

/-- Twice what the position is too far. -/
def drift (a : ℝ) (t : ℤ) (calls : List (ℤ × Call ℝ)) (T : ℤ) : ℝ :=
  ((legs a t calls T).map fun l => l.1 * l.2 ^ 2).sum

variable {m : MockMotor ℝ} {c : Call ℝ} {calls : List (ℤ × Call ℝ)} {t t' T : ℤ} {a x : ℝ}

theorem velocityBetween_eq (m : MockMotor ℝ) (t : ℤ) : m.velocityBetween t = m.velocity t := by
  rw [velocityBetween, velocity, secondsSince, Int.cast_sub]

theorem Chronological.le (h : Chronological t calls T) : t ≤ T := by
  induction calls generalizing t with
  | nil => exact h
  | cons e calls ih => exact h.1.trans (ih h.2)

theorem Chronological.append {pre post : List (ℤ × Call ℝ)} {u : ℤ} {d : Call ℝ}
    (h : Chronological t (pre ++ (u, d) :: post) T) :
    Chronological t pre u ∧ Chronological u post T := by
  induction pre generalizing t with
  | nil => exact h
  | cons e pre ih => exact ⟨⟨h.1, (ih h.2).1⟩, (ih h.2).2⟩

/-- At an instant of the clock, it is the velocity after the calls. -/
theorem velocityAt_eq (h : Chronological t calls T) :
    m.velocityAt calls T = (m.after calls).velocity T := by
  induction calls generalizing m t with
  | nil => exact m.velocityBetween_eq T
  | cons e calls ih =>
      obtain ⟨t', c⟩ := e
      rw [velocityAt, if_neg (not_lt.mpr (Int.cast_le.mpr h.2.le)), after_cons]
      exact ih h.2

/-- Once the calls up to an instant have been made, they make no difference but by what they have
left behind. -/
theorem velocityAt_append {pre post : List (ℤ × Call ℝ)} {u : ℤ} {s : ℝ}
    (h : Chronological t pre u) (hs : (u : ℝ) ≤ s) :
    m.velocityAt (pre ++ post) s = (m.after pre).velocityAt post s := by
  induction pre generalizing m t with
  | nil => rfl
  | cons e pre ih =>
      obtain ⟨t', c⟩ := e
      have hle : (t' : ℝ) ≤ s := (Int.cast_le.mpr h.2.le).trans hs
      rw [List.cons_append, velocityAt, if_neg (not_lt.mpr hle), after_cons]
      exact ih h.2

theorem drift_nil : drift a t [] T = a * secondsSince T t ^ 2 := by
  rw [drift, legs, List.map_singleton, List.sum_singleton]

theorem drift_cons : drift a t ((t', c) :: calls) T =
    a * secondsSince t' t ^ 2 + drift (c.accel a) t' calls T := by
  rw [drift, legs, List.map_cons, List.sum_cons, drift]

/-! ### The integral of the velocity -/

theorem continuous_velocityBetween (m : MockMotor ℝ) : Continuous m.velocityBetween := by
  unfold velocityBetween
  fun_prop

/-- Over an interval with no calls, in which the position has been calibrated at the start. -/
theorem position_of_calibrated (h : m.lastPositionCalibration = t) (T : ℤ) :
    m.position T = m.positionOffset + (∫ s in (t : ℝ)..T, m.velocityBetween s) / 1e6 +
      m.accel * secondsSince T t ^ 2 / 2 := by
  have hlinear : ∀ s, m.velocityBetween s =
      m.velocityOffset - m.accel * (m.lastVelocityCalibration / 1e6) + m.accel / 1e6 * s := by
    intro s
    rw [velocityBetween]
    ring
  simp_rw [hlinear]
  rw [Capped.integral_linear, position, velocity, h]
  simp only [secondsSince, Int.cast_sub]
  ring

/-- Up to a call, the velocity is that of the motor before it. -/
theorem velocityAt_cons_of_lt {s : ℝ} (h : s < t') :
    m.velocityAt ((t', c) :: calls) s = m.velocityBetween s := if_pos h

theorem velocityAt_cons_of_le {s : ℝ} (h : (t' : ℝ) ≤ s) :
    m.velocityAt ((t', c) :: calls) s = (m.call t' c).velocityAt calls s := if_neg h.not_gt

theorem intervalIntegrable_velocityAt (h : Chronological t calls T) :
    IntervalIntegrable (m.velocityAt calls) MeasureTheory.volume t T := by
  induction calls generalizing m t with
  | nil => exact m.continuous_velocityBetween.intervalIntegrable _ _
  | cons e calls ih =>
      obtain ⟨t', c⟩ := e
      have ht : (t : ℝ) ≤ t' := Int.cast_le.mpr h.1
      have hT : (t' : ℝ) ≤ T := Int.cast_le.mpr h.2.le
      refine IntervalIntegrable.trans (b := (t' : ℝ)) ?_ ?_
      · refine (m.continuous_velocityBetween.intervalIntegrable t t').congr_uIoo fun s hs => ?_
        rw [Set.uIoo_of_le ht] at hs
        exact (velocityAt_cons_of_lt hs.2).symm
      · refine (ih (m := m.call t' c) h.2).congr_uIoo fun s hs => ?_
        rw [Set.uIoo_of_le hT] at hs
        exact (velocityAt_cons_of_le hs.1.le).symm

/-- The integral is split at a call. -/
theorem integral_velocityAt_cons (h : Chronological t ((t', c) :: calls) T) :
    ∫ s in (t : ℝ)..T, m.velocityAt ((t', c) :: calls) s =
      (∫ s in (t : ℝ)..t', m.velocityBetween s) +
        ∫ s in (t' : ℝ)..T, (m.call t' c).velocityAt calls s := by
  have ht : (t : ℝ) ≤ t' := Int.cast_le.mpr h.1
  have hT : (t' : ℝ) ≤ T := Int.cast_le.mpr h.2.le
  have h₁ : ∫ s in (t : ℝ)..t', m.velocityAt ((t', c) :: calls) s =
      ∫ s in (t : ℝ)..t', m.velocityBetween s :=
    intervalIntegral.integral_congr_Ioo_of_le ht fun s hs => velocityAt_cons_of_lt hs.2
  have h₂ : ∫ s in (t' : ℝ)..T, m.velocityAt ((t', c) :: calls) s =
      ∫ s in (t' : ℝ)..T, (m.call t' c).velocityAt calls s :=
    intervalIntegral.integral_congr_Ioo_of_le hT fun s hs => velocityAt_cons_of_le hs.1.le
  have hint := intervalIntegrable_velocityAt (m := m) h
  have hu : (t' : ℝ) ∈ Set.uIcc (t : ℝ) T := by
    rw [Set.uIcc_of_le (ht.trans hT)]
    exact ⟨ht, hT⟩
  rw [← h₁, ← h₂]
  exact (intervalIntegral.integral_add_adjacent_intervals
    (hint.mono_set (Set.uIcc_subset_uIcc_left hu))
    (hint.mono_set (Set.uIcc_subset_uIcc_right hu))).symm

/-! ### The position after a sequence of calls -/

theorem call_positionOffset (hc : c.Accelerates) :
    (m.call t c).positionOffset = m.position t ∧ (m.call t c).lastPositionCalibration = t := by
  cases c with
  | setAcceleration a => exact ⟨rfl, rfl⟩
  | changeAcceleration d => exact ⟨rfl, rfl⟩
  | calibrate x => exact absurd hc id

/-- **What the position comes to** after calls that change the acceleration. -/
theorem after_position (h : Chronological t calls T) (hcalls : ∀ e ∈ calls, e.2.Accelerates)
    (hm : m.lastPositionCalibration = t) :
    (m.after calls).position T = m.positionOffset +
      (∫ s in (t : ℝ)..T, m.velocityAt calls s) / 1e6 + drift m.accel t calls T / 2 := by
  induction calls generalizing m t with
  | nil =>
      rw [drift_nil]
      exact position_of_calibrated hm T
  | cons e calls ih =>
      obtain ⟨t', c⟩ := e
      obtain ⟨hoffset, hlast⟩ := call_positionOffset (m := m) (t := t')
        (hcalls (t', c) List.mem_cons_self)
      rw [after_cons, ih h.2 (fun e he => hcalls e (List.mem_cons_of_mem _ he)) hlast, hoffset,
        position_of_calibrated hm t', integral_velocityAt_cons h, drift_cons, call_accel]
      ring

/-- What the memory held makes no difference. -/
theorem init_call (hc : c.Accelerates) (p q v : ℤ) :
    (init p v : MockMotor ℝ).call t c = (init q v).call t c := by
  cases c with
  | calibrate x => exact absurd hc id
  | setAcceleration a =>
      show setAcceleration _ _ _ = setAcceleration _ _ _
      rw [setAcceleration, setAcceleration, init_position, init_position]
      rfl
  | changeAcceleration d =>
      show setAcceleration _ _ _ = setAcceleration _ _ _
      rw [setAcceleration, setAcceleration, init_position, init_position]
      rfl

theorem init_after (hcalls : ∀ e ∈ calls, e.2.Accelerates) (p q v : ℤ) :
    ((init p v).after calls).position T = ((init q v).after calls).position T ∧
      (init p v).velocityAt calls = (init q v).velocityAt calls := by
  cases calls with
  | nil => exact ⟨(init_position p v T).trans (init_position q v T).symm, rfl⟩
  | cons e calls =>
      obtain ⟨t', c⟩ := e
      have hc := init_call (t := t') (hcalls (t', c) List.mem_cons_self) p q v
      refine ⟨?_, ?_⟩
      · rw [after_cons, after_cons, hc]
      · funext s
        rw [velocityAt, velocityAt, hc]
        rfl

/-- **The position and the integral of the velocity.**  They agree exactly when, from the last
calibration on, or from the start if there is none, the sum of each acceleration and the square
of the time for which it is in force is zero. -/
theorem position_integral_iff (p v : ℤ) {start : ℤ} (h : Chronological start calls T) :
    (∀ pre (t : ℤ) x post, calls = pre ++ (t, .calibrate x) :: post →
      (∀ e ∈ post, e.2.Accelerates) →
        (((init p v).after calls).position T =
            x + (∫ s in (t : ℝ)..T, (init p v).velocityAt calls s) / 1e6 ↔
          drift ((init p v).after pre).accel t post T = 0)) ∧
    ((∀ e ∈ calls, e.2.Accelerates) →
      (((init p v).after calls).position T =
          0 + (∫ s in (start : ℝ)..T, (init p v).velocityAt calls s) / 1e6 ↔
        drift 0 start calls T = 0)) := by
  refine ⟨?_, fun hcalls => ?_⟩
  · rintro pre t x post rfl hpost
    obtain ⟨hpre, hchron⟩ := h.append
    have hpos := after_position (m := ((init p v).after pre).calibrate t x) hchron hpost rfl
    have hvel : ∫ s in (t : ℝ)..T, (init p v).velocityAt (pre ++ (t, .calibrate x) :: post) s =
        ∫ s in (t : ℝ)..T, (((init p v).after pre).calibrate t x).velocityAt post s := by
      have hle : (t : ℝ) ≤ T := Int.cast_le.mpr hchron.le
      refine intervalIntegral.integral_congr_Ioo_of_le hle fun s hs => ?_
      rw [velocityAt_append hpre hs.1.le]
      exact velocityAt_cons_of_le hs.1.le
    rw [after_append, after_cons, hvel]
    show (((init p v).after pre).calibrate t x |>.after post).position T = _ ↔ _
    rw [hpos]
    show x + _ + drift ((init p v).after pre).accel t post T / 2 = _ ↔ _
    constructor
    · intro e
      linarith
    · intro e
      rw [e, zero_div, add_zero]
  · obtain ⟨hp, hv⟩ := init_after (T := T) hcalls p start v
    have hpos := after_position (m := init start v) h hcalls rfl
    rw [hp, hv, hpos]
    show 0 + _ + drift 0 start calls T / 2 = _ ↔ _
    constructor
    · intro e
      linarith
    · intro e
      rw [e, zero_div, add_zero]

/-! ### Seconds at a constant acceleration -/

/-- The motor speeds up for a second, and slows down for another. -/
def upAndDown : List (ℤ × Call ℝ) := [(0, .setAcceleration 1), (1000000, .setAcceleration (-1))]

/-- What is too far after the first second is made up for in the other. -/
theorem upAndDown_position : ((init 7 8).after upAndDown).position 2000000 =
    0 + (∫ s in ((0 : ℤ) : ℝ)..(2000000 : ℤ), (init 7 8).velocityAt upAndDown s) / 1e6 := by
  have hchron : Chronological 0 upAndDown 2000000 := by norm_num [upAndDown, Chronological]
  have hcalls : ∀ e ∈ upAndDown, e.2.Accelerates := by
    simp only [upAndDown, List.forall_mem_cons]
    exact ⟨trivial, trivial, fun _ h => absurd h List.not_mem_nil⟩
  refine ((position_integral_iff 7 8 hchron).2 hcalls).2 ?_
  rw [upAndDown, drift_cons, drift_cons, drift_nil, Call.accel, Call.accel]
  norm_num [secondsSince]

/-- The acceleration is set at the start, after which the motor is read a second later. -/
def oneSecond (a : ℝ) : List (ℤ × Call ℝ) := [(0, .setAcceleration a)]

theorem oneSecond_chronological (a : ℝ) : Chronological 0 (oneSecond a) 1000000 :=
  ⟨le_rfl, by norm_num [Chronological]⟩

/-- **Half of the position is not there.**  After a second at the acceleration `1` the integral
of the velocity is `1 / 2`, and the position is `1`. -/
theorem oneSecond_position_ne :
    Chronological 0 (oneSecond 1) 1000000 ∧
      ((init 0 0).after (oneSecond 1)).position 1000000 ≠
        0 + (∫ s in ((0 : ℤ) : ℝ)..(1000000 : ℤ), (init 0 0).velocityAt (oneSecond 1) s) / 1e6 := by
  have hcalls : ∀ e ∈ oneSecond 1, e.2.Accelerates := fun e he => by
    obtain rfl := List.mem_singleton.mp he
    exact trivial
  refine ⟨oneSecond_chronological 1, ?_⟩
  have hpos := after_position (m := init 0 0) (oneSecond_chronological 1) hcalls rfl
  have hd : drift (init 0 0 : MockMotor ℝ).accel 0 (oneSecond 1) 1000000 = 1 := by
    rw [oneSecond, drift_cons, drift_nil, Call.accel]
    norm_num [secondsSince]
  have hoffset : (init 0 0 : MockMotor ℝ).positionOffset = 0 := rfl
  rw [hpos, hd, hoffset]
  intro e
  linarith

end DrivingSim.MockMotor

end
