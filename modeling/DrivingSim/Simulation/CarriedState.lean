import DrivingSim.Simulation.RealGrid

/-!
# Simulation — the state carried to the next intersection

From one intersection to the next, `set_min_windows` carries the time, the position and the
velocity of the car.  Time and position are those of the motion.  The velocity is advanced by
`vel += calculate_vel(pos, acc, w.second)`, where the motion has
`vel = calculate_vel(vel, acc, w.second)`.

Where the car clears the intersection, `a` and `v` not both zero, the two are compared at
`w.second`, the time to go the distance `x` (`velocity_iff`).  By then `v + a * w.second` is
`√(v² + 2ax)` below the cap, and past the cap it is over it by `v² + 2ax - 1/4`.  So the sum
with the position is right when the position makes up for what is past the cap, and otherwise
only where both velocities end at the cap from rest (`carried_iff`).  A car at full speed
carries twice its velocity on (`fastAuto_carried`).
-/

namespace DrivingSim
open XReal

/-- The car at `s` clears the intersection: from position `p` and velocity `v` it goes the
distance `x` at the acceleration `acc`. -/
structure Planner.Clears (s : Planner XReal) (a : Auto XReal) (i : Intersection XReal)
    (p v acc x : ℝ) : Prop where
  pos_eq : s.pos = fin p
  vel_eq : s.vel = fin v
  acc_eq : s.acc a i = fin acc
  dist_eq : s.disp a i + a.length + a.wdOfIntersection i = fin x
  reaches : 0 ≤ v ^ 2 + 2 * acc * x
  moves : acc ≠ 0 ∨ v ≠ 0

/-- The state carried on is that of the same car when it clears the intersection. -/
structure Planner.Follows (s : Planner XReal) (a : Auto XReal) (i : Intersection XReal) : Prop where
  pos : (setMinWindowsStep a s i).pos =
    s.pos + Car.calculatePos s.vel (s.acc a i) (s.window a i).second
  vel : (setMinWindowsStep a s i).vel = Car.calculateVel s.vel (s.acc a i) (s.window a i).second
  time : (setMinWindowsStep a s i).time = s.time + (s.window a i).second
  nonneg : 0 ≤ (setMinWindowsStep a s i).vel
  le_maxVel : (setMinWindowsStep a s i).vel ≤ Car.maxVel

/-- Either the position makes up for the excess, or the car speeds up from rest to the cap, by the
one formula and by the other. -/
inductive Corrects (p v acc x : ℝ) : Prop where
  | position (h : p = -Capped.excess (1 / 2) v acc x)
  | fromRest (hv : v = 0) (hE : 1 / 4 ≤ v ^ 2 + 2 * acc * x)
      (hp : -Capped.excess (1 / 2) v acc x ≤ p)

section Velocity

variable {p v a x : ℝ}

/-- **When the velocity carried on is right.** -/
theorem velocity_iff (hv : 0 ≤ v) (hvM : v ≤ 1 / 2) :
    v + Capped.vel (1 / 2) p a (Capped.time (1 / 2) v a x) =
        Capped.vel (1 / 2) v a (Capped.time (1 / 2) v a x) ↔ Corrects p v a x := by
  have hM : (0 : ℝ) < 1 / 2 := by norm_num
  have hE : 1 / 4 ≤ v ^ 2 + 2 * a * x ↔ 1 / 2 ≤ √(v ^ 2 + 2 * a * x) := by
    rw [Real.le_sqrt' hM]
    norm_num
  rw [Capped.vel_time hM hv hvM, Capped.vel]
  rcases le_or_gt √(v ^ 2 + 2 * a * x) (1 / 2) with h | h
  · have hr := Capped.velRaw_time_of_le hv h
    have he := Capped.excess_of_le hM h
    rw [min_eq_left h]
    rcases le_total (p + a * Capped.time (1 / 2) v a x) (1 / 2) with hp | hp
    · rw [min_eq_left hp]
      constructor
      · intro e
        exact .position (by linarith)
      · rintro (e | ⟨e, h₁, h₂⟩)
        · linarith
        · have := hE.mp h₁
          linarith
    · rw [min_eq_right hp]
      constructor
      · intro e
        exact .fromRest (by linarith) (hE.mpr (by linarith)) (by linarith)
      · rintro (e | ⟨e, h₁, h₂⟩)
        · linarith
        · have := hE.mp h₁
          linarith
  · have hr := Capped.velRaw_time_of_lt hM hv hvM h
    have he := (Capped.excess_of_lt hM h).1
    rw [min_eq_right h.le]
    rcases le_total (p + a * Capped.time (1 / 2) v a x) (1 / 2) with hp | hp
    · rw [min_eq_left hp]
      constructor
      · intro e
        exact .position (by linarith)
      · rintro (e | ⟨e, h₁, h₂⟩)
        · linarith
        · linarith
    · rw [min_eq_right hp]
      constructor
      · intro e
        exact .fromRest (by linarith) (hE.mpr h.le) (by linarith)
      · rintro (e | ⟨e, h₁, h₂⟩)
        · linarith
        · linarith

end Velocity

section Step

variable {a : Auto XReal} {s : Planner XReal} {i : Intersection XReal} {p v acc x : ℝ}

theorem Planner.Clears.window (h : s.Clears a i p v acc x) (hv : 0 ≤ v) (hvM : v ≤ 1 / 2) :
    (s.window a i).second = fin (Capped.time (1 / 2) v acc x) := by
  rw [Planner.window, Car.createWindow]
  dsimp only
  rw [h.dist_eq, h.vel_eq, h.acc_eq]
  exact Car.calculateTime_fin h.reaches
    (h.moves.imp_right fun hv₀ => ⟨hv₀, by rwa [abs_of_nonneg hv]⟩)

theorem Planner.Clears.step_vel (h : s.Clears a i p v acc x) (hv : 0 ≤ v) (hvM : v ≤ 1 / 2) :
    (setMinWindowsStep a s i).vel =
      fin (v + Capped.vel (1 / 2) p acc (Capped.time (1 / 2) v acc x)) := by
  simp only [setMinWindowsStep, h.vel_eq, h.pos_eq, h.acc_eq, h.window hv hvM,
    Car.calculateVel_fin, add_fin]

/-- One turn of the loop. -/
theorem Planner.Clears.follows_iff (h : s.Clears a i p v acc x) (hv : 0 ≤ v) (hvM : v ≤ 1 / 2) :
    s.Follows a i ↔ Corrects p v acc x := by
  have hM : (0 : ℝ) < 1 / 2 := by norm_num
  have hvel := h.step_vel hv hvM
  have hmotion : Car.calculateVel s.vel (s.acc a i) (s.window a i).second =
      fin (Capped.vel (1 / 2) v acc (Capped.time (1 / 2) v acc x)) := by
    rw [h.vel_eq, h.acc_eq, h.window hv hvM, Car.calculateVel_fin]
  rw [← velocity_iff hv hvM]
  constructor
  · intro hf
    have e := hf.vel
    rw [hvel, hmotion] at e
    exact XReal.fin.inj e
  · intro e
    rw [e] at hvel
    refine ⟨?_, hvel.trans hmotion.symm, rfl, ?_, ?_⟩
    · -- the displacement at `w.second` is the distance
      rw [h.vel_eq, h.acc_eq, h.window hv hvM, Car.calculatePos_fin hvM,
        Capped.pos_time hM hv hvM h.moves h.reaches, ← h.dist_eq]
      rfl
    · rw [hvel, zero_eq, fin_le_fin, Capped.vel_time hM hv hvM]
      exact le_min (Real.sqrt_nonneg _) hM.le
    · rw [hvel, Car.maxVel_eq, fin_le_fin]
      exact Capped.vel_le _ _ _ _

end Step

/-- **The state carried on.**  Whatever the loop of `set_min_windows` has gone through, let it
come to an intersection that the car clears from a velocity between `0` and `MAX_VEL`.  The
state carried on is that of the motion exactly when the position corrects the velocity. -/
theorem carried_iff (a : Auto XReal) (σ : Windows XReal) (pre : List (Intersection XReal))
    (i : Intersection XReal) {p v acc x : ℝ} :
    let s := pre.foldl (setMinWindowsStep a) (Planner.start a σ)
    s.Clears a i p v acc x → 0 ≤ v → v ≤ 1 / 2 → (s.Follows a i ↔ Corrects p v acc x) :=
  fun h hv hvM => h.follows_iff hv hvM

/-- Where the position corrects the velocity at each intersection, the velocity stays between
`0` and `MAX_VEL` all the way. -/
theorem carried_run {a : Auto XReal} {σ : Windows XReal} {l : List (Intersection XReal)} {v₀ : ℝ}
    (hv₀ : a.velocity = fin v₀) (h₀ : 0 ≤ v₀) (hM : v₀ ≤ 1 / 2)
    (hl : ∀ pre i post, l = pre ++ i :: post → ∃ p v acc x,
      (pre.foldl (setMinWindowsStep a) (Planner.start a σ)).Clears a i p v acc x ∧
        Corrects p v acc x) :
    ∀ pre post, l = pre ++ post →
      0 ≤ (pre.foldl (setMinWindowsStep a) (Planner.start a σ)).vel ∧
        (pre.foldl (setMinWindowsStep a) (Planner.start a σ)).vel ≤ Car.maxVel := by
  intro pre
  induction pre using List.reverseRecOn with
  | nil =>
      rintro post -
      show 0 ≤ a.velocity ∧ a.velocity ≤ Car.maxVel
      rw [hv₀, zero_eq, Car.maxVel_eq, fin_le_fin, fin_le_fin]
      exact ⟨h₀, hM⟩
  | append_singleton pre i ih =>
      intro post hpost
      rw [List.append_assoc, List.singleton_append] at hpost
      obtain ⟨p, v, acc, x, hc, hp⟩ := hl pre i post hpost
      obtain ⟨h₁, h₂⟩ := ih (i :: post) hpost
      rw [hc.vel_eq, zero_eq, fin_le_fin] at h₁
      rw [hc.vel_eq, Car.maxVel_eq, fin_le_fin] at h₂
      have hf := (hc.follows_iff h₁ h₂).mpr hp
      rw [List.foldl_append, List.foldl_cons, List.foldl_nil]
      exact ⟨hf.nonneg, hf.le_maxVel⟩

/-! ### The first crossing -/

/-- The crossing that is free is gone through at full acceleration. -/
theorem clears_crossing (v : ℝ) :
    (Planner.start ⟨⟨0, fin 1, fin 0, fin v⟩, 0⟩ Windows.empty).Clears
      ⟨⟨0, fin 1, fin 0, fin v⟩, 0⟩ crossing 0 v 3 3 := by
  refine ⟨rfl, rfl, ?_, ?_, by positivity, .inl three_ne_zero⟩
  · show Car.maxAcc = fin 3
    exact Car.maxAcc_eq
  · show crossing.acrossPos - fin 0 + fin 1 + crossing.acrossWd = fin 3
    simp only [crossing, sub_fin, add_fin]
    norm_num

/-- From rest the velocity carried on is right. -/
theorem restAuto_carried :
    (Planner.start ⟨⟨0, fin 1, fin 0, fin 0⟩, 0⟩ Windows.empty).Follows
      ⟨⟨0, fin 1, fin 0, fin 0⟩, 0⟩ crossing := by
  have he : -Capped.excess (1 / 2) 0 3 3 ≤ 0 := by
    norm_num [Capped.excess]
  exact (carried_iff _ Windows.empty [] crossing (clears_crossing 0) le_rfl
    (by norm_num)).mpr (.fromRest rfl (by norm_num) he)

/-- **At full speed, twice the velocity is carried on.** -/
theorem fastAuto_carried :
    (Planner.start fastAuto Windows.empty).Clears fastAuto crossing 0 (1 / 2) 3 3 ∧
      (setMinWindowsStep fastAuto (Planner.start fastAuto Windows.empty) crossing).vel = fin 1 ∧
      ¬ (Planner.start fastAuto Windows.empty).Follows fastAuto crossing := by
  have hM : (0 : ℝ) < 1 / 2 := by norm_num
  have hfast : fastAuto = ⟨⟨0, fin 1, fin 0, fin (1 / 2)⟩, 0⟩ := by rw [fastAuto, Car.maxVel_eq]
  have hc := clears_crossing (1 / 2)
  rw [← hfast] at hc
  have ht : Capped.time (1 / 2) (1 / 2) 3 3 = 6 := by
    rw [Capped.time_cap hM three_pos three_pos.le]
    norm_num
  have hvel : (setMinWindowsStep fastAuto (Planner.start fastAuto Windows.empty) crossing).vel =
      fin 1 := by
    rw [hc.step_vel (by norm_num) le_rfl, ht, Capped.vel]
    norm_num
  refine ⟨hc, hvel, fun hf => ?_⟩
  have h := hf.le_maxVel
  rw [hvel, Car.maxVel_eq, fin_le_fin] at h
  norm_num at h

end DrivingSim
