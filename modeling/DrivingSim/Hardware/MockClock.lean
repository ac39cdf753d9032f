import DrivingSim.Hardware.MockPosition
import DrivingSim.System.Period

/-!
# Hardware — the mock of the motor on the clock of the system

`sys::now` shows the microseconds within the second, and `mock_motor` takes the difference of two
such instants for the time between them.  So an interval between two calls counts for less by the
seconds of the clock that end in it, and never for a whole second.  The velocity lacks the
acceleration once for each such second (`velocity_onClock`), and however long the motor is left
alone, it goes no faster and no farther than its calls say.
-/

noncomputable section

namespace DrivingSim.MockMotor

open LoopThread (now)

/-- The calls, at what the clock shows at their instants. -/
def onClock (calls : List (ℤ × Call ℝ)) : List (ℤ × Call ℝ) := calls.map fun e => (now e.1, e.2)

/-- The seconds of the clock that end between two instants. -/
def secondsBetween (t T : ℤ) : ℤ := T / 1000000 - t / 1000000

/-- What the velocity lacks at the instant `T`: in each interval between the calls, the acceleration
for each second that ends in it. -/
def lost (a : ℝ) (t : ℤ) : List (ℤ × Call ℝ) → ℤ → ℝ
  | [], T => a * secondsBetween t T
  | (t', c) :: calls, T => a * secondsBetween t t' + lost (c.accel a) t' calls T

/-- The accelerations of the intervals between the calls, without their signs. -/
def accels (a : ℝ) : List (ℤ × Call ℝ) → ℝ
  | [] => |a|
  | (_, c) :: calls => |a| + accels (c.accel a) calls

variable {m : MockMotor ℝ} {c : Call ℝ} {calls : List (ℤ × Call ℝ)} {t t' T : ℤ} {a : ℝ}

theorem onClock_cons :
    onClock ((t, c) :: calls) = (now t, c) :: onClock calls := rfl

/-- What the clock makes of an interval. -/
theorem secondsSince_now (t T : ℤ) :
    (secondsSince (now T) (now t) : ℝ) = secondsSince T t - secondsBetween t T := by
  have ht : (t % 1000000 : ℤ) = t - 1000000 * (t / 1000000) := by
    rw [Int.emod_def]
  have hT : (T % 1000000 : ℤ) = T - 1000000 * (T / 1000000) := by
    rw [Int.emod_def]
  simp only [secondsSince, now, LoopThread.gettimeofday, ht, hT, secondsBetween]
  push_cast
  ring

/-- It is less than a second long. -/
theorem abs_secondsSince_now (t T : ℤ) : |(secondsSince (now T) (now t) : ℝ)| ≤ 1 := by
  have hbounds : ∀ u : ℤ, 0 ≤ u % 1000000 ∧ u % 1000000 < 1000000 := fun u =>
    ⟨Int.emod_nonneg u (by norm_num), Int.emod_lt_of_pos u (by norm_num)⟩
  obtain ⟨ht, ht'⟩ := hbounds t
  obtain ⟨hT, hT'⟩ := hbounds T
  have hle : |T % 1000000 - t % 1000000| ≤ 1000000 := abs_le.2 ⟨by linarith, by linarith⟩
  rw [secondsSince, abs_div, ← Int.cast_abs, div_le_one (by norm_num)]
  simp only [now, LoopThread.gettimeofday]
  norm_num
  exact_mod_cast hle

/-! ### The velocity -/

theorem legs_onClock (a : ℝ) (t : ℤ) (calls : List (ℤ × Call ℝ)) (T : ℤ) :
    ((legs a (now t) (onClock calls) (now T)).map fun l => l.1 * l.2).sum =
      ((legs a t calls T).map fun l => l.1 * l.2).sum - lost a t calls T := by
  induction calls generalizing a t with
  | nil =>
      simp only [onClock, List.map_nil, legs, List.map_singleton, List.sum_singleton, lost,
        secondsSince_now]
      ring
  | cons e calls ih =>
      obtain ⟨t', c⟩ := e
      rw [onClock_cons, legs, legs, lost, List.map_cons, List.map_cons, List.sum_cons,
        List.sum_cons, ih, secondsSince_now]
      ring

theorem accels_nonneg (a : ℝ) (calls : List (ℤ × Call ℝ)) : |a| ≤ accels a calls := by
  induction calls generalizing a with
  | nil => exact le_rfl
  | cons e calls ih => exact le_add_of_nonneg_right ((abs_nonneg _).trans (ih _))

/-- An interval adds no more than its acceleration. -/
theorem abs_mul_secondsSince (a : ℝ) (t T : ℤ) : |a * secondsSince (now T) (now t)| ≤ |a| := by
  rw [abs_mul]
  exact mul_le_of_le_one_right (abs_nonneg a) (abs_secondsSince_now t T)

theorem abs_legs_onClock (a : ℝ) (t : ℤ) (calls : List (ℤ × Call ℝ)) (T : ℤ) :
    |((legs a (now t) (onClock calls) (now T)).map fun l => l.1 * l.2).sum| ≤
      accels a calls := by
  induction calls generalizing a t with
  | nil =>
      simp only [onClock, List.map_nil, legs, List.map_singleton, List.sum_singleton, accels]
      exact abs_mul_secondsSince a t T
  | cons e calls ih =>
      obtain ⟨t', c⟩ := e
      rw [onClock_cons, legs, accels, List.map_cons, List.sum_cons]
      exact (abs_add_le _ _).trans (add_le_add (abs_mul_secondsSince a t t') (ih _ _))

/-! ### The position -/

/-- What an interval does. -/
theorem abs_interval_onClock (hm : m.lastPositionCalibration = now t) (u : ℤ) :
    |m.velocity (now u)| ≤ |m.velocity (now t)| + |m.accel| ∧
      |m.position (now u)| ≤ |m.positionOffset| + (|m.velocity (now t)| + |m.accel|) := by
  have hvel : |m.velocity (now u)| ≤ |m.velocity (now t)| + |m.accel| := by
    rw [m.velocity_add (now t) (now u)]
    exact (abs_add_le _ _).trans (add_le_add_right (abs_mul_secondsSince _ t u) _)
  refine ⟨hvel, ?_⟩
  rw [position, hm]
  exact (abs_add_le _ _).trans (add_le_add_right ((abs_mul_secondsSince _ t u).trans hvel) _)

theorem abs_position_onClock (hcalls : ∀ e ∈ calls, e.2.Accelerates)
    (hm : m.lastPositionCalibration = now t) :
    |(m.after (onClock calls)).position (now T)| ≤
      |m.positionOffset| + (calls.length + 1) * (|m.velocity (now t)| + accels m.accel calls) := by
  induction calls generalizing m t with
  | nil =>
      rw [List.length_nil, Nat.cast_zero, zero_add, one_mul]
      exact (abs_interval_onClock hm T).2
  | cons e calls ih =>
      obtain ⟨t', c⟩ := e
      obtain ⟨hoffset, hlast⟩ := call_positionOffset (m := m) (t := now t')
        (hcalls (t', c) List.mem_cons_self)
      obtain ⟨hvel, hpos⟩ := abs_interval_onClock hm t'
      have hrest := ih (fun e he => hcalls e (List.mem_cons_of_mem _ he)) hlast
      rw [hoffset, call_velocity, call_accel] at hrest
      have hnonneg := (abs_nonneg _).trans (accels_nonneg (c.accel m.accel) calls)
      have hsteps : ((calls.length : ℝ) + 1) *
            (|m.velocity (now t')| + accels (c.accel m.accel) calls) ≤
          (calls.length + 1) * (|m.velocity (now t)| + accels m.accel ((t', c) :: calls)) := by
        refine mul_le_mul_of_nonneg_left ?_ (by positivity)
        rw [accels]
        linarith
      rw [onClock_cons, after_cons, List.length_cons, Nat.cast_succ]
      have hfirst : |m.velocity (now t)| + |m.accel| ≤
          |m.velocity (now t)| + accels m.accel ((t', c) :: calls) :=
        add_le_add_right (accels_nonneg _ _) _
      linarith

/-- **The mock on the clock.**  The velocity lacks what was lost at the ends of seconds, so that it
is the integral of the acceleration exactly where that comes to zero; it is never more than the
accelerations together; and without calibrations the position is at most that for each interval. -/
theorem velocity_onClock (p v start : ℤ) (calls : List (ℤ × Call ℝ)) (T : ℤ) :
    ((init p v).after (onClock calls)).velocity (now T) =
        ((legs 0 start calls T).map fun l => l.1 * l.2).sum - lost 0 start calls T ∧
      (((init p v).after (onClock calls)).velocity (now T) =
        ((legs 0 start calls T).map fun l => l.1 * l.2).sum ↔ lost 0 start calls T = 0) ∧
      |((init p v).after (onClock calls)).velocity (now T)| ≤ accels 0 calls ∧
      ((∀ e ∈ calls, e.2.Accelerates) →
        |((init p v).after (onClock calls)).position (now T)| ≤
          (calls.length + 1) * accels 0 calls) := by
  have hvel := (init p v).after_velocity (now start) (onClock calls) (now T)
  rw [init_velocity, zero_add] at hvel
  have haccel : (init p v : MockMotor ℝ).accel = 0 := rfl
  rw [haccel] at hvel
  refine ⟨hvel.trans (legs_onClock 0 start calls T), ?_, ?_, fun hcalls => ?_⟩
  · rw [hvel, legs_onClock, sub_eq_self]
  · rw [hvel]
    exact abs_legs_onClock 0 start calls T
  · have hclock : ∀ e ∈ onClock calls, e.2.Accelerates := by
      intro e he
      obtain ⟨d, hd, rfl⟩ := List.mem_map.1 he
      exact hcalls d hd
    rw [(init_after (T := now T) hclock p (now start) v).1]
    have hpos := abs_position_onClock (m := init (now start) v) (t := start) (T := T) hcalls rfl
    rw [init_velocity] at hpos
    have hoffset : (init (now start) v : MockMotor ℝ).positionOffset = 0 := rfl
    have haccel' : (init (now start) v : MockMotor ℝ).accel = 0 := rfl
    rwa [hoffset, haccel', abs_zero, zero_add, zero_add] at hpos

/-- An acceleration of `1` from the start on, after two and a half seconds. -/
theorem fromStart_onClock :
    ((init 7 8).after (onClock [(0, .setAcceleration 1)])).velocity (now 2500000) = 1 / 2 ∧
      |((init 7 8).after (onClock [(0, .setAcceleration 1)])).position (now 2500000)| ≤ 2 := by
  have hcalls : ∀ e ∈ [((0 : ℤ), (Call.setAcceleration 1 : Call ℝ))], e.2.Accelerates := by
    intro e he
    obtain rfl := List.mem_singleton.1 he
    exact trivial
  obtain ⟨hvel, -, -, hpos⟩ := velocity_onClock 7 8 0 [(0, .setAcceleration 1)] 2500000
  have hbound := hpos hcalls
  refine ⟨hvel.trans ?_, hbound.trans ?_⟩
  · norm_num [legs, lost, Call.accel, secondsSince, secondsBetween]
  · norm_num [accels, Call.accel]

end DrivingSim.MockMotor

end
