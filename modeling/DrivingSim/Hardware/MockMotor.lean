import Mathlib.Data.Real.Basic
import Mathlib.Tactic.Ring
import Mathlib.Tactic.NormNum.OfScientific

/-!
# Hardware — the mock of the motor

`mock_motor` of `motor.cpp`, on which the simulation is tested.  It reads its position and its
velocity off a clock, `sys::now`, from an offset and the instant at which that was stored.  A
definition takes the instant at which it is called, in microseconds.  The constructor stores no
instants: they are whatever the memory held.

A motor that is only read changes nothing.  The velocity at an instant is the sum, over the
intervals between the calls so far, of the acceleration then in force and the length of the
interval; a calibration of the position leaves it alone; and a change of the acceleration moves
neither the velocity nor the position at the instant of the call (`velocity_eq_sum`).  What the
memory held is multiplied by zero until it has been overwritten.
-/

namespace DrivingSim

structure MockMotor (D : Type) where
  accel : D
  positionOffset : D
  velocityOffset : D
  lastPositionCalibration : ℤ
  lastVelocityCalibration : ℤ

namespace MockMotor

/-- A call of the interface that changes the motor. -/
inductive Call (D : Type) where
  | setAcceleration (acceleration : D)
  | changeAcceleration (delta : D)
  | calibrate (newPosition : D)

section Model

variable {D : Type} [Add D] [Mul D] [Div D] [Zero D] [IntCast D] [OfScientific D]

/-- `sys::seconds_since`, at an instant. -/
def secondsSince (now time : ℤ) : D := ((now - time : ℤ) : D) / 1e6

/-- The constructor, with what the two instants held. -/
def init (positionCalibration velocityCalibration : ℤ) : MockMotor D :=
  ⟨0, 0, 0, positionCalibration, velocityCalibration⟩

variable (m : MockMotor D) (now : ℤ)

def velocity : D := m.velocityOffset + m.accel * secondsSince now m.lastVelocityCalibration

def position : D :=
  m.positionOffset + m.velocity now * secondsSince now m.lastPositionCalibration

def calibrate (newPosition : D) : MockMotor D :=
  { m with positionOffset := newPosition, lastPositionCalibration := now }

/-- The fields are assigned one after the other. -/
def setAcceleration (acceleration : D) : MockMotor D :=
  let m := m.calibrate now (m.position now)
  let m := { m with velocityOffset := m.velocity now }
  let m := { m with lastVelocityCalibration := now }
  { m with accel := acceleration }

def changeAcceleration (delta : D) : MockMotor D := m.setAcceleration now (m.accel + delta)

def call : Call D → MockMotor D
  | .setAcceleration acceleration => m.setAcceleration now acceleration
  | .changeAcceleration delta => m.changeAcceleration now delta
  | .calibrate newPosition => m.calibrate now newPosition

/-- The motor after a sequence of calls, each at its instant. -/
def after (calls : List (ℤ × Call D)) : MockMotor D :=
  calls.foldl (fun m c => m.call c.1 c.2) m

end Model

/-- The acceleration in force after a call, from the one before. -/
def Call.accel (a : ℝ) : Call ℝ → ℝ
  | .setAcceleration acceleration => acceleration
  | .changeAcceleration delta => a + delta
  | .calibrate _ => a

/-- A call that is not a calibration of the position. -/
def Call.Accelerates : Call ℝ → Prop
  | .calibrate _ => False
  | _ => True

/-- The intervals between the calls, from the instant `t` to the instant `T`: the acceleration in
force, `a` at first, and the length in seconds. -/
noncomputable def legs (a : ℝ) (t : ℤ) : List (ℤ × Call ℝ) → ℤ → List (ℝ × ℝ)
  | [], T => [(a, secondsSince T t)]
  | (t', c) :: calls, T => (a, secondsSince t' t) :: legs (c.accel a) t' calls T

variable {m : MockMotor ℝ} {c : Call ℝ} {calls : List (ℤ × Call ℝ)} {t u T : ℤ} {a x : ℝ}

@[simp] theorem secondsSince_self (t : ℤ) : (secondsSince t t : ℝ) = 0 := by
  rw [secondsSince, sub_self, Int.cast_zero, zero_div]

theorem secondsSince_add (t u T : ℤ) :
    (secondsSince T t : ℝ) = secondsSince u t + secondsSince T u := by
  simp only [secondsSince, Int.cast_sub]
  ring

@[simp] theorem after_nil : m.after [] = m := rfl

@[simp] theorem after_cons : m.after ((t, c) :: calls) = (m.call t c).after calls := rfl

theorem after_append (m : MockMotor ℝ) (calls calls' : List (ℤ × Call ℝ)) :
    m.after (calls ++ calls') = (m.after calls).after calls' := List.foldl_append

theorem call_accel : (m.call t c).accel = c.accel m.accel := by
  cases c <;> rfl

/-- The velocity goes on from any instant. -/
theorem velocity_add (m : MockMotor ℝ) (t T : ℤ) :
    m.velocity T = m.velocity t + m.accel * secondsSince T t := by
  rw [velocity, velocity, secondsSince_add m.lastVelocityCalibration t T]
  ring

/-! ### The instant of a call -/

theorem setAcceleration_velocity : (m.setAcceleration t a).velocity t = m.velocity t := by
  show m.velocity t + a * secondsSince t t = m.velocity t
  rw [secondsSince_self, mul_zero, add_zero]

theorem setAcceleration_position : (m.setAcceleration t a).position t = m.position t := by
  show m.position t + (m.setAcceleration t a).velocity t * secondsSince t t = m.position t
  rw [secondsSince_self, mul_zero, add_zero]

/-- No call moves the velocity at its instant. -/
theorem call_velocity : (m.call t c).velocity t = m.velocity t := by
  cases c with
  | setAcceleration a => exact setAcceleration_velocity
  | changeAcceleration d => exact setAcceleration_velocity
  | calibrate x => rfl

/-- And a change of the acceleration does not move the position. -/
theorem call_position (hc : c.Accelerates) : (m.call t c).position t = m.position t := by
  cases c with
  | setAcceleration a => exact setAcceleration_position
  | changeAcceleration d => exact setAcceleration_position
  | calibrate x => exact absurd hc id

/-! ### The velocity after a sequence of calls -/

/-- What the accelerations add to the velocity. -/
theorem after_velocity (m : MockMotor ℝ) (t : ℤ) (calls : List (ℤ × Call ℝ)) (T : ℤ) :
    (m.after calls).velocity T =
      m.velocity t + ((legs m.accel t calls T).map fun l => l.1 * l.2).sum := by
  induction calls generalizing m t with
  | nil =>
      rw [after_nil, legs, List.map_singleton, List.sum_singleton]
      exact m.velocity_add t T
  | cons e calls ih =>
      obtain ⟨t', c⟩ := e
      rw [after_cons, ih _ t', call_velocity, call_accel, m.velocity_add t t', legs, List.map_cons,
        List.sum_cons, add_assoc]

/-- Two motors that differ in their positions have the same velocity, whatever is called. -/
theorem after_calibrate_velocity (m : MockMotor ℝ) (t : ℤ) (x : ℝ) (calls : List (ℤ × Call ℝ))
    (T : ℤ) : ((m.calibrate t x).after calls).velocity T = (m.after calls).velocity T :=
  ((m.calibrate t x).after_velocity t calls T).trans (m.after_velocity t calls T).symm

theorem init_velocity (p v t : ℤ) : (init p v : MockMotor ℝ).velocity t = 0 := by
  show (0 : ℝ) + 0 * _ = 0
  rw [zero_mul, add_zero]

theorem init_position (p v t : ℤ) : (init p v : MockMotor ℝ).position t = 0 := by
  show (0 : ℝ) + (init p v : MockMotor ℝ).velocity t * _ = 0
  rw [init_velocity, zero_mul, add_zero]

/-- **The velocity is the integral of the acceleration**, whatever the memory held at first; a
calibration changes it neither at once nor later; and a change of the acceleration moves
neither velocity nor position at its instant. -/
theorem velocity_eq_sum (p v start : ℤ) (calls : List (ℤ × Call ℝ)) (T : ℤ) :
    ((init p v).after calls).velocity T =
        ((legs 0 start calls T).map fun l => l.1 * l.2).sum ∧
      (∀ pre t x post, calls = pre ++ (t, .calibrate x) :: post →
        ((init p v).after calls).velocity T = ((init p v).after (pre ++ post)).velocity T) ∧
      ∀ c : Call ℝ, c.Accelerates →
        (((init p v).after calls).call T c).velocity T = ((init p v).after calls).velocity T ∧
          (((init p v).after calls).call T c).position T =
            ((init p v).after calls).position T := by
  refine ⟨?_, ?_, fun c hc => ⟨call_velocity, call_position hc⟩⟩
  · have h := (init p v).after_velocity start calls T
    rw [init_velocity, zero_add] at h
    exact h
  · rintro pre t x post rfl
    rw [after_append, after_append, after_cons]
    exact ((init p v).after pre).after_calibrate_velocity t x post T

end MockMotor

end DrivingSim
