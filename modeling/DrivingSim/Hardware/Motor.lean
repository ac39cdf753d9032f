import DrivingSim.Support.Double

/-!
# Hardware — the motor

`motor_impl` of `motor.cpp`: the kinematics, the operations of the interface and the thread that
sends the pulses.  `curr` and `next` are instants, in microseconds; the motor is sent a pulse
when the `lockless_delay` between the two is over.

Each critical section of `data_lock` is one step.  The thread goes from one section to the next
(`Motor.threadStep`); what it does in between, writing the pin and sleeping for the delay it
has read, is its program counter `pulse`.  A thread that waits for `start` may wake up at any
time and test the condition again.  `change_acceleration` has two sections: it reads the
acceleration, which changes nothing here, and sets another one.
-/

namespace DrivingSim

/-- Where the thread of the motor is. -/
inductive Motor.Pc (D : Type) where
  /-- At the lock of `idle`. -/
  | idle
  /-- In `start.wait`. -/
  | waiting
  /-- At the test of the loop of `pwm`. -/
  | check
  /-- At the first lock of `pwm`. -/
  | read
  /-- Between the two locks of `pwm`: writing to the pin, and sleeping twice for `delay`. -/
  | pulse (delay : D)
  | exited

structure Motor (D : Type) where
  curr : D
  next : D
  accel : D
  pos : D
  velocityOffset : D
  halt : Bool
  thread : Motor.Pc D

namespace Motor

variable {D : Type} [Double D]

def pi : D := 3.1415926535897
def radius : D := 0.075
def radiansPerTurn : D := pi / 100
def stopThreshold : D := 4000

section Kinematics

variable (m : Motor D)

def locklessDelay : D := m.next - m.curr

def stopped : Bool := decide (stopThreshold < m.locklessDelay)

def locklessVelocity : D :=
  if m.stopped then 0.0 else 1e6 / m.locklessDelay * radiansPerTurn * radius

/-! ### The interface -/

/-- What `set_acceleration` does first: a motor that is stopped starts to move. -/
def wake : Motor D := if m.stopped then { m with curr := 0, next := stopThreshold } else m

/-- The fields are assigned one after the other: `next` is calculated from the new `curr`. -/
def setAcceleration (acceleration : D) : Motor D :=
  let m := m.wake
  let m := { m with velocityOffset := m.locklessVelocity }
  let m := { m with curr := 0 }
  let m := { m with next := m.locklessDelay }
  { m with accel := acceleration }

def calibrate (newPosition : D) : Motor D := { m with pos := newPosition }

/-- The first part of the destructor, which then joins the thread. -/
def requestHalt : Motor D := { m with halt := true }

/-! ### The thread -/

/-- The kinematics in the second section of `pwm`. -/
def pulsed : Motor D :=
  let v₀ := m.velocityOffset / radius * 60 / (2 * pi)
  let a := m.accel / radius * 60 / (2 * pi)
  let curr := m.next
  { m with
    curr := curr
    next := 4688.0 / (a * 1e-6 * curr + v₀) + curr
    pos := m.pos + radiansPerTurn * radius }

/-- The next critical section of the thread. -/
def threadStep : Motor D :=
  match m.thread with
  | .idle =>
    if m.halt then { m with thread := .exited }
    else if m.stopped then { m with thread := .waiting }
    else { m with thread := .check }
  -- the condition of the wait does not look at `halt`
  | .waiting => if m.stopped then m else { m with thread := .check }
  | .check => if m.stopped then { m with thread := .idle } else { m with thread := .read }
  | .read => { m with thread := .pulse m.locklessDelay }
  | .pulse _ =>
    if m.halt then { m.pulsed with thread := .exited } else { m.pulsed with thread := .check }
  | .exited => m

end Kinematics

/-- The constructor: the motor is stopped. -/
def init : Motor D :=
  let m : Motor D :=
    { curr := 0, next := stopThreshold + 1, accel := 0.0, pos := 0.0, velocityOffset := 0,
      halt := false, thread := .idle }
  { m with velocityOffset := m.locklessVelocity }

/-- A step of the motor: a call of the interface, or of its own thread. -/
inductive Step : Motor D → Motor D → Prop where
  | setAcceleration (m : Motor D) (acceleration : D) : Step m (m.setAcceleration acceleration)
  | calibrate (m : Motor D) (newPosition : D) : Step m (m.calibrate newPosition)
  | requestHalt (m : Motor D) : Step m m.requestHalt
  | thread (m : Motor D) : Step m m.threadStep

/-! ### The fields after a step -/

section Fields

variable (m : Motor D) (acceleration : D)

@[simp] theorem setAcceleration_curr : (m.setAcceleration acceleration).curr = 0 := rfl

@[simp] theorem setAcceleration_next :
    (m.setAcceleration acceleration).next = m.wake.next - 0 := rfl

@[simp] theorem setAcceleration_velocityOffset :
    (m.setAcceleration acceleration).velocityOffset = m.wake.locklessVelocity := rfl

@[simp] theorem setAcceleration_halt : (m.setAcceleration acceleration).halt = m.halt := by
  have hwake : m.wake.halt = m.halt := by
    rw [wake]
    split_ifs <;> rfl
  exact hwake

@[simp] theorem pulsed_curr : m.pulsed.curr = m.next := rfl

@[simp] theorem pulsed_accel : m.pulsed.accel = m.accel := rfl

@[simp] theorem pulsed_velocityOffset : m.pulsed.velocityOffset = m.velocityOffset := rfl

@[simp] theorem pulsed_pos : m.pulsed.pos = m.pos + radiansPerTurn * radius := rfl

@[simp] theorem init_curr : (init : Motor D).curr = 0 := rfl

@[simp] theorem init_next : (init : Motor D).next = stopThreshold + 1 := rfl

@[simp] theorem init_accel : (init : Motor D).accel = 0.0 := rfl

@[simp] theorem init_velocityOffset :
    (init : Motor D).velocityOffset = (init : Motor D).locklessVelocity := rfl

end Fields

/-! ### The steps of the thread -/

variable {m : Motor D}

theorem threadStep_of_pulse {delay : D} (ht : m.thread = .pulse delay) :
    ∃ pc, m.threadStep = { m.pulsed with thread := pc } := by
  rw [threadStep, ht]
  dsimp only
  split_ifs
  · exact ⟨.exited, rfl⟩
  · exact ⟨.check, rfl⟩

/-- A step of the thread is the end of a pulse, or changes nothing but where the thread is. -/
theorem threadStep_cases (m : Motor D) :
    (∃ pc, m.threadStep = { m with thread := pc }) ∨
      ∃ delay pc, m.thread = .pulse delay ∧ m.threadStep = { m.pulsed with thread := pc } := by
  cases ht : m.thread with
  | idle =>
      left
      rw [threadStep, ht]
      dsimp only
      split_ifs <;> exact ⟨_, rfl⟩
  | waiting =>
      left
      rw [threadStep, ht]
      dsimp only
      split_ifs
      · exact ⟨m.thread, rfl⟩
      · exact ⟨_, rfl⟩
  | check =>
      left
      rw [threadStep, ht]
      dsimp only
      split_ifs <;> exact ⟨_, rfl⟩
  | read =>
      left
      rw [threadStep, ht]
      exact ⟨_, rfl⟩
  | pulse delay =>
      right
      obtain ⟨pc, h⟩ := threadStep_of_pulse ht
      exact ⟨delay, pc, rfl, h⟩
  | exited =>
      left
      rw [threadStep, ht]
      exact ⟨m.thread, rfl⟩

/-- The thread is sent on from the test of the loop only when the motor moves. -/
theorem threadStep_eq_read (h : m.threadStep.thread = .read) :
    m.stopped = false ∧ m.threadStep = { m with thread := .read } := by
  cases ht : m.thread with
  | check =>
      rw [threadStep, ht] at h ⊢
      cases hs : m.stopped with
      | true =>
          rw [hs] at h
          exact nomatch h
      | false => exact ⟨rfl, rfl⟩
  | idle =>
      rw [threadStep, ht] at h
      dsimp only at h
      split_ifs at h
  | waiting =>
      rw [threadStep, ht] at h
      dsimp only at h
      split_ifs at h
      exact nomatch ht.symm.trans h
  | read =>
      rw [threadStep, ht] at h
      exact nomatch h
  | pulse delay =>
      rw [threadStep, ht] at h
      dsimp only at h
      split_ifs at h
  | exited =>
      rw [threadStep, ht] at h
      exact nomatch ht.symm.trans h

/-- A pulse starts with the delay that is read at the first lock of the loop. -/
theorem threadStep_eq_pulse {delay : D} (h : m.threadStep.thread = .pulse delay) :
    m.thread = .read ∧ delay = m.locklessDelay := by
  cases ht : m.thread with
  | read =>
      rw [threadStep, ht] at h
      exact ⟨rfl, (Pc.pulse.inj h).symm⟩
  | idle =>
      rw [threadStep, ht] at h
      dsimp only at h
      split_ifs at h
  | waiting =>
      rw [threadStep, ht] at h
      dsimp only at h
      split_ifs at h
      exact nomatch ht.symm.trans h
  | check =>
      rw [threadStep, ht] at h
      dsimp only at h
      split_ifs at h
  | pulse delay =>
      rw [threadStep, ht] at h
      dsimp only at h
      split_ifs at h
  | exited =>
      rw [threadStep, ht] at h
      exact nomatch ht.symm.trans h

/-- The thread leaves the acceleration alone. -/
theorem threadStep_accel : m.threadStep.accel = m.accel := by
  rcases m.threadStep_cases with ⟨pc, h⟩ | ⟨delay, pc, -, h⟩
  · rw [h]
  · rw [h]
    rfl

end Motor

end DrivingSim
