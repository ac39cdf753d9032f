import DrivingSim.Support.Sending
import DrivingSim.Simulation.Footprint

/-!
# Simulation — what the planner sends to the log

The functions of `car.cpp`, `intersection.cpp` and `grid.cpp` under `find_accelerations`, with the
errors and warnings that they send to `diag`.  Nothing depends on what has been sent: the values
are those of the functions of `Car.lean` and `Grid.lean` (`value_findAccelerations`).

`set_min_windows` looks before it sets a window, so that all that an auto sends comes from
`car.cpp` (`fromCar_setMinWindowsStep`).
-/

namespace DrivingSim

inductive Message where
  /-- "Window should not be null.  Collision should have returned false" -/
  | windowNull
  /-- "time to intersection must be positive" -/
  | timeNegative
  /-- "exit time was less than entrance time" -/
  | exitBeforeEntrance
  /-- "car is not on a track with the intersection" -/
  | notOnTrack
  /-- "acceleration was below minimum! Trying to decelerate too fast" -/
  | accBelowMin
  /-- "acceleration was above max! Trying to accelerate too fast" -/
  | accAboveMax
  /-- "velocity is below 0" -/
  | velBelowZero
  /-- "velocity is above MAX_VEL" -/
  | velAboveMax
  /-- "displacement is negative.  Intersection should not have in list of intersections_ahead" -/
  | displacementNegative
  /-- "overwriting previous window in intersection", and which one -/
  | overwriting (addr : ℕ)

namespace Message
open Sending

/-! ### `intersection.cpp` -/

section Windows

variable {D : Type} (i : Intersection D) (σ : Windows D) (w : Window D)

def setWindow : Sending Message (Windows D) := do
  if (σ i.addr).isSome then send (.overwriting i.addr) else pure ()
  pure (i.setWindow σ w)

/-- In `set_min_windows`, which has no need to overwrite an existing window. -/
def fillWindow : Sending Message (Windows D) :=
  if (σ i.addr).isNone then setWindow i σ w else pure σ

variable {i σ w}

@[simp] theorem value_setWindow : value (setWindow i σ w) = i.setWindow σ w := by
  rw [setWindow]
  split_ifs <;> rfl

theorem messages_setWindow :
    messages (setWindow i σ w) = if (σ i.addr).isSome then [.overwriting i.addr] else [] := by
  rw [setWindow]
  split_ifs <;> rfl

@[simp] theorem value_fillWindow : value (fillWindow i σ w) =
    if (σ i.addr).isNone then i.setWindow σ w else σ := by
  rw [fillWindow]
  split_ifs
  · rw [value_setWindow]
  · rfl

/-- Nothing is overwritten. -/
theorem messages_fillWindow : messages (fillWindow i σ w) = [] := by
  rw [fillWindow]
  split_ifs with hnone
  · rw [messages_setWindow, Option.isNone_iff_eq_none.1 hnone]
    rfl
  · rfl

end Windows

variable {D : Type} [Double D]

/-! ### `car.cpp` -/

/-- What an intersection has for the track that a car is on. -/
def onTrack (c : Car D) (i : Intersection D) (across down : D) : Sending Message D :=
  if i.acrossId = c.trackId then pure across
  else if i.downId = c.trackId then pure down
  else do
    send .notOnTrack
    pure 0

def posOfIntersection (c : Car D) (i : Intersection D) : Sending Message D :=
  onTrack c i i.acrossPos i.downPos

def wdOfIntersection (c : Car D) (i : Intersection D) : Sending Message D :=
  onTrack c i i.acrossWd i.downWd

def checkVel (vel : D) : Sending Message Unit := do
  if vel < 0 then send .velBelowZero else pure ()
  if Car.maxVel < vel then send .velAboveMax else pure ()

def calculateVel (vel acc time : D) : Sending Message D := do
  let vFinal := Double.stdMin (Car.calculateVelRaw vel acc time) 0.5
  checkVel vFinal
  pure vFinal

def calculateAcc (deltaX vInit time : D) : Sending Message D :=
  let acc := Car.calculateAccRaw deltaX vInit time
  if acc < Car.minAcc then do
    send .accBelowMin
    pure Car.minAcc
  else if Car.maxAcc < acc then do
    send .accAboveMax
    pure Car.maxAcc
  else pure acc

def collision (a : Auto D) (window : Option (Window D)) (i : Intersection D)
    (time pos vel acc : D) : Sending Message Bool :=
  match window with
  | none => pure false
  | some b => do
    let disp := (← posOfIntersection a.toCar i) - pos
    let timeTillEnter := Car.calculateTime disp vel acc
    let timeTillExit := Car.calculateTime (disp + a.length + i.acrossWd) vel acc
    if timeTillExit < timeTillEnter then send .exitBeforeEntrance else pure ()
    pure (Auto.intervalsOverlap (timeTillEnter + time) (timeTillExit + time) b.first b.second)

def optimalAcc (a : Auto D) (window : Option (Window D)) (i : Intersection D)
    (time pos vel : D) : Sending Message D := do
  if !(← collision a window i time pos vel Car.maxAcc) then pure Car.maxAcc
  else match window with
    -- the source goes on to the window that is not there
    | none => do
      send .windowNull
      pure Car.maxAcc
    | some b => do
      let timeToIntersection := b.second - time
      if timeToIntersection < 0 then send .timeNegative else pure ()
      let dist := (← posOfIntersection a.toCar i) - pos
      calculateAcc dist vel timeToIntersection

/-! ### `grid.cpp` -/

/-- The body of the loop of `set_min_windows`. -/
def setMinWindowsStep (a : Auto D) (s : Planner D) (i : Intersection D) :
    Sending Message (Planner D) := do
  let acc ← optimalAcc a (s.windows i.addr) i s.time s.pos s.vel
  let disp := (← posOfIntersection a.toCar i) - s.pos
  let wdOfIntsctn ← wdOfIntersection a.toCar i
  let w := a.createWindow disp s.vel acc wdOfIntsctn
  let windows ← fillWindow i s.windows ⟨w.first + s.time, w.second + s.time⟩
  let vel ← calculateVel s.pos acc w.second
  pure
    { windows := windows
      time := s.time + w.second
      pos := s.pos + (disp + a.length + wdOfIntsctn)
      vel := s.vel + vel
      accSet := true
      accToReturn := if s.accSet then s.accToReturn else acc }

variable (S : StdSort (Intersection D)) (g : Grid D)

def setMinWindows (a : Auto D) (σ : Windows D) : Sending Message (D × Windows D) := do
  let s ← (g.intersectionsAhead S a.toCar).foldlM (setMinWindowsStep a) (Planner.start a σ)
  pure (if s.accSet then s.accToReturn else a.finalAcc (if a.horiz then g.width else g.length),
    s.windows)

/-- The body of the first loop of `find_accelerations`. -/
def reserveStep (σ : Windows D) (i : Intersection D) : Sending Message (Windows D) := do
  let disp := (← posOfIntersection g.human.toCar i) - g.human.position
  if disp < 0 then send .displacementNegative else pure ()
  let minTime := Car.calculateTime disp g.human.velocity Car.maxAcc
  setWindow i σ ⟨minTime, Double.infinity⟩

/-- The body of the second. -/
def planStep (r : List D × Windows D) (a : Auto D) : Sending Message (List D × Windows D) := do
  let p ← setMinWindows S g a r.2
  pure (r.1 ++ [p.1], p.2)

def findAccelerations (σ : Windows D) : Sending Message (List D × Windows D) := do
  let σ ← (g.intersectionsAhead S g.human.toCar).foldlM (reserveStep g) σ
  g.autos.foldlM (planStep S g) ([], σ)

/-! ### The values -/

variable {S g} {c : Car D} {a : Auto D} {i : Intersection D} {s : Planner D} {σ : Windows D}
  {window : Option (Window D)} {time pos vel acc : D}

@[simp] theorem value_posOfIntersection :
    value (posOfIntersection c i) = c.posOfIntersection i := by
  rw [posOfIntersection, onTrack, Car.posOfIntersection]
  split_ifs <;> rfl

@[simp] theorem value_wdOfIntersection :
    value (wdOfIntersection c i) = c.wdOfIntersection i := by
  rw [wdOfIntersection, onTrack, Car.wdOfIntersection]
  split_ifs <;> rfl

@[simp] theorem value_calculateVel : value (calculateVel vel acc time) =
    Car.calculateVel vel acc time := rfl

@[simp] theorem value_calculateAcc {deltaX vInit : D} :
    value (calculateAcc deltaX vInit time) = Car.calculateAcc deltaX vInit time := by
  rw [calculateAcc, Car.calculateAcc]
  split_ifs <;> rfl

@[simp] theorem value_collision : value (collision a window i time pos vel acc) =
    a.collision window i time pos vel acc := by
  cases window with
  | none => rfl
  | some b =>
      simp only [collision, Auto.collision, value_bind, value_posOfIntersection]
      split_ifs <;> rfl

@[simp] theorem value_optimalAcc : value (optimalAcc a window i time pos vel) =
    a.optimalAcc window i time pos vel := by
  cases window with
  | none => rfl
  | some b =>
      rw [optimalAcc, value_bind, value_collision]
      cases hcollision : a.collision (some b) i time pos vel Car.maxAcc with
      | false => rw [Auto.optimalAcc_of_not_collision hcollision]; rfl
      | true =>
          rw [Auto.optimalAcc_of_collision hcollision, Bool.not_true, if_neg Bool.false_ne_true]
          dsimp only
          split_ifs <;> simp

@[simp] theorem value_setMinWindowsStep :
    value (setMinWindowsStep a s i) = DrivingSim.setMinWindowsStep a s i := by
  simp [setMinWindowsStep, DrivingSim.setMinWindowsStep, Planner.planned, Planner.window,
    Planner.disp, Planner.acc]

@[simp] theorem value_setMinWindows :
    value (setMinWindows S g a σ) = g.setMinWindows S a σ := by
  simp only [setMinWindows, value_bind, value_pure, value_foldlM, value_setMinWindowsStep]
  rfl

@[simp] theorem value_reserveStep :
    value (reserveStep g σ i) = i.setWindow σ (g.humanWindow i) := by
  rw [reserveStep, value_bind, value_posOfIntersection]
  dsimp only
  split_ifs
  · rw [value_bind, value_setWindow]
    rfl
  · rw [value_setWindow]
    rfl

@[simp] theorem value_planStep {r : List D × Windows D} :
    value (planStep S g r a) = g.planStep S r a := by
  simp [planStep, Grid.planStep]

/-- **The log changes nothing.** -/
theorem value_findAccelerations :
    value (findAccelerations S g σ) = g.findAccelerations S σ := by
  simp only [findAccelerations, value_bind, value_foldlM, value_reserveStep, value_planStep]
  rfl

/-! ### What an auto sends -/

/-- What `car.cpp` may send of a car at an intersection. -/
def FromCar (c : Car D) (i : Intersection D) : Message → Prop
  | notOnTrack => i.acrossId ≠ c.trackId ∧ i.downId ≠ c.trackId
  | displacementNegative | overwriting _ => False
  | _ => True

theorem fromCar_onTrack (across down : D) : Only (FromCar c i) (onTrack c i across down) := by
  rw [onTrack]
  by_cases ha : i.acrossId = c.trackId
  · simp [ha]
  · by_cases hd : i.downId = c.trackId
    · simp [ha, hd]
    · simp [ha, hd, only_bind, FromCar]

theorem fromCar_posOfIntersection : Only (FromCar c i) (posOfIntersection c i) :=
  fromCar_onTrack _ _

theorem fromCar_wdOfIntersection : Only (FromCar c i) (wdOfIntersection c i) :=
  fromCar_onTrack _ _

theorem fromCar_calculateVel : Only (FromCar c i) (calculateVel vel acc time) := by
  rw [calculateVel, checkVel]
  split_ifs <;> simp [only_bind, FromCar]

theorem fromCar_calculateAcc {deltaX vInit : D} :
    Only (FromCar c i) (calculateAcc deltaX vInit time) := by
  rw [calculateAcc]
  split_ifs <;> simp [only_bind, FromCar]

theorem fromCar_collision :
    Only (FromCar a.toCar i) (collision a window i time pos vel acc) := by
  cases window with
  | none => exact only_pure false
  | some b =>
      rw [collision, only_bind]
      refine ⟨fromCar_posOfIntersection, ?_⟩
      dsimp only
      split_ifs <;> simp [only_bind, FromCar]

theorem fromCar_optimalAcc : Only (FromCar a.toCar i) (optimalAcc a window i time pos vel) := by
  cases window with
  | none => exact only_pure Car.maxAcc
  | some b =>
      rw [optimalAcc, only_bind]
      refine ⟨fromCar_collision, ?_⟩
      dsimp only
      split_ifs <;> simp [only_bind, fromCar_posOfIntersection, fromCar_calculateAcc, FromCar]

theorem fromCar_setMinWindowsStep : Only (FromCar a.toCar i) (setMinWindowsStep a s i) := by
  simp [setMinWindowsStep, only_bind, fromCar_optimalAcc, fromCar_posOfIntersection,
    fromCar_wdOfIntersection, fromCar_calculateVel, only_of_silent messages_fillWindow]

/-- **What an auto sends** is of itself and of an intersection ahead of it. -/
theorem fromCar_setMinWindows : Only (fun e => ∃ i ∈ g.intersectionsAhead S a.toCar,
    FromCar a.toCar i e) (setMinWindows S g a σ) := by
  rw [setMinWindows, only_bind]
  refine ⟨only_foldlM (fun i hi s => ?_) _, only_pure _⟩
  exact fromCar_setMinWindowsStep.imp fun e he => ⟨i, hi, he⟩

end Message

end DrivingSim
