import DrivingSim.Support.Double

/-!
# Simulation — intersections and cars

The data of `intersection.h` and `car.h`, and the functions of `car.cpp`.

An `Intersection` and an `Auto` are held by pointer in the source; `addr` is the address such a
pointer compares by.  The one field the planner writes, `window_`, is kept apart, in the
`Windows` that map the address of an intersection to what its `window_` points to (`none` is
`nullptr`).  A car's `position()` and `velocity()` are readings of its motor, taken once for
the call under study.  What the functions send to the log is not part of their value.
-/

namespace DrivingSim

/-- `Intersection::Window`, a pair of instants. -/
structure Window (D : Type) where
  first : D
  second : D

structure Intersection (D : Type) where
  addr : ℕ
  acrossId : ℤ
  downId : ℤ
  acrossWd : D
  downWd : D
  acrossPos : D
  downPos : D

/-- The `window_` of every intersection. -/
abbrev Windows (D : Type) := ℕ → Option (Window D)

/-- No intersection holds a window. -/
def Windows.empty {D : Type} : Windows D := fun _ => none

/-- `Intersection::set_window`. -/
def Intersection.setWindow {D : Type} (i : Intersection D) (σ : Windows D) (w : Window D) :
    Windows D :=
  Function.update σ i.addr (some w)

structure Car (D : Type) where
  trackId : ℤ
  length : D
  position : D
  velocity : D

structure Auto (D : Type) extends Car D where
  addr : ℕ

structure Human (D : Type) extends Car D

namespace Car

variable {D : Type} [Double D]

def maxVel : D := 0.5
def maxAcc : D := 3
def minAcc : D := -3
def turnVel : D := 0.3

/-! ### Kinematics -/

def calculateVelRaw (vel acc time : D) : D := vel + acc * time

def calculateAccRaw (deltaX vInit time : D) : D :=
  2.0 * (deltaX - vInit * time) / Double.pow2 time

def calculateTimeRaw (disp vInit acc : D) : D :=
  if acc == 0 then disp / vInit
  else (-1.0 * vInit + Double.sqrt (Double.pow2 vInit + 2.0 * acc * disp)) / acc

/-- The cap is the literal `.5`, which the source writes in place of `MAX_VEL`. -/
def calculateVel (vel acc time : D) : D := Double.stdMin (calculateVelRaw vel acc time) 0.5

def calculateAcc (deltaX vInit time : D) : D :=
  let acc := calculateAccRaw deltaX vInit time
  if acc < minAcc then minAcc
  else if maxAcc < acc then maxAcc
  else acc

def calculatePos (vInit aInit time : D) : D :=
  if maxVel < calculateVelRaw vInit aInit time then
    let timeToMaxVel := (maxVel - vInit) / aInit
    let distToMaxVel := vInit * timeToMaxVel + 0.5 * aInit * Double.pow2 timeToMaxVel
    distToMaxVel + maxVel * (time - timeToMaxVel)
  else vInit * time + 0.5 * aInit * Double.pow2 time

def calculateTime (disp vInit aInit : D) : D :=
  let vFinal := Double.sqrt (Double.pow2 vInit + 2 * aInit * disp)
  if vFinal ≤ maxVel then calculateTimeRaw disp vInit aInit
  -- also where `vFinal` is not a number: the distance is never gone
  else
    let timeToMaxVel := (maxVel - vInit) / aInit
    let distToMaxVel := vInit * timeToMaxVel + 0.5 * aInit * Double.pow2 timeToMaxVel
    timeToMaxVel + (disp - distToMaxVel) / maxVel

/-! ### A car and an intersection -/

def horiz (c : Car D) : Bool := c.trackId < 3

def posOfIntersection (c : Car D) (i : Intersection D) : D :=
  if i.acrossId = c.trackId then i.acrossPos
  else if i.downId = c.trackId then i.downPos
  else 0

def wdOfIntersection (c : Car D) (i : Intersection D) : D :=
  if i.acrossId = c.trackId then i.acrossWd
  else if i.downId = c.trackId then i.downWd
  else 0

def createWindow (c : Car D) (disp currVel acc intsctnWd : D) : Window D :=
  ⟨calculateTime disp currVel acc, calculateTime (disp + c.length + intsctnWd) currVel acc⟩

end Car

namespace Auto

variable {D : Type} [Double D]
open Car

def intervalsOverlap (aFirst aSecond bFirst bSecond : D) : Bool :=
  !(decide (aSecond < bFirst) || decide (bSecond < aFirst))

/-- The window is the one registered at `i`.  The exit is calculated with the width of the
across track, whichever the car is on. -/
def collision (a : Auto D) (window : Option (Window D)) (i : Intersection D)
    (time pos vel acc : D) : Bool :=
  match window with
  | none => false
  | some b =>
    let disp := a.posOfIntersection i - pos
    let timeTillEnter := calculateTime disp vel acc
    let timeTillExit := calculateTime (disp + a.length + i.acrossWd) vel acc
    intervalsOverlap (timeTillEnter + time) (timeTillExit + time) b.first b.second

def optimalAcc (a : Auto D) (window : Option (Window D)) (i : Intersection D)
    (time pos vel : D) : D :=
  match window with
  -- there is no collision with a window that is not there
  | none => maxAcc
  | some b =>
    if !a.collision (some b) i time pos vel maxAcc then maxAcc
    else calculateAcc (a.posOfIntersection i - pos) vel (b.second - time)

def finalAcc (a : Auto D) (max : D) : D :=
  if max < a.position then 0
  else (Double.pow2 a.velocity - Double.pow2 turnVel) / (2 * (max - a.position))

/-! ### The two cases of `optimal_acc` -/

variable {a : Auto D} {window : Option (Window D)} {b : Window D} {i : Intersection D}
  {time pos vel : D}

theorem optimalAcc_of_not_collision (h : a.collision window i time pos vel maxAcc = false) :
    a.optimalAcc window i time pos vel = maxAcc := by
  cases window with
  | none => rfl
  | some b => rw [optimalAcc, h, Bool.not_false, if_pos rfl]

theorem optimalAcc_of_collision (h : a.collision (some b) i time pos vel maxAcc = true) :
    a.optimalAcc (some b) i time pos vel =
      calculateAcc (a.posOfIntersection i - pos) vel (b.second - time) := by
  rw [optimalAcc, h, Bool.not_true, if_neg Bool.false_ne_true]

theorem intervalsOverlap_eq_false {aFirst aSecond bFirst bSecond : D} :
    intervalsOverlap aFirst aSecond bFirst bSecond = false ↔
      aSecond < bFirst ∨ bSecond < aFirst := by
  rw [intervalsOverlap, Bool.not_eq_false', Bool.or_eq_true, decide_eq_true_eq, decide_eq_true_eq]

end Auto

end DrivingSim
