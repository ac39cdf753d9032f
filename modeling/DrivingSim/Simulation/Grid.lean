import DrivingSim.Support.Sort
import DrivingSim.Simulation.Car

/-!
# Simulation — the planner

`grid.cpp`: `find_accelerations` reserves the intersections ahead of the human, and then lets
the autos plan one after the other.  `set_min_windows` goes through the intersections ahead of
one auto in the order of the track, carrying the time, the position and the velocity at which
the auto comes to each.

* `Planner` is the state of that loop and `setMinWindowsStep` its body.
* `Grid.Visits`: the run of `find_accelerations` comes, for an auto, to an intersection in a
  state of the loop.  What holds whenever an intersection is processed is said of every visit.
-/

namespace DrivingSim

structure Grid (D : Type) where
  intersections : List (Intersection D)
  autos : List (Auto D)
  human : Human D
  width : D
  length : D

/-- The variables of the loop of `set_min_windows`, and the windows it writes. -/
structure Planner (D : Type) where
  windows : Windows D
  time : D
  pos : D
  vel : D
  accSet : Bool
  accToReturn : D

variable {D : Type} [Double D]

/-! ### `set_min_windows` -/

/-- `optimal_acc` at an intersection, in a state of the loop. -/
def Planner.acc (s : Planner D) (a : Auto D) (i : Intersection D) : D :=
  a.optimalAcc (s.windows i.addr) i s.time s.pos s.vel

/-- The distance to an intersection. -/
def Planner.disp (s : Planner D) (a : Auto D) (i : Intersection D) : D :=
  a.posOfIntersection i - s.pos

/-- The window that is planned, `w` in the source: from when the loop is at `s`. -/
def Planner.window (s : Planner D) (a : Auto D) (i : Intersection D) : Window D :=
  a.createWindow (s.disp a i) s.vel (s.acc a i) (a.wdOfIntersection i)

/-- The window that is planned, from the start of the run. -/
def Planner.planned (s : Planner D) (a : Auto D) (i : Intersection D) : Window D :=
  ⟨(s.window a i).first + s.time, (s.window a i).second + s.time⟩

/-- The body of the loop. -/
def setMinWindowsStep (a : Auto D) (s : Planner D) (i : Intersection D) : Planner D where
  windows := if (s.windows i.addr).isNone then i.setWindow s.windows (s.planned a i) else s.windows
  time := s.time + (s.window a i).second
  pos := s.pos + (s.disp a i + a.length + a.wdOfIntersection i)
  vel := s.vel + Car.calculateVel s.pos (s.acc a i) (s.window a i).second
  accSet := true
  accToReturn := if s.accSet then s.accToReturn else s.acc a i

/-- The loop starts where the car is. -/
def Planner.start (a : Auto D) (σ : Windows D) : Planner D where
  windows := σ
  time := 0
  pos := a.position
  vel := a.velocity
  accSet := false
  accToReturn := 0

namespace Grid

/-! ### `intersections_ahead` -/

def acrossSort (a b : Intersection D) : Bool := decide (a.acrossPos < b.acrossPos)
def downSort (a b : Intersection D) : Bool := decide (a.downPos < b.downPos)

/-- One turn of the loop over all intersections, and the flag `sort_across`. -/
def aheadStep (car : Car D) (acc : List (Intersection D) × Bool) (i : Intersection D) :
    List (Intersection D) × Bool :=
  if i.acrossId = car.trackId then
    (if car.position < i.acrossPos then acc.1 ++ [i] else acc.1, true)
  else if i.downId = car.trackId then
    (if car.position < i.downPos then acc.1 ++ [i] else acc.1, acc.2)
  else acc

variable (S : StdSort (Intersection D)) (g : Grid D)

def intersectionsAhead (car : Car D) : List (Intersection D) :=
  let r := g.intersections.foldl (aheadStep car) ([], false)
  if r.2 then S.sort acrossSort r.1 else S.sort downSort r.1

/-! ### `set_min_windows` and `find_accelerations` -/

/-- The state of the loop when all intersections ahead have been processed. -/
def setMinWindowsLoop (a : Auto D) (σ : Windows D) : Planner D :=
  (g.intersectionsAhead S a.toCar).foldl (setMinWindowsStep a) (Planner.start a σ)

/-- The acceleration returned, and the windows left. -/
def setMinWindows (a : Auto D) (σ : Windows D) : D × Windows D :=
  let s := g.setMinWindowsLoop S a σ
  (if s.accSet then s.accToReturn else a.finalAcc (if a.horiz then g.width else g.length),
    s.windows)

/-- The window the human gets: from the earliest it can be there, for ever. -/
def humanWindow (i : Intersection D) : Window D :=
  let disp := g.human.posOfIntersection i - g.human.position
  ⟨Car.calculateTime disp g.human.velocity Car.maxAcc, Double.infinity⟩

/-- The first loop of `find_accelerations`. -/
def reserveHuman (σ : Windows D) : Windows D :=
  (g.intersectionsAhead S g.human.toCar).foldl (fun σ i => i.setWindow σ (g.humanWindow i)) σ

/-- One turn of the second loop. -/
def planStep (r : List D × Windows D) (a : Auto D) : List D × Windows D :=
  let p := g.setMinWindows S a r.2
  (r.1 ++ [p.1], p.2)

/-- The accelerations returned, and the windows left. -/
def findAccelerations (σ : Windows D) : List D × Windows D :=
  g.autos.foldl (g.planStep S) ([], g.reserveHuman S σ)

/-! ### What a run comes to -/

/-- The windows when the autos of `before` have planned. -/
def windowsAfter (σ : Windows D) (before : List (Auto D)) : Windows D :=
  (before.foldl (g.planStep S) ([], g.reserveHuman S σ)).2

/-- **The run of `find_accelerations` from `σ` processes, for the auto `a`, the intersection
`i` in the state `s`**: the autos before `a` have planned, and the loop for `a` has gone through
the intersections before `i`. -/
def Visits (σ : Windows D) (a : Auto D) (i : Intersection D) (s : Planner D) : Prop :=
  ∃ before after pre post,
    g.autos = before ++ a :: after ∧ g.intersectionsAhead S a.toCar = pre ++ i :: post ∧
      s = pre.foldl (setMinWindowsStep a) (Planner.start a (g.windowsAfter S σ before))

end Grid

end DrivingSim
