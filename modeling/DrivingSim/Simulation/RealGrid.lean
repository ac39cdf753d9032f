import DrivingSim.Simulation.Kinematics
import DrivingSim.Simulation.Precedence
import DrivingSim.Simulation.Visits

/-!
# Simulation — grids of real numbers

The data of a grid are real numbers when every width, position, length and velocity is one.
Windows and the variables of the planner need not be: the window of the human has no end, and
`calculate_acc` of it is not a number.
-/

namespace DrivingSim
open XReal

structure Intersection.IsReal (i : Intersection XReal) : Prop where
  acrossWd : i.acrossWd.IsReal
  downWd : i.downWd.IsReal
  acrossPos : i.acrossPos.IsReal
  downPos : i.downPos.IsReal

structure Car.IsReal (c : Car XReal) : Prop where
  length : c.length.IsReal
  position : c.position.IsReal
  velocity : c.velocity.IsReal

structure Grid.IsReal (g : Grid XReal) : Prop where
  intersections : ∀ i ∈ g.intersections, i.IsReal
  autos : ∀ a ∈ g.autos, a.toCar.IsReal
  human : g.human.toCar.IsReal

namespace Car

variable {c : Car XReal} {i : Intersection XReal}

theorem isReal_posOfIntersection (hi : i.IsReal) : (c.posOfIntersection i).IsReal := by
  rw [posOfIntersection]
  split_ifs
  · exact hi.acrossPos
  · exact hi.downPos
  · exact ⟨0, zero_eq⟩

theorem isReal_wdOfIntersection (hi : i.IsReal) : (c.wdOfIntersection i).IsReal := by
  rw [wdOfIntersection]
  split_ifs
  · exact hi.acrossWd
  · exact hi.downWd
  · exact ⟨0, zero_eq⟩

end Car

namespace Grid

variable {g : Grid XReal} {S : StdSort (Intersection XReal)} {c : Car XReal}
  {i : Intersection XReal}

theorem IsReal.mem_ahead (hg : g.IsReal) (hi : i ∈ g.intersectionsAhead S c) : i.IsReal :=
  hg.intersections i (mem_intersectionsAhead.mp hi).1

theorem IsReal.of_visits (hg : g.IsReal) {σ : Windows XReal} {a : Auto XReal} {s : Planner XReal}
    (h : g.Visits S σ a i s) : i.IsReal ∧ a.toCar.IsReal :=
  ⟨hg.mem_ahead h.mem.2, hg.autos a h.mem.1⟩

theorem lt_of_mem_ahead (hi : i ∈ g.intersectionsAhead S c) :
    c.position < c.posOfIntersection i := by
  have h := (mem_intersectionsAhead.mp hi).2
  simp only [Car.isAhead, Bool.and_eq_true, decide_eq_true_eq] at h
  exact h.2

end Grid

/-! ### A crossing -/

/-- An auto at full speed, with a crossing `1` ahead of it. -/
noncomputable def fastAuto : Auto XReal := ⟨⟨0, .fin 1, .fin 0, Car.maxVel⟩, 0⟩

noncomputable def crossing : Intersection XReal := ⟨0, 0, 3, .fin 1, .fin 1, .fin 1, .fin 1⟩

/-- The auto would be at the crossing from `2` to `6`. -/
theorem fastAuto_collision {b : Window XReal} (h₁ : ¬ fin 6 < b.first) (h₂ : ¬ b.second < fin 2) :
    fastAuto.collision (some b) crossing (fin 0) (fin 0) Car.maxVel Car.maxAcc = true := by
  have hin := Car.calculateTime_cap (show (0 : ℝ) ≤ 1 by norm_num)
  have hout := Car.calculateTime_cap (show (0 : ℝ) ≤ 3 by norm_num)
  rw [← Bool.not_eq_false]
  intro h
  have h := Auto.intervalsOverlap_eq_false.mp h
  simp only [fastAuto, crossing, Car.posOfIntersection, if_true, sub_fin, add_fin, Car.maxAcc_eq,
    Car.maxVel_eq] at h
  norm_num [hin, hout] at h
  exact h.elim h₁ h₂

end DrivingSim
