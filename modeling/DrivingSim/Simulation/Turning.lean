import DrivingSim.Simulation.Kinematics
import DrivingSim.Simulation.Precedence

/-!
# Simulation — the turn at the end of the track

An auto with no intersection ahead gets from `set_min_windows` the acceleration of `final_acc`,
which is to bring it to the end of its track at `TURN_VEL`.

The square of the velocity changes by `2 * a * d` over a distance `d`, and `final_acc` takes the
change for that from `TURN_VEL` to the velocity of the auto, where it is the other way round.  So
an auto that is too fast gets faster, and one that is too slow slows down: the turn is taken at
`TURN_VEL` only by an auto that has that velocity already (`setMinWindows_turns_iff`).
-/

namespace DrivingSim

/-- At this acceleration, a car comes to the end of the distance at `TURN_VEL`. -/
def Car.Turns {D : Type} [Double D] (d vel acc : D) : Prop :=
  Double.pow2 vel + 2 * acc * d = Double.pow2 turnVel ∧
    (¬ (acc = 0 ∧ vel = 0) → calculateVel vel acc (calculateTime d vel acc) = turnVel)

open XReal

theorem Car.turnVel_eq : (turnVel : XReal) = fin (3 / 10) := by
  rw [turnVel, ofScientific_eq]
  norm_num

namespace Auto

variable {a : Auto XReal} {p v span : ℝ}

/-- The acceleration before the end of the track. -/
theorem finalAcc_fin (hpos : a.position = fin p) (hvel : a.velocity = fin v) (hp : p < span) :
    a.finalAcc (fin span) = fin ((v ^ 2 - (3 / 10) ^ 2) / (2 * (span - p))) := by
  have hd : 2 * (span - p) ≠ 0 := by
    have := sub_pos.2 hp
    positivity
  rw [finalAcc, hpos, hvel, if_neg (fin_lt_fin.not.2 hp.not_gt), Car.turnVel_eq, pow2_fin, pow2_fin,
    sub_fin, sub_fin, ofNat_eq, mul_fin, div_fin hd]

/-- **Only at `TURN_VEL` already.** -/
theorem finalAcc_turns_iff (hpos : a.position = fin p) (hvel : a.velocity = fin v) (hp : p < span)
    (hv : 0 ≤ v) :
    Car.Turns (fin (span - p)) (fin v) (a.finalAcc (fin span)) ↔ v = 3 / 10 := by
  have hd : 0 < span - p := sub_pos.2 hp
  have hsq : v ^ 2 + 2 * ((v ^ 2 - (3 / 10) ^ 2) / (2 * (span - p))) * (span - p) =
      2 * v ^ 2 - (3 / 10) ^ 2 := by
    field_simp
    ring
  rw [Car.Turns, finalAcc_fin hpos hvel hp, Car.turnVel_eq]
  simp only [pow2_fin, ofNat_eq, mul_fin, add_fin, XReal.fin.injEq, hsq]
  constructor
  · rintro ⟨hturn, -⟩
    have hsame : v ^ 2 = (3 / 10) ^ 2 := by linarith
    exact (pow_left_inj₀ hv (by norm_num) two_ne_zero).1 hsame
  · rintro rfl
    refine ⟨by ring, fun _ => ?_⟩
    have hacc : ((3 / 10) ^ 2 - (3 / 10) ^ 2) / (2 * (span - p)) = 0 := by
      rw [sub_self, zero_div]
    rw [hacc, Car.calculateTime_reckoned (.inr ⟨by norm_num, by norm_num [abs_of_pos]⟩),
      Car.calculateVel_fin, Capped.vel]
    norm_num

end Auto

namespace Grid

variable {S : StdSort (Intersection XReal)} {g : Grid XReal} {σ : Windows XReal} {a : Auto XReal}
  {p v span : ℝ}

theorem setMinWindows_of_nil (hahead : g.intersectionsAhead S a.toCar = []) :
    (g.setMinWindows S a σ).1 = a.finalAcc (if a.horiz then g.width else g.length) := by
  rw [setMinWindows, setMinWindowsLoop, hahead]
  rfl

/-- **The turn.**  An auto with no intersection ahead, before the end of its track, gets an
acceleration that brings it there at `TURN_VEL` exactly where `TURN_VEL` is its velocity. -/
theorem setMinWindows_turns_iff (hahead : g.intersectionsAhead S a.toCar = [])
    (hpos : a.position = fin p) (hvel : a.velocity = fin v)
    (hspan : (if a.horiz then g.width else g.length) = fin span) (hp : p < span) (hv : 0 ≤ v) :
    Car.Turns (fin (span - p)) a.velocity (g.setMinWindows S a σ).1 ↔
      a.velocity = Car.turnVel := by
  rw [setMinWindows_of_nil hahead, hspan, hvel, Auto.finalAcc_turns_iff hpos hvel hp hv,
    Car.turnVel_eq, XReal.fin.injEq]

/-! ### The end of a track -/

/-- A track that ends at 1, with this auto at its start. -/
noncomputable def endOfTrack (vel : XReal) : Grid XReal where
  intersections := []
  autos := [⟨⟨0, 1, fin 0, vel⟩, 0⟩]
  human := ⟨⟨3, 1, 0, 0⟩⟩
  width := fin 1
  length := fin 1

theorem endOfTrack_ahead {vel : XReal} {c : Car XReal} :
    (endOfTrack vel).intersectionsAhead StdSort.stable c = [] :=
  intersectionsAhead_nil rfl

theorem endOfTrack_turns :
    Car.Turns (fin (1 - 0)) Car.turnVel ((endOfTrack Car.turnVel).setMinWindows StdSort.stable
      ⟨⟨0, 1, fin 0, Car.turnVel⟩, 0⟩ Windows.empty).1 :=
  (setMinWindows_turns_iff (a := ⟨⟨0, 1, fin 0, Car.turnVel⟩, 0⟩) endOfTrack_ahead rfl
    Car.turnVel_eq rfl zero_lt_one (by norm_num)).2 rfl

/-- **A turn that is taken too fast.**  The auto comes at `MAX_VEL`, and gets 0.08. -/
theorem endOfTrack_tooFast : ¬ Car.Turns (fin (1 - 0)) Car.maxVel
    ((endOfTrack Car.maxVel).setMinWindows StdSort.stable
      ⟨⟨0, 1, fin 0, Car.maxVel⟩, 0⟩ Windows.empty).1 := by
  intro hturns
  rw [setMinWindows_of_nil endOfTrack_ahead, Car.maxVel_eq] at hturns
  have hvel := (Auto.finalAcc_turns_iff (a := ⟨⟨0, 1, fin 0, fin (1 / 2)⟩, 0⟩) rfl rfl zero_lt_one
    (by norm_num)).1 hturns
  norm_num at hvel

end Grid

end DrivingSim
