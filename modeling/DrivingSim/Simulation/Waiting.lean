import DrivingSim.Support.SolvedMotion
import DrivingSim.Simulation.RealGrid

/-!
# Simulation — waiting before an intersection

An auto that would collide with a window gets from `optimal_acc` the acceleration that brings it to
the intersection when the window ends.  It is to stay behind the intersection until then, if there
is an acceleration at which it can.

While the auto still moves forwards at the end of the window, it has not been further before
(`Capped.staysBehind_of_forward`).  One that covers more than twice the distance at its present
velocity would have to go back to be there at that instant: it goes beyond the intersection first,
and comes back.  So the auto waits exactly where its velocity is not that high, or where it cannot
stop before the intersection anyhow (`optimalAcc_waits_iff`).
-/

namespace DrivingSim
open XReal

namespace Auto

variable {a : Auto XReal} {i : Intersection XReal} {b₁ : XReal} {b₂ t p v q : ℝ}

/-- At this acceleration, the car does not go beyond the distance in the time. -/
def StaysBehind (D T v : ℝ) (acc : XReal) : Prop :=
  ∀ s, 0 ≤ s → s ≤ T → Car.calculatePos (fin v) acc (fin s) ≤ fin D

theorem staysBehind_fin {D T c : ℝ} (hvM : v ≤ 1 / 2) :
    StaysBehind D T v (fin c) ↔ Capped.StaysBehind (1 / 2) D T v c := by
  refine forall_congr' fun s => forall₂_congr fun _ _ => ?_
  rw [Car.calculatePos_fin hvM, fin_le_fin]

/-- **When an auto waits.**  An auto before an intersection, with a window that it would collide
with at `MAX_ACC`: where it stays behind the intersection at some acceleration between `MIN_ACC`
and `MAX_ACC` until the window ends, it does so at the one that `optimal_acc` returns, if and only
if at its velocity it covers at most twice the distance until then, or it cannot stop before the
intersection at `MIN_ACC`. -/
theorem optimalAcc_waits_iff (hq : a.posOfIntersection i = fin q) (hp : p < q) (ht : t < b₂)
    (hv : 0 ≤ v) (hvM : v ≤ 1 / 2)
    (hcollision : a.collision (some ⟨b₁, fin b₂⟩) i (fin t) (fin p) (fin v) Car.maxAcc = true) :
    ((∃ c : ℝ, Car.minAcc ≤ fin c ∧ fin c ≤ Car.maxAcc ∧
        StaysBehind (q - p) (b₂ - t) v (fin c)) →
      StaysBehind (q - p) (b₂ - t) v
        (a.optimalAcc (some ⟨b₁, fin b₂⟩) i (fin t) (fin p) (fin v))) ↔
    v * (b₂ - t) ≤ 2 * (q - p) ∨ 6 * (q - p) < v ^ 2 := by
  have hT : 0 < b₂ - t := sub_pos.2 ht
  have hacc : a.optimalAcc (some ⟨b₁, fin b₂⟩) i (fin t) (fin p) (fin v) =
      fin (Capped.solved (-3) 3 (q - p) (b₂ - t) v) := by
    rw [optimalAcc_of_collision hcollision, hq, sub_fin, sub_fin, Car.calculateAcc_fin _ _ hT.ne',
      Capped.solved]
  have hstop : 0 < v ^ 2 + 2 * -3 * (q - p) ↔ 6 * (q - p) < v ^ 2 := by
    constructor
    · intro h
      linarith
    · intro h
      linarith
  simp only [hacc, staysBehind_fin hvM, Car.minAcc_eq, Car.maxAcc_eq, fin_le_fin]
  rw [← hstop]
  exact Capped.solved_staysBehind_iff (by norm_num) (by norm_num) hv hvM hT (sub_pos.2 hp)

/-! ### An auto that waits at a crossing -/

theorem fastAuto_pos : fastAuto.posOfIntersection crossing = fin 1 := by
  simp [fastAuto, crossing, Car.posOfIntersection]

theorem fastAuto_collides {b : ℝ} (hb : 2 ≤ b) :
    fastAuto.collision (some ⟨fin 2, fin b⟩) crossing (fin 0) (fin 0) (fin (1 / 2)) Car.maxAcc =
      true := by
  rw [← Car.maxVel_eq]
  refine fastAuto_collision ?_ ?_
  · rw [fin_lt_fin]
    norm_num
  · rw [fin_lt_fin]
    exact not_lt.2 hb

/-- Until 3, the auto need not come to a stop. -/
theorem shortWait_waits :
    StaysBehind (1 - 0) (3 - 0) (1 / 2)
      (fastAuto.optimalAcc (some ⟨fin 2, fin 3⟩) crossing (fin 0) (fin 0) (fin (1 / 2))) := by
  have hstop : Capped.StaysBehind (1 / 2) (1 - 0) (3 - 0) (1 / 2) (-3) :=
    Capped.staysBehind_of_stop le_rfl (by norm_num) (by norm_num)
  refine (optimalAcc_waits_iff fastAuto_pos zero_lt_one (by norm_num) (by norm_num) le_rfl
    (fastAuto_collides (by norm_num))).2 (.inl (by norm_num))
    ⟨-3, ?_, ?_, (staysBehind_fin le_rfl).2 hstop⟩
  · rw [Car.minAcc_eq, fin_le_fin]
  · rw [Car.maxAcc_eq, fin_le_fin]
    norm_num

/-- **An auto that does not wait.**  Until 6, it could stop; it is at 9/8 at 4.5, and comes back. -/
theorem longWait_overshoots :
    ¬ ((∃ c : ℝ, Car.minAcc ≤ fin c ∧ fin c ≤ Car.maxAcc ∧
        StaysBehind (1 - 0) (6 - 0) (1 / 2) (fin c)) →
      StaysBehind (1 - 0) (6 - 0) (1 / 2)
        (fastAuto.optimalAcc (some ⟨fin 2, fin 6⟩) crossing (fin 0) (fin 0) (fin (1 / 2)))) := by
  intro hwaits
  have hacc : fastAuto.optimalAcc (some ⟨fin 2, fin 6⟩) crossing (fin 0) (fin 0) (fin (1 / 2)) =
      fin (-1 / 9) := by
    rw [optimalAcc_of_collision (fastAuto_collides (by norm_num)), fastAuto_pos, sub_fin, sub_fin,
      Car.calculateAcc_fin _ _ (by norm_num)]
    norm_num
  have hstop : Capped.StaysBehind (1 / 2) (1 - 0) (6 - 0) (1 / 2) (-3) :=
    Capped.staysBehind_of_stop le_rfl (by norm_num) (by norm_num)
  have hstays := hwaits ⟨-3, ?_, ?_, (staysBehind_fin le_rfl).2 hstop⟩
  · rw [hacc, staysBehind_fin le_rfl] at hstays
    have hpos := hstays (9 / 2) (by norm_num) (by norm_num)
    rw [Capped.pos_of_le (by norm_num)] at hpos
    norm_num at hpos
  · rw [Car.minAcc_eq, fin_le_fin]
  · rw [Car.maxAcc_eq, fin_le_fin]
    norm_num

end Auto

end DrivingSim
