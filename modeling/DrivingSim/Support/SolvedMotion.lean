import DrivingSim.Support.StoppedMotion

/-!
# Support — motion to a distance at an instant

The point of `CappedMotion.lean` at the acceleration that brings it to the distance `D` at the
instant `T`, within limits; it is to stay behind `D` until then.

* `staysBehind_of_forward`: a point that still moves forwards at `T` has not been further before.
* `StaysBehind.stop`: a point that has come to a stop by then, and has stayed behind `D`, stops
  before it.
* `solved_staysBehind_iff`: so the solved acceleration waits, if any does, unless the point comes
  to `D` at `T` on the way back.
* `pos_solved`: the point is at `D` at `T`, or short of it, unless it would have to slow down more
  than it may.
-/

namespace DrivingSim

namespace Capped

variable {M D T v a : ℝ}

/-- The point does not go beyond `D` in the time `T`. -/
def StaysBehind (M D T v a : ℝ) : Prop := ∀ s, 0 ≤ s → s ≤ T → pos M v a s ≤ D

/-- What stays behind does so at any lower acceleration. -/
theorem StaysBehind.of_le {b : ℝ} (h : StaysBehind M D T v b) (hvM : v ≤ M) (hab : a ≤ b) :
    StaysBehind M D T v a :=
  fun s hs hsT => (pos_le_pos le_rfl hvM hab hs).trans (h s hs hsT)

theorem staysBehind_of_forward (hv : 0 ≤ v) (hvM : v ≤ M) (hforward : 0 ≤ v + a * T)
    (hD : v * T + a * T ^ 2 / 2 ≤ D) : StaysBehind M D T v a :=
  fun _ hs hsT => (pos_le_of_forward hv hvM hs hsT hforward).trans hD

/-- A point that stops before `D` stays behind it. -/
theorem staysBehind_of_stop (hvM : v ≤ M) (ha : a < 0) (hstop : v ^ 2 + 2 * a * D ≤ 0) :
    StaysBehind M D T v a := by
  intro s hs _
  have hsq := sq_of_slow hvM ha.le hs
  have := sq_nonneg (v + a * s)
  nlinarith

/-- A point that stops within the time and stays behind `D` stops before it. -/
theorem StaysBehind.stop (h : StaysBehind M D T v a) (hv : 0 ≤ v) (hvM : v ≤ M) (ha : a < 0)
    (hback : v + a * T ≤ 0) : v ^ 2 + 2 * a * D ≤ 0 := by
  have h₀ : 0 ≤ -v / a := div_nonneg_of_nonpos (by linarith) ha.le
  have h₁ : -v / a ≤ T := by
    rw [div_le_iff_of_neg ha]
    linarith
  have hsq := sq_of_slow hvM ha.le h₀
  rw [vel_at_stop ha] at hsq
  have := h _ h₀ h₁
  nlinarith

/-! ### Solving for the acceleration -/

section Solved

variable {r lo hi : ℝ}

/-- The velocity at `T`. -/
theorem vel_of_solved (hr : r * T ^ 2 = 2 * (D - v * T)) : (v + r * T) * T = 2 * D - v * T := by
  linear_combination hr

/-- The square of the velocity at `D`. -/
theorem sq_of_solved (hr : r * T ^ 2 = 2 * (D - v * T)) :
    (v ^ 2 + 2 * r * D) * T ^ 2 = (v * T - 2 * D) ^ 2 := by
  linear_combination 2 * D * hr

/-- Where it is at `T` without the cap. -/
theorem uncapped_of_solved (hr : r * T ^ 2 = 2 * (D - v * T)) : v * T + r * T ^ 2 / 2 = D := by
  linear_combination hr / 2

/-- A point that covers too much at its velocity has to slow down. -/
theorem neg_of_solved (hr : r * T ^ 2 = 2 * (D - v * T)) (hD : 0 < D) (hfast : 2 * D < v * T) :
    r < 0 := by
  by_contra hpos
  have := mul_nonneg (not_lt.1 hpos) (sq_nonneg T)
  linarith

/-- A point that comes to `D` on the way back has been beyond it. -/
theorem not_staysBehind_of_solved (hr : r * T ^ 2 = 2 * (D - v * T)) (hv : 0 ≤ v) (hvM : v ≤ M)
    (hT : 0 < T) (hD : 0 < D) (hfast : 2 * D < v * T) : ¬ StaysBehind M D T v r := by
  intro hstays
  have hback : v + r * T ≤ 0 := by
    by_contra hforward
    have hpos := mul_pos (not_le.1 hforward) hT
    rw [vel_of_solved hr] at hpos
    linarith
  have hstop := hstays.stop hv hvM (neg_of_solved hr hD hfast) hback
  have hsq := mul_nonpos_of_nonpos_of_nonneg hstop (sq_nonneg T)
  rw [sq_of_solved hr] at hsq
  have : 0 < (v * T - 2 * D) ^ 2 := pow_pos (by linarith) 2
  linarith

/-- Stopping before `D` is slowing down at least as much. -/
theorem le_of_solved (hr : r * T ^ 2 = 2 * (D - v * T)) (hT : 0 < T) (hlo : lo < 0)
    (hstop : v ^ 2 + 2 * lo * D ≤ 0) : lo ≤ r := by
  by_contra hlt
  have hlower : r * T ^ 2 < lo * T ^ 2 := mul_lt_mul_of_pos_right (not_le.1 hlt) (by positivity)
  have hsq : lo * (lo * T ^ 2) < lo * (r * T ^ 2) := mul_lt_mul_of_neg_left hlower hlo
  rw [hr] at hsq
  have := sq_nonneg (v + lo * T)
  linarith

/-- Where the point could stay behind, it moves forwards at `T`, unless it covers too much but
cannot stop. -/
theorem forward_of_solved (hr : r * T ^ 2 = 2 * (D - v * T)) (hv : 0 ≤ v) (hvM : v ≤ M)
    (hT : 0 < T) (hlo : lo < 0) (hle : lo ≤ r) (hlow : StaysBehind M D T v lo)
    (hcond : v * T ≤ 2 * D ∨ 0 < v ^ 2 + 2 * lo * D) : 0 ≤ v + r * T := by
  by_contra hback
  have hlower := mul_le_mul_of_nonneg_right hle hT.le
  have hstop := hlow.stop hv hvM hlo (by linarith)
  rcases hcond with hslow | hstops
  · have hneg := mul_neg_of_neg_of_pos (not_le.1 hback) hT
    rw [vel_of_solved hr] at hneg
    linarith
  · linarith

/-- **When the solved acceleration waits.**  Where the point stays behind at some acceleration
within the limits, it does so at the solved one, if and only if it covers at most twice the
distance at its velocity, or it does not stop before the distance at the lowest acceleration. -/
theorem solved_staysBehind_iff (hlo : lo < 0) (hhi : 0 ≤ hi) (hv : 0 ≤ v) (hvM : v ≤ M)
    (hT : 0 < T) (hD : 0 < D) :
    ((∃ a, lo ≤ a ∧ a ≤ hi ∧ StaysBehind M D T v a) →
      StaysBehind M D T v (solved lo hi D T v)) ↔
    v * T ≤ 2 * D ∨ 0 < v ^ 2 + 2 * lo * D := by
  have hr : 2 * (D - v * T) / T ^ 2 * T ^ 2 = 2 * (D - v * T) :=
    div_mul_cancel₀ _ (pow_pos hT 2).ne'
  rw [solved]
  generalize 2 * (D - v * T) / T ^ 2 = r at hr ⊢
  constructor
  · intro hwaits
    by_contra hno
    obtain ⟨hfast, hstops⟩ := not_or.1 hno
    have hlow : StaysBehind M D T v lo := staysBehind_of_stop hvM hlo (not_lt.1 hstops)
    have hstays := hwaits ⟨lo, le_rfl, hlo.le.trans hhi, hlow⟩
    have hr₀ : r < 0 := neg_of_solved hr hD (not_le.1 hfast)
    have hr₁ : lo ≤ r := le_of_solved hr hT hlo (not_lt.1 hstops)
    rw [min_eq_right (hr₀.le.trans hhi), max_eq_right hr₁] at hstays
    exact not_staysBehind_of_solved hr hv hvM hT hD (not_le.1 hfast) hstays
  · rintro hcond ⟨a, hla, -, hstays⟩
    have hlow := hstays.of_le hvM hla
    rcases lt_or_ge r lo with hlt | hle
    · rw [max_eq_left ((min_le_right _ _).trans hlt.le)]
      exact hlow
    · have hforward := forward_of_solved hr hv hvM hT hlo hle hlow hcond
      rw [max_eq_right (le_min (hlo.le.trans hhi) hle)]
      refine staysBehind_of_forward hv hvM ?_ ?_
      · rcases min_choice hi r with hmin | hmin
        · rw [hmin]
          positivity
        · rw [hmin]
          exact hforward
      · have := mul_le_mul_of_nonneg_right (min_le_right hi r) (sq_nonneg T)
        linarith

/-- **Where the solved acceleration brings the point.**  It is not beyond `D` at `T`, unless it
would have to slow down more than it may; and it is at `D`, where it need not speed up more than it
may, nor beyond the cap. -/
theorem pos_solved (hlo : lo ≤ 0) (hhi : lo ≤ hi) (hvM : v ≤ M) (hT : 0 < T)
    (hr : r * T ^ 2 = 2 * (D - v * T)) :
    (lo ≤ r → pos M v (max lo (min hi r)) T ≤ D ∧
      (pos M v (max lo (min hi r)) T = D ↔ r ≤ hi ∧ v + r * T ≤ M)) ∧
    (r < lo → D < pos M v (max lo (min hi r)) T) := by
  have hT₂ : 0 < T ^ 2 := by positivity
  have huncapped := uncapped_of_solved hr
  refine ⟨fun hle => ?_, fun hlt => ?_⟩
  · rw [max_eq_right (le_min hhi hle)]
    rcases le_or_gt r hi with hslow | hfast
    · rw [min_eq_right hslow]
      rcases le_or_gt (v + r * T) M with hcap | hcap
      · rw [pos_of_le hcap, huncapped]
        exact ⟨le_rfl, iff_of_true rfl ⟨hslow, hcap⟩⟩
      · have hshort := pos_lt_uncapped hvM hT.le hcap
        rw [huncapped] at hshort
        exact ⟨hshort.le, iff_of_false hshort.ne fun h => absurd h.2 hcap.not_ge⟩
    · -- at the highest acceleration it is not there yet
      have hless := mul_lt_mul_of_pos_right hfast hT₂
      have hshort := pos_le_uncapped (a := hi) hvM hT.le
      rw [min_eq_left hfast.le]
      have hlate : pos M v hi T < D := by linarith
      exact ⟨hlate.le, iff_of_false hlate.ne fun h => absurd h.1 hfast.not_ge⟩
  · have hmore := mul_lt_mul_of_pos_right hlt hT₂
    have hslows := mul_nonpos_of_nonpos_of_nonneg hlo hT.le
    rw [max_eq_left ((min_le_right _ _).trans hlt.le), pos_of_le (by linarith)]
    linarith

end Solved

end Capped

end DrivingSim
