import DrivingSim.Simulation.Replanning

/-!
# Simulation — the range of the accelerations

`calculate_acc` compares with both ends of the range and returns what is in neither excess.  A
number ends up in the range (`inRange_calculateAcc`), infinities included.  What is not a number
passes both comparisons and is returned; it arises where the window to wait for has no finite
end (`calculateAccRaw_of_not_isReal`).

So the acceleration returned for an auto is in the range exactly when its nearest intersection
holds no window, or one it does not collide with, or one with a finite end
(`findAccelerations_inRange`).  The human's window has no end, and an auto that should wait for
the human gets what is not a number (`humanCrossing_nan`).
-/

namespace DrivingSim
open XReal

/-- A number between `MIN_ACC` and `MAX_ACC`. -/
def InRange (acc : XReal) : Prop := Car.minAcc ≤ acc ∧ acc ≤ Car.maxAcc

theorem not_inRange_nan : ¬ InRange nan := fun h => not_le_nan _ h.1

theorem inRange_maxAcc : InRange Car.maxAcc := by
  simp only [InRange, Car.minAcc_eq, Car.maxAcc_eq, fin_le_fin]
  norm_num

namespace Car

/-- Without a finite time there is no acceleration. -/
theorem calculateAccRaw_of_not_isReal (x v : ℝ) {t : XReal} (ht : ¬ t.IsReal) :
    calculateAccRaw (fin x) (fin v) t = nan := by
  rw [calculateAccRaw, ofScientific_eq]
  exact div_eq_nan (not_isReal_mul _ (not_isReal_sub x (not_isReal_mul v ht))) (not_isReal_pow2 ht)

theorem inRange_calculateAcc {x : ℝ} (hx : 0 < x) (v t : ℝ) :
    InRange (calculateAcc (fin x) (fin v) (fin t)) := by
  by_cases ht : t = 0
  · -- the quotient is an infinity, and is clamped
    subst ht
    have h : calculateAccRaw (fin x) (fin v) (fin 0) = pinf := by
      simp only [calculateAccRaw, ofScientific_eq, mul_fin, sub_fin, pow2_fin, mul_zero, sub_zero]
      norm_num [signed_pos, hx]
    have : calculateAcc (fin x) (fin v) (fin 0) = maxAcc := by
      simp [calculateAcc, h]
    rw [this]
    exact inRange_maxAcc
  · rw [calculateAcc_fin x v ht]
    simp only [InRange, minAcc_eq, maxAcc_eq, fin_le_fin]
    exact ⟨le_max_left _ _, max_le (by norm_num) (min_le_left _ _)⟩

theorem inRange_calculateAcc_iff {x : ℝ} (hx : 0 < x) (v : ℝ) (t : XReal) :
    InRange (calculateAcc (fin x) (fin v) t) ↔ t.IsReal := by
  constructor
  · intro h
    by_contra ht
    rw [calculateAcc_of_raw_nan (calculateAccRaw_of_not_isReal x v ht)] at h
    exact not_inRange_nan h
  · rintro ⟨t, rfl⟩
    exact inRange_calculateAcc hx v t

end Car

theorem isReal_sub_zero {x : XReal} : (x - 0).IsReal ↔ x.IsReal := by
  rw [zero_eq]
  cases x with
  | fin x => simp
  | nan => exact Iff.rfl
  | pinf => exact ⟨fun h => absurd h not_isReal_pinf, fun h => absurd h not_isReal_pinf⟩
  | ninf => exact ⟨fun h => absurd h not_isReal_ninf, fun h => absurd h not_isReal_ninf⟩

/-- `optimal_acc` at the start of the plan. -/
theorem inRange_optimalAcc_iff {a : Auto XReal} {i : Intersection XReal} {p v x : ℝ}
    (hx : a.posOfIntersection i = fin x) (hpx : p < x) (window : Option (Window XReal)) :
    InRange (a.optimalAcc window i 0 (fin p) (fin v)) ↔
      ∀ b, window = some b → a.collision (some b) i 0 (fin p) (fin v) Car.maxAcc = true →
        b.second.IsReal := by
  cases window with
  | none => exact ⟨fun _ b h => (nomatch h), fun _ => inRange_maxAcc⟩
  | some b =>
      cases hc : a.collision (some b) i 0 (fin p) (fin v) Car.maxAcc with
      | false =>
          rw [Auto.optimalAcc_of_not_collision hc]
          refine ⟨fun _ b' e hc' => ?_, fun _ => inRange_maxAcc⟩
          obtain rfl := Option.some.inj e
          exact absurd (hc.symm.trans hc') Bool.false_ne_true
      | true =>
          rw [Auto.optimalAcc_of_collision hc, hx, sub_fin,
            Car.inRange_calculateAcc_iff (sub_pos.mpr hpx), isReal_sub_zero]
          constructor
          · rintro h b' e -
            obtain rfl := Option.some.inj e
            exact h
          · exact fun h => h b rfl hc

namespace Grid

variable {S : StdSort (Intersection XReal)} {g : Grid XReal} {σ : Windows XReal}
  {before after : List (Auto XReal)} {a : Auto XReal}

/-- **The range of the accelerations.**  The acceleration of an auto with an intersection ahead is
a number between `MIN_ACC` and `MAX_ACC` exactly when, as the auto comes to plan, its nearest
intersection holds no window that it collides with and that has no end in the reals. -/
theorem findAccelerations_inRange {i : Intersection XReal} {rest : List (Intersection XReal)}
    (hg : g.IsReal) (hs : g.autos = before ++ a :: after)
    (hl : g.intersectionsAhead S a.toCar = i :: rest) :
    ∃ acc, (g.findAccelerations S σ).1[before.length]? = some acc ∧
      (InRange acc ↔ ∀ b, g.windowsAfter S σ before i.addr = some b →
        a.collision (some b) i 0 a.position a.velocity Car.maxAcc = true → b.second.IsReal) := by
  have hi : i ∈ g.intersectionsAhead S a.toCar := hl ▸ List.mem_cons_self
  have ha := hg.autos a (hs ▸ List.mem_append_right before List.mem_cons_self)
  obtain ⟨p, hp⟩ := ha.position
  obtain ⟨v, hv⟩ := ha.velocity
  obtain ⟨x, hx⟩ := Car.isReal_posOfIntersection (c := a.toCar) (hg.mem_ahead hi)
  have hpx : p < x := by
    have h := lt_of_mem_ahead hi
    rwa [hp, hx, fin_lt_fin] at h
  refine ⟨_, findAccelerations_acc hs, ?_⟩
  rw [setMinWindows_acc hl, hp, hv]
  exact inRange_optimalAcc_iff hx hpx _

/-- With a window in the reals to wait for, the acceleration is in the range. -/
theorem crossingAgain_inRange : ∃ acc,
    (crossingAgain.findAccelerations StdSort.stable fun _ => some ⟨fin 2, fin 6⟩).1[0]? = some acc ∧
      InRange acc := by
  have hg : crossingAgain.IsReal := by
    refine ⟨?_, ?_, ⟨isReal_fin _, isReal_fin _, isReal_fin _⟩⟩
    · intro i hi
      obtain rfl := List.mem_singleton.mp hi
      exact ⟨isReal_fin _, isReal_fin _, isReal_fin _, isReal_fin _⟩
    · intro a ha
      obtain rfl := List.mem_singleton.mp ha
      exact ⟨isReal_fin _, isReal_fin _, ⟨_, Car.maxVel_eq⟩⟩
  obtain ⟨hl, hh⟩ := crossingAgain_ahead StdSort.stable
  have hs : crossingAgain.autos = [] ++ fastAuto :: [] := rfl
  obtain ⟨acc, h₁, h₂⟩ :=
    findAccelerations_inRange (σ := fun _ => some ⟨fin 2, fin 6⟩) hg hs hl
  refine ⟨acc, h₁, h₂.mpr fun b hb _ => ?_⟩
  rw [windowsAfter_nil, reserveHuman, hh, List.foldl_nil] at hb
  obtain rfl := Option.some.inj hb
  exact isReal_fin 6

/-! ### Waiting for the human -/

/-- The human comes to the crossing too, along track `3`. -/
noncomputable def humanCrossing : Grid XReal :=
  ⟨[crossing], [fastAuto], ⟨⟨3, fin 1, fin 0, Car.maxVel⟩⟩, 10, 10⟩

theorem humanCrossing_ahead (S : StdSort (Intersection XReal)) :
    humanCrossing.intersectionsAhead S fastAuto.toCar = [crossing] ∧
      humanCrossing.intersectionsAhead S humanCrossing.human.toCar = [crossing] :=
  ⟨intersectionsAhead_singleton (by
      simp [humanCrossing, crossing, fastAuto, Car.isAhead, Car.posOfIntersection]),
    intersectionsAhead_singleton (by
      simp [humanCrossing, crossing, Car.isAhead, Car.posOfIntersection])⟩

/-- The window of the human. -/
theorem humanCrossing_window (S : StdSort (Intersection XReal)) :
    humanCrossing.windowsAfter S Windows.empty [] 0 = some ⟨fin 2, pinf⟩ := by
  have h : humanCrossing.humanWindow crossing = ⟨fin 2, pinf⟩ := by
    have h₁ := Car.calculateTime_cap (show (0 : ℝ) ≤ 1 by norm_num)
    simp only [humanWindow, humanCrossing, crossing, Car.posOfIntersection, Car.maxAcc_eq,
      Car.maxVel_eq, infinity_eq]
    norm_num [h₁]
  rw [windowsAfter_nil, reserveHuman, (humanCrossing_ahead S).2, List.foldl_cons, List.foldl_nil,
    h, Intersection.setWindow]
  exact Function.update_self _ _ _

/-- **The auto that should wait for the human gets what is not a number.** -/
theorem humanCrossing_nan :
    humanCrossing.intersectionsAhead StdSort.stable fastAuto.toCar = [crossing] ∧
      (humanCrossing.findAccelerations StdSort.stable Windows.empty).1 = [nan] ∧
      ¬ InRange nan := by
  obtain ⟨hl, -⟩ := humanCrossing_ahead StdSort.stable
  refine ⟨hl, ?_, not_inRange_nan⟩
  have hc : fastAuto.collision (some ⟨fin 2, pinf⟩) crossing (fin 0) (fin 0) Car.maxVel
      Car.maxAcc = true :=
    fastAuto_collision (by rw [fin_lt_fin]; norm_num) (not_pinf_lt _)
  have hacc : (humanCrossing.setMinWindows StdSort.stable fastAuto
      (humanCrossing.windowsAfter StdSort.stable Windows.empty [])).1 = nan := by
    rw [setMinWindows_acc hl, zero_eq]
    show fastAuto.optimalAcc (humanCrossing.windowsAfter _ _ [] 0) crossing (fin 0) (fin 0)
      Car.maxVel = nan
    rw [humanCrossing_window, Auto.optimalAcc_of_collision hc, Car.maxVel_eq]
    exact Car.calculateAcc_of_raw_nan
      (Car.calculateAccRaw_of_not_isReal (1 - 0) (1 / 2) not_isReal_pinf)
  exact congrArg (fun acc => [acc]) hacc

end Grid

end DrivingSim
