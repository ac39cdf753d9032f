import DrivingSim.Support.StoppedMotion
import DrivingSim.Simulation.Occupancy

/-!
# Simulation — cars that stop in an intersection

A car on the across track moves under an acceleration, with its velocity capped at `MAX_VEL` and
held at zero once it has come down to it, and is in the intersection while it has gone at least the
distance to it and at most its width and the length of the car more.  The collision test compares
the times at which it enters and leaves with the window.

Of a car that passes the intersection, these are the times at which it is there.
One that stops in the intersection stays there, but `calculate_time` takes the root of a negative
number and goes on as at `MAX_VEL`; or it stops at the very end of the intersection, and the
time is that at which it stops.  A window that begins later is not seen (`collision_sees_iff`).
-/

namespace DrivingSim
open XReal

namespace Auto

variable {a : Auto XReal} {i : Intersection XReal} {b₂ : XReal} {b₁ t p v c q l x : ℝ}

/-- A car whose velocity is capped at `M` is in the intersection at some instant of the window. -/
def Occupies (M D L v c t : ℝ) (b : Window XReal) : Prop :=
  ∃ s, 0 ≤ s ∧ b.first ≤ fin (t + s) ∧ fin (t + s) ≤ b.second ∧
    D ≤ Capped.held M v c s ∧ Capped.held M v c s ≤ D + L

/-- The car reaches the intersection and stops in it. -/
structure StopsInside (D L v c : ℝ) : Prop where
  slows : c < 0
  reaches : 0 ≤ v ^ 2 + 2 * c * D
  stops : v ^ 2 + 2 * c * (D + L) ≤ 0

/-- The test, for a car that moves. -/
theorem collision_eq_false (b₁ : ℝ) (b₂ : XReal) (t p : ℝ) (htrack : i.acrossId = a.trackId)
    (hq : i.acrossPos = fin q) (hl : a.length = fin l) (hx : i.acrossWd = fin x)
    (hmoves : c ≠ 0 ∨ v ≠ 0 ∧ |v| ≤ 1 / 2) :
    a.collision (some ⟨fin b₁, b₂⟩) i (fin t) (fin p) (fin v) (fin c) = false ↔
      Capped.reckoned (1 / 2) v c (q - p + (l + x)) + t < b₁ ∨
        b₂ < fin (Capped.reckoned (1 / 2) v c (q - p) + t) := by
  have hpos : a.posOfIntersection i = fin q := by rw [Car.posOfIntersection, if_pos htrack, hq]
  have htime := Car.calculateTime_reckoned hmoves
  rw [collision, intervalsOverlap_eq_false]
  simp only [hpos, hl, hx, sub_fin, add_fin, htime, fin_lt_fin, add_assoc]

/-- A car that stands at the intersection collides with everything: its times are not numbers. -/
theorem collision_of_standing (htrack : i.acrossId = a.trackId) (hq : i.acrossPos = fin q)
    (hl : a.length = fin l) (hx : i.acrossWd = fin x) (hD : q - p = 0) (hL : 0 ≤ l + x) :
    a.collision (some ⟨fin b₁, b₂⟩) i (fin t) (fin p) (fin 0) (fin 0) = true := by
  have hpos : a.posOfIntersection i = fin q := by rw [Car.posOfIntersection, if_pos htrack, hq]
  have htime : ∀ y : ℝ, Car.calculateTime (fin y) (fin 0) (fin 0) = signed y := by
    intro y
    have hroot : (0 : ℝ) ^ 2 + 2 * 0 * y = 0 := by ring
    simp only [Car.calculateTime, ofNat_eq, pow2_fin, mul_fin, add_fin, hroot, sqrt_fin le_rfl,
      Real.sqrt_zero, Car.maxVel_eq, fin_le_fin]
    rw [if_pos (by norm_num), Car.calculateTimeRaw_zero, XReal.div_zero]
  rw [← Bool.not_eq_false, collision, intervalsOverlap_eq_false]
  simp only [hpos, hl, hx, sub_fin, add_fin, htime, hD, zero_add, signed_zero]
  rintro (hexit | henter)
  · rcases eq_or_lt_of_le hL with hL | hL
    · rw [← hL, signed_zero] at hexit
      exact not_nan_lt _ hexit
    · rw [signed_pos hL] at hexit
      exact not_pinf_lt _ hexit
  · exact not_lt_nan _ henter

/-- A car that is in the intersection has entered by the end of the window. -/
theorem entered_of_held {D s : ℝ} (hv : 0 ≤ v) (hvM : v ≤ 1 / 2) (hmoves : c ≠ 0 ∨ v ≠ 0)
    (hD : 0 ≤ D) (hs : 0 ≤ s) (hend : fin (t + s) ≤ b₂) (hx : D ≤ Capped.held (1 / 2) v c s) :
    0 ≤ v ^ 2 + 2 * c * D ∧ fin (Capped.reckoned (1 / 2) v c D + t) ≤ b₂ := by
  obtain ⟨hE, htime⟩ := Capped.time_le_of_le_held (by norm_num) hv hvM hmoves hD hs hx
  rw [Capped.reckoned, if_pos hE]
  exact ⟨hE, fin_le_of_le (by linarith) hend⟩

/-- A car that stops in the intersection occupies it from when it has entered. -/
theorem StopsInside.occupies {D L : ℝ} (h : StopsInside D L v c) (hv : 0 ≤ v) (hvM : v ≤ 1 / 2)
    (hD : 0 ≤ D) (hb : fin b₁ ≤ b₂) (henter : fin (Capped.reckoned (1 / 2) v c D + t) ≤ b₂) :
    Occupies (1 / 2) D L v c t ⟨fin b₁, b₂⟩ := by
  obtain ⟨hc, hE, hE'⟩ := h
  have htime : Capped.reckoned (1 / 2) v c D = Capped.time (1 / 2) v c D := if_pos hE
  rw [htime] at henter
  have h₀ := Capped.zero_le_time (by norm_num) hv hvM (.inl hc.ne) hD hE
  -- the later of the beginning of the window and the entry
  have hs : 0 ≤ max (b₁ - t) (Capped.time (1 / 2) v c D) := h₀.trans (le_max_right _ _)
  refine ⟨max (b₁ - t) (Capped.time (1 / 2) v c D), hs, ?_, ?_, ?_, ?_⟩
  · have := le_max_left (b₁ - t) (Capped.time (1 / 2) v c D)
    exact fin_le_fin.2 (by linarith)
  · rcases max_choice (b₁ - t) (Capped.time (1 / 2) v c D) with hmax | hmax
    · rw [hmax, add_sub_cancel]
      exact hb
    · rw [hmax, add_comm]
      exact henter
  · exact Capped.le_held_of_time_le hv hvM hc hD hE hs (le_max_right _ _)
  · exact Capped.held_le hv hvM hc hs hE'

/-- **What the test misses.**  A car on the across track, at the intersection or before it: where it
is in the intersection at some instant of the window, the collision test says so, unless it stops
in the intersection and the window, which is not empty and does not end before the car has
entered, begins after the car is reckoned to have left. -/
theorem collision_sees_iff (htrack : i.acrossId = a.trackId) (hq : i.acrossPos = fin q)
    (hl : a.length = fin l) (hx : i.acrossWd = fin x) (hp : p ≤ q) (hv : 0 ≤ v) (hvM : v ≤ 1 / 2) :
    (Occupies (1 / 2) (q - p) (l + x) v c t ⟨fin b₁, b₂⟩ →
      a.collision (some ⟨fin b₁, b₂⟩) i (fin t) (fin p) (fin v) (fin c) = true) ↔
    ¬ (StopsInside (q - p) (l + x) v c ∧ fin b₁ ≤ b₂ ∧
      fin (Capped.reckoned (1 / 2) v c (q - p) + t) ≤ b₂ ∧
      Capped.reckoned (1 / 2) v c (q - p + (l + x)) + t < b₁) := by
  have hD : 0 ≤ q - p := sub_nonneg.2 hp
  by_cases hmoves : c ≠ 0 ∨ v ≠ 0
  · have hmoves' : c ≠ 0 ∨ v ≠ 0 ∧ |v| ≤ 1 / 2 :=
      hmoves.imp_right fun hv0 => ⟨hv0, (abs_of_nonneg hv).le.trans hvM⟩
    have hfalse := collision_eq_false b₁ b₂ t p htrack hq hl hx hmoves'
    constructor
    · rintro hsees ⟨hstops, hb, henter, hleft⟩
      have htrue := hsees (hstops.occupies hv hvM hD hb henter)
      exact Bool.false_ne_true ((hfalse.2 (.inl hleft)).symm.trans htrue)
    · rintro hno ⟨s, hs, hbegin, hend, hin, hout⟩
      obtain ⟨hE, henter⟩ := entered_of_held hv hvM hmoves hD hs hend hin
      rw [← Bool.not_eq_false, hfalse]
      rintro (hleft | hend')
      · by_cases hstops : v ^ 2 + 2 * c * (q - p + (l + x)) ≤ 0 ∧ c < 0
        · exact hno ⟨⟨hstops.2, hE, hstops.1⟩, fin_le_of_le (fin_le_fin.1 hbegin) hend, henter,
            hleft⟩
        · -- the car passes the intersection, and has not left yet
          have hpasses : c < 0 → 0 < v ^ 2 + 2 * c * (q - p + (l + x)) :=
            fun hc => not_le.1 fun hle => hstops ⟨hle, hc⟩
          have hbefore := (Capped.passes_between (by norm_num) hv hvM hmoves hD hs hpasses hin
            hout).2
          have := fin_le_fin.1 hbegin
          linarith
      · exact not_lt_of_fin_le henter hend'
  · obtain ⟨hc, hv0⟩ := not_or.1 hmoves
    obtain rfl := not_not.1 hc
    obtain rfl := not_not.1 hv0
    refine iff_of_true (fun hocc => ?_) fun h => absurd h.1.slows (lt_irrefl 0)
    obtain ⟨s, hs, -, -, hin, hout⟩ := hocc
    have hstill : Capped.held (1 / 2) 0 0 s = 0 := by
      rw [Capped.held_of_forward (by norm_num), Capped.pos_of_le (by norm_num)]
      ring
    rw [hstill] at hin hout
    exact collision_of_standing htrack hq hl hx (le_antisymm hin hD) (by linarith)

/-! ### A car that stops in a crossing -/

/-- A car that speeds up is seen. -/
theorem speedingUp_seen :
    fastAuto.collision (some ⟨fin 1, fin 2⟩) crossing (fin 0) (fin 0) (fin (1 / 2)) (fin 3) =
      true := by
  have hocc : Occupies (1 / 2) (1 - 0) (1 + 1) (1 / 2) 3 0 ⟨fin 1, fin 2⟩ := by
    have hheld : Capped.held (1 / 2) (1 / 2) 3 2 = 1 := by
      rw [Capped.held_of_forward (by norm_num), Capped.pos, if_pos (by norm_num)]
      norm_num
    refine ⟨2, by norm_num, fin_le_fin.2 (by norm_num), fin_le_fin.2 (by norm_num), ?_, ?_⟩
    · rw [hheld]
      norm_num
    · rw [hheld]
      norm_num
  refine (collision_sees_iff (a := fastAuto) (i := crossing) rfl rfl rfl rfl zero_le_one
    (by norm_num) le_rfl).2 (fun h => ?_) hocc
  exact absurd h.1.slows (by norm_num)

/-- **A car that is not seen.**  It enters at 3 and stops in the crossing at 4.5; the window begins
at 7. -/
theorem brakingAuto_missed : ¬ (Occupies (1 / 2) (1 - 0) (1 + 1) (1 / 2) (-1 / 9) 0 ⟨fin 7, fin 8⟩ →
    fastAuto.collision (some ⟨fin 7, fin 8⟩) crossing (fin 0) (fin 0) (fin (1 / 2))
      (fin (-1 / 9)) = true) := by
  intro hsees
  have hocc : Occupies (1 / 2) (1 - 0) (1 + 1) (1 / 2) (-1 / 9) 0 ⟨fin 7, fin 8⟩ := by
    have hheld : Capped.held (1 / 2) (1 / 2) (-1 / 9) 7 = 9 / 8 := by
      rw [Capped.held_of_stopped (by norm_num) (by norm_num) (by norm_num)]
      norm_num
    refine ⟨7, by norm_num, fin_le_fin.2 (by norm_num), fin_le_fin.2 (by norm_num), ?_, ?_⟩
    · rw [hheld]
      norm_num
    · rw [hheld]
      norm_num
  have hmissed := (collision_eq_false (a := fastAuto) (i := crossing) (v := 1 / 2) (c := -1 / 9)
    7 (fin 8) 0 0 rfl rfl rfl rfl (.inl (by norm_num))).2
  refine Bool.false_ne_true ((hmissed (.inl ?_)).symm.trans (hsees hocc))
  rw [Capped.reckoned, if_neg (by norm_num), Capped.cruise]
  norm_num

end Auto

end DrivingSim
