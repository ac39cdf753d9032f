import DrivingSim.Simulation.RealGrid

/-!
# Simulation — two cars at an intersection

An auto that comes to an intersection with a window `b` either goes through at `MAX_ACC`,
because `collision` says it can, or aims to enter at `b.second`.  The two plans exclude each
other (`Planner.Excludes`) as far as the calculation is the right one:

* An auto that can go through has been tested with the width of the across track.  The test is
  that of its own plan when its own track is no wider (`Planner.CanPass`).
* An auto that should wait is given the acceleration that brings it to the intersection at
  `b.second`.  That is when it enters, provided that the instant is a number, that the
  acceleration is not below `MIN_ACC`, and that the auto moves forwards then, within
  `MAX_VEL` (`WaitsFor`).  Otherwise it gets there on the way out, before it turns back at
  that acceleration; it would have to stop and wait.

In a run of `find_accelerations` in which every auto meets this, no two plans overlap
(`findAccelerations_exclusion`).  The invariant is that the state of the loop is made of real
numbers.  Two autos that do overlap are in `waitingAuto_overlaps`: the second should stop.
-/

namespace DrivingSim
open XReal

/-! ### Waiting -/

/-- A car at distance `D` with velocity `v` can be brought to it in the time `T`: at no less
than `MIN_ACC`, and either speeding up or moving forwards within `MAX_VEL` when it is there. -/
structure WaitsFor (D v T : ℝ) : Prop where
  pos : 0 < T
  minAcc : -3 * T ^ 2 ≤ 2 * (D - v * T)
  forward : v * T < D ∨ v * T ≤ 2 * D ∧ 2 * D ≤ (v + 1 / 2) * T
  moves : D ≠ 0 ∨ v ≠ 0

section Waiting

variable {D v T r : ℝ}

/-- A car that speeds up, at no more than the acceleration `r` that goes `D` in `T`. -/
theorem enters_speedingUp (hrT : v * T + r * T ^ 2 / 2 = D) (hr : 0 < r) :
    0 ≤ v ^ 2 + 2 * min 3 r * D ∧ T ≤ Capped.time (1 / 2) v (min 3 r) D := by
  have ha : 0 < min 3 r := lt_min three_pos hr
  have hle : v * T + min 3 r * T ^ 2 / 2 ≤ D := by
    have hacc : min 3 r * T ^ 2 ≤ r * T ^ 2 := by gcongr; exact min_le_right 3 r
    linarith
  exact ⟨by nlinarith [sq_nonneg (v + min 3 r * T)], Capped.le_time (by norm_num) ha hle⟩

/-- A car that slows down, and moves forwards within the cap when it is there. -/
theorem enters_slowing (hT : 0 < T) (hrT : v * T + r * T ^ 2 / 2 = D) (hforward : v * T ≤ 2 * D)
    (hcap : 2 * D ≤ (v + 1 / 2) * T) (hmoves : D ≠ 0 ∨ v ≠ 0) :
    (r ≠ 0 ∨ v ≠ 0 ∧ |v| ≤ 1 / 2) ∧ 0 ≤ v ^ 2 + 2 * r * D ∧ T ≤ Capped.time (1 / 2) v r D := by
  -- the velocity at `T`
  have hvT : (v + r * T) * T = 2 * D - v * T := by
    rw [← hrT]
    ring
  have h₀ : 0 ≤ v + r * T := by
    by_contra hc
    nlinarith
  have hM : v + r * T ≤ 1 / 2 := by
    by_contra hc
    nlinarith
  have hav : r ≠ 0 ∨ v ≠ 0 := by
    by_contra hc
    obtain ⟨rfl, rfl⟩ : r = 0 ∧ v = 0 := by simpa [not_or] using hc
    exact hmoves.elim (fun hD => hD (by linarith)) fun hv => hv rfl
  have hE : v ^ 2 + 2 * r * D = (v + r * T) ^ 2 := by
    rw [← hrT]
    ring
  refine ⟨?_, hE ▸ sq_nonneg _, (Capped.time_eq hrT h₀ hM hav).ge⟩
  by_cases hr0 : r = 0
  · subst hr0
    rw [zero_mul, add_zero] at h₀ hM
    exact .inr ⟨hav.resolve_left (· rfl), abs_le.mpr ⟨by linarith, hM⟩⟩
  · exact .inl hr0

/-- **A car that waits for `T` enters no earlier.** -/
theorem WaitsFor.acc (h : WaitsFor D v T) :
    ∃ a : ℝ, Car.calculateAcc (fin D) (fin v) (fin T) = fin a ∧
      (a ≠ 0 ∨ v ≠ 0 ∧ |v| ≤ 1 / 2) ∧ 0 ≤ v ^ 2 + 2 * a * D ∧ T ≤ Capped.time (1 / 2) v a D := by
  have hT := h.pos
  have hT₂ : 0 < T ^ 2 := by positivity
  -- `r` is the acceleration that goes `D` in `T`
  obtain ⟨r, hr⟩ : ∃ r, r = 2 * (D - v * T) / T ^ 2 := ⟨_, rfl⟩
  have hrT : v * T + r * T ^ 2 / 2 = D := by
    rw [hr]
    field_simp
    ring
  have hr₃ : -3 ≤ r := by
    rw [hr, le_div_iff₀ hT₂]
    exact h.minAcc
  refine ⟨min 3 r, ?_, ?_⟩
  · rw [Car.calculateAcc_fin D v hT.ne', ← hr, max_eq_right (le_min (by norm_num) hr₃)]
  by_cases hDv : v * T < D
  · have hrpos : 0 < r := by
      rw [hr]
      exact div_pos (by linarith) hT₂
    exact ⟨.inl (lt_min three_pos hrpos).ne', enters_speedingUp hrT hrpos⟩
  · obtain ⟨hforward, hcap⟩ := h.forward.resolve_left hDv
    have hr₀ : r ≤ 0 := by
      rw [hr]
      exact div_nonpos_of_nonpos_of_nonneg (by linarith) hT₂.le
    rw [min_eq_right (by linarith)]
    exact enters_slowing hT hrT hforward hcap h.moves

end Waiting

/-! ### States of real numbers -/

/-- The variables of the loop are real numbers. -/
structure Planner.IsReal (s : Planner XReal) : Prop where
  time : s.time.IsReal
  pos : s.pos.IsReal
  vel : s.vel.IsReal

/-- `calculate_time` is a number at the chosen acceleration. -/
inductive Planner.Moves (s : Planner XReal) (a : Auto XReal) (i : Intersection XReal) : Prop where
  | intro (acc v : ℝ) (hacc : s.acc a i = fin acc) (hv : s.vel = fin v)
      (hav : acc ≠ 0 ∨ v ≠ 0 ∧ |v| ≤ 1 / 2)

section Step

variable {a : Auto XReal} {s : Planner XReal} {i : Intersection XReal} {b : Window XReal}

theorem Planner.IsReal.disp (hs : s.IsReal) (hi : i.IsReal) : ∃ D : ℝ, s.disp a i = fin D := by
  obtain ⟨p, hp⟩ := hs.pos
  obtain ⟨x, hx⟩ := Car.isReal_posOfIntersection (c := a.toCar) hi
  exact ⟨x - p, by rw [Planner.disp, hp, hx, sub_fin]⟩

theorem Planner.IsReal.step (hs : s.IsReal) (hi : i.IsReal) (ha : a.toCar.IsReal)
    (h : s.Moves a i) : (setMinWindowsStep a s i).IsReal := by
  obtain ⟨τ, hτ⟩ := hs.time
  obtain ⟨p, hp⟩ := hs.pos
  obtain ⟨D, hD⟩ := hs.disp (a := a) hi
  obtain ⟨o, ho⟩ := Car.isReal_wdOfIntersection (c := a.toCar) hi
  obtain ⟨L, hL⟩ := ha.length
  obtain ⟨acc, v, hacc, hv, hav⟩ := h
  obtain ⟨t, ht⟩ := Car.isReal_calculateTime hav (D + L + o)
  have hw : (s.window a i).second = fin t := by
    rw [Planner.window, Car.createWindow, hD, hL, ho, hv, hacc, add_fin, add_fin, ht]
  refine ⟨?_, ?_, ?_⟩
  · simp only [setMinWindowsStep, hτ, hw, add_fin, isReal_fin]
  · simp only [setMinWindowsStep, hp, hD, hL, ho, add_fin, isReal_fin]
  · simp only [setMinWindowsStep, hv, hp, hacc, hw, Car.calculateVel_fin, add_fin, isReal_fin]

/-- The acceleration of a car that goes through. -/
theorem Planner.acc_of_not_collision
    (hc : a.collision (s.windows i.addr) i s.time s.pos s.vel Car.maxAcc = false) :
    s.acc a i = fin 3 := by
  rw [Planner.acc, Auto.optimalAcc_of_not_collision hc, Car.maxAcc_eq]

/-- The acceleration of a car that waits. -/
theorem Planner.acc_of_collision {D v T : ℝ} (hb : s.windows i.addr = some b)
    (hc : a.collision (some b) i s.time s.pos s.vel Car.maxAcc = true)
    (hD : s.disp a i = fin D) (hv : s.vel = fin v) (hT : b.second - s.time = fin T) :
    s.acc a i = Car.calculateAcc (fin D) (fin v) (fin T) := by
  rw [Planner.disp] at hD
  rw [Planner.acc, hb, Auto.optimalAcc_of_collision hc, hD, hv, hT]

/-- The plan in numbers. -/
theorem Planner.planned_fin {D L o v acc τ t₁ t₂ : ℝ} (hD : s.disp a i = fin D)
    (hL : a.length = fin L) (ho : a.wdOfIntersection i = fin o) (hv : s.vel = fin v)
    (hacc : s.acc a i = fin acc) (hτ : s.time = fin τ)
    (h₁ : Car.calculateTime (fin D) (fin v) (fin acc) = fin t₁)
    (h₂ : Car.calculateTime (fin (D + L + o)) (fin v) (fin acc) = fin t₂) :
    s.window a i = ⟨fin t₁, fin t₂⟩ ∧ s.planned a i = ⟨fin (t₁ + τ), fin (t₂ + τ)⟩ := by
  have hw : s.window a i = ⟨fin t₁, fin t₂⟩ := by
    rw [Planner.window, Car.createWindow, hD, hL, ho, hv, hacc, add_fin, add_fin, h₁, h₂]
  exact ⟨hw, by rw [Planner.planned, hw, hτ, add_fin, add_fin]⟩

/-- A car that goes through speeds up. -/
theorem Planner.IsReal.moves (hs : s.IsReal)
    (h : a.collision (s.windows i.addr) i s.time s.pos s.vel Car.maxAcc = false) :
    s.Moves a i := by
  obtain ⟨v, hv⟩ := hs.vel
  exact ⟨3, v, Planner.acc_of_not_collision h, hv, .inl three_ne_zero⟩

/-! ### The two plans -/

/-- The plan has left the intersection before `b`, or enters it after `b`. -/
def Planner.Excludes (s : Planner XReal) (a : Auto XReal) (i : Intersection XReal)
    (b : Window XReal) : Prop :=
  (s.planned a i).second ≤ b.first ∨ b.second ≤ (s.planned a i).first

/-- The car enters after `b`, or its track is no wider than the one it has been tested with. -/
def Planner.CanPass (s : Planner XReal) (a : Auto XReal) (i : Intersection XReal)
    (b : Window XReal) : Prop :=
  b.second < Car.calculateTime (s.disp a i) s.vel Car.maxAcc + s.time ∨
    a.wdOfIntersection i = i.acrossWd ∨
    a.wdOfIntersection i ≤ i.acrossWd ∧
      0 ≤ Double.pow2 s.vel +
        2 * Car.maxAcc * (s.disp a i + a.length + a.wdOfIntersection i)

/-- The car can be brought to the intersection at the end of `b`. -/
def Planner.CanWait (s : Planner XReal) (a : Auto XReal) (i : Intersection XReal)
    (b : Window XReal) : Prop :=
  ∃ D v T : ℝ, s.disp a i = fin D ∧ s.vel = fin v ∧ b.second - s.time = fin T ∧ WaitsFor D v T

theorem Planner.CanWait.moves (h : s.CanWait a i b) (hb : s.windows i.addr = some b)
    (hc : a.collision (some b) i s.time s.pos s.vel Car.maxAcc = true) : s.Moves a i := by
  obtain ⟨D, v, T, hD, hv, hT, hw⟩ := h
  obtain ⟨acc, hacc, hav, -⟩ := hw.acc
  exact ⟨acc, v, (Planner.acc_of_collision hb hc hD hv hT).trans hacc, hv, hav⟩

/-- **Waiting.** -/
theorem Planner.CanWait.excludes (h : s.CanWait a i b) (hb : s.windows i.addr = some b)
    (hs : s.IsReal) (hc : a.collision (some b) i s.time s.pos s.vel Car.maxAcc = true) :
    s.Excludes a i b := by
  obtain ⟨D, v, T, hD, hv, hT, hw⟩ := h
  obtain ⟨acc, hacc, hav, hE, hle⟩ := hw.acc
  obtain ⟨τ, hτ⟩ := hs.time
  have ha : s.acc a i = fin acc := (Planner.acc_of_collision hb hc hD hv hT).trans hacc
  have hfirst : (s.planned a i).first = fin (Capped.time (1 / 2) v acc D + τ) := by
    simp only [Planner.planned, Planner.window, Car.createWindow, hD, hv, ha, hτ,
      Car.calculateTime_fin hE hav, add_fin]
  -- the end of `b` is a number
  have hb₂ : b.second = fin (T + τ) := eq_add_of_sub_eq_fin (hτ ▸ hT)
  right
  rw [hfirst, hb₂, fin_le_fin]
  linarith

/-- **Going through.** -/
theorem Planner.CanPass.excludes (h : s.CanPass a i b) (hb : s.windows i.addr = some b)
    (hs : s.IsReal) (hi : i.IsReal) (ha : a.toCar.IsReal)
    (hc : a.collision (some b) i s.time s.pos s.vel Car.maxAcc = false) :
    s.Excludes a i b := by
  have hacc : s.acc a i = Car.maxAcc := by
    rw [Planner.acc_of_not_collision (by rwa [hb]), Car.maxAcc_eq]
  have hfirst : (s.planned a i).first =
      Car.calculateTime (s.disp a i) s.vel Car.maxAcc + s.time := by
    rw [Planner.planned, Planner.window, Car.createWindow, hacc]
  have hsecond : (s.planned a i).second =
      Car.calculateTime (s.disp a i + a.length + a.wdOfIntersection i) s.vel Car.maxAcc +
        s.time := by
    rw [Planner.planned, Planner.window, Car.createWindow, hacc]
  have hpass : Car.calculateTime (s.disp a i + a.length + i.acrossWd) s.vel Car.maxAcc +
        s.time < b.first ∨
      b.second < Car.calculateTime (s.disp a i) s.vel Car.maxAcc + s.time :=
    Auto.intervalsOverlap_eq_false.mp hc
  rcases hpass with hout | hin
  swap
  · exact .inr (hfirst ▸ le_of_lt hin)
  rcases h with hin | hwd | ⟨hwd, hE⟩
  · exact .inr (hfirst ▸ le_of_lt hin)
  · rw [← hwd] at hout
    exact .inl (hsecond ▸ le_of_lt hout)
  · -- it leaves its own track no later than the across track
    obtain ⟨τ, hτ⟩ := hs.time
    obtain ⟨v, hv⟩ := hs.vel
    obtain ⟨D, hD⟩ := hs.disp (a := a) hi
    obtain ⟨L, hL⟩ := ha.length
    obtain ⟨o, ho⟩ := Car.isReal_wdOfIntersection (c := a.toCar) hi
    obtain ⟨w, hw⟩ := hi.acrossWd
    rw [ho, hw, fin_le_fin] at hwd
    simp only [hv, hD, hL, ho, Car.maxAcc_eq, zero_eq, ofNat_eq, pow2_fin, mul_fin, add_fin,
      fin_le_fin] at hE
    have hle := Capped.time_le_time (M := 1 / 2) (by norm_num) three_pos hE
      (show D + L + o ≤ D + L + w by linarith)
    have hE' : 0 ≤ v ^ 2 + 2 * 3 * (D + L + w) := by linarith
    rw [hD, hL, hw, hv, hτ, Car.maxAcc_eq, add_fin, add_fin,
      Car.calculateTime_fin hE' (.inl three_ne_zero), add_fin] at hout
    left
    rw [hsecond, hD, hL, ho, hv, hτ, Car.maxAcc_eq, add_fin, add_fin,
      Car.calculateTime_fin hE (.inl three_ne_zero), add_fin]
    exact fin_le_of_lt (by linarith) hout

end Step

namespace Grid

variable {S : StdSort (Intersection XReal)} {g : Grid XReal} {σ : Windows XReal}

/-- **Mutual exclusion of the plan.**  In a run of `find_accelerations`, let every auto that comes
to an intersection with a window be able to pass or to wait, whichever `collision` says.  Then
no plan overlaps a window that is there. -/
theorem findAccelerations_exclusion (hg : g.IsReal)
    (h : ∀ a i s b, g.Visits S σ a i s → s.windows i.addr = some b →
      if a.collision (some b) i s.time s.pos s.vel Car.maxAcc then s.CanWait a i b
      else s.CanPass a i b) :
    ∀ a i s b, g.Visits S σ a i s → s.windows i.addr = some b → s.Excludes a i b := by
  have hinv : g.Invariant S σ (fun _ => True) fun _ _ s => s.IsReal := by
    refine ⟨trivial, fun a ha _ _ => ?_, fun a i post s hvis hs => ?_, fun _ _ _ _ => trivial⟩
    · exact ⟨⟨0, zero_eq⟩, (hg.autos a ha).position, (hg.autos a ha).velocity⟩
    · have hmoves : s.Moves a i := by
        cases hb : s.windows i.addr with
        | none => exact hs.moves (by rw [hb]; rfl)
        | some b =>
            have hcond := h a i s b hvis hb
            cases hc : a.collision (some b) i s.time s.pos s.vel Car.maxAcc with
            | false => exact hs.moves (by rwa [hb])
            | true =>
                rw [hc, if_pos rfl] at hcond
                exact hcond.moves hb hc
      obtain ⟨hi, ha⟩ := hg.of_visits hvis
      exact hs.step hi ha hmoves
  intro a i s b hvis hb
  obtain ⟨hi, ha⟩ := hg.of_visits hvis
  have hs : s.IsReal := by
    obtain ⟨before, after, pre, post, hautos, hahead, rfl⟩ := hvis
    exact hinv.visits hautos hahead
  have hcond := h a i s b hvis hb
  cases hc : a.collision (some b) i s.time s.pos s.vel Car.maxAcc with
  | false =>
      rw [hc, if_neg Bool.false_ne_true] at hcond
      exact hcond.excludes hb hs hi ha hc
  | true =>
      rw [hc, if_pos rfl] at hcond
      exact hcond.excludes hb hs hc

/-! ### Two autos at one crossing -/

noncomputable section TwoAutos

variable (d l w : ℝ)

/-- The crossing is at `d` along track `0`, which is `w` wide. -/
def twoCrossing : Intersection XReal := ⟨0, 0, 3, fin w, fin 1, fin d, 5.5⟩

/-- Plans first, along track `3`: it is long. -/
def longAuto : Auto XReal := ⟨⟨3, 11, fin 0, Car.maxVel⟩, 0⟩

/-- Plans second, along track `0`. -/
def waitingAuto : Auto XReal := ⟨⟨0, fin l, fin 0, Car.maxVel⟩, 1⟩

def twoAutos : Grid XReal :=
  ⟨[twoCrossing d w], [longAuto, waitingAuto l], ⟨⟨5, fin 1, fin 0, fin 0⟩⟩, 20, 20⟩

variable {d l w}

theorem twoAutos_isReal : (twoAutos d l w).IsReal := by
  refine ⟨?_, ?_, ⟨isReal_fin _, isReal_fin _, isReal_fin _⟩⟩
  · intro i hi
    obtain rfl := List.mem_singleton.mp hi
    exact ⟨isReal_fin _, isReal_fin _, isReal_fin _, ⟨_, ofScientific_eq _ _ _⟩⟩
  · intro a ha
    simp only [twoAutos, List.mem_cons, List.not_mem_nil, or_false] at ha
    rcases ha with rfl | rfl
    · exact ⟨⟨_, ofNat_eq _⟩, isReal_fin _, ⟨_, Car.maxVel_eq⟩⟩
    · exact ⟨isReal_fin _, isReal_fin _, ⟨_, Car.maxVel_eq⟩⟩

theorem twoAutos_ahead (S : StdSort (Intersection XReal)) (hd : 0 < d) :
    (twoAutos d l w).intersectionsAhead S longAuto.toCar = [twoCrossing d w] ∧
      (twoAutos d l w).intersectionsAhead S (waitingAuto l).toCar = [twoCrossing d w] ∧
      (twoAutos d l w).intersectionsAhead S (twoAutos d l w).human.toCar = [] := by
  refine ⟨intersectionsAhead_singleton ?_, intersectionsAhead_singleton ?_,
    intersectionsAhead_nil ?_⟩
  · norm_num [twoAutos, twoCrossing, longAuto, Car.isAhead, Car.posOfIntersection]
  · simp [twoAutos, twoCrossing, waitingAuto, Car.isAhead, Car.posOfIntersection, hd]
  · simp [twoAutos, twoCrossing, Car.isAhead]

/-- The first auto is at the crossing from `11` to `35`. -/
theorem twoAutos_window (S : StdSort (Intersection XReal)) (hd : 0 < d) :
    (twoAutos d l w).windowsAfter S Windows.empty [longAuto] 0 = some ⟨fin 11, fin 35⟩ := by
  obtain ⟨hl, -, hh⟩ := twoAutos_ahead (l := l) (w := w) S hd
  have h₀ : (twoAutos d l w).windowsAfter S Windows.empty [] = Windows.empty := by
    rw [windowsAfter_nil, reserveHuman, hh, List.foldl_nil]
  have hacc : (Planner.start longAuto Windows.empty).acc longAuto (twoCrossing d w) = fin 3 :=
    Car.maxAcc_eq
  have h₁ := Car.calculateTime_cap (show (0 : ℝ) ≤ 11 / 2 by norm_num)
  have h₂ := Car.calculateTime_cap (show (0 : ℝ) ≤ 35 / 2 by norm_num)
  have hw : (Planner.start longAuto Windows.empty).planned longAuto (twoCrossing d w) =
      ⟨fin 11, fin 35⟩ := by
    simp only [Planner.planned, Planner.window, Planner.disp, hacc]
    simp only [Planner.start, Car.createWindow, longAuto, twoCrossing, Car.posOfIntersection,
      Car.wdOfIntersection, zero_eq, ofNat_eq, ofScientific_eq, Car.maxVel_eq]
    norm_num [h₁, h₂]
  have hself := step_windows_self (a := longAuto) (s := Planner.start longAuto Windows.empty)
    (i := twoCrossing d w)
  rw [hw] at hself
  rw [← List.nil_append [longAuto], windowsAfter_concat, h₀, setMinWindows, setMinWindowsLoop, hl,
    List.foldl_cons, List.foldl_nil]
  exact hself

/-- What the second auto finds. -/
def secondState (S : StdSort (Intersection XReal)) (d l w : ℝ) : Planner XReal :=
  Planner.start (waitingAuto l) ((twoAutos d l w).windowsAfter S Windows.empty [longAuto])

theorem twoAutos_visits {S : StdSort (Intersection XReal)} (hd : 0 < d) :
    (twoAutos d l w).Visits S Windows.empty (waitingAuto l) (twoCrossing d w)
      (secondState S d l w) :=
  ⟨[longAuto], [], [], [], rfl, (twoAutos_ahead S hd).2.1, rfl⟩

/-- Only the second auto finds a window. -/
theorem twoAutos_visits_some {S : StdSort (Intersection XReal)} (hd : 0 < d) {a : Auto XReal}
    {i : Intersection XReal} {s : Planner XReal} {b : Window XReal}
    (h : (twoAutos d l w).Visits S Windows.empty a i s) (hb : s.windows i.addr = some b) :
    a = waitingAuto l ∧ i = twoCrossing d w ∧ s = secondState S d l w ∧
      b = ⟨fin 11, fin 35⟩ := by
  obtain ⟨before, after, pre, post, ha, hl, hs⟩ := h
  obtain ⟨h₁, h₂, h₃⟩ := twoAutos_ahead (l := l) (w := w) S hd
  have single : ∀ {x : Intersection XReal}, [x] = pre ++ i :: post → pre = [] ∧ i = x := by
    intro x hx
    cases pre with
    | nil => exact ⟨rfl, (List.cons.inj hx).1.symm⟩
    | cons y pre => simp at hx
  match before, ha with
  | [], ha =>
      obtain rfl : longAuto = a := (List.cons.inj ha).1
      obtain ⟨rfl, rfl⟩ := single (h₁ ▸ hl)
      rw [hs, List.foldl_nil, windowsAfter_nil, reserveHuman, h₃, List.foldl_nil] at hb
      exact nomatch hb
  | [_], ha =>
      obtain ⟨rfl, ha'⟩ := List.cons.inj ha
      obtain rfl : waitingAuto l = a := (List.cons.inj ha').1
      obtain ⟨rfl, rfl⟩ := single (h₂ ▸ hl)
      refine ⟨rfl, rfl, hs, ?_⟩
      rw [hs] at hb
      exact (Option.some.inj ((twoAutos_window S hd).symm.trans hb)).symm
  | _ :: _ :: before, ha =>
      have := congrArg List.length ha
      simp [twoAutos] at this

/-- The second auto should wait, for `35`. -/
theorem twoAutos_collision {S : StdSort (Intersection XReal)} (hd : 0 ≤ d) (hd' : 2 * d ≤ 35)
    (hx : 11 ≤ 2 * (d + l + w)) :
    (waitingAuto l).collision (some ⟨fin 11, fin 35⟩) (twoCrossing d w)
      (secondState S d l w).time (secondState S d l w).pos
      (secondState S d l w).vel Car.maxAcc = true := by
  have h₁ := Car.calculateTime_cap hd
  have h₂ := Car.calculateTime_cap (show 0 ≤ d + l + w by linarith)
  rw [← Bool.not_eq_false]
  intro h
  have h := Auto.intervalsOverlap_eq_false.mp h
  simp only [secondState, Planner.start, waitingAuto, twoCrossing, Car.posOfIntersection,
    if_true, zero_eq, Car.maxAcc_eq, Car.maxVel_eq, sub_fin, add_fin, sub_zero, h₁, h₂, add_zero,
    fin_lt_fin] at h
  rcases h with h | h
  · linarith
  · linarith

theorem secondState_eq (S : StdSort (Intersection XReal)) :
    (secondState S d l w).disp (waitingAuto l) (twoCrossing d w) = fin d ∧
      (secondState S d l w).vel = fin (1 / 2) ∧ (secondState S d l w).time = fin 0 := by
  refine ⟨?_, Car.maxVel_eq, zero_eq⟩
  show fin d - fin 0 = fin d
  rw [sub_fin, sub_zero]

theorem twoAutos_acc {S : StdSort (Intersection XReal)} (hd : 0 < d) (hd' : 2 * d ≤ 35)
    (hx : 11 ≤ 2 * (d + l + w)) :
    (secondState S d l w).acc (waitingAuto l) (twoCrossing d w) =
      Car.calculateAcc (fin d) (fin (1 / 2)) (fin 35) := by
  obtain ⟨hD, hv, hτ⟩ := secondState_eq (d := d) (l := l) (w := w) S
  have hwin : (secondState S d l w).windows (twoCrossing d w).addr = some ⟨fin 11, fin 35⟩ :=
    twoAutos_window S hd
  refine Planner.acc_of_collision hwin (twoAutos_collision hd.le hd' hx) hD hv ?_
  rw [hτ, sub_fin, sub_zero]

/-- From `13`, the second auto can wait by slowing down. -/
theorem waitingAuto_excludes :
    (secondState StdSort.stable 13 1 1).Excludes (waitingAuto 1) (twoCrossing 13 1)
      ⟨fin 11, fin 35⟩ := by
  have hd : (0 : ℝ) < 13 := by norm_num
  refine findAccelerations_exclusion twoAutos_isReal ?_ _ _ _ _ (twoAutos_visits hd)
    (twoAutos_window StdSort.stable hd)
  intro a i s b hvis hb
  obtain ⟨rfl, rfl, rfl, rfl⟩ := twoAutos_visits_some hd hvis hb
  obtain ⟨hD, hv, hτ⟩ := secondState_eq (d := 13) (l := 1) (w := 1) StdSort.stable
  rw [if_pos (twoAutos_collision (by norm_num) (by norm_num) (by norm_num))]
  refine ⟨13, 1 / 2, 35, hD, hv, ?_, by norm_num, by norm_num, .inr (by norm_num), .inl hd.ne'⟩
  rw [hτ, sub_fin, sub_zero]

/-- **Two plans that overlap.**  From `5`, the second auto, whose length is `0`, should stop before
the crossing.  It is planned to be there from `14` to `21`, all of it between `11` and `35`. -/
theorem waitingAuto_overlaps :
    (twoAutos 5 0 1).Visits StdSort.stable Windows.empty (waitingAuto 0) (twoCrossing 5 1)
        (secondState StdSort.stable 5 0 1) ∧
      (secondState StdSort.stable 5 0 1).windows 0 = some ⟨fin 11, fin 35⟩ ∧
      (secondState StdSort.stable 5 0 1).planned (waitingAuto 0) (twoCrossing 5 1) =
        ⟨fin 14, fin 21⟩ ∧
      ¬ (secondState StdSort.stable 5 0 1).Excludes (waitingAuto 0) (twoCrossing 5 1)
        ⟨fin 11, fin 35⟩ := by
  have hd : (0 : ℝ) < 5 := by norm_num
  have hwin := twoAutos_window (l := 0) (w := 1) StdSort.stable hd
  obtain ⟨hD, hv, hτ⟩ := secondState_eq (d := 5) (l := 0) (w := 1) StdSort.stable
  have hacc : (secondState StdSort.stable 5 0 1).acc (waitingAuto 0) (twoCrossing 5 1) =
      fin (-(1 / 49)) := by
    rw [twoAutos_acc hd (by norm_num) (by norm_num), Car.calculateAcc_fin _ _ (by norm_num)]
    norm_num
  -- the first root: the auto would turn back between the two
  have h₁ : Car.calculateTime (fin 5) (fin (1 / 2)) (fin (-(1 / 49))) = fin 14 := by
    rw [Car.calculateTime_of_sq (r := 3 / 14) (by norm_num) (by norm_num) (by norm_num)
      (by norm_num)]
    norm_num
  have h₂ : Car.calculateTime (fin (5 + 0 + 1)) (fin (1 / 2)) (fin (-(1 / 49))) = fin 21 := by
    rw [Car.calculateTime_of_sq (r := 1 / 14) (by norm_num) (by norm_num) (by norm_num)
      (by norm_num)]
    norm_num
  have hplan : (secondState StdSort.stable 5 0 1).planned (waitingAuto 0) (twoCrossing 5 1) =
      ⟨fin 14, fin 21⟩ := by
    rw [(Planner.planned_fin hD rfl rfl hv hacc hτ h₁ h₂).2, add_zero, add_zero]
  refine ⟨twoAutos_visits hd, hwin, hplan, ?_⟩
  rw [Planner.Excludes, hplan, fin_le_fin, fin_le_fin]
  norm_num

end TwoAutos

end Grid

end DrivingSim
