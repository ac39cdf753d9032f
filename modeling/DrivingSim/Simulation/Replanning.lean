import DrivingSim.Simulation.RealGrid

/-!
# Simulation — planning again

The intersections keep their windows from one call of `find_accelerations` to the next.  The
human's windows are overwritten by the next call, those of the autos are not: the next call
takes them for windows of other cars.

* `callsFrom_ne_none`: the windows that are there after a sequence of calls are those that were
  there before and those ahead of some car of one of the calls.
* `replan_eq`: a call gives what it would give from empty windows when all of its intersections
  that hold a window are ahead of its human.
* `crossingAgain_differs`: one auto that does not move plans `3` first and `-1/9` the second
  time, to let itself pass.
-/

namespace DrivingSim

variable {D : Type} [Double D]

/-- The windows after a sequence of calls of `find_accelerations`. -/
def callsFrom (S : StdSort (Intersection D)) (σ : Windows D) (calls : List (Grid D)) : Windows D :=
  calls.foldl (fun σ g => (g.findAccelerations S σ).2) σ

namespace Grid

variable {S : StdSort (Intersection D)} {g : Grid D} {σ : Windows D} {x : ℕ}

/-- The intersection at `x` is ahead of a car of the grid. -/
def Occupies (S : StdSort (Intersection D)) (g : Grid D) (x : ℕ) : Prop :=
  x ∈ g.footprint S g.human.toCar ∨ ∃ a ∈ g.autos, x ∈ g.footprint S a.toCar

theorem reserveHuman_ne_none :
    g.reserveHuman S σ x ≠ none ↔ σ x ≠ none ∨ x ∈ g.footprint S g.human.toCar := by
  by_cases h : x ∈ g.footprint S g.human.toCar
  · obtain ⟨w, hw⟩ := foldl_setWindow_some g.humanWindow h σ
    simp [reserveHuman, hw, h]
  · rw [reserveHuman_frame h]
    simp [h]

theorem windowsAfter_ne_none (l : List (Auto D)) :
    g.windowsAfter S σ l x ≠ none ↔
      g.reserveHuman S σ x ≠ none ∨ ∃ a ∈ l, x ∈ g.footprint S a.toCar := by
  induction l using List.reverseRecOn with
  | nil => simp [windowsAfter_nil]
  | append_singleton l a ih =>
      rw [windowsAfter_concat]
      by_cases h : x ∈ g.footprint S a.toCar
      · simp only [setMinWindows_ne_none h, ne_eq, not_false_eq_true, true_iff]
        exact .inr ⟨a, by simp, h⟩
      · rw [setMinWindows_frame h, ih]
        simp only [List.mem_append, List.mem_singleton, or_and_right, exists_or,
          exists_eq_left, h, or_false]

/-- A call fills what is ahead of its cars, and empties nothing. -/
theorem findAccelerations_ne_none :
    (g.findAccelerations S σ).2 x ≠ none ↔ σ x ≠ none ∨ g.Occupies S x := by
  rw [findAccelerations_windows, windowsAfter_ne_none, reserveHuman_ne_none, or_assoc, Occupies]

/-- The windows after a sequence of calls. -/
theorem callsFrom_ne_none (calls : List (Grid D)) : ∀ σ : Windows D,
    callsFrom S σ calls x ≠ none ↔ σ x ≠ none ∨ ∃ g ∈ calls, g.Occupies S x := by
  induction calls with
  | nil => intro σ; simp [callsFrom]
  | cons g calls ih =>
      intro σ
      have h := ih (g.findAccelerations S σ).2
      rw [findAccelerations_ne_none, or_assoc] at h
      rw [List.exists_mem_cons_iff]
      exact h

theorem mem_of_mem_footprint {c : Car D} (h : x ∈ g.footprint S c) :
    x ∈ g.intersections.map (·.addr) := by
  obtain ⟨i, hi, rfl⟩ := List.mem_map.mp h
  exact List.mem_map_of_mem (mem_intersectionsAhead.mp hi).1

/-- The call gives what it gives from empty windows. -/
def Unaffected (S : StdSort (Intersection D)) (g : Grid D) (σ : Windows D) : Prop :=
  (g.findAccelerations S σ).1 = (g.findAccelerations S Windows.empty).1 ∧
    ∀ i ∈ g.intersections,
      (g.findAccelerations S σ).2 i.addr = (g.findAccelerations S Windows.empty).2 i.addr

/-- Windows ahead of the human do not matter. -/
theorem unaffected_of_ahead_human
    (h : ∀ i ∈ g.intersections, σ i.addr ≠ none → i.addr ∈ g.footprint S g.human.toCar) :
    g.Unaffected S σ := by
  have hr : ∀ x, x ∈ g.intersections.map (·.addr) →
      g.reserveHuman S σ x = g.reserveHuman S Windows.empty x := by
    intro x hx
    obtain ⟨i, hi, rfl⟩ := List.mem_map.mp hx
    by_cases hh : i.addr ∈ g.footprint S g.human.toCar
    · exact reserveHuman_congr hh
    · rw [reserveHuman_frame hh, reserveHuman_frame hh]
      exact not_not.mp fun hn => hh (h i hi hn)
  obtain ⟨h₁, h₂⟩ :=
    foldl_planStep_congr (r := []) g.autos (fun a _ x hx => mem_of_mem_footprint hx) hr
  exact ⟨h₁, fun i hi => h₂ i.addr (List.mem_map_of_mem hi)⟩

/-- **Planning again.**  In a sequence of calls, let every intersection of a grid that held a
window at the start, or was ahead of a car of an earlier call, be ahead of the human.  Then
every call gives the accelerations and the windows it would give from empty windows. -/
theorem replan_eq (σ₀ : Windows D) (calls : List (Grid D))
    (h : ∀ before g after, calls = before ++ g :: after → ∀ i ∈ g.intersections,
      (σ₀ i.addr ≠ none ∨ ∃ e ∈ before, e.Occupies S i.addr) →
        i.addr ∈ g.footprint S g.human.toCar) :
    ∀ before g after, calls = before ++ g :: after →
      g.Unaffected S (callsFrom S σ₀ before) := by
  intro before g after hc
  refine unaffected_of_ahead_human fun i hi hw => ?_
  exact h before g after hc i hi ((callsFrom_ne_none before σ₀).mp hw)

/-- The human comes to the crossing `0` along track `3`, and an auto along track `0`. -/
noncomputable def sharedCrossing : Grid XReal where
  intersections := [⟨0, 0, 3, 1, 1, 2, 2⟩]
  autos := [⟨⟨0, 1, 0, 0⟩, 0⟩]
  human := ⟨⟨3, 1, 0, 0⟩⟩
  width := 10
  length := 10

theorem sharedCrossing_replan :
    sharedCrossing.Unaffected StdSort.stable
      (callsFrom StdSort.stable Windows.empty [sharedCrossing]) := by
  have hs : sharedCrossing.intersectionsAhead StdSort.stable sharedCrossing.human.toCar =
      [⟨0, 0, 3, 1, 1, 2, 2⟩] :=
    intersectionsAhead_singleton (by
      simp [sharedCrossing, Car.isAhead, Car.posOfIntersection])
  refine replan_eq Windows.empty [sharedCrossing, sharedCrossing] ?_ [sharedCrossing]
    sharedCrossing [] rfl
  intro before g after hc i hi _
  obtain rfl : g = sharedCrossing := by
    have : g ∈ [sharedCrossing, sharedCrossing] := hc ▸ by simp
    simpa using this
  obtain rfl := List.mem_singleton.mp hi
  simp [footprint, hs]

/-! ### A plan that changes the next one -/

noncomputable section Again
open XReal Car

/-- Nobody else is there. -/
def crossingAgain : Grid XReal :=
  ⟨[crossing], [fastAuto], ⟨⟨5, .fin 1, .fin 0, .fin 0⟩⟩, 10, 10⟩

theorem crossingAgain_ahead (S : StdSort (Intersection XReal)) :
    crossingAgain.intersectionsAhead S fastAuto.toCar = [crossing] ∧
      crossingAgain.intersectionsAhead S crossingAgain.human.toCar = [] :=
  ⟨intersectionsAhead_singleton (by
      simp [crossingAgain, crossing, fastAuto, Car.isAhead, Car.posOfIntersection]),
    intersectionsAhead_nil (by simp [crossingAgain, crossing, Car.isAhead])⟩

theorem crossingAgain_call (S : StdSort (Intersection XReal)) (σ : Windows XReal) :
    crossingAgain.findAccelerations S σ =
      ([fastAuto.optimalAcc (σ 0) crossing (fin 0) (fin 0) maxVel],
        (setMinWindowsStep fastAuto (Planner.start fastAuto σ) crossing).windows) := by
  obtain ⟨ha, hh⟩ := crossingAgain_ahead S
  have hr : crossingAgain.reserveHuman S σ = σ := by rw [reserveHuman, hh, List.foldl_nil]
  have h₁ := setMinWindows_acc (σ := σ) ha
  rw [zero_eq] at h₁
  have h₂ : (crossingAgain.setMinWindows S fastAuto σ).2 =
      (setMinWindowsStep fastAuto (Planner.start fastAuto σ) crossing).windows := by
    rw [setMinWindows, setMinWindowsLoop, ha, List.foldl_cons, List.foldl_nil]
  rw [findAccelerations, hr]
  exact Prod.ext (congrArg (fun r => [r]) h₁) h₂

/-- The first call plans full acceleration. -/
theorem crossingAgain_first (S : StdSort (Intersection XReal)) :
    (crossingAgain.findAccelerations S Windows.empty).1 = [fin 3] ∧
      (crossingAgain.findAccelerations S Windows.empty).2 0 = some ⟨fin 2, fin 6⟩ := by
  rw [crossingAgain_call]
  refine ⟨by simp [Windows.empty, Auto.optimalAcc], ?_⟩
  have h := step_windows_self (a := fastAuto) (s := Planner.start fastAuto Windows.empty)
    (i := crossing)
  refine h.trans ?_
  have h₁ : (Planner.start fastAuto Windows.empty).acc fastAuto crossing = fin 3 := by
    simp [Planner.start, Planner.acc, Windows.empty, Auto.optimalAcc]
  have h₂ := calculateTime_cap (show (0 : ℝ) ≤ 1 by norm_num)
  have h₃ := calculateTime_cap (show (0 : ℝ) ≤ 3 by norm_num)
  simp only [Planner.planned, Planner.window, Planner.disp, h₁]
  simp only [Planner.start, Windows.empty, Option.getD_none, Car.createWindow, fastAuto, crossing,
    Car.posOfIntersection, Car.wdOfIntersection, if_true, sub_fin, add_fin, zero_eq, maxVel_eq]
  norm_num [h₂, h₃]

/-- The second call takes the window of the first for another car's. -/
theorem crossingAgain_second (S : StdSort (Intersection XReal)) :
    (crossingAgain.findAccelerations S (crossingAgain.findAccelerations S Windows.empty).2).1 =
      [fin (-(1 / 9))] := by
  rw [crossingAgain_call S (crossingAgain.findAccelerations S Windows.empty).2,
    (crossingAgain_first S).2]
  have hc : fastAuto.collision (some ⟨fin 2, fin 6⟩) crossing (fin 0) (fin 0) maxVel maxAcc =
      true :=
    fastAuto_collision (by rw [fin_lt_fin]; norm_num) (by rw [fin_lt_fin]; norm_num)
  have hd : fastAuto.posOfIntersection crossing - fin 0 = fin 1 := by
    simp [fastAuto, crossing, posOfIntersection]
  have ha : calculateAcc (fin 1) (fin (1 / 2)) (fin 6) = fin (-(1 / 9)) := by
    rw [calculateAcc_fin _ _ (by norm_num)]
    norm_num
  rw [Auto.optimalAcc_of_collision hc, hd, sub_fin, sub_zero, maxVel_eq, ha]

/-- **A call is affected by the one before**: the same grid, unchanged, is planned differently
the second time. -/
theorem crossingAgain_differs :
    ¬ crossingAgain.Unaffected StdSort.stable
      (callsFrom StdSort.stable Windows.empty [crossingAgain]) := by
  rintro ⟨h, -⟩
  rw [(crossingAgain_first StdSort.stable).1] at h
  have := (crossingAgain_second StdSort.stable).symm.trans h
  simp only [List.cons.injEq, XReal.fin.injEq] at this
  norm_num at this

end Again

end Grid

end DrivingSim
