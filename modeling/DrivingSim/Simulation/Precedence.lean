import DrivingSim.Support.XReal
import DrivingSim.Simulation.Footprint

/-!
# Simulation — who gets an intersection

From windows that are all empty, a run of `find_accelerations` gives every intersection to one
car.  What is ahead of the human is the human's.  Everything else goes to the first auto that
has it ahead, at the window that auto planned, and no later auto changes it
(`findAccelerations_precedence`).

The intersections ahead of a car are those of the grid that are on its track and further along
than it is (`mem_intersectionsAhead`), each as often as the grid has it.
-/

namespace DrivingSim

variable {D : Type} [Double D]

/-! ### The intersections ahead -/

/-- The intersection is on the car's track, further along than the car. -/
def Car.isAhead (c : Car D) (i : Intersection D) : Bool :=
  (decide (i.acrossId = c.trackId) || decide (i.downId = c.trackId)) &&
    decide (c.position < c.posOfIntersection i)

namespace Grid

variable {S : StdSort (Intersection D)} {g : Grid D}

theorem aheadStep_eq (c : Car D) (r : List (Intersection D) × Bool) (i : Intersection D) :
    aheadStep c r i = (r.1 ++ [i].filter c.isAhead, r.2 || decide (i.acrossId = c.trackId)) := by
  rw [aheadStep]
  by_cases ha : i.acrossId = c.trackId
  · by_cases hp : c.position < i.acrossPos
    · simp [Car.isAhead, Car.posOfIntersection, ha, hp]
    · simp [Car.isAhead, Car.posOfIntersection, ha, hp]
  · by_cases hd : i.downId = c.trackId
    · by_cases hp : c.position < i.downPos
      · simp [Car.isAhead, Car.posOfIntersection, ha, hd, hp]
      · simp [Car.isAhead, Car.posOfIntersection, ha, hd, hp]
    · simp [Car.isAhead, ha, hd]

/-- The scan keeps what is ahead, and notes whether the car is on an across track. -/
theorem foldl_aheadStep (c : Car D) (l : List (Intersection D)) :
    ∀ r : List (Intersection D) × Bool, l.foldl (aheadStep c) r =
      (r.1 ++ l.filter c.isAhead, r.2 || l.any fun i => decide (i.acrossId = c.trackId)) := by
  induction l with
  | nil => intro r; simp
  | cons i l ih =>
      intro r
      rw [List.foldl_cons, ih, aheadStep_eq, List.any_cons, Bool.or_assoc, List.append_assoc,
        ← List.filter_append, List.singleton_append]

theorem intersectionsAhead_perm (c : Car D) :
    (g.intersectionsAhead S c).Perm (g.intersections.filter c.isAhead) := by
  rw [intersectionsAhead, foldl_aheadStep]
  dsimp only
  split
  · exact S.perm _ _
  · exact S.perm _ _

theorem mem_intersectionsAhead {c : Car D} {i : Intersection D} :
    i ∈ g.intersectionsAhead S c ↔ i ∈ g.intersections ∧ c.isAhead i = true := by
  rw [(intersectionsAhead_perm c).mem_iff, List.mem_filter]

theorem intersectionsAhead_singleton {c : Car D} {i : Intersection D}
    (h : g.intersections.filter c.isAhead = [i]) : g.intersectionsAhead S c = [i] :=
  List.perm_singleton.mp (h ▸ intersectionsAhead_perm c)

theorem intersectionsAhead_nil {c : Car D}
    (h : g.intersections.filter c.isAhead = []) : g.intersectionsAhead S c = [] :=
  List.perm_nil.mp (h ▸ intersectionsAhead_perm c)

/-- Distinct intersections have distinct addresses in every list of intersections ahead. -/
theorem nodup_footprint (hd : (g.intersections.map (·.addr)).Nodup) (c : Car D) :
    (g.footprint S c).Nodup := by
  have h : (g.footprint S c).Perm ((g.intersections.filter c.isAhead).map (·.addr)) :=
    (intersectionsAhead_perm c).map _
  exact h.nodup_iff.mpr (hd.sublist (List.filter_sublist.map _))

/-- Of distinct intersections, one is in a list when its address is. -/
theorem mem_of_addr_mem (hd : (g.intersections.map (·.addr)).Nodup) {i : Intersection D}
    (hi : i ∈ g.intersections) {c : Car D} (h : i.addr ∈ g.footprint S c) :
    i ∈ g.intersectionsAhead S c := by
  obtain ⟨j, hj, e⟩ := List.mem_map.mp h
  rwa [← List.inj_on_of_nodup_map hd (mem_intersectionsAhead.mp hj).1 hi e]

/-! ### Who gets an intersection -/

theorem reserveHuman_mem (hd : (g.intersections.map (·.addr)).Nodup) {i : Intersection D}
    (hi : i ∈ g.intersectionsAhead S g.human.toCar) (σ : Windows D) :
    g.reserveHuman S σ i.addr = some (g.humanWindow i) :=
  foldl_setWindow_mem g.humanWindow hi (nodup_footprint hd g.human.toCar) σ

/-- An auto that finds an empty intersection gets it. -/
theorem setMinWindows_planned (hd : (g.intersections.map (·.addr)).Nodup) {a : Auto D}
    {σ : Windows D} {pre post : List (Intersection D)} {i : Intersection D}
    (hl : g.intersectionsAhead S a.toCar = pre ++ i :: post) (hσ : σ i.addr = none) :
    (g.setMinWindows S a σ).2 i.addr =
      some ((pre.foldl (setMinWindowsStep a) (Planner.start a σ)).planned a i) := by
  have hn := nodup_footprint (S := S) hd a.toCar
  simp only [footprint, hl, List.map_append, List.map_cons] at hn
  have hpre : i.addr ∉ pre.map (·.addr) := fun h =>
    List.disjoint_of_nodup_append hn h List.mem_cons_self
  have h₀ : (pre.foldl (setMinWindowsStep a) (Planner.start a σ)).windows i.addr = none := by
    rw [foldl_windows_frame pre hpre]
    exact hσ
  simp only [setMinWindows, setMinWindowsLoop, hl, List.foldl_append, List.foldl_cons]
  rw [foldl_keeps post step_windows_self, h₀, Option.getD_none]

/-- **Reservation precedence.**  From empty windows, an intersection ahead of the human is the
human's; another one that is ahead of some auto has the window planned by the first such auto,
from when that auto has planned on; one that is ahead of no car has no window. -/
theorem findAccelerations_precedence (hd : (g.intersections.map (·.addr)).Nodup) :
    (∀ i ∈ g.intersectionsAhead S g.human.toCar,
      (g.findAccelerations S Windows.empty).2 i.addr =
        some ⟨Car.calculateTime (g.human.posOfIntersection i - g.human.position)
          g.human.velocity Car.maxAcc, Double.infinity⟩) ∧
    (∀ before a after pre i post, g.autos = before ++ a :: after →
      g.intersectionsAhead S a.toCar = pre ++ i :: post →
      i ∉ g.intersectionsAhead S g.human.toCar →
      (∀ b ∈ before, i ∉ g.intersectionsAhead S b.toCar) →
      let s := pre.foldl (setMinWindowsStep a)
        (Planner.start a (g.windowsAfter S Windows.empty before))
      (∀ later, g.windowsAfter S Windows.empty (before ++ a :: later) i.addr =
        some (s.planned a i)) ∧
      (g.findAccelerations S Windows.empty).2 i.addr = some (s.planned a i)) ∧
    (∀ i ∈ g.intersections, i ∉ g.intersectionsAhead S g.human.toCar →
      (∀ a ∈ g.autos, i ∉ g.intersectionsAhead S a.toCar) →
      (g.findAccelerations S Windows.empty).2 i.addr = none) := by
  refine ⟨fun i hi => ?_, fun before a after pre i post hg hl hh hb => ?_, fun i hi hh ha => ?_⟩
  · exact windowsAfter_keeps (l := []) (reserveHuman_mem hd hi _) g.autos
  · have hi : i ∈ g.intersections :=
      (mem_intersectionsAhead.mp (hl ▸ List.mem_append_right pre List.mem_cons_self)).1
    -- nobody has written the window when `a` plans
    have h₀ : g.windowsAfter S Windows.empty before i.addr = none := by
      rw [windowsAfter_frame fun b hb' h => hb b hb' (mem_of_addr_mem hd hi h),
        reserveHuman_frame fun h => hh (mem_of_addr_mem hd hi h)]
      rfl
    have h₁ := setMinWindows_planned hd hl h₀
    rw [← windowsAfter_concat] at h₁
    refine ⟨fun later => ?_, ?_⟩
    · rw [List.append_cons]
      exact windowsAfter_keeps h₁ later
    · rw [findAccelerations_windows, hg, List.append_cons]
      exact windowsAfter_keeps h₁ after
  · rw [findAccelerations_windows,
      windowsAfter_frame fun a ha' h => ha a ha' (mem_of_addr_mem hd hi h),
      reserveHuman_frame fun h => hh (mem_of_addr_mem hd hi h)]
    rfl

/-- An auto on track `0` crosses the human's track `3` and then track `4`; the second crossing
of track `4` is ahead of nobody. -/
noncomputable def crossroads : Grid XReal where
  intersections := [⟨0, 0, 3, 1, 1, 2, 1⟩, ⟨1, 0, 4, 1, 1, 6, 1⟩, ⟨2, 1, 4, 1, 1, 6, 5⟩]
  autos := [⟨⟨0, 1, 0, 0⟩, 0⟩]
  human := ⟨⟨3, 1, 0, 0⟩⟩
  width := 10
  length := 10

theorem crossroads_precedence :
    (crossroads.findAccelerations StdSort.stable Windows.empty).2 0 =
        some ⟨Car.calculateTime (1 - 0) 0 Car.maxAcc, Double.infinity⟩ ∧
      (∃ s : Planner XReal,
        (crossroads.findAccelerations StdSort.stable Windows.empty).2 1 =
          some (s.planned ⟨⟨0, 1, 0, 0⟩, 0⟩ ⟨1, 0, 4, 1, 1, 6, 1⟩)) ∧
      (crossroads.findAccelerations StdSort.stable Windows.empty).2 2 = none := by
  have hd : (crossroads.intersections.map (·.addr)).Nodup := by decide
  obtain ⟨h₁, h₂, h₃⟩ := findAccelerations_precedence (S := StdSort.stable) hd
  refine ⟨?_, ?_, ?_⟩
  · refine h₁ ⟨0, 0, 3, 1, 1, 2, 1⟩ (mem_intersectionsAhead.mpr ⟨by simp [crossroads], ?_⟩)
    simp [crossroads, Car.isAhead, Car.posOfIntersection]
  · have hi : (⟨1, 0, 4, 1, 1, 6, 1⟩ : Intersection XReal) ∈
        crossroads.intersectionsAhead StdSort.stable ⟨0, 1, 0, 0⟩ :=
      mem_intersectionsAhead.mpr ⟨by simp [crossroads], by
        simp [Car.isAhead, Car.posOfIntersection]⟩
    obtain ⟨pre, post, hl⟩ := List.append_of_mem hi
    have := h₂ [] ⟨⟨0, 1, 0, 0⟩, 0⟩ [] pre _ post rfl hl (fun h => ?_) (by simp)
    · exact ⟨_, this.2⟩
    · have := (mem_intersectionsAhead.mp h).2
      simp [crossroads, Car.isAhead] at this
  · refine h₃ ⟨2, 1, 4, 1, 1, 6, 5⟩ (by simp [crossroads]) (fun h => ?_) (fun a ha h => ?_)
    · have := (mem_intersectionsAhead.mp h).2
      simp [crossroads, Car.isAhead] at this
    · obtain rfl : a = ⟨⟨0, 1, 0, 0⟩, 0⟩ := by simpa [crossroads] using ha
      have := (mem_intersectionsAhead.mp h).2
      simp [Car.isAhead] at this

end Grid

end DrivingSim
