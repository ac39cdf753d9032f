import DrivingSim.Simulation.RealGrid

/-!
# Simulation — what a car occupies

The planner registers the window from when a car is at an intersection to when it has left it with
its whole length, and the collision test compares the same two instants with a window that is
registered already.  But the test takes the width of the across track for the way out, and the
planner that of the track the car is on.

So the two agree, whatever the window and the motion are, exactly where the two widths are equal
(`agrees_iff_sameWidth`).  A car on an across track has no other width; for one on a down track
that is wider or narrower, a window that begins between the two exits tells them apart.
-/

namespace DrivingSim
open XReal

section Definitions

variable {D : Type} [Double D]

/-- The window that `set_min_windows` plans for a car that is at `pos` at `time`. -/
def Auto.plannedWindow (a : Auto D) (i : Intersection D) (time pos vel acc : D) : Window D :=
  let disp := a.posOfIntersection i - pos
  let w := a.createWindow disp vel acc (a.wdOfIntersection i)
  ⟨w.first + time, w.second + time⟩

theorem Planner.planned_eq (s : Planner D) (a : Auto D) (i : Intersection D) :
    s.planned a i = a.plannedWindow i s.time s.pos s.vel (s.acc a i) := rfl

/-- When the collision test takes the car to have left. -/
def Auto.acrossExit (a : Auto D) (i : Intersection D) (time pos vel acc : D) : D :=
  Car.calculateTime (a.posOfIntersection i - pos + a.length + i.acrossWd) vel acc + time

/-- The two intervals have an instant in common. -/
def Window.Meets (w b : Window D) : Prop := w.first ≤ b.second ∧ b.first ≤ w.second

theorem Auto.collision_eq_true {a : Auto D} {i : Intersection D} {b : Window D}
    {time pos vel acc : D} : a.collision (some b) i time pos vel acc = true ↔
      ¬ (a.acrossExit i time pos vel acc < b.first ∨
        b.second < (a.plannedWindow i time pos vel acc).first) := by
  rw [← Bool.not_eq_false]
  exact not_congr Auto.intervalsOverlap_eq_false

end Definitions

namespace Auto

variable {a : Auto XReal} {i : Intersection XReal} {b : Window XReal} {t p v c q l o x : ℝ}

/-- The times of a car that moves. -/
theorem times_fin (hq : a.posOfIntersection i = fin q) (hl : a.length = fin l)
    (ho : a.wdOfIntersection i = fin o) (hx : i.acrossWd = fin x)
    (hw : (a.plannedWindow i (fin t) (fin p) (fin v) (fin c)).first.IsReal) :
    a.plannedWindow i (fin t) (fin p) (fin v) (fin c) =
      ⟨fin (Capped.reckoned (1 / 2) v c (q - p) + t),
        fin (Capped.reckoned (1 / 2) v c (q - p + l + o) + t)⟩ ∧
    a.acrossExit i (fin t) (fin p) (fin v) (fin c) =
      fin (Capped.reckoned (1 / 2) v c (q - p + l + x) + t) := by
  have henter : (Car.calculateTime (fin (q - p)) (fin v) (fin c)).IsReal := by
    by_contra hno
    refine not_isReal_add hno (fin t) ?_
    rwa [plannedWindow, Car.createWindow, hq, sub_fin] at hw
  have htime := Car.calculateTime_reckoned (Car.isReal_calculateTime_iff.1 henter)
  constructor
  · simp only [plannedWindow, Car.createWindow, hq, ho, hl, sub_fin, add_fin, htime]
  · simp only [acrossExit, hq, hx, hl, sub_fin, add_fin, htime]

/-- Where the widths are equal the two exits are one. -/
theorem acrossExit_of_sameWidth (h : a.wdOfIntersection i = i.acrossWd)
    (time pos vel acc : XReal) :
    a.acrossExit i time pos vel acc = (a.plannedWindow i time pos vel acc).second := by
  rw [acrossExit, plannedWindow, Car.createWindow, h]

/-- A window that is a number at both ends meets the planned one, or lies before or after it. -/
theorem meets_iff {e o : ℝ} (hb₁ : b.first ≠ nan) (hb₂ : b.second ≠ nan) :
    (⟨fin e, fin o⟩ : Window XReal).Meets b ↔ ¬ (fin o < b.first ∨ b.second < fin e) := by
  rw [Window.Meets, fin_le_iff hb₂, le_fin_iff hb₁, not_or, and_comm]

/-! ### Equal widths -/

/-- The times of a car that goes on at `MAX_VEL`. -/
theorem times_atMaxVel (hq : a.posOfIntersection i = fin q) (hl : a.length = fin l)
    (ho : a.wdOfIntersection i = fin o) (hx : i.acrossWd = fin x) :
    a.plannedWindow i (fin 0) (fin p) (fin (1 / 2)) (fin 0) =
      ⟨fin (2 * (q - p)), fin (2 * (q - p + l + o))⟩ ∧
    a.acrossExit i (fin 0) (fin p) (fin (1 / 2)) (fin 0) = fin (2 * (q - p + l + x)) := by
  have hmoves : |(1 / 2 : ℝ)| ≤ 1 / 2 := by norm_num
  have htime : ∀ y : ℝ, Car.calculateTime (fin y) (fin (1 / 2)) (fin 0) = fin (2 * y) := by
    intro y
    rw [Car.calculateTime_fin (by norm_num) (.inr ⟨by norm_num, hmoves⟩), Capped.time_zero hmoves]
    congr 1
    ring
  constructor
  · simp only [plannedWindow, Car.createWindow, hq, ho, hl, sub_fin, add_fin, htime, add_zero]
  · simp only [acrossExit, hq, hx, hl, sub_fin, add_fin, htime, add_zero]

/-- **The widths.**  The two agree about every motion and every window exactly where the width of
the track that the car is on is that of the across track. -/
theorem agrees_iff_sameWidth (hi : i.IsReal) (hl : a.length.IsReal) :
    (∀ (b : Window XReal) (t p v c : ℝ), b.first ≠ nan → b.second ≠ nan →
      (a.plannedWindow i (fin t) (fin p) (fin v) (fin c)).first.IsReal →
      (a.collision (some b) i (fin t) (fin p) (fin v) (fin c) = true ↔
        (a.plannedWindow i (fin t) (fin p) (fin v) (fin c)).Meets b)) ↔
    a.wdOfIntersection i = i.acrossWd := by
  constructor
  · intro hagree
    obtain ⟨q, hq⟩ := Car.isReal_posOfIntersection (c := a.toCar) hi
    obtain ⟨o, ho⟩ := Car.isReal_wdOfIntersection (c := a.toCar) hi
    obtain ⟨x, hx⟩ := hi.acrossWd
    obtain ⟨l, hl⟩ := hl
    -- a car at the intersection, at `MAX_VEL`, and a window that begins between the two exits
    obtain ⟨hplanned, hexit⟩ := times_atMaxVel (p := q) hq hl ho hx
    have h := hagree ⟨fin (2 * l + o + x), pinf⟩ 0 q (1 / 2) 0 (fun h => by cases h)
      (fun h => by cases h) (by rw [hplanned]; exact isReal_fin _)
    rw [collision_eq_true, hplanned, hexit, meets_iff (fun h => by cases h) (fun h => by cases h),
      not_iff_not] at h
    simp only [fin_lt_fin, not_pinf_lt, or_false] at h
    rw [ho, hx]
    refine congrArg fin (le_antisymm (not_lt.1 fun hlt => ?_) (not_lt.1 fun hlt => ?_))
    · have := h.1 (by linarith)
      linarith
    · have := h.2 (by linarith)
      linarith
  · intro hsame b t p v c hb₁ hb₂ hw
    have hexits := acrossExit_of_sameWidth hsame (fin t) (fin p) (fin v) (fin c)
    obtain ⟨q, hq⟩ := Car.isReal_posOfIntersection (c := a.toCar) hi
    obtain ⟨o, ho⟩ := Car.isReal_wdOfIntersection (c := a.toCar) hi
    obtain ⟨x, hx⟩ := hi.acrossWd
    obtain ⟨l, hl⟩ := hl
    rw [collision_eq_true, hexits, (times_fin hq hl ho hx hw).1, meets_iff hb₁ hb₂]

end Auto

/-! ### Two crossings -/

/-- A car of length 1 on a down track. -/
noncomputable def downAuto : Auto XReal := ⟨⟨3, fin 1, fin 0, Car.maxVel⟩, 0⟩

/-- Both tracks are 5 wide. -/
noncomputable def evenCrossing : Intersection XReal := ⟨0, 0, 3, fin 5, fin 5, fin 1, fin 1⟩

/-- The across track is 5 wide, the down track 1. -/
noncomputable def wideCrossing : Intersection XReal := ⟨0, 0, 3, fin 5, fin 1, fin 1, fin 1⟩

theorem downAuto_onDownTrack (i : Intersection XReal) (ha : i.acrossId = 0) (hd : i.downId = 3) :
    downAuto.posOfIntersection i = i.downPos ∧ downAuto.wdOfIntersection i = i.downWd := by
  simp [Car.posOfIntersection, Car.wdOfIntersection, downAuto, ha, hd]

/-- Where the car takes 5 to cross, the two agree that it is still there at 8. -/
theorem evenCrossing_agrees :
    downAuto.collision (some ⟨fin 8, fin 9⟩) evenCrossing (fin 0) (fin 0) (fin (1 / 2)) (fin 0) =
      true := by
  obtain ⟨hpos, hwd⟩ := downAuto_onDownTrack evenCrossing rfl rfl
  have hi : evenCrossing.IsReal :=
    ⟨isReal_fin 5, isReal_fin 5, isReal_fin 1, isReal_fin 1⟩
  obtain ⟨hplanned, -⟩ := Auto.times_atMaxVel (p := 0) hpos rfl hwd rfl
  refine ((Auto.agrees_iff_sameWidth hi (isReal_fin 1)).2 hwd _ _ _ _ _ (fun h => by cases h)
    (fun h => by cases h) ?_).2 ?_
  · rw [hplanned]
    exact isReal_fin _
  · rw [hplanned, Window.Meets]
    simp only [fin_le_fin]
    norm_num

/-- **A collision that is none.**  The car has left at 6, and the window begins at 8. -/
theorem wideCrossing_disagrees :
    ¬ (downAuto.collision (some ⟨fin 8, fin 9⟩) wideCrossing (fin 0) (fin 0) (fin (1 / 2)) (fin 0) =
        true ↔
      (downAuto.plannedWindow wideCrossing (fin 0) (fin 0) (fin (1 / 2)) (fin 0)).Meets
        ⟨fin 8, fin 9⟩) := by
  obtain ⟨hpos, hwd⟩ := downAuto_onDownTrack wideCrossing rfl rfl
  obtain ⟨hplanned, hexit⟩ := Auto.times_atMaxVel (p := 0) hpos rfl hwd rfl
  rw [Auto.collision_eq_true, hplanned, hexit, Window.Meets]
  simp only [fin_lt_fin, fin_le_fin]
  norm_num

end DrivingSim
