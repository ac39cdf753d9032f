import DrivingSim.Support.StoppedMotion
import DrivingSim.Simulation.Acceleration
import DrivingSim.Simulation.Exclusion
import DrivingSim.Simulation.HumanWindow

/-!
# Simulation — cars that drive as planned

What `find_accelerations` returns for an auto is the acceleration for its nearest intersection.
Here the autos drive at it, by `calculate_pos`, and a car is in an intersection while its front is
past the beginning and its rear is not past the end (`Car.IsIn`).

A car at `MAX_ACC` is in an intersection exactly between the times that `calculate_time` gives
(`Car.Drives.between`), and one that waits gets there when it has waited
(`Car.Drives.waits`).  So what the planner says about windows is true of the cars:

* an auto whose nearest intersection is ahead of the human either is given `MAX_ACC`, and has left
  when the human gets there, however the human drives, or is given what is not a number
  (`findAccelerations_clear_of_human`);
* of two autos with the same nearest intersection, the second is not in it while the first is, if
  it can pass or wait as in `Exclusion.lean` (`findAccelerations_never_both`).
-/

namespace DrivingSim
open XReal

namespace Car

section Driving

variable {D : Type} [Double D]

/-- A car that has driven for a time at an acceleration is in an intersection. -/
def IsIn (c : Car D) (i : Intersection D) (acc time : D) : Prop :=
  c.posOfIntersection i - c.position < calculatePos c.velocity acc time ∧
    calculatePos c.velocity acc time <
      c.posOfIntersection i - c.position + c.length + c.wdOfIntersection i

/-- The window of a car at `MAX_ACC`. -/
def fastest (c : Car D) (i : Intersection D) : Window D :=
  c.createWindow (c.posOfIntersection i - c.position) c.velocity maxAcc (c.wdOfIntersection i)

end Driving

/-- A car that moves forwards, within the limit. -/
structure Moving (c : Car XReal) : Prop where
  isReal : c.IsReal
  length : 0 ≤ c.length
  forward : 0 ≤ c.velocity
  limit : c.velocity ≤ maxVel

theorem moving_of {c : Car XReal} {L v : ℝ} (hposition : c.position.IsReal)
    (hlength : c.length = fin L) (hvelocity : c.velocity = fin v) (hL : 0 ≤ L) (hv : 0 ≤ v)
    (hvM : v ≤ 1 / 2) : c.Moving where
  isReal := ⟨⟨L, hlength⟩, hposition, ⟨v, hvelocity⟩⟩
  length := by rwa [hlength, zero_eq, fin_le_fin]
  forward := by rwa [hvelocity, zero_eq, fin_le_fin]
  limit := by rwa [hvelocity, maxVel_eq, fin_le_fin]

/-- A car at a distance `D` from an intersection, with velocity `v`; it is `L` long, and the
intersection `o` wide. -/
structure Drives (c : Car XReal) (i : Intersection XReal) (D v L o : ℝ) : Prop where
  disp : c.posOfIntersection i - c.position = fin D
  velocity : c.velocity = fin v
  length : c.length = fin L
  width : c.wdOfIntersection i = fin o
  ahead : 0 < D
  forward : 0 ≤ v
  limit : v ≤ 1 / 2
  size : 0 ≤ L + o

namespace Drives

variable {c : Car XReal} {i : Intersection XReal} {D v L o acc t x T : ℝ}

theorem of_ahead {S : StdSort (Intersection XReal)} {g : Grid XReal} (hg : g.IsReal)
    (hc : c.Moving) (hahead : i ∈ g.intersectionsAhead S c) (hwd : 0 ≤ c.wdOfIntersection i) :
    ∃ D v L o, c.Drives i D v L o := by
  obtain ⟨p, hp⟩ := hc.isReal.position
  obtain ⟨v, hv⟩ := hc.isReal.velocity
  obtain ⟨L, hL⟩ := hc.isReal.length
  obtain ⟨q, hq⟩ := isReal_posOfIntersection (c := c) (hg.mem_ahead hahead)
  obtain ⟨o, ho⟩ := isReal_wdOfIntersection (c := c) (hg.mem_ahead hahead)
  have hlt := Grid.lt_of_mem_ahead hahead
  have hforward := hc.forward
  have hlimit := hc.limit
  have hlength := hc.length
  rw [hp, hq, fin_lt_fin] at hlt
  rw [hv, zero_eq, fin_le_fin] at hforward
  rw [hv, maxVel_eq, fin_le_fin] at hlimit
  rw [hL, zero_eq, fin_le_fin] at hlength
  rw [ho, zero_eq, fin_le_fin] at hwd
  exact ⟨q - p, v, L, o, by rw [hp, hq, sub_fin], hv, hL, ho, sub_pos.2 hlt, hforward, hlimit,
    add_nonneg hlength hwd⟩

theorem isIn_iff (h : c.Drives i D v L o) : c.IsIn i (fin acc) (fin t) ↔
    D < Capped.pos (1 / 2) v acc t ∧ Capped.pos (1 / 2) v acc t < D + L + o := by
  rw [IsIn, h.disp, h.velocity, h.length, h.width, calculatePos_fin h.limit, add_fin, add_fin,
    fin_lt_fin, fin_lt_fin]

/-- A car that is in the intersection has got there. -/
theorem enters (h : c.Drives i D v L o) (hav : acc ≠ 0 ∨ v ≠ 0) (ht : 0 ≤ t)
    (hin : c.IsIn i (fin acc) (fin t)) :
    0 ≤ v ^ 2 + 2 * acc * D ∧ Capped.time (1 / 2) v acc D ≤ t := by
  have hpos := (h.isIn_iff.1 hin).1.le
  exact Capped.time_le_of_le_held (by norm_num) h.forward h.limit hav h.ahead.le ht
    (hpos.trans (Capped.pos_le_held (by norm_num) h.forward ht))

/-- At `MAX_ACC`, a car that is in the intersection has not left. -/
theorem not_left (h : c.Drives i D v L o) (hin : c.IsIn i (fin 3) (fin t)) :
    t < Capped.time (1 / 2) v 3 (D + L + o) := by
  have hpos := (h.isIn_iff.1 hin).2
  have hX : 0 ≤ D + L + o := by linarith [h.ahead, h.size]
  have hE : 0 ≤ v ^ 2 + 2 * 3 * (D + L + o) := by positivity
  by_contra hle
  have htime := Capped.pos_time (M := 1 / 2) (by norm_num) h.forward h.limit
    (.inl three_ne_zero) hE
  rcases (not_lt.1 hle).eq_or_lt with heq | hlt
  · rw [← heq, htime] at hpos
    exact lt_irrefl _ hpos
  · have hmono := Capped.pos_lt_pos (M := 1 / 2) (by norm_num) h.forward h.limit three_pos
      (Capped.time_nonneg (by norm_num) three_pos hX) hlt
    linarith

/-- **When a car at `MAX_ACC` is in the intersection.** -/
theorem between (h : c.Drives i D v L o) (ht : 0 ≤ t)
    (hin : c.IsIn i (fin 3) (fin t)) :
    Capped.time (1 / 2) v 3 D ≤ t ∧ t < Capped.time (1 / 2) v 3 (D + L + o) :=
  ⟨(h.enters (.inl three_ne_zero) ht hin).2, h.not_left hin⟩

/-- The times of a car at `MAX_ACC`. -/
theorem time_eq (h : c.Drives i D v L o) (hx : 0 ≤ x) :
    calculateTime (fin x) c.velocity maxAcc = fin (Capped.time (1 / 2) v 3 x) := by
  have hE : 0 ≤ v ^ 2 + 2 * 3 * x := by positivity
  rw [h.velocity, maxAcc_eq, calculateTime_fin hE (.inl three_ne_zero)]

/-- **When a car that waits is in the intersection.** -/
theorem waits (h : c.Drives i D v L o) (hwait : WaitsFor D v T) (ht : 0 ≤ t)
    (hin : c.IsIn i (calculateAcc (fin D) (fin v) (fin T)) (fin t)) : T ≤ t := by
  obtain ⟨acc, hacc, hav, -, hle⟩ := hwait.acc
  rw [hacc] at hin
  exact hle.trans (h.enters (hav.imp_right And.left) ht hin).2

end Drives

/-- **The human is not there yet**, however it drives. -/
theorem drive_lt {disp v : ℝ} (hd : 0 ≤ disp) (hv : 0 ≤ v) (hvM : v ≤ 1 / 2) {l : List (ℝ × ℝ)}
    (hl : ∀ g ∈ l, g.1 ≤ 3 ∧ 0 ≤ g.2)
    (h : (l.map Prod.snd).sum < Capped.time (1 / 2) v 3 disp) :
    (Capped.drive (1 / 2) (0, v) l).1 < disp := by
  have hE : 0 ≤ v ^ 2 + 2 * 3 * disp := by positivity
  have hsum : 0 ≤ (l.map Prod.snd).sum := List.sum_nonneg fun t ht => by
    obtain ⟨g, hg, rfl⟩ := List.mem_map.1 ht
    exact (hl g hg).2
  by_contra hge
  have hle := Capped.drive_le (x := 0) l hl hvM
  exact not_le.2 h (Capped.time_le (by norm_num) hv hvM three_pos hE hsum (by linarith))

end Car

theorem Car.Drives.fastest_eq {c : Car XReal} {i : Intersection XReal} {D v L o : ℝ}
    (h : c.Drives i D v L o) : c.fastest i =
      ⟨fin (Capped.time (1 / 2) v 3 D), fin (Capped.time (1 / 2) v 3 (D + L + o))⟩ := by
  have hX : 0 ≤ D + L + o := by linarith [h.ahead, h.size]
  rw [fastest, createWindow, h.disp, h.length, h.width, add_fin, add_fin, h.time_eq h.ahead.le,
    h.time_eq hX]

/-- The car can be brought to the intersection at an instant. -/
def Car.CanWait (c : Car XReal) (i : Intersection XReal) (instant : XReal) : Prop :=
  ∃ D v T : ℝ, c.posOfIntersection i - c.position = fin D ∧ c.velocity = fin v ∧
    instant = fin T ∧ WaitsFor D v T

/-- The test at the start of the plan, for a car at `MAX_ACC`. -/
theorem Auto.collision_start {a : Auto XReal} {i : Intersection XReal} {D v L o w : ℝ}
    (h : a.toCar.Drives i D v L o) (hw : i.acrossWd = fin w) (hsize : 0 ≤ L + w)
    {b : Window XReal} :
    a.collision (some b) i 0 a.position a.velocity Car.maxAcc = false ↔
      fin (Capped.time (1 / 2) v 3 (D + L + w)) < b.first ∨
        b.second < fin (Capped.time (1 / 2) v 3 D) := by
  have hX : 0 ≤ D + L + w := by linarith [h.ahead]
  rw [collision, intervalsOverlap_eq_false, h.disp, h.length, hw, add_fin, add_fin, h.time_eq hX,
    h.time_eq h.ahead.le, zero_eq, add_fin, add_fin, add_zero, add_zero]

namespace Grid

variable {S : StdSort (Intersection XReal)} {g : Grid XReal} {σ : Windows XReal}
  {before after : List (Auto XReal)} {a b : Auto XReal} {i : Intersection XReal}
  {rest rest' : List (Intersection XReal)}

/-- **No crash with the human.**  An auto whose nearest intersection is ahead of the human is given
`MAX_ACC` if at `MAX_ACC` it leaves before the human can be there, and what is not a number if it
does not.  If it drives at what it is given and its track is no wider than the one it is tested
with, then the human, however it drives within the limits, is not there yet at any instant at which
the auto is. -/
theorem findAccelerations_clear_of_human (hg : g.IsReal)
    (hd : (g.intersections.map (·.addr)).Nodup) (hautos : g.autos = before ++ a :: after)
    (hahead : g.intersectionsAhead S a.toCar = i :: rest)
    (hhuman : i ∈ g.intersectionsAhead S g.human.toCar) (ha : a.toCar.Moving)
    (hh : g.human.toCar.Moving) (hwd : 0 ≤ a.wdOfIntersection i)
    (hwider : a.wdOfIntersection i ≤ i.acrossWd) (hwd' : 0 ≤ g.human.wdOfIntersection i) :
    ∃ acc, (g.findAccelerations S σ).1[before.length]? = some acc ∧
      (Car.calculateTime (a.posOfIntersection i - a.position + a.length + i.acrossWd) a.velocity
          Car.maxAcc < (g.humanWindow i).first ∧ acc = Car.maxAcc ∧
        (∀ segments : List (ℝ × ℝ), (∀ segment ∈ segments, (Car.minAcc : XReal) ≤ fin segment.1 ∧
            fin segment.1 ≤ (Car.maxAcc : XReal) ∧ 0 ≤ segment.2) →
          a.toCar.IsIn i acc (fin (segments.map Prod.snd).sum) →
          (Car.drive (fin 0, g.human.velocity) (Car.toDoubles segments)).1 <
            g.human.posOfIntersection i - g.human.position) ∨
      ¬ Car.calculateTime (a.posOfIntersection i - a.position + a.length + i.acrossWd) a.velocity
          Car.maxAcc < (g.humanWindow i).first ∧ acc = nan) := by
  obtain ⟨D, v, L, o, hdrives⟩ := Car.Drives.of_ahead hg ha (hahead ▸ List.mem_cons_self) hwd
  obtain ⟨D', v', L', o', hdrives'⟩ := Car.Drives.of_ahead hg hh hhuman hwd'
  obtain ⟨w, hw⟩ := (hg.mem_ahead hhuman).acrossWd
  have how : o ≤ w := by rwa [hdrives.width, hw, fin_le_fin] at hwider
  have hsize : 0 ≤ L + w := by linarith [hdrives.size]
  have hX : 0 ≤ D + L + o := by linarith [hdrives.ahead, hdrives.size]
  have hX' : 0 ≤ D + L + w := by linarith
  -- the window of the human is there when the auto plans
  have hwindow : g.windowsAfter S σ before i.addr = some (g.humanWindow i) :=
    windowsAfter_keeps (l := []) (reserveHuman_mem hd hhuman σ) before
  have hfirst : (g.humanWindow i).first = fin (Capped.time (1 / 2) v' 3 D') := by
    rw [humanWindow]
    dsimp only
    rw [hdrives'.disp, hdrives'.time_eq hdrives'.ahead.le]
  have hsecond : (g.humanWindow i).second = pinf := infinity_eq
  have htest := Auto.collision_start hdrives hw hsize (b := g.humanWindow i)
  rw [hfirst, hsecond, fin_lt_fin, or_iff_left (not_pinf_lt _)] at htest
  refine ⟨_, findAccelerations_acc hautos, ?_⟩
  rw [setMinWindows_acc hahead, hwindow, hfirst, hdrives.disp, hdrives.length, hw, add_fin, add_fin,
    hdrives.time_eq hX', fin_lt_fin, ← htest]
  cases hc : a.collision (some (g.humanWindow i)) i 0 a.position a.velocity Car.maxAcc with
  | false =>
      rw [Auto.optimalAcc_of_not_collision hc]
      refine .inl ⟨rfl, rfl, fun segments hsegments hin => ?_⟩
      simp only [Car.maxAcc_eq, Car.minAcc_eq, fin_le_fin] at hsegments hin
      have hleave := hdrives.not_left hin
      have hwide := Capped.time_le_time (M := 1 / 2) (by norm_num) three_pos
        (show 0 ≤ v ^ 2 + 2 * 3 * (D + L + o) by positivity)
        (show D + L + o ≤ D + L + w by linarith)
      have hclear := htest.1 hc
      rw [hdrives'.disp, hdrives'.velocity, Car.drive_fin segments hdrives'.limit, fin_lt_fin]
      exact Car.drive_lt hdrives'.ahead.le hdrives'.forward hdrives'.limit
        (fun segment hs => (hsegments segment hs).2) (by linarith)
  | true =>
      refine .inr ⟨fun h => Bool.false_ne_true h.symm, ?_⟩
      rw [Auto.optimalAcc_of_collision hc, hdrives.disp, hdrives.velocity, hsecond]
      exact Car.calculateAcc_of_raw_nan
        (Car.calculateAccRaw_of_not_isReal D v (mt isReal_sub_zero.1 not_isReal_pinf))

/-- The first of the two is given `MAX_ACC` and reserves the intersection. -/
theorem first_of_two {D v L o : ℝ} (hdrives : a.toCar.Drives i D v L o)
    (hfree : g.windowsAfter S σ before i.addr = none)
    (hahead : g.intersectionsAhead S a.toCar = i :: rest) (mid : List (Auto XReal)) :
    (g.setMinWindows S a (g.windowsAfter S σ before)).1 = Car.maxAcc ∧
      g.windowsAfter S σ (before ++ a :: mid) i.addr = some (a.toCar.fastest i) := by
  have hacc : a.optimalAcc none i 0 a.position a.velocity = Car.maxAcc :=
    Auto.optimalAcc_of_not_collision rfl
  refine ⟨by rw [setMinWindows_acc hahead, hfree, hacc], ?_⟩
  rw [List.append_cons]
  refine windowsAfter_keeps ?_ mid
  rw [windowsAfter_concat, setMinWindows, setMinWindowsLoop, hahead, List.foldl_cons]
  refine foldl_keeps rest ?_
  have hwindows : (Planner.start a (g.windowsAfter S σ before)).windows i.addr = none := hfree
  have hplanned : (Planner.start a (g.windowsAfter S σ before)).planned a i =
      a.toCar.fastest i := by
    have hwindow : (Planner.start a (g.windowsAfter S σ before)).window a i =
        a.toCar.fastest i := by
      rw [Planner.window, Planner.acc, hwindows]
      exact congrArg (a.createWindow _ a.velocity · _) hacc
    rw [Planner.planned, hwindow, hdrives.fastest_eq]
    show Window.mk (_ + (0 : XReal)) (_ + (0 : XReal)) = _
    rw [zero_eq, add_fin, add_fin, add_zero, add_zero]
  rw [step_windows_self, hwindows, Option.getD_none, hplanned]

/-- **No crash of two autos.**  Two autos have the same nearest intersection, which neither the
human nor an auto before them has ahead, and which holds no window.  If the track of the second is
no wider than the one it is tested with, and the second can wait where `collision` says that it
should, then they are never in the intersection at the same instant when both drive at what they
are given. -/
theorem findAccelerations_never_both {mid : List (Auto XReal)} (hg : g.IsReal)
    (hautos : g.autos = before ++ a :: (mid ++ b :: after))
    (hahead : g.intersectionsAhead S a.toCar = i :: rest)
    (hahead' : g.intersectionsAhead S b.toCar = i :: rest') (hfree : σ i.addr = none)
    (hhuman : i.addr ∉ g.footprint S g.human.toCar)
    (hothers : ∀ c ∈ before, i.addr ∉ g.footprint S c.toCar)
    (ha : a.toCar.Moving) (hb : b.toCar.Moving) (hwd : 0 ≤ a.wdOfIntersection i)
    (hwd' : 0 ≤ b.wdOfIntersection i) (hwider : b.wdOfIntersection i ≤ i.acrossWd)
    (hwait : b.collision (some (a.toCar.fastest i)) i 0 b.position b.velocity Car.maxAcc = true →
      b.toCar.CanWait i (a.toCar.fastest i).second) :
    ∃ acc acc', (g.findAccelerations S σ).1[before.length]? = some acc ∧
      (g.findAccelerations S σ).1[(before ++ a :: mid).length]? = some acc' ∧
      ∀ t : ℝ, 0 ≤ t → ¬ (a.toCar.IsIn i acc (fin t) ∧ b.toCar.IsIn i acc' (fin t)) := by
  have hmem : i ∈ g.intersectionsAhead S b.toCar := hahead' ▸ List.mem_cons_self
  obtain ⟨D, v, L, o, hdrives⟩ := Car.Drives.of_ahead hg ha (hahead ▸ List.mem_cons_self) hwd
  obtain ⟨D', v', L', o', hdrives'⟩ := Car.Drives.of_ahead hg hb hmem hwd'
  obtain ⟨w, hw⟩ := (hg.mem_ahead hmem).acrossWd
  have how : o' ≤ w := by rwa [hdrives'.width, hw, fin_le_fin] at hwider
  have hsize : 0 ≤ L' + w := by linarith [hdrives'.size]
  have hX : 0 ≤ D' + L' + o' := by linarith [hdrives'.ahead, hdrives'.size]
  have hfree' : g.windowsAfter S σ before i.addr = none := by
    rw [windowsAfter_frame hothers, reserveHuman_frame hhuman, hfree]
  obtain ⟨hacc, hwindow⟩ := first_of_two hdrives hfree' hahead mid
  have hautos' : g.autos = (before ++ a :: mid) ++ b :: after := by
    rw [hautos, List.append_assoc, List.cons_append]
  refine ⟨_, _, findAccelerations_acc hautos, findAccelerations_acc hautos', ?_⟩
  rw [hacc, Car.maxAcc_eq, setMinWindows_acc hahead', hwindow]
  rintro t ht ⟨hin, hin'⟩
  obtain ⟨henter, hleave⟩ := hdrives.between ht hin
  have hfastest := hdrives.fastest_eq
  cases hc : b.collision (some (a.toCar.fastest i)) i 0 b.position b.velocity Car.maxAcc with
  | false =>
      rw [Auto.optimalAcc_of_not_collision hc, Car.maxAcc_eq] at hin'
      obtain ⟨henter', hleave'⟩ := hdrives'.between ht hin'
      have hwide := Capped.time_le_time (M := 1 / 2) (by norm_num) three_pos
        (show 0 ≤ v' ^ 2 + 2 * 3 * (D' + L' + o') by positivity)
        (show D' + L' + o' ≤ D' + L' + w by linarith)
      have htest := (Auto.collision_start hdrives' hw hsize).1 hc
      rw [hfastest, fin_lt_fin, fin_lt_fin] at htest
      rcases htest with hbefore | hafter
      · linarith
      · linarith
  | true =>
      obtain ⟨D₁, v₁, T, hD₁, hv₁, hT, hwaits⟩ := hwait hc
      obtain rfl : D₁ = D' := XReal.fin.inj (hD₁.symm.trans hdrives'.disp)
      obtain rfl : v₁ = v' := XReal.fin.inj (hv₁.symm.trans hdrives'.velocity)
      rw [hfastest] at hT
      obtain rfl := XReal.fin.inj hT
      rw [Auto.optimalAcc_of_collision hc, hD₁, hv₁, hfastest, zero_eq, sub_fin, sub_zero] at hin'
      exact not_lt.2 (hdrives'.waits hwaits ht hin') hleave

/-! ### Two crossings -/

/-- The long auto leaves the crossing at `35`. -/
theorem longAuto_fastest : (longAuto.toCar.fastest (twoCrossing 13 1)).second = fin 35 := by
  have htime := Car.calculateTime_cap (show (0 : ℝ) ≤ 35 / 2 by norm_num)
  simp only [Car.fastest, Car.createWindow, longAuto, twoCrossing, Car.posOfIntersection,
    Car.wdOfIntersection, ofNat_eq, ofScientific_eq, Car.maxVel_eq, Car.maxAcc_eq]
  norm_num [htime]

/-- The second auto waits for the first. -/
theorem twoAutos_never_both : ∃ acc acc',
    ((twoAutos 13 1 1).findAccelerations StdSort.stable Windows.empty).1[0]? = some acc ∧
      ((twoAutos 13 1 1).findAccelerations StdSort.stable Windows.empty).1[1]? = some acc' ∧
      ∀ t : ℝ, 0 ≤ t → ¬ (longAuto.toCar.IsIn (twoCrossing 13 1) acc (fin t) ∧
        (waitingAuto 1).toCar.IsIn (twoCrossing 13 1) acc' (fin t)) := by
  have hg := twoAutos_isReal (d := 13) (l := 1) (w := 1)
  obtain ⟨h₁, h₂, h₃⟩ :=
    twoAutos_ahead (l := 1) (w := 1) StdSort.stable (by norm_num : (0 : ℝ) < 13)
  have hlong : longAuto.toCar.Moving := Car.moving_of (isReal_fin 0) (ofNat_eq _) Car.maxVel_eq
    (by norm_num) (by norm_num) le_rfl
  have hwaiting : (waitingAuto 1).toCar.Moving := Car.moving_of (isReal_fin 0) rfl Car.maxVel_eq
    zero_le_one (by norm_num) le_rfl
  have hwd : longAuto.wdOfIntersection (twoCrossing 13 1) = fin 1 := by
    simp [longAuto, twoCrossing, Car.wdOfIntersection]
  have hwd' : (waitingAuto 1).wdOfIntersection (twoCrossing 13 1) = fin 1 := if_pos rfl
  have hone : (0 : XReal) ≤ fin 1 := by rw [zero_eq, fin_le_fin]; exact zero_le_one
  have hautos : (twoAutos 13 1 1).autos = [] ++ longAuto :: ([] ++ waitingAuto 1 :: []) := rfl
  refine findAccelerations_never_both hg hautos h₁ h₂ rfl ?_
    (fun c hc => absurd hc List.not_mem_nil) hlong hwaiting (hwd ▸ hone) (hwd' ▸ hone)
    (hwd' ▸ fin_le_fin.2 le_rfl) fun _ => ?_
  · rw [footprint, h₃]
    exact List.not_mem_nil
  · rw [longAuto_fastest]
    refine ⟨13, 1 / 2, 35, ?_, Car.maxVel_eq, rfl, by norm_num, by norm_num, .inr (by norm_num),
      .inl (by norm_num)⟩
    norm_num [waitingAuto, twoCrossing, Car.posOfIntersection]

/-- The crossing is `1` ahead of the auto and `10` ahead of the human. -/
noncomputable def farCrossing : Intersection XReal := ⟨0, 0, 3, fin 1, fin 1, fin 1, fin 10⟩

noncomputable def clearCrossing : Grid XReal :=
  ⟨[farCrossing], [fastAuto], ⟨⟨3, fin 1, fin 0, Car.maxVel⟩⟩, 20, 20⟩

theorem clearCrossing_ahead (S : StdSort (Intersection XReal)) :
    clearCrossing.intersectionsAhead S fastAuto.toCar = [farCrossing] ∧
      clearCrossing.intersectionsAhead S clearCrossing.human.toCar = [farCrossing] :=
  ⟨intersectionsAhead_singleton (by
      simp [clearCrossing, farCrossing, fastAuto, Car.isAhead, Car.posOfIntersection]),
    intersectionsAhead_singleton (by
      simp [clearCrossing, farCrossing, Car.isAhead, Car.posOfIntersection])⟩

theorem clearCrossing_isReal : clearCrossing.IsReal := by
  refine ⟨fun i hi => ?_, fun a ha => ?_, ⟨isReal_fin _, isReal_fin _, ⟨_, Car.maxVel_eq⟩⟩⟩
  · obtain rfl := List.mem_singleton.1 hi
    exact ⟨isReal_fin _, isReal_fin _, isReal_fin _, isReal_fin _⟩
  · obtain rfl := List.mem_singleton.1 ha
    exact ⟨isReal_fin _, isReal_fin _, ⟨_, Car.maxVel_eq⟩⟩

/-- The auto is out of the crossing at `6`, and the human is there at `20` at the earliest. -/
theorem clearCrossing_clear :
    (clearCrossing.findAccelerations StdSort.stable Windows.empty).1[0]? = some Car.maxAcc ∧
      ∀ segments : List (ℝ × ℝ), (∀ segment ∈ segments, (Car.minAcc : XReal) ≤ fin segment.1 ∧
          fin segment.1 ≤ (Car.maxAcc : XReal) ∧ 0 ≤ segment.2) →
        fastAuto.toCar.IsIn farCrossing Car.maxAcc (fin (segments.map Prod.snd).sum) →
        (Car.drive (fin 0, clearCrossing.human.velocity) (Car.toDoubles segments)).1 <
          clearCrossing.human.posOfIntersection farCrossing - clearCrossing.human.position := by
  obtain ⟨hl, hh⟩ := clearCrossing_ahead StdSort.stable
  have hautos : clearCrossing.autos = [] ++ fastAuto :: [] := rfl
  have hauto : fastAuto.toCar.Moving := Car.moving_of (isReal_fin 0) rfl Car.maxVel_eq zero_le_one
    (by norm_num) le_rfl
  have hhuman : clearCrossing.human.toCar.Moving := Car.moving_of (isReal_fin 0) rfl Car.maxVel_eq
    zero_le_one (by norm_num) le_rfl
  have hwd : fastAuto.wdOfIntersection farCrossing = fin 1 := if_pos rfl
  have hwd' : clearCrossing.human.wdOfIntersection farCrossing = fin 1 := by
    simp [clearCrossing, farCrossing, Car.wdOfIntersection]
  have hone : (0 : XReal) ≤ fin 1 := by rw [zero_eq, fin_le_fin]; exact zero_le_one
  have hpos : clearCrossing.human.posOfIntersection farCrossing = fin 10 := by
    simp [clearCrossing, farCrossing, Car.posOfIntersection]
  have hleave := Car.calculateTime_cap (show (0 : ℝ) ≤ 3 by norm_num)
  have harrive := Car.calculateTime_cap (show (0 : ℝ) ≤ 10 by norm_num)
  obtain ⟨acc, hacc, ⟨-, rfl, hclear⟩ | ⟨hlate, -⟩⟩ :=
    findAccelerations_clear_of_human (σ := Windows.empty) clearCrossing_isReal
      (List.nodup_singleton _) hautos hl (hh ▸ List.mem_singleton_self _) hauto hhuman (hwd ▸ hone)
      (hwd ▸ fin_le_fin.2 le_rfl) (hwd' ▸ hone)
  · exact ⟨hacc, hclear⟩
  · refine absurd ?_ hlate
    rw [humanWindow, hpos]
    simp only [fastAuto, farCrossing, clearCrossing, Car.posOfIntersection, if_true, sub_fin,
      add_fin, Car.maxVel_eq, Car.maxAcc_eq]
    norm_num [hleave, harrive]

end Grid

end DrivingSim
