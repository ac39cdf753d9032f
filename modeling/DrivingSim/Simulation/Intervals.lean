import DrivingSim.Simulation.Exclusion

/-!
# Simulation — the windows as intervals of time

A window is an interval when the auto enters the intersection and leaves it later.  An auto that
speeds up does.  One that slows down to wait leaves only if it does not stop before: the
acceleration that brings it to the intersection at the right instant may be too low for it to
get out again (`LeavesFrom`).  Where it stops inside, `calculate_time` takes the square root of
a negative number and goes on as at `MAX_VEL`, to an exit before the entry
(`waitingAuto_backwards`).

When every auto that waits gets out again, and the intersections on a track are at least a
length and a width apart, all windows of a run are intervals, and those of one auto follow each
other (`findAccelerations_inOrder`).  The invariant is that the auto is not yet at the next
intersection, at an instant that is not negative.
-/

namespace DrivingSim
open XReal

/-! ### Leaving the intersection -/

/-- A car that should be at the distance `D` in the time `T` either speeds up, or slows down and
gets as far as `X` before it stops. -/
structure LeavesFrom (D X v T : ℝ) : Prop where
  pos : 0 < T
  forward : v * T < D ∨
    0 < v ∧ v ≤ 1 / 2 ∧ (6 * X ≤ v ^ 2 ∨ 4 * X * (v * T - D) ≤ v ^ 2 * T ^ 2)

theorem Car.interval_of_pos {D X v a : ℝ} (ha : 0 < a) (hD : 0 ≤ D) (hX : D ≤ X) :
    ∃ t₁ t₂ : ℝ, Car.calculateTime (fin D) (fin v) (fin a) = fin t₁ ∧
      Car.calculateTime (fin X) (fin v) (fin a) = fin t₂ ∧ 0 ≤ t₁ ∧ t₁ ≤ t₂ := by
  have hE : 0 ≤ v ^ 2 + 2 * a * D := by positivity
  have hE' : 0 ≤ v ^ 2 + 2 * a * X := by
    have := hD.trans hX
    positivity
  exact ⟨_, _, Car.calculateTime_fin hE (.inl ha.ne'), Car.calculateTime_fin hE' (.inl ha.ne'),
    Capped.time_nonneg (by norm_num) ha hD, Capped.time_le_time (by norm_num) ha hE hX⟩

theorem Car.interval_of_nonpos {D X v a : ℝ} (ha : a ≤ 0) (hv : 0 < v) (hvM : v ≤ 1 / 2)
    (hD : 0 ≤ D) (hX : D ≤ X) (hE : 0 ≤ v ^ 2 + 2 * a * X) :
    ∃ t₁ t₂ : ℝ, Car.calculateTime (fin D) (fin v) (fin a) = fin t₁ ∧
      Car.calculateTime (fin X) (fin v) (fin a) = fin t₂ ∧ 0 ≤ t₁ ∧ t₁ ≤ t₂ := by
  have hE' : 0 ≤ v ^ 2 + 2 * a * D := by nlinarith
  have hav : a ≠ 0 ∨ v ≠ 0 ∧ |v| ≤ 1 / 2 := .inr ⟨hv.ne', by rwa [abs_of_pos hv]⟩
  exact ⟨_, _, Car.calculateTime_fin hE' hav, Car.calculateTime_fin hE hav,
    Capped.time_le_time_of_nonpos ha hv hvM hD hX⟩

/-- **A car that waits and leaves** enters no earlier than now and leaves no earlier than it
enters. -/
theorem LeavesFrom.interval {D X v T : ℝ} (h : LeavesFrom D X v T) (hD : 0 ≤ D) (hX : D ≤ X) :
    ∃ a t₁ t₂ : ℝ, Car.calculateAcc (fin D) (fin v) (fin T) = fin a ∧
      Car.calculateTime (fin D) (fin v) (fin a) = fin t₁ ∧
      Car.calculateTime (fin X) (fin v) (fin a) = fin t₂ ∧
      (a ≠ 0 ∨ v ≠ 0 ∧ |v| ≤ 1 / 2) ∧ 0 ≤ t₁ ∧ t₁ ≤ t₂ := by
  have hT₂ : 0 < T ^ 2 := by
    have := h.pos
    positivity
  obtain ⟨r, hr⟩ : ∃ r, r = 2 * (D - v * T) / T ^ 2 := ⟨_, rfl⟩
  have hacc : Car.calculateAcc (fin D) (fin v) (fin T) = fin (max (-3) (min 3 r)) := by
    rw [Car.calculateAcc_fin D v h.pos.ne', hr]
  by_cases hDv : v * T < D
  · have hr₀ : 0 < r := by
      rw [hr]
      exact div_pos (by linarith) hT₂
    have ha : 0 < max (-3) (min 3 r) := lt_max_of_lt_right (lt_min three_pos hr₀)
    obtain ⟨t₁, t₂, h₁, h₂, ht⟩ := Car.interval_of_pos (v := v) ha hD hX
    exact ⟨_, t₁, t₂, hacc, h₁, h₂, .inl ha.ne', ht⟩
  · obtain ⟨hv, hvM, hleave⟩ := h.forward.resolve_left hDv
    have hr₀ : r ≤ 0 := by
      rw [hr]
      exact div_nonpos_of_nonpos_of_nonneg (by linarith) hT₂.le
    rw [min_eq_right (by linarith)] at hacc
    have hX₀ : 0 ≤ X := hD.trans hX
    -- the velocity at `X` is that of a car that has not stopped
    have hE : 0 ≤ v ^ 2 + 2 * max (-3) r * X := by
      rcases hleave with h₃ | hr'
      · have : -3 * X ≤ max (-3) r * X := mul_le_mul_of_nonneg_right (le_max_left _ _) hX₀
        linarith
      · have h₁ : r * X ≤ max (-3) r * X := mul_le_mul_of_nonneg_right (le_max_right _ _) hX₀
        have h₂ : 0 ≤ v ^ 2 + 2 * r * X := by
          have hT := h.pos.ne'
          rw [hr, show v ^ 2 + 2 * (2 * (D - v * T) / T ^ 2) * X =
            (v ^ 2 * T ^ 2 - 4 * X * (v * T - D)) / T ^ 2 by field_simp; ring]
          exact div_nonneg (by linarith) hT₂.le
        linarith
    obtain ⟨t₁, t₂, h₁, h₂, ht⟩ :=
      Car.interval_of_nonpos (max_le (by norm_num) hr₀) hv hvM hD hX hE
    exact ⟨_, t₁, t₂, hacc, h₁, h₂, .inr ⟨hv.ne', by rwa [abs_of_pos hv]⟩, ht⟩

/-! ### One intersection -/

/-- From `i` the auto has left before it comes to `j`. -/
def Auto.Apart (a : Auto XReal) (i j : Intersection XReal) : Prop :=
  a.posOfIntersection i + a.length + a.wdOfIntersection i ≤ a.posOfIntersection j

/-- The auto is at an instant that is not negative, and not yet at the next intersection of
`l`. -/
structure Planner.Before (s : Planner XReal) (a : Auto XReal) (l : List (Intersection XReal)) :
    Prop where
  real : s.IsReal
  time : 0 ≤ s.time
  next : ∀ i ∈ l.head?, s.pos ≤ a.posOfIntersection i
  apart : l.IsChain a.Apart

/-- The window is an interval, from when the car starts and from when the run starts. -/
structure Planner.InOrder (s : Planner XReal) (a : Auto XReal) (i : Intersection XReal) :
    Prop where
  nonneg : 0 ≤ (s.window a i).first
  ordered : (s.window a i).first ≤ (s.window a i).second
  planned_nonneg : 0 ≤ (s.planned a i).first
  planned_ordered : (s.planned a i).first ≤ (s.planned a i).second

/-- The auto that should wait for `b` leaves the intersection. -/
def Planner.CanLeave (s : Planner XReal) (a : Auto XReal) (i : Intersection XReal)
    (b : Window XReal) : Prop :=
  ∃ D X v T : ℝ, s.disp a i = fin D ∧ s.disp a i + a.length + a.wdOfIntersection i = fin X ∧
    s.vel = fin v ∧ b.second - s.time = fin T ∧ LeavesFrom D X v T

section Step

variable {a : Auto XReal} {s : Planner XReal} {i : Intersection XReal}
  {l : List (Intersection XReal)}

/-- **The window at an intersection is an interval**, when an auto that waits leaves. -/
theorem Planner.Before.interval (h : s.Before a (i :: l)) (hi : i.IsReal) (ha : a.toCar.IsReal)
    (hL : 0 ≤ a.length) (ho : 0 ≤ a.wdOfIntersection i)
    (hb : ∀ b, s.windows i.addr = some b →
      a.collision (some b) i s.time s.pos s.vel Car.maxAcc = true → s.CanLeave a i b) :
    s.Moves a i ∧ ∃ t₁ t₂ : ℝ, s.window a i = ⟨fin t₁, fin t₂⟩ ∧ 0 ≤ t₁ ∧ t₁ ≤ t₂ := by
  obtain ⟨τ, hτ⟩ := h.real.time
  obtain ⟨v, hv⟩ := h.real.vel
  obtain ⟨D, hD⟩ := h.real.disp (a := a) hi
  obtain ⟨L, hL'⟩ := ha.length
  obtain ⟨o, ho'⟩ := Car.isReal_wdOfIntersection (c := a.toCar) hi
  have hD₀ : 0 ≤ D := by
    obtain ⟨p, hp⟩ := h.real.pos
    obtain ⟨x, hx⟩ := Car.isReal_posOfIntersection (c := a.toCar) hi
    have := h.next i rfl
    rw [Planner.disp, hp, hx, sub_fin, XReal.fin.injEq] at hD
    rw [hp, hx, fin_le_fin] at this
    linarith
  rw [hL', zero_eq, fin_le_fin] at hL
  rw [ho', zero_eq, fin_le_fin] at ho
  have hX : D ≤ D + L + o := by linarith
  cases hc : a.collision (s.windows i.addr) i s.time s.pos s.vel Car.maxAcc with
  | false =>
      have hacc := Planner.acc_of_not_collision hc
      obtain ⟨t₁, t₂, h₁, h₂, ht⟩ := Car.interval_of_pos (v := v) three_pos hD₀ hX
      exact ⟨h.real.moves hc, t₁, t₂, (Planner.planned_fin hD hL' ho' hv hacc hτ h₁ h₂).1, ht⟩
  | true =>
      cases hw : s.windows i.addr with
      | none =>
          rw [hw] at hc
          exact absurd hc Bool.false_ne_true
      | some b =>
          rw [hw] at hc
          obtain ⟨D', X, v', T, hD', hX', hv', hT, hleave⟩ := hb b hw hc
          obtain rfl : D' = D := XReal.fin.inj (hD'.symm.trans hD)
          obtain rfl : v' = v := XReal.fin.inj (hv'.symm.trans hv)
          obtain rfl : X = D' + L + o := by
            rw [hD, hL', ho', add_fin, add_fin] at hX'
            exact (XReal.fin.inj hX').symm
          obtain ⟨acc, t₁, t₂, hacc, h₁, h₂, hav, ht⟩ := hleave.interval hD₀ hX
          have hacc' : s.acc a i = fin acc :=
            (Planner.acc_of_collision hw hc hD hv hT).trans hacc
          exact ⟨⟨acc, v', hacc', hv, hav⟩, t₁, t₂,
            (Planner.planned_fin hD hL' ho' hv hacc' hτ h₁ h₂).1, ht⟩

theorem Planner.Before.inOrder (h : s.Before a (i :: l)) {t₁ t₂ : ℝ}
    (hw : s.window a i = ⟨fin t₁, fin t₂⟩) (h₁ : 0 ≤ t₁) (h₂ : t₁ ≤ t₂) : s.InOrder a i := by
  obtain ⟨τ, hτ⟩ := h.real.time
  have hτ₀ := h.time
  rw [hτ, zero_eq, fin_le_fin] at hτ₀
  have hp : s.planned a i = ⟨fin (t₁ + τ), fin (t₂ + τ)⟩ := by
    rw [Planner.planned, hw, hτ, add_fin, add_fin]
  refine ⟨?_, ?_, ?_, ?_⟩
  · rwa [hw, zero_eq, fin_le_fin]
  · rwa [hw, fin_le_fin]
  · rw [hp, zero_eq, fin_le_fin]
    linarith
  · rw [hp, fin_le_fin]
    linarith

/-- Past an intersection, the auto is not yet at the next one. -/
theorem Planner.Before.step (h : s.Before a (i :: l)) (hi : i.IsReal) (ha : a.toCar.IsReal)
    (hmoves : s.Moves a i) {t₁ t₂ : ℝ} (hw : s.window a i = ⟨fin t₁, fin t₂⟩) (h₁ : 0 ≤ t₁)
    (h₂ : t₁ ≤ t₂) : (setMinWindowsStep a s i).Before a l := by
  obtain ⟨τ, hτ⟩ := h.real.time
  obtain ⟨p, hp⟩ := h.real.pos
  obtain ⟨L, hL⟩ := ha.length
  obtain ⟨o, ho⟩ := Car.isReal_wdOfIntersection (c := a.toCar) hi
  obtain ⟨x, hx⟩ := Car.isReal_posOfIntersection (c := a.toCar) hi
  refine ⟨h.real.step hi ha hmoves, ?_, fun j hj => ?_, h.apart.tail⟩
  · have hτ₀ := h.time
    rw [hτ, zero_eq, fin_le_fin] at hτ₀
    simp only [setMinWindowsStep, hτ, hw, add_fin, zero_eq, fin_le_fin]
    linarith
  · have hapart := h.apart.rel_head? hj
    have hpos : (setMinWindowsStep a s i).pos =
        a.posOfIntersection i + a.length + a.wdOfIntersection i := by
      simp only [setMinWindowsStep, Planner.disp, hp, hx, hL, ho, sub_fin, add_fin]
      ring_nf
    rw [hpos]
    exact hapart

end Step

namespace Grid

variable {S : StdSort (Intersection XReal)} {g : Grid XReal}

/-- Nothing is ahead of the human, lengths and widths are positive, and on every track the
intersections ahead of an auto are apart. -/
structure Spaced (S : StdSort (Intersection XReal)) (g : Grid XReal) : Prop where
  real : g.IsReal
  free : g.intersectionsAhead S g.human.toCar = []
  length_pos : ∀ a ∈ g.autos, 0 < a.length
  wd_pos : ∀ i ∈ g.intersections, 0 < i.acrossWd ∧ 0 < i.downWd
  apart : ∀ a ∈ g.autos, (g.intersectionsAhead S a.toCar).IsChain a.Apart

theorem Spaced.wd_nonneg (hg : g.Spaced S) {a : Auto XReal} {i : Intersection XReal}
    (hi : i ∈ g.intersectionsAhead S a.toCar) : 0 ≤ a.wdOfIntersection i := by
  obtain ⟨hmem, hahead⟩ := mem_intersectionsAhead.mp hi
  obtain ⟨hacross, hdown⟩ := hg.wd_pos i hmem
  simp only [Car.isAhead, Bool.and_eq_true, Bool.or_eq_true, decide_eq_true_eq] at hahead
  by_cases ha : i.acrossId = a.trackId
  · rw [Car.wdOfIntersection, if_pos ha]
    exact le_of_lt hacross
  · rw [Car.wdOfIntersection, if_neg ha, if_pos (hahead.1.resolve_left ha)]
    exact le_of_lt hdown

/-- What holds of an auto whose waits all end: it is before what is still ahead. -/
theorem Spaced.invariant (hg : g.Spaced S) {σ : Windows XReal}
    (h : ∀ a i s b, g.Visits S σ a i s → s.windows i.addr = some b →
      a.collision (some b) i s.time s.pos s.vel Car.maxAcc = true → s.CanLeave a i b) :
    g.Invariant S σ (fun _ => True) fun a l s => s.Before a l := by
  refine ⟨trivial, fun a ha σ' _ => ?_, fun a i post s hvis hs => ?_, fun _ _ _ _ => trivial⟩
  · refine ⟨⟨⟨0, zero_eq⟩, (hg.real.autos a ha).position, (hg.real.autos a ha).velocity⟩,
      ?_, fun i hi => ?_, hg.apart a ha⟩
    · show (0 : XReal) ≤ 0
      rw [zero_eq, fin_le_fin]
    · exact le_of_lt (lt_of_mem_ahead (List.mem_of_mem_head? hi))
  · obtain ⟨hi, ha⟩ := hg.real.of_visits hvis
    obtain ⟨hauto, hahead⟩ := hvis.mem
    obtain ⟨hmoves, t₁, t₂, hw, h₁, h₂⟩ := hs.interval hi ha (le_of_lt (hg.length_pos a hauto))
      (hg.wd_nonneg hahead) fun b => h a i s b hvis
    exact hs.step hi ha hmoves hw h₁ h₂

/-- **The windows of a run are intervals, in travel order.**  In a spaced grid, from empty
windows, let every auto that should wait leave the intersection again.  Then every window that
is planned is an interval of instants that are not negative, and along one auto's list each
starts no earlier than the one before ends. -/
theorem findAccelerations_inOrder (hg : g.Spaced S)
    (h : ∀ a i s b, g.Visits S Windows.empty a i s → s.windows i.addr = some b →
      a.collision (some b) i s.time s.pos s.vel Car.maxAcc = true → s.CanLeave a i b) :
    ∀ before a after pre i post, g.autos = before ++ a :: after →
      g.intersectionsAhead S a.toCar = pre ++ i :: post →
      let s := pre.foldl (setMinWindowsStep a)
        (Planner.start a (g.windowsAfter S Windows.empty before))
      s.InOrder a i ∧ ∀ j ∈ post.head?,
        (s.planned a i).second ≤ ((setMinWindowsStep a s i).planned a j).first := by
  have all : ∀ before a after pre i post, g.autos = before ++ a :: after →
      g.intersectionsAhead S a.toCar = pre ++ i :: post →
      let s := pre.foldl (setMinWindowsStep a)
        (Planner.start a (g.windowsAfter S Windows.empty before))
      s.Before a (i :: post) ∧
        ∃ t₁ t₂ : ℝ, s.window a i = ⟨fin t₁, fin t₂⟩ ∧ 0 ≤ t₁ ∧ t₁ ≤ t₂ := by
    intro before a after pre i post hautos hl s
    have hvis : g.Visits S Windows.empty a i s := ⟨before, after, pre, post, hautos, hl, rfl⟩
    have hs : s.Before a (i :: post) := (hg.invariant h).visits hautos hl
    obtain ⟨hi, ha⟩ := hg.real.of_visits hvis
    obtain ⟨hauto, hahead⟩ := hvis.mem
    exact ⟨hs, (hs.interval hi ha (le_of_lt (hg.length_pos a hauto)) (hg.wd_nonneg hahead)
      fun b => h a i s b hvis).2⟩
  intro before a after pre i post hautos hl s
  obtain ⟨hs, t₁, t₂, hw, h₁, h₂⟩ := all before a after pre i post hautos hl
  refine ⟨hs.inOrder hw h₁ h₂, fun j hj => ?_⟩
  -- the loop comes to `j` next, at the end of the window at `i`
  obtain ⟨post', rfl⟩ := List.head?_eq_some_iff.mp hj
  obtain ⟨-, u₁, u₂, hu, hu₁, -⟩ := all before a after (pre ++ [i]) j post' hautos
    (by rw [hl, List.append_assoc, List.singleton_append])
  rw [List.foldl_append, List.foldl_cons, List.foldl_nil] at hu
  obtain ⟨τ, hτ⟩ := hs.real.time
  have hτ' : (setMinWindowsStep a s i).time = fin (τ + t₂) := by
    simp only [setMinWindowsStep, s, hτ, hw, add_fin]
  have e₁ : (s.planned a i).second = fin (t₂ + τ) := by
    simp only [Planner.planned, s, hw, hτ, add_fin]
  have e₂ : ((setMinWindowsStep a s i).planned a j).first = fin (u₁ + (τ + t₂)) := by
    rw [Planner.planned, hu, hτ', add_fin]
  rw [e₁, e₂, fin_le_fin]
  linarith

/-! ### Two autos at one crossing -/

section TwoAutos

variable {d l w : ℝ}

theorem twoAutos_spaced {S : StdSort (Intersection XReal)} (hd : 0 < d) (hl : 0 < l) (hw : 0 < w) :
    (twoAutos d l w).Spaced S := by
  obtain ⟨h₁, h₂, h₃⟩ := twoAutos_ahead (l := l) (w := w) S hd
  refine ⟨twoAutos_isReal, h₃, fun a ha => ?_, fun i hi => ?_, fun a ha => ?_⟩
  · simp only [twoAutos, List.mem_cons, List.not_mem_nil, or_false] at ha
    rcases ha with rfl | rfl
    · simp [longAuto]
    · simpa [waitingAuto] using hl
  · obtain rfl := List.mem_singleton.mp hi
    simpa [twoCrossing] using hw
  · simp only [twoAutos, List.mem_cons, List.not_mem_nil, or_false] at ha
    rcases ha with rfl | rfl
    · rw [h₁]
      exact List.isChain_singleton _
    · rw [h₂]
      exact List.isChain_singleton _

/-- From `13`, the second auto waits, and leaves. -/
theorem waitingAuto_inOrder :
    (secondState StdSort.stable 13 1 1).InOrder (waitingAuto 1) (twoCrossing 13 1) := by
  have hd : (0 : ℝ) < 13 := by norm_num
  refine (findAccelerations_inOrder (S := StdSort.stable) (twoAutos_spaced hd one_pos one_pos) ?_
    [longAuto] _ [] [] _ [] rfl (twoAutos_ahead StdSort.stable hd).2.1).1
  intro a i s b hvis hb _
  obtain ⟨rfl, rfl, rfl, rfl⟩ := twoAutos_visits_some hd hvis hb
  obtain ⟨hD, hv, hτ⟩ := secondState_eq (d := 13) (l := 1) (w := 1) StdSort.stable
  refine ⟨13, 15, 1 / 2, 35, hD, ?_, hv, ?_, by norm_num,
    .inr ⟨by norm_num, le_rfl, .inr (by norm_num)⟩⟩
  · rw [hD]
    show fin 13 + fin 1 + fin 1 = fin 15
    rw [add_fin, add_fin]
    norm_num
  · rw [hτ, sub_fin, sub_zero]

/-- **A window that runs backwards.**  From `10`, the second auto is planned to enter the crossing
at `35` and to leave it at `24`. -/
theorem waitingAuto_backwards :
    (twoAutos 10 1 1).Spaced StdSort.stable ∧
      (twoAutos 10 1 1).Visits StdSort.stable Windows.empty (waitingAuto 1) (twoCrossing 10 1)
        (secondState StdSort.stable 10 1 1) ∧
      (secondState StdSort.stable 10 1 1).window (waitingAuto 1) (twoCrossing 10 1) =
        ⟨fin 35, fin 24⟩ ∧
      ¬ (secondState StdSort.stable 10 1 1).InOrder (waitingAuto 1) (twoCrossing 10 1) := by
  have hd : (0 : ℝ) < 10 := by norm_num
  obtain ⟨hD, hv, hτ⟩ := secondState_eq (d := 10) (l := 1) (w := 1) StdSort.stable
  have hacc : (secondState StdSort.stable 10 1 1).acc (waitingAuto 1) (twoCrossing 10 1) =
      fin (-(3 / 245)) := by
    rw [twoAutos_acc hd (by norm_num) (by norm_num), Car.calculateAcc_fin _ _ (by norm_num)]
    norm_num
  have h₁ : Car.calculateTime (fin 10) (fin (1 / 2)) (fin (-(3 / 245))) = fin 35 := by
    rw [Car.calculateTime_of_sq (r := 1 / 14) (by norm_num) (by norm_num) (by norm_num)
      (by norm_num)]
    norm_num
  -- the auto stops before it has gone `12`
  have h₂ : Car.calculateTime (fin (10 + 1 + 1)) (fin (1 / 2)) (fin (-(3 / 245))) = fin 24 := by
    rw [Car.calculateTime_of_neg (by norm_num), Capped.cruise]
    norm_num
  have hw := (Planner.planned_fin hD rfl rfl hv hacc hτ h₁ h₂).1
  refine ⟨twoAutos_spaced hd one_pos one_pos, twoAutos_visits hd, hw, fun h => ?_⟩
  have := h.ordered
  rw [hw, fin_le_fin] at this
  norm_num at this

end TwoAutos

end Grid

end DrivingSim
