import DrivingSim.Simulation.Messages
import DrivingSim.Simulation.Precedence

/-!
# Simulation — the intersections ahead, in order

`intersections_ahead` finds out on the way whether the car is on an across track, and sorts by
`across_pos_` or by `down_pos_` for that.  Where no track is both an across track and a down track,
the position it sorts by is the one `pos_of_intersection` reads (`pos_of_any_across`,
`pos_of_all_down`), so the cars go through the intersections in the order of the track
(`intersectionsAhead_sorted`).  Positions beyond the car's are numbers, so that the comparison is a
strict weak order on them.

An intersection ahead of a car is on its track and at a positive distance.  So two of the errors
are never sent (`intersectionsAhead_exact`).
-/

namespace DrivingSim

/-! ### Sorting by a key -/

section Key

variable {α : Type} {key : α → XReal} {l : List α}

theorem strictWeak_key (h : ∀ a ∈ l, key a ≠ .nan) :
    StrictWeak (fun a b => decide (key a < key b)) l where
  asymm a _ b _ hab := by
    rw [decide_eq_true_eq] at hab
    exact decide_eq_false (XReal.lt_asymm hab)
  trans a ha b hb c hc hba hcb := by
    rw [decide_eq_false_iff_not] at hba hcb ⊢
    rw [← XReal.le_iff_not_lt (h a ha) (h b hb)] at hba
    rw [← XReal.le_iff_not_lt (h b hb) (h c hc)] at hcb
    exact (XReal.le_iff_not_lt (h a ha) (h c hc)).1 (XReal.le_trans hba hcb)

/-- A sort by what is, on the list, a number and the same as the key, is in the order of the
key. -/
theorem StdSort.sort_key (S : StdSort α) (hnum : ∀ a ∈ l, key a ≠ .nan) {pos : α → XReal}
    (hpos : ∀ a ∈ l, key a = pos a) :
    (S.sort (fun a b => decide (pos a < pos b)) l).Pairwise fun a b => key a ≤ key b := by
  have hl {c : α} (hc : c ∈ S.sort (fun a b => decide (pos a < pos b)) l) : c ∈ l :=
    (S.perm _ l).mem_iff.1 hc
  have hweak := strictWeak_key fun a ha => hpos a ha ▸ hnum a ha
  refine (S.sorted _ l hweak).imp_of_mem fun {a b} ha hb hab => ?_
  refine (XReal.le_iff_not_lt (hnum a (hl ha)) (hnum b (hl hb))).2 ?_
  rw [hpos a (hl ha), hpos b (hl hb)]
  exact of_decide_eq_false hab

end Key

/-! ### Which position is read -/

namespace Grid

variable {D : Type} [Double D] {g : Grid D} {c : Car D}

/-- No track is both an across track and a down track. -/
def TracksDisjoint (g : Grid D) : Prop :=
  ∀ i ∈ g.intersections, ∀ j ∈ g.intersections, i.acrossId ≠ j.downId

theorem pos_of_any_across (hg : g.TracksDisjoint)
    (h : (g.intersections.any fun i => decide (i.acrossId = c.trackId)) = true)
    {i : Intersection D} (hi : i ∈ g.intersections.filter c.isAhead) :
    c.posOfIntersection i = i.acrossPos := by
  obtain ⟨hmem, hahead⟩ := List.mem_filter.1 hi
  obtain ⟨j, hj, htrack⟩ := List.any_eq_true.1 h
  have hdown : i.downId ≠ c.trackId := fun e =>
    hg j hj i hmem ((of_decide_eq_true htrack).trans e.symm)
  have hacross : i.acrossId = c.trackId := by
    by_contra hne
    simp [Car.isAhead, hne, hdown] at hahead
  rw [Car.posOfIntersection, if_pos hacross]

theorem pos_of_all_down
    (h : (g.intersections.any fun i => decide (i.acrossId = c.trackId)) = false)
    {i : Intersection D} (hi : i ∈ g.intersections.filter c.isAhead) :
    c.posOfIntersection i = i.downPos := by
  obtain ⟨hmem, hahead⟩ := List.mem_filter.1 hi
  have hacross : i.acrossId ≠ c.trackId := fun e =>
    List.any_eq_false.1 h i hmem (decide_eq_true e)
  have hdown : i.downId = c.trackId := by
    by_contra hne
    simp [Car.isAhead, hne, hacross] at hahead
  rw [Car.posOfIntersection, if_neg hacross, if_pos hdown]

end Grid

/-! ### The order of the intersections ahead -/

namespace Car

variable {D : Type} [Double D] {c : Car D} {i : Intersection D}

theorem isAhead_iff : c.isAhead i = true ↔
    (i.acrossId = c.trackId ∨ i.downId = c.trackId) ∧ c.position < c.posOfIntersection i := by
  rw [isAhead, Bool.and_eq_true, Bool.or_eq_true]
  simp only [decide_eq_true_eq]

end Car

namespace Grid

theorem intersectionsAhead_sorted {g : Grid XReal} (hg : g.TracksDisjoint)
    (S : StdSort (Intersection XReal)) (c : Car XReal) :
    (g.intersectionsAhead S c).Pairwise fun i j =>
      c.posOfIntersection i ≤ c.posOfIntersection j := by
  have hnum : ∀ i ∈ g.intersections.filter c.isAhead, c.posOfIntersection i ≠ .nan :=
    fun i hi => (XReal.ne_nan_of_lt (Car.isAhead_iff.1 (List.mem_filter.1 hi).2).2).2
  rw [intersectionsAhead, foldl_aheadStep]
  dsimp only
  cases h : g.intersections.any fun i => decide (i.acrossId = c.trackId) with
  | true => exact S.sort_key hnum fun i hi => pos_of_any_across hg h hi
  | false => exact S.sort_key hnum fun i hi => pos_of_all_down h hi

end Grid

/-! ### The errors that are never sent -/

namespace Message
open Sending

/-- What may be sent when a car is taken to the intersections ahead of it. -/
def Possible : Message → Prop
  | notOnTrack | displacementNegative => False
  | _ => True

theorem FromCar.possible {D : Type} [Double D] {c : Car D} {i : Intersection D} {e : Message}
    (he : FromCar c i e) (h : c.isAhead i = true) : Possible e := by
  cases e with
  | notOnTrack => exact (Car.isAhead_iff.1 h).1.elim he.1 he.2
  | displacementNegative => exact he
  | _ => exact trivial

theorem possible_setMinWindows {D : Type} [Double D] (S : StdSort (Intersection D)) (g : Grid D)
    (a : Auto D) (σ : Windows D) : Only Possible (setMinWindows S g a σ) := by
  refine fromCar_setMinWindows.imp fun e he => ?_
  obtain ⟨i, hi, he⟩ := he
  exact he.possible (Grid.mem_intersectionsAhead.1 hi).2

theorem possible_setWindow {D : Type} {i : Intersection D} {σ : Windows D} {w : Window D} :
    Only Possible (setWindow i σ w) := by
  rw [Only, messages_setWindow]
  split_ifs <;> simp [Possible]

/-- What is ahead of the human is at no negative distance. -/
theorem possible_reserveStep {g : Grid XReal} {i : Intersection XReal} {σ : Windows XReal}
    (h : g.human.isAhead i = true) : Only Possible (reserveStep g σ i) := by
  rw [reserveStep, only_bind, value_posOfIntersection]
  refine ⟨fromCar_posOfIntersection.imp fun e he => he.possible h, ?_⟩
  dsimp only
  rw [if_neg (XReal.not_sub_lt_zero (Car.isAhead_iff.1 h).2)]
  exact possible_setWindow

theorem possible_findAccelerations (S : StdSort (Intersection XReal)) (g : Grid XReal)
    (σ : Windows XReal) : Only Possible (findAccelerations S g σ) := by
  rw [findAccelerations, only_bind]
  refine ⟨only_foldlM (fun i hi σ => ?_) σ, only_foldlM (fun a _ r => ?_) _⟩
  · exact possible_reserveStep (Grid.mem_intersectionsAhead.1 hi).2
  · rw [planStep, only_bind]
    exact ⟨possible_setMinWindows S g a r.2, only_pure _⟩

/-- **The intersections ahead** of a car are those of the grid that are on its track and further
along than it is, in the order of the track, where no track is both an across track and a down
track.  So a run never finds an intersection off a car's track, nor one behind the human. -/
theorem intersectionsAhead_exact {g : Grid XReal} (hg : g.TracksDisjoint)
    (S : StdSort (Intersection XReal)) :
    (∀ c : Car XReal,
      (g.intersectionsAhead S c).Perm (g.intersections.filter fun i =>
        (decide (i.acrossId = c.trackId) || decide (i.downId = c.trackId)) &&
          decide (c.position < c.posOfIntersection i)) ∧
      (g.intersectionsAhead S c).Pairwise fun i j =>
        c.posOfIntersection i ≤ c.posOfIntersection j) ∧
    (∀ σ, .displacementNegative ∉ messages (findAccelerations S g σ) ∧
      .notOnTrack ∉ messages (findAccelerations S g σ)) ∧
    ∀ a σ, .notOnTrack ∉ messages (setMinWindows S g a σ) := by
  refine ⟨fun c => ⟨Grid.intersectionsAhead_perm c, Grid.intersectionsAhead_sorted hg S c⟩,
    fun σ => ⟨?_, ?_⟩, fun a σ => ?_⟩
  · exact fun h => possible_findAccelerations S g σ _ h
  · exact fun h => possible_findAccelerations S g σ _ h
  · exact fun h => possible_setMinWindows S g a σ _ h

/-- The crossroads have across tracks `0` and `1` and down tracks `3` and `4`. -/
theorem crossroads_exact :
    (Grid.crossroads.intersectionsAhead StdSort.stable ⟨4, 1, 0, 0⟩).Pairwise fun i j =>
      (⟨4, 1, 0, 0⟩ : Car XReal).posOfIntersection i ≤
        (⟨4, 1, 0, 0⟩ : Car XReal).posOfIntersection j := by
  have hg : Grid.crossroads.TracksDisjoint := by
    simp [Grid.TracksDisjoint, Grid.crossroads]
  exact ((intersectionsAhead_exact hg StdSort.stable).1 ⟨4, 1, 0, 0⟩).2

end Message

end DrivingSim
