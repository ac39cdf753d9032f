import DrivingSim.Simulation.Precedence

/-!
# Simulation — the order in which the autos plan

Two autos *conflict* when they have an intersection ahead in common.  Autos that do not conflict
are independent (`independent_of_disjoint`), so an order of the autos matters only through the
order of those that conflict (`findAccelerations_reorder`): each auto gets the same acceleration
and each intersection the same window under two orders that agree there.
-/

namespace DrivingSim.Grid

variable {D : Type} [Double D] {S : StdSort (Intersection D)} {g : Grid D}

/-- The autos have an intersection ahead in common. -/
def Conflict (S : StdSort (Intersection D)) (g : Grid D) (a b : Auto D) : Prop :=
  ∃ i ∈ g.intersectionsAhead S a.toCar, ∃ j ∈ g.intersectionsAhead S b.toCar, i.addr = j.addr

theorem independent_of_not_conflict {a b : Auto D} (h : ¬ g.Conflict S a b) :
    Independent (g.setMinWindows S) a b := by
  refine independent_of_disjoint fun x ha hb => h ?_
  obtain ⟨i, hi, rfl⟩ := List.mem_map.mp ha
  obtain ⟨j, hj, e⟩ := List.mem_map.mp hb
  exact ⟨i, hi, j, hj, e.symm⟩

/-- The acceleration of an auto stands at the auto's place. -/
theorem findAccelerations_getElem? {σ : Windows D} {k : ℕ} {a : Auto D}
    (h : g.autos[k]? = some a) : ∃ r,
      (g.findAccelerations S σ).1[k]? = some r ∧
        (a, r) ∈ (run (g.setMinWindows S) g.autos (g.reserveHuman S σ)).1 := by
  have hm : (run (g.setMinWindows S) g.autos (g.reserveHuman S σ)).1.map Prod.fst = g.autos :=
    run_fst_map g.autos (g.reserveHuman S σ)
  rw [← hm, List.getElem?_map] at h
  obtain ⟨p, hp, rfl⟩ := Option.map_eq_some_iff.mp h
  refine ⟨p.2, ?_, List.mem_of_getElem? hp⟩
  rw [findAccelerations, foldl_planStep, List.nil_append, List.getElem?_map, hp]
  rfl

/-- **Only the order of conflicting autos matters.**  Two orders of the same distinct autos that
agree on the order of any two conflicting ones give every auto the same acceleration and leave
every intersection with the same window. -/
theorem findAccelerations_reorder {autos' : List (Auto D)} (hn : g.autos.Nodup)
    (hp : g.autos.Perm autos')
    (ho : ∀ a ∈ g.autos, ∀ b ∈ g.autos, g.Conflict S a b →
      ([a, b].Sublist g.autos ↔ [a, b].Sublist autos')) (σ : Windows D) :
    (∀ (k l : ℕ) (a : Auto D), g.autos[k]? = some a → autos'[l]? = some a →
      (g.findAccelerations S σ).1[k]? =
        ({ g with autos := autos' }.findAccelerations S σ).1[l]?) ∧
      (g.findAccelerations S σ).2 = ({ g with autos := autos' }.findAccelerations S σ).2 := by
  have ho' : ∀ a b, ¬ Independent (g.setMinWindows S) a b → [a, b].Sublist autos' →
      [a, b].Sublist g.autos := by
    intro a b hi hs
    have hc : g.Conflict S a b := by_contra fun hc => hi (independent_of_not_conflict hc)
    have ha : a ∈ autos' := hs.subset (by simp)
    have hb : b ∈ autos' := hs.subset (by simp)
    exact (ho a (hp.symm.subset ha) b (hp.symm.subset hb) hc).mpr hs
  obtain ⟨h₁, h₂⟩ := run_perm hn hp ho' (g.reserveHuman S σ)
  refine ⟨fun k l a hk hl => ?_, ?_⟩
  · obtain ⟨r, hr, hm⟩ := findAccelerations_getElem? (S := S) (σ := σ) hk
    obtain ⟨r', hr', hm'⟩ :=
      findAccelerations_getElem? (S := S) (g := { g with autos := autos' }) (σ := σ) hl
    -- both pairs are results of the second run, and its autos are distinct
    have hd : ((run (g.setMinWindows S) autos' (g.reserveHuman S σ)).1.map Prod.fst).Nodup := by
      rw [run_fst_map]
      exact hp.nodup_iff.mp hn
    have e : (a, r) = (a, r') := List.inj_on_of_nodup_map hd (h₁.subset hm) hm' rfl
    rw [hr, hr', (Prod.mk.inj e).2]
  · rw [findAccelerations, findAccelerations, foldl_planStep, foldl_planStep]
    exact h₂

/-- Autos `0` and `1` meet on tracks `0` and `3`; auto `2` meets nobody. -/
noncomputable def threeAutos : Grid XReal where
  intersections := [⟨0, 0, 3, 1, 1, 2, 2⟩, ⟨1, 1, 4, 1, 1, 2, 2⟩]
  autos := [⟨⟨0, 1, 0, 0⟩, 0⟩, ⟨⟨3, 1, 0, 0⟩, 1⟩, ⟨⟨1, 1, 0, 0⟩, 2⟩]
  human := ⟨⟨5, 1, 0, 0⟩⟩
  width := 10
  length := 10

theorem threeAutos_reorder :
    (threeAutos.findAccelerations StdSort.stable Windows.empty).2 =
      ({ threeAutos with autos := [⟨⟨1, 1, 0, 0⟩, 2⟩, ⟨⟨0, 1, 0, 0⟩, 0⟩, ⟨⟨3, 1, 0, 0⟩, 1⟩] }
        |>.findAccelerations StdSort.stable Windows.empty).2 := by
  refine (findAccelerations_reorder ?_ ?_ ?_ Windows.empty).2
  · simp [threeAutos]
  · exact (List.perm_append_comm : ([_, _] ++ [_]).Perm ([_] ++ [_, _]))
  · rintro a ha b hb ⟨i, hi, j, hj, e⟩
    replace hi := mem_intersectionsAhead.mp hi
    replace hj := mem_intersectionsAhead.mp hj
    simp only [threeAutos, List.mem_cons, List.not_mem_nil, or_false] at ha hb hi hj
    rcases ha with rfl | rfl | rfl <;> rcases hb with rfl | rfl | rfl <;>
      rcases hi with ⟨rfl | rfl, hi⟩ <;> rcases hj with ⟨rfl | rfl, hj⟩ <;>
      simp [Car.isAhead, Car.posOfIntersection, threeAutos, List.sublist_cons_iff] at *

end DrivingSim.Grid
