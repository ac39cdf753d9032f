import DrivingSim.Simulation.Footprint

/-!
# Simulation — what holds at every visit

The rule by which a property of all visits of `find_accelerations` is proved.  An invariant of
the windows holds between two autos, and one of the state of the loop between two
intersections; the latter can speak of what is still ahead of the auto.
-/

namespace DrivingSim.Grid

variable {D : Type} [Double D] {S : StdSort (Intersection D)} {g : Grid D} {σ : Windows D}

theorem Visits.mem {a : Auto D} {i : Intersection D} {s : Planner D} (h : g.Visits S σ a i s) :
    a ∈ g.autos ∧ i ∈ g.intersectionsAhead S a.toCar := by
  obtain ⟨before, after, pre, post, ha, hl, -⟩ := h
  rw [ha, hl]
  exact ⟨List.mem_append_right before List.mem_cons_self,
    List.mem_append_right pre List.mem_cons_self⟩

/-- `between` holds when an auto starts to plan, and `inLoop` whenever the loop for an auto has
the intersections of a list still ahead. -/
structure Invariant (S : StdSort (Intersection D)) (g : Grid D) (σ : Windows D)
    (between : Windows D → Prop) (inLoop : Auto D → List (Intersection D) → Planner D → Prop) :
    Prop where
  init : between (g.reserveHuman S σ)
  start : ∀ a ∈ g.autos, ∀ σ', between σ' →
    inLoop a (g.intersectionsAhead S a.toCar) (Planner.start a σ')
  step : ∀ a i post s, g.Visits S σ a i s → inLoop a (i :: post) s →
    inLoop a post (setMinWindowsStep a s i)
  finish : ∀ a ∈ g.autos, ∀ s, inLoop a [] s → between s.windows

variable {between : Windows D → Prop} {inLoop : Auto D → List (Intersection D) → Planner D → Prop}

/-- The loop for one auto. -/
theorem Invariant.foldl (h : g.Invariant S σ between inLoop) {before after : List (Auto D)}
    {a : Auto D} (ha : g.autos = before ++ a :: after) (hb : between (g.windowsAfter S σ before))
    (pre : List (Intersection D)) :
    ∀ post, g.intersectionsAhead S a.toCar = pre ++ post →
      inLoop a post (pre.foldl (setMinWindowsStep a)
        (Planner.start a (g.windowsAfter S σ before))) := by
  induction pre using List.reverseRecOn with
  | nil =>
      rintro post rfl
      exact h.start a (ha ▸ List.mem_append_right before List.mem_cons_self) _ hb
  | append_singleton pre i ih =>
      intro post hl
      rw [List.append_assoc, List.singleton_append] at hl
      rw [List.foldl_append, List.foldl_cons, List.foldl_nil]
      exact h.step a i post _ ⟨before, after, pre, post, ha, hl, rfl⟩ (ih (i :: post) hl)

/-- The loop over the autos. -/
theorem Invariant.windowsAfter (h : g.Invariant S σ between inLoop) (before : List (Auto D)) :
    ∀ after, g.autos = before ++ after → between (g.windowsAfter S σ before) := by
  induction before using List.reverseRecOn with
  | nil => exact fun _ _ => h.init
  | append_singleton before a ih =>
      intro after ha
      rw [List.append_assoc, List.singleton_append] at ha
      rw [windowsAfter_concat]
      refine h.finish a (ha ▸ List.mem_append_right before List.mem_cons_self) _ ?_
      exact h.foldl ha (ih (a :: after) ha) (g.intersectionsAhead S a.toCar) []
        (List.append_nil _).symm

/-- **What an invariant says of a visit.** -/
theorem Invariant.visits (h : g.Invariant S σ between inLoop) {before after : List (Auto D)}
    {a : Auto D} {pre post : List (Intersection D)} {i : Intersection D}
    (ha : g.autos = before ++ a :: after) (hl : g.intersectionsAhead S a.toCar = pre ++ i :: post) :
    inLoop a (i :: post) (pre.foldl (setMinWindowsStep a)
      (Planner.start a (g.windowsAfter S σ before))) :=
  h.foldl ha (h.windowsAfter before (a :: after) ha) pre (i :: post) hl

end DrivingSim.Grid
