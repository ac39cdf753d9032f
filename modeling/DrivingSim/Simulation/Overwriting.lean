import DrivingSim.Simulation.Messages
import DrivingSim.Simulation.Replanning

/-!
# Simulation — windows that are overwritten

`set_window` of `intersection.cpp` warns where the intersection holds a window already, and the
warnings are among what the planner sends.

`set_min_windows` looks first, so that no auto overwrites a window.  `find_accelerations` does not
look for the human: in a sequence of calls a call warns once for each intersection ahead of its
human that held a window at the start, or was ahead of a car of an earlier call
(`overwrites_exactly`).
-/

namespace DrivingSim.Message
open Sending

/-- The intersection whose window is overwritten, where that is what the message says. -/
def overwritten : Message → Option ℕ
  | overwriting addr => some addr
  | _ => none

/-- The intersections whose windows are overwritten, in the order of the warnings. -/
def overwrites {α : Type} (x : Sending Message α) : List ℕ := (messages x).filterMap overwritten

section Overwrites

variable {α β : Type} {x : Sending Message α} {f : α → Sending Message β} {addr : ℕ}

theorem overwritten_eq_some {e : Message} : e.overwritten = some addr ↔ e = .overwriting addr := by
  cases e <;> simp [overwritten]

theorem mem_overwrites : addr ∈ overwrites x ↔ .overwriting addr ∈ messages x := by
  simp [overwrites, List.mem_filterMap, overwritten_eq_some]

theorem overwrites_bind : overwrites (x >>= f) = overwrites x ++ overwrites (f (value x)) := by
  rw [overwrites, messages_bind, List.filterMap_append]
  rfl

theorem overwrites_eq_nil {P : Message → Prop} (h : Only P x)
    (hP : ∀ e, P e → e.overwritten = none) : overwrites x = [] :=
  List.filterMap_eq_nil_iff.2 (h.imp hP)

variable {D : Type} {c : Car D} {i : Intersection D} {σ : Windows D} {w : Window D}

theorem FromCar.overwritten {e : Message} (he : FromCar c i e) : e.overwritten = none := by
  cases e with
  | overwriting addr => exact he.elim
  | _ => rfl

theorem overwrites_setWindow :
    overwrites (setWindow i σ w) = if (σ i.addr).isSome then [i.addr] else [] := by
  rw [overwrites, messages_setWindow]
  split_ifs <;> rfl

end Overwrites

variable {D : Type} [Double D] (S : StdSort (Intersection D)) (g : Grid D)

/-- A sequence of calls. -/
def callsFrom (σ : Windows D) (calls : List (Grid D)) : Sending Message (Windows D) :=
  calls.foldlM (fun σ g => do
    let r ← findAccelerations S g σ
    pure r.2) σ

variable {S g} {a : Auto D} {i : Intersection D} {σ : Windows D}

theorem value_callsFrom (σ : Windows D) (calls : List (Grid D)) :
    value (callsFrom S σ calls) = DrivingSim.callsFrom S σ calls := by
  simp only [callsFrom, value_foldlM, value_bind, value_pure, value_findAccelerations]
  rfl

/-! ### What a call overwrites -/

/-- An auto looks first. -/
theorem overwrites_setMinWindows : overwrites (setMinWindows S g a σ) = [] := by
  refine overwrites_eq_nil fromCar_setMinWindows fun e he => ?_
  obtain ⟨i, -, he⟩ := he
  exact he.overwritten

theorem overwrites_plan (autos : List (Auto D)) (r : List D × Windows D) :
    overwrites (autos.foldlM (planStep S g) r) = [] := by
  refine overwrites_eq_nil (only_foldlM (P := fun e => e.overwritten = none) (fun a _ r => ?_) r)
    fun _ he => he
  exact only_bind.2 ⟨List.filterMap_eq_nil_iff.1 overwrites_setMinWindows, only_pure _⟩

theorem overwrites_reserveStep :
    overwrites (reserveStep g σ i) = if (σ i.addr).isSome then [i.addr] else [] := by
  have hpos : overwrites (posOfIntersection g.human.toCar i) = [] :=
    overwrites_eq_nil fromCar_posOfIntersection fun _ he => he.overwritten
  rw [reserveStep, overwrites_bind, hpos, List.nil_append]
  dsimp only
  by_cases hdisp : value (posOfIntersection g.human.toCar i) - g.human.position < 0
  · rw [if_pos hdisp, overwrites_bind, overwrites_setWindow]
    exact List.nil_append _
  · rw [if_neg hdisp, overwrites_setWindow]

/-- The first loop warns of what holds a window when it starts. -/
theorem overwrites_reserve {l : List (Intersection D)} (hd : (l.map (·.addr)).Nodup)
    (σ : Windows D) : overwrites (l.foldlM (reserveStep g) σ) =
      (l.map (·.addr)).filter fun x => (σ x).isSome := by
  induction l generalizing σ with
  | nil => rfl
  | cons i l ih =>
      obtain ⟨hi, hl⟩ := List.nodup_cons.1 hd
      rw [List.foldlM_cons, overwrites_bind, ih hl, overwrites_reserveStep, value_reserveStep,
        List.map_cons, List.filter_cons]
      -- what is written at one intersection is not seen at the others
      have hsame : (l.map (·.addr)).filter (fun x => (i.setWindow σ (g.humanWindow i) x).isSome) =
          (l.map (·.addr)).filter fun x => (σ x).isSome := by
        refine List.filter_congr fun x hx => ?_
        have hne : x ≠ i.addr := by
          rintro rfl
          exact hi hx
        rw [Intersection.setWindow, Function.update_of_ne hne]
      rw [hsame]
      split_ifs
      · rfl
      · rfl

theorem overwrites_findAccelerations (hd : (g.intersections.map (·.addr)).Nodup)
    (σ : Windows D) : overwrites (findAccelerations S g σ) =
      (g.footprint S g.human.toCar).filter fun x => (σ x).isSome := by
  rw [findAccelerations, overwrites_bind, overwrites_plan, List.append_nil]
  exact overwrites_reserve (Grid.nodup_footprint hd g.human.toCar) σ

/-- **What is overwritten.**  No auto overwrites a window.  In a sequence of calls from any windows,
each call overwrites, in the order of the human's travel, the windows of those intersections ahead
of its human that held one at the start or were ahead of a car of an earlier call, and no
others. -/
theorem overwrites_exactly (σ₀ : Windows D) (calls : List (Grid D))
    (hd : ∀ g ∈ calls, (g.intersections.map (·.addr)).Nodup) :
    value (callsFrom S σ₀ calls) = DrivingSim.callsFrom S σ₀ calls ∧
    (∀ (g : Grid D) a σ, overwrites (setMinWindows S g a σ) = []) ∧
    ∀ before g after, calls = before ++ g :: after →
      (overwrites (findAccelerations S g (value (callsFrom S σ₀ before)))).Sublist
          (g.footprint S g.human.toCar) ∧
        ∀ x, .overwriting x ∈ messages (findAccelerations S g (value (callsFrom S σ₀ before))) ↔
          x ∈ g.footprint S g.human.toCar ∧ (σ₀ x ≠ none ∨ ∃ e ∈ before, e.Occupies S x) := by
  refine ⟨value_callsFrom σ₀ calls, fun _ _ _ => overwrites_setMinWindows, ?_⟩
  rintro before g after rfl
  have hcall := overwrites_findAccelerations (S := S)
    (hd g (List.mem_append_right _ List.mem_cons_self)) (value (callsFrom S σ₀ before))
  refine ⟨?_, fun x => ?_⟩
  · rw [hcall]
    exact List.filter_sublist
  · rw [← mem_overwrites, hcall, value_callsFrom, ← Grid.callsFrom_ne_none before σ₀]
    simp [Option.isSome_iff_ne_none]

/-- The second call overwrites the window that the human has had from the first. -/
theorem sharedCrossing_overwrites :
    overwrites (findAccelerations StdSort.stable Grid.sharedCrossing Windows.empty) = [] ∧
      .overwriting 0 ∈ messages (findAccelerations StdSort.stable Grid.sharedCrossing
        (value (callsFrom StdSort.stable Windows.empty [Grid.sharedCrossing]))) := by
  have hd : ∀ g ∈ [Grid.sharedCrossing, Grid.sharedCrossing],
      (g.intersections.map (·.addr)).Nodup := by
    intro g hg
    obtain rfl : g = Grid.sharedCrossing := by simpa using hg
    exact List.nodup_singleton _
  have hahead : 0 ∈ Grid.sharedCrossing.footprint StdSort.stable
      Grid.sharedCrossing.human.toCar := by
    have hs : Grid.sharedCrossing.intersectionsAhead StdSort.stable
        Grid.sharedCrossing.human.toCar = [⟨0, 0, 3, 1, 1, 2, 2⟩] :=
      Grid.intersectionsAhead_singleton (by
        simp [Grid.sharedCrossing, Car.isAhead, Car.posOfIntersection])
    simp [Grid.footprint, hs]
  obtain ⟨-, -, hcalls⟩ := overwrites_exactly (S := StdSort.stable) Windows.empty
    [Grid.sharedCrossing, Grid.sharedCrossing] hd
  refine ⟨List.eq_nil_iff_forall_not_mem.2 fun x hx => ?_, ?_⟩
  · rcases (((hcalls [] _ _ rfl).2 x).1 (mem_overwrites.1 hx)).2 with hno | hbefore
    · exact hno rfl
    · obtain ⟨e, he, -⟩ := hbefore
      exact absurd he List.not_mem_nil
  · exact ((hcalls [Grid.sharedCrossing] _ _ rfl).2 0).2
      ⟨hahead, .inr ⟨_, List.mem_singleton_self _, .inl hahead⟩⟩

end DrivingSim.Message
