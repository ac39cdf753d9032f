import Mathlib.Data.List.Induction
import DrivingSim.Support.Independence
import DrivingSim.Simulation.Grid

/-!
# Simulation — the footprint of an auto

The loop of `set_min_windows` reads and writes the windows of the intersections ahead of the
auto and no others.  It never changes a window that is there: it only fills empty ones.

* `setMinWindows_congr`: windows that agree at the intersections ahead give the same
  acceleration, and agree there afterwards.
* `setMinWindows_frame`, `setMinWindows_keeps`: every other window is unchanged, and so is every
  window that was there.
* `independent_of_disjoint`: two autos with no common intersection ahead are independent.
-/

namespace DrivingSim

/-! ### Writing windows one after the other -/

section SetWindow

variable {D : Type} (f : Intersection D → Window D) {l : List (Intersection D)} {x : ℕ}

theorem foldl_setWindow_frame (l : List (Intersection D)) (h : x ∉ l.map (·.addr)) :
    ∀ σ : Windows D, l.foldl (fun σ i => i.setWindow σ (f i)) σ x = σ x := by
  induction l with
  | nil => exact fun _ => rfl
  | cons i l ih =>
      intro σ
      simp only [List.map_cons, List.mem_cons, not_or] at h
      rw [List.foldl_cons, ih h.2, Intersection.setWindow, Function.update_of_ne h.1]

theorem foldl_setWindow_mem {i : Intersection D} (hi : i ∈ l) (hd : (l.map (·.addr)).Nodup)
    (σ : Windows D) : l.foldl (fun σ i => i.setWindow σ (f i)) σ i.addr = some (f i) := by
  obtain ⟨pre, post, rfl⟩ := List.append_of_mem hi
  have hpost : i.addr ∉ post.map (·.addr) := by
    rw [List.map_append, List.map_cons] at hd
    exact (List.nodup_cons.mp hd.of_append_right).1
  rw [List.foldl_append, List.foldl_cons, foldl_setWindow_frame f post hpost,
    Intersection.setWindow, Function.update_self]

/-- Where something is written, what was there does not matter. -/
theorem foldl_setWindow_congr (l : List (Intersection D)) (h : x ∈ l.map (·.addr)) :
    ∀ σ σ' : Windows D, l.foldl (fun σ i => i.setWindow σ (f i)) σ x =
      l.foldl (fun σ i => i.setWindow σ (f i)) σ' x := by
  induction l with
  | nil => simp at h
  | cons i l ih =>
      intro σ σ'
      by_cases hx : x ∈ l.map (·.addr)
      · exact ih hx _ _
      · obtain rfl : x = i.addr := (List.mem_cons.mp h).resolve_right hx
        rw [List.foldl_cons, List.foldl_cons, foldl_setWindow_frame f l hx,
          foldl_setWindow_frame f l hx, Intersection.setWindow, Intersection.setWindow,
          Function.update_self, Function.update_self]

theorem foldl_setWindow_some (h : x ∈ l.map (·.addr)) (σ : Windows D) :
    ∃ w, l.foldl (fun σ i => i.setWindow σ (f i)) σ x = some w := by
  induction l generalizing σ with
  | nil => simp at h
  | cons i l ih =>
      by_cases hx : x ∈ l.map (·.addr)
      · exact ih hx _
      · obtain rfl : x = i.addr := (List.mem_cons.mp h).resolve_right hx
        rw [List.foldl_cons, foldl_setWindow_frame f l hx]
        exact ⟨f i, Function.update_self _ _ _⟩

end SetWindow

variable {D : Type} [Double D]

/-! ### One turn of the loop -/

section Step

variable {a : Auto D} {s s' : Planner D} {i : Intersection D} {x : ℕ} {w : Window D}

theorem step_windows_of_ne (h : x ≠ i.addr) :
    (setMinWindowsStep a s i).windows x = s.windows x := by
  simp only [setMinWindowsStep]
  split
  · exact Function.update_of_ne h _ _
  · rfl

/-- The intersection that is processed holds a window afterwards: the planned one, if it held
none. -/
theorem step_windows_self :
    (setMinWindowsStep a s i).windows i.addr =
      some ((s.windows i.addr).getD (s.planned a i)) := by
  simp only [setMinWindowsStep]
  cases h : s.windows i.addr with
  | none => exact Function.update_self _ _ _
  | some b => exact h

theorem step_keeps (h : s.windows x = some w) : (setMinWindowsStep a s i).windows x = some w := by
  by_cases hx : x = i.addr
  · subst hx
    rw [step_windows_self, h, Option.getD_some]
  · rwa [step_windows_of_ne hx]

/-- The two states differ at most in windows outside `A`. -/
structure Planner.AgreeOn (A : ℕ → Prop) (s s' : Planner D) : Prop where
  windows : ∀ x, A x → s.windows x = s'.windows x
  time : s.time = s'.time
  pos : s.pos = s'.pos
  vel : s.vel = s'.vel
  accSet : s.accSet = s'.accSet
  accToReturn : s.accToReturn = s'.accToReturn

theorem Planner.AgreeOn.planned {A : ℕ → Prop} (h : s.AgreeOn A s') (hi : A i.addr) :
    s.acc a i = s'.acc a i ∧ s.window a i = s'.window a i ∧ s.planned a i = s'.planned a i := by
  have hacc : s.acc a i = s'.acc a i := by
    simp only [Planner.acc, h.windows i.addr hi, h.time, h.pos, h.vel]
  have hw : s.window a i = s'.window a i := by
    simp only [Planner.window, Planner.disp, hacc, h.pos, h.vel]
  exact ⟨hacc, hw, by simp only [Planner.planned, hw, h.time]⟩

/-- Processing an intersection of `A` keeps two states in agreement on `A`. -/
theorem Planner.AgreeOn.step {A : ℕ → Prop} (h : s.AgreeOn A s') (hi : A i.addr) :
    (setMinWindowsStep a s i).AgreeOn A (setMinWindowsStep a s' i) := by
  obtain ⟨hacc, hw, hp⟩ := h.planned (a := a) hi
  refine ⟨fun x hx => ?_, ?_, ?_, ?_, rfl, ?_⟩
  · by_cases e : x = i.addr
    · subst e
      rw [step_windows_self, step_windows_self, h.windows _ hi, hp]
    · rw [step_windows_of_ne e, step_windows_of_ne e, h.windows x hx]
  · simp only [setMinWindowsStep, h.time, hw]
  · simp only [setMinWindowsStep, Planner.disp, h.pos]
  · simp only [setMinWindowsStep, h.vel, h.pos, hacc, hw]
  · simp only [setMinWindowsStep, h.accSet, h.accToReturn, hacc]

end Step

/-! ### The loop -/

section Loop

variable {a : Auto D} {x : ℕ} {w : Window D}

theorem foldl_windows_frame (l : List (Intersection D)) (hx : x ∉ l.map (·.addr)) :
    ∀ s : Planner D, (l.foldl (setMinWindowsStep a) s).windows x = s.windows x := by
  induction l with
  | nil => exact fun _ => rfl
  | cons i l ih =>
      intro s
      simp only [List.map_cons, List.mem_cons, not_or] at hx
      rw [List.foldl_cons, ih hx.2, step_windows_of_ne hx.1]

theorem foldl_keeps (l : List (Intersection D)) :
    ∀ {s : Planner D}, s.windows x = some w →
      (l.foldl (setMinWindowsStep a) s).windows x = some w := by
  induction l with
  | nil => exact fun h => h
  | cons i l ih => exact fun h => ih (step_keeps h)

/-- The first acceleration is the one that is returned. -/
theorem foldl_accToReturn (l : List (Intersection D)) :
    ∀ {s : Planner D}, s.accSet = true →
      (l.foldl (setMinWindowsStep a) s).accSet = true ∧
        (l.foldl (setMinWindowsStep a) s).accToReturn = s.accToReturn := by
  induction l with
  | nil => exact fun h => ⟨h, rfl⟩
  | cons i l ih =>
      intro s h
      obtain ⟨h₁, h₂⟩ := ih (s := setMinWindowsStep a s i) rfl
      exact ⟨h₁, h₂.trans (by simp only [setMinWindowsStep, h, if_true])⟩

theorem Planner.AgreeOn.foldl {A : ℕ → Prop} (l : List (Intersection D))
    (hl : ∀ i ∈ l, A i.addr) : ∀ {s s' : Planner D}, s.AgreeOn A s' →
      (l.foldl (setMinWindowsStep a) s).AgreeOn A (l.foldl (setMinWindowsStep a) s') := by
  induction l with
  | nil => exact fun h => h
  | cons i l ih =>
      exact fun h => ih (fun j hj => hl j (List.mem_cons_of_mem i hj))
        (h.step (hl i List.mem_cons_self))

end Loop

namespace Grid

variable (S : StdSort (Intersection D)) (g : Grid D)

/-- The addresses of the intersections ahead of a car. -/
def footprint (c : Car D) : List ℕ := (g.intersectionsAhead S c).map (·.addr)

variable {S g} {a b : Auto D} {σ σ' : Windows D} {x : ℕ} {w : Window D}

/-! ### `set_min_windows` -/

theorem setMinWindows_frame (h : x ∉ g.footprint S a.toCar) :
    (g.setMinWindows S a σ).2 x = σ x :=
  foldl_windows_frame _ h _

theorem setMinWindows_keeps (h : σ x = some w) : (g.setMinWindows S a σ).2 x = some w :=
  foldl_keeps (s := Planner.start a σ) _ h

/-- **What is read**: windows that agree on the footprint give the same acceleration and agree
on the footprint afterwards. -/
theorem setMinWindows_congr (h : ∀ x ∈ g.footprint S a.toCar, σ x = σ' x) :
    (g.setMinWindows S a σ).1 = (g.setMinWindows S a σ').1 ∧
      ∀ x ∈ g.footprint S a.toCar, (g.setMinWindows S a σ).2 x = (g.setMinWindows S a σ').2 x := by
  have h₀ : (Planner.start a σ).AgreeOn (· ∈ g.footprint S a.toCar) (Planner.start a σ') :=
    ⟨h, rfl, rfl, rfl, rfl, rfl⟩
  have h₁ : (g.setMinWindowsLoop S a σ).AgreeOn (· ∈ g.footprint S a.toCar)
      (g.setMinWindowsLoop S a σ') :=
    h₀.foldl (g.intersectionsAhead S a.toCar) fun i hi => List.mem_map_of_mem hi
  exact ⟨by simp only [setMinWindows, h₁.accSet, h₁.accToReturn], h₁.windows⟩

/-- What is returned is the acceleration at the nearest intersection. -/
theorem setMinWindows_acc {i : Intersection D} {l : List (Intersection D)}
    (h : g.intersectionsAhead S a.toCar = i :: l) :
    (g.setMinWindows S a σ).1 = a.optimalAcc (σ i.addr) i 0 a.position a.velocity := by
  obtain ⟨h₁, h₂⟩ := foldl_accToReturn (a := a) l
    (s := setMinWindowsStep a (Planner.start a σ) i) rfl
  simp only [setMinWindows, setMinWindowsLoop, h, List.foldl_cons, h₁, h₂, if_true]
  rfl

/-- Every intersection ahead of the auto holds a window afterwards. -/
theorem setMinWindows_ne_none (h : x ∈ g.footprint S a.toCar) :
    (g.setMinWindows S a σ).2 x ≠ none := by
  obtain ⟨i, hi, rfl⟩ := List.mem_map.mp h
  obtain ⟨pre, post, hl⟩ := List.append_of_mem hi
  simp only [setMinWindows, setMinWindowsLoop, hl, List.foldl_append, List.foldl_cons]
  rw [foldl_keeps post step_windows_self]
  exact Option.some_ne_none _

/-- **Autos with no common intersection ahead are independent.** -/
theorem independent_of_disjoint
    (h : ∀ x ∈ g.footprint S a.toCar, x ∉ g.footprint S b.toCar) :
    Independent (g.setMinWindows S) a b := by
  -- one direction of the frame, at each of the two autos
  have ab : ∀ σ x, x ∈ g.footprint S a.toCar → (g.setMinWindows S b σ).2 x = σ x :=
    fun σ x hx => setMinWindows_frame (h x hx)
  have ba : ∀ σ x, x ∈ g.footprint S b.toCar → (g.setMinWindows S a σ).2 x = σ x :=
    fun σ x hx => setMinWindows_frame fun hx' => h x hx' hx
  refine ⟨fun σ => ?_, fun σ => (setMinWindows_congr (ab σ)).1,
    fun σ => (setMinWindows_congr (ba σ)).1⟩
  funext x
  by_cases hxa : x ∈ g.footprint S a.toCar
  · rw [ab _ x hxa, (setMinWindows_congr (ab σ)).2 x hxa]
  · rw [setMinWindows_frame hxa]
    by_cases hxb : x ∈ g.footprint S b.toCar
    · rw [(setMinWindows_congr (ba σ)).2 x hxb]
    · rw [setMinWindows_frame hxb, setMinWindows_frame hxb, setMinWindows_frame hxa]

/-! ### `find_accelerations` -/

/-- The second loop of `find_accelerations` is a run of `set_min_windows`. -/
theorem foldl_planStep (l : List (Auto D)) : ∀ (r : List D) (σ : Windows D),
    l.foldl (g.planStep S) (r, σ) =
      (r ++ (run (g.setMinWindows S) l σ).1.map Prod.snd, (run (g.setMinWindows S) l σ).2) := by
  induction l with
  | nil => exact fun r σ => by simp [run]
  | cons a l ih => exact fun r σ => by simp [planStep, ih, run]

/-- Windows that agree on a set of addresses, the footprints of the autos among them, give the
same accelerations and agree on the set afterwards. -/
theorem foldl_planStep_congr {A : ℕ → Prop} (l : List (Auto D))
    (hl : ∀ a ∈ l, ∀ x ∈ g.footprint S a.toCar, A x) :
    ∀ {r : List D} {σ σ' : Windows D}, (∀ x, A x → σ x = σ' x) →
      (l.foldl (g.planStep S) (r, σ)).1 = (l.foldl (g.planStep S) (r, σ')).1 ∧
        ∀ x, A x → (l.foldl (g.planStep S) (r, σ)).2 x = (l.foldl (g.planStep S) (r, σ')).2 x := by
  induction l with
  | nil => exact fun h => ⟨rfl, h⟩
  | cons a l ih =>
      intro r σ σ' h
      have ha := hl a List.mem_cons_self
      obtain ⟨hacc, hw⟩ := setMinWindows_congr fun x hx => h x (ha x hx)
      simp only [List.foldl_cons, planStep, hacc]
      refine ih (fun b hb => hl b (List.mem_cons_of_mem a hb)) fun x hx => ?_
      by_cases hf : x ∈ g.footprint S a.toCar
      · exact hw x hf
      · rw [setMinWindows_frame hf, setMinWindows_frame hf]
        exact h x hx

theorem windowsAfter_nil : g.windowsAfter S σ [] = g.reserveHuman S σ := rfl

theorem windowsAfter_concat (l : List (Auto D)) :
    g.windowsAfter S σ (l ++ [a]) = (g.setMinWindows S a (g.windowsAfter S σ l)).2 := by
  simp only [windowsAfter, List.foldl_append, List.foldl_cons, List.foldl_nil, planStep]

theorem length_accelerations (l : List (Auto D)) :
    (l.foldl (g.planStep S) ([], g.reserveHuman S σ)).1.length = l.length := by
  rw [foldl_planStep, List.nil_append, List.length_map]
  exact (List.length_map _).symm.trans (congrArg List.length (run_fst_map l _))

/-- The acceleration of an auto stands at the auto's place. -/
theorem findAccelerations_acc {before after : List (Auto D)} (h : g.autos = before ++ a :: after) :
    (g.findAccelerations S σ).1[before.length]? =
      some (g.setMinWindows S a (g.windowsAfter S σ before)).1 := by
  rw [findAccelerations, h, List.foldl_append, List.foldl_cons, foldl_planStep after, planStep,
    List.append_assoc]
  dsimp only
  rw [List.getElem?_append_right (length_accelerations before).le, length_accelerations,
    Nat.sub_self]
  rfl

theorem findAccelerations_windows : (g.findAccelerations S σ).2 = g.windowsAfter S σ g.autos := rfl

/-- A window that is there when some autos have planned is there when more have. -/
theorem windowsAfter_keeps {l : List (Auto D)} (h : g.windowsAfter S σ l x = some w)
    (m : List (Auto D)) : g.windowsAfter S σ (l ++ m) x = some w := by
  induction m using List.reverseRecOn with
  | nil => rwa [List.append_nil]
  | append_singleton m a ih =>
      rw [← List.append_assoc, windowsAfter_concat]
      exact setMinWindows_keeps ih

/-- Autos change no window outside their footprints. -/
theorem windowsAfter_frame {l : List (Auto D)} (h : ∀ a ∈ l, x ∉ g.footprint S a.toCar) :
    g.windowsAfter S σ l x = g.reserveHuman S σ x := by
  induction l using List.reverseRecOn with
  | nil => rfl
  | append_singleton l a ih =>
      rw [windowsAfter_concat, setMinWindows_frame (h a (by simp)),
        ih fun b hb => h b (List.mem_append_left _ hb)]

/-! ### The human's windows -/

theorem reserveHuman_frame (h : x ∉ g.footprint S g.human.toCar) :
    g.reserveHuman S σ x = σ x :=
  foldl_setWindow_frame g.humanWindow _ h σ

/-- What the human reserves does not depend on what was there. -/
theorem reserveHuman_congr (h : x ∈ g.footprint S g.human.toCar) :
    g.reserveHuman S σ x = g.reserveHuman S σ' x :=
  foldl_setWindow_congr g.humanWindow _ h σ σ'

end Grid

end DrivingSim
