import Mathlib.Algebra.BigOperators.Fin
import DrivingSim.Hardware.MotorSpeed

/-!
# Hardware — changes of the acceleration by several threads

`change_acceleration(delta)` reads the acceleration in one critical section of `data_lock` and
sets the sum in another.  Any number of threads, one for each `j`, make one call each.

The change of a call is lost when another call writes between its two sections.  In a run in
which every call finds, when it writes, the acceleration that it has read, the acceleration is
at all times the initial one and the sum of the changes that have been written
(`changeAcceleration_sum`).  Two calls that both read first leave one change
(`twoCallers_lost`).
-/

namespace DrivingSim.Motor
open XReal

/-- Where a call of `change_acceleration` is: before its first section, between the two, with the
acceleration it has read, or after. -/
inductive Call where
  | start
  | read (acceleration : XReal)
  | returned

/-- A motor, and one call by each of several threads. -/
structure Callers (ι : Type) where
  motor : Motor XReal
  calls : ι → Call

namespace Callers

variable {ι : Type} [DecidableEq ι]

/-- The first section of the call `j`. -/
def acceleration (s : Callers ι) (j : ι) : Callers ι :=
  ⟨s.motor, Function.update s.calls j (.read s.motor.accel)⟩

/-- The second section of the call `j`, which has read `r` and adds `d`. -/
noncomputable def setAcceleration (s : Callers ι) (j : ι) (r : XReal) (d : ℝ) : Callers ι :=
  ⟨s.motor.setAcceleration (r + fin d), Function.update s.calls j .returned⟩

/-- A section of a call, or a step of the motor that is not a call of `set_acceleration`. -/
inductive Step (delta : ι → ℝ) : Callers ι → Callers ι → Prop where
  | acceleration (s : Callers ι) (j : ι) (h : s.calls j = .start) :
      Step delta s (s.acceleration j)
  | setAcceleration (s : Callers ι) (j : ι) (r : XReal) (h : s.calls j = .read r) :
      Step delta s (s.setAcceleration j r (delta j))
  | calibrate (s : Callers ι) (newPosition : XReal) :
      Step delta s ⟨s.motor.calibrate newPosition, s.calls⟩
  | requestHalt (s : Callers ι) : Step delta s ⟨s.motor.requestHalt, s.calls⟩
  | thread (s : Callers ι) : Step delta s ⟨s.motor.threadStep, s.calls⟩

/-- A call that writes in this step has read the acceleration that it finds. -/
def Undisturbed (s s' : Callers ι) : Prop :=
  ∀ j r, s.calls j = .read r → s'.calls j = .returned → s.motor.accel = r

/-- What a call has added to the acceleration. -/
def settled (delta : ι → ℝ) (s : Callers ι) (j : ι) : ℝ :=
  match s.calls j with
  | .returned => delta j
  | _ => 0

variable {delta : ι → ℝ} {s s' : Callers ι} {a₀ : ℝ}

section Sections

variable {j k : ι} {r : XReal} {d : ℝ}

@[simp] theorem acceleration_calls_self :
    (s.acceleration j).calls j = .read s.motor.accel := Function.update_self _ _ _

@[simp] theorem acceleration_calls_ne (h : k ≠ j) : (s.acceleration j).calls k = s.calls k :=
  Function.update_of_ne h _ _

@[simp] theorem setAcceleration_calls_self : (s.setAcceleration j r d).calls j = .returned :=
  Function.update_self _ _ _

@[simp] theorem setAcceleration_calls_ne (h : k ≠ j) :
    (s.setAcceleration j r d).calls k = s.calls k := Function.update_of_ne h _ _

@[simp] theorem setAcceleration_accel : (s.setAcceleration j r d).motor.accel = r + fin d := rfl

theorem undisturbed_acceleration : Undisturbed s (s.acceleration j) := by
  intro k r' hk hk'
  by_cases h : k = j
  · subst h
    rw [acceleration_calls_self] at hk'
    exact nomatch hk'
  · rw [acceleration_calls_ne h, hk] at hk'
    exact nomatch hk'

theorem undisturbed_setAcceleration (hj : s.calls j = .read s.motor.accel) :
    Undisturbed s (s.setAcceleration j r d) := by
  intro k r' hk hk'
  by_cases h : k = j
  · subst h
    rw [hj] at hk
    exact Call.read.inj hk
  · rw [setAcceleration_calls_ne h, hk] at hk'
    exact nomatch hk'

/-- A call with nothing in between is not disturbed. -/
theorem run_call (hj : s.calls j = .start) :
    Relation.ReflTransGen (fun s s' => Step delta s s' ∧ Undisturbed s s') s
      ((s.acceleration j).setAcceleration j s.motor.accel (delta j)) := by
  refine .tail (.single ⟨.acceleration s j hj, undisturbed_acceleration⟩) ⟨?_, ?_⟩
  · exact .setAcceleration _ j _ acceleration_calls_self
  · exact undisturbed_setAcceleration acceleration_calls_self

end Sections

omit [DecidableEq ι] in
theorem settled_of_returned (h : ∀ j, s.calls j = .returned) : settled delta s = delta := by
  funext j
  rw [settled, h j]

/-- A first section settles nothing. -/
theorem settled_acceleration {j : ι} (h : s.calls j = .start) :
    settled delta (s.acceleration j) = settled delta s := by
  funext k
  by_cases hk : k = j
  · subst hk
    simp only [settled, acceleration_calls_self, h]
  · simp only [settled, acceleration_calls_ne hk]

/-- A second section settles the change of its call. -/
theorem settled_setAcceleration (j : ι) (r : XReal) (d : ℝ) :
    settled delta (s.setAcceleration j r d) = Function.update (settled delta s) j (delta j) := by
  funext k
  by_cases hk : k = j
  · subst hk
    simp only [settled, setAcceleration_calls_self, Function.update_self]
  · simp only [settled, setAcceleration_calls_ne hk, Function.update_of_ne hk]

variable [Fintype ι]

/-- The acceleration is made of what has been settled. -/
def Accounted (delta : ι → ℝ) (a₀ : ℝ) (s : Callers ι) : Prop :=
  s.motor.accel = fin (a₀ + ∑ j, settled delta s j)

theorem Accounted.step (h : Accounted delta a₀ s) (hs : Step delta s s')
    (hu : Undisturbed s s') : Accounted delta a₀ s' := by
  cases hs with
  | acceleration j hj =>
      rw [Accounted, settled_acceleration hj]
      exact h
  | setAcceleration j r hj =>
      have hr : s.motor.accel = r := hu j r hj setAcceleration_calls_self
      have hj₀ : settled delta s j = 0 := by rw [settled, hj]
      have hsum : ∑ k, Function.update (settled delta s) j (delta j) k =
          ∑ k, settled delta s k + delta j := by
        rw [Finset.sum_update_of_mem (Finset.mem_univ j),
          ← Finset.add_sum_erase Finset.univ (settled delta s) (Finset.mem_univ j), hj₀,
          Finset.sdiff_singleton_eq_erase]
        ring
      rw [Accounted, settled_setAcceleration, hsum, ← add_assoc, ← add_fin]
      show r + fin (delta j) = _
      rw [← hr, h]
  | calibrate p => exact h
  | requestHalt => exact h
  | thread => exact threadStep_accel.trans h

/-- **No change is lost** in a run in which no call that writes has been disturbed: once all calls
have returned, the acceleration is the initial one and the sum of all changes. -/
theorem changeAcceleration_sum {s₀ : Callers ι} (h₀ : ∀ j, s₀.calls j = .start)
    (ha : s₀.motor.accel = fin a₀)
    (hrun : Relation.ReflTransGen (fun s s' => Step delta s s' ∧ Undisturbed s s') s₀ s)
    (hret : ∀ j, s.calls j = .returned) : s.motor.accel = fin (a₀ + ∑ j, delta j) := by
  have hinit : Accounted delta a₀ s₀ := by
    have hz : ∀ j, settled delta s₀ j = 0 := fun j => by rw [settled, h₀ j]
    rw [Accounted, ha, Finset.sum_eq_zero fun j _ => hz j, add_zero]
  have h : Accounted delta a₀ s :=
    reachable_invariant hinit (fun _ _ _ h hs => h.step hs.1 hs.2) hrun
  rw [Accounted, settled_of_returned hret] at h
  exact h

/-! ### Two calls -/

noncomputable section TwoCallers

/-- Nobody has called yet. -/
def twoCallers : Callers (Fin 2) := ⟨init, fun _ => .start⟩

theorem twoCallers_accel : twoCallers.motor.accel = fin 0 := by
  rw [twoCallers, init_accel, ofScientific_eq]
  norm_num

/-- The first call has returned before the second one starts. -/
def oneReturned : Callers (Fin 2) :=
  (twoCallers.acceleration 0).setAcceleration 0 twoCallers.motor.accel 1

theorem twoCallers_sum :
    ((oneReturned.acceleration 1).setAcceleration 1 oneReturned.motor.accel 1).motor.accel =
      fin (0 + ∑ _ : Fin 2, 1) := by
  have h₀ : oneReturned.calls 0 = .returned := setAcceleration_calls_self
  have h₁ : oneReturned.calls 1 = .start := by
    rw [oneReturned, setAcceleration_calls_ne one_ne_zero, acceleration_calls_ne one_ne_zero]
    rfl
  have hrun : Relation.ReflTransGen (fun s s' => Step (fun _ => 1) s s' ∧ Undisturbed s s')
      twoCallers ((oneReturned.acceleration 1).setAcceleration 1 oneReturned.motor.accel 1) :=
    (run_call rfl).trans (run_call h₁)
  refine changeAcceleration_sum (fun _ => rfl) twoCallers_accel hrun
    (Fin.forall_fin_two.mpr ⟨?_, ?_⟩)
  · rw [setAcceleration_calls_ne zero_ne_one, acceleration_calls_ne zero_ne_one, h₀]
  · exact setAcceleration_calls_self

/-- Both calls have read, and none has written. -/
def bothRead : Callers (Fin 2) := (twoCallers.acceleration 0).acceleration 1

/-- **A lost change.**  Both calls read, and then both write: the acceleration has changed once. -/
theorem twoCallers_lost : ∃ s, Relation.ReflTransGen (Step fun _ => 1) twoCallers s ∧
    (∀ j, s.calls j = .returned) ∧ s.motor.accel = fin 1 ∧
    s.motor.accel ≠ fin (0 + ∑ _ : Fin 2, 1) := by
  have h₀ : bothRead.calls 0 = .read (fin 0) := by
    rw [bothRead, acceleration_calls_ne zero_ne_one, acceleration_calls_self, twoCallers_accel]
  have h₁ : (bothRead.setAcceleration 0 (fin 0) 1).calls 1 = .read (fin 0) := by
    rw [setAcceleration_calls_ne one_ne_zero, bothRead, acceleration_calls_self]
    exact congrArg Call.read twoCallers_accel
  have haccel : ((bothRead.setAcceleration 0 (fin 0) 1).setAcceleration 1 (fin 0) 1).motor.accel =
      fin 1 := by
    rw [setAcceleration_accel, add_fin, zero_add]
  refine ⟨(bothRead.setAcceleration 0 (fin 0) 1).setAcceleration 1 (fin 0) 1, ?_,
    Fin.forall_fin_two.mpr ⟨?_, ?_⟩, haccel, ?_⟩
  · have hread : Relation.ReflTransGen (Step fun _ => 1) twoCallers bothRead := by
      refine .tail (.single (.acceleration twoCallers 0 rfl)) (.acceleration _ 1 ?_)
      rw [acceleration_calls_ne one_ne_zero]
      rfl
    exact (hread.tail (.setAcceleration bothRead 0 _ h₀)).tail (.setAcceleration _ 1 _ h₁)
  · rw [setAcceleration_calls_ne zero_ne_one, setAcceleration_calls_self]
  · exact setAcceleration_calls_self
  · rw [haccel]
    intro h
    have := XReal.fin.inj h
    rw [Fin.sum_univ_two] at this
    norm_num at this

end TwoCallers

end Callers

end DrivingSim.Motor
