import Mathlib.Logic.Relation

/-!
# Support — invariants of runs

A run is a sequence of steps, `Relation.ReflTransGen`.  What every step preserves holds to the
end of a run; a step may be assumed to start from a state the run reaches.  What a run can come to
is found backwards, step by step.
-/

namespace DrivingSim

variable {S : Type} {step : S → S → Prop} {P Q : S → Prop} {s s' : S}

/-- **The rule of invariants.** -/
theorem reachable_invariant (h₀ : P s)
    (hstep : ∀ t t', Relation.ReflTransGen step s t → P t → step t t' → P t')
    (h : Relation.ReflTransGen step s s') : P s' := by
  induction h with
  | refl => exact h₀
  | tail hrun h ih => exact hstep _ _ hrun ih h

/-- Some run from here comes to `P`. -/
def CanReach (step : S → S → Prop) (P : S → Prop) (s : S) : Prop :=
  ∃ s', Relation.ReflTransGen step s s' ∧ P s'

namespace CanReach

theorem here (h : P s) : CanReach step P s := ⟨s, .refl, h⟩

theorem of_step (hstep : step s s') (h : CanReach step P s') : CanReach step P s := by
  obtain ⟨t, hrun, ht⟩ := h
  exact ⟨t, .head hstep hrun, ht⟩

/-- One run after another. -/
theorem trans (h : CanReach step P s)
    (hQ : ∀ t, Relation.ReflTransGen step s t → P t → CanReach step Q t) : CanReach step Q s := by
  obtain ⟨t, hrun, ht⟩ := h
  obtain ⟨u, hrun', hu⟩ := hQ t hrun ht
  exact ⟨u, hrun.trans hrun', hu⟩

end CanReach

end DrivingSim
