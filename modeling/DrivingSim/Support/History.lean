import Mathlib.Init

/-!
# Support — histories

A history is the list of the operations that have been made, the last one first.  An operation may
abort, and then there is no state after it.  What each operation preserves, of the history and the
state after it, holds after every history.
-/

namespace DrivingSim.History

variable {S Op : Type} {step : S → Op → Option S} {s t u : S} {op : Op} {past later : List Op}

/-- The state after a history, from `s` on. -/
def exec (step : S → Op → Option S) (s : S) : List Op → Option S
  | [] => some s
  | op :: past => (exec step s past).bind fun t => step t op

theorem exec_cons (h : exec step s (op :: past) = some u) :
    ∃ t, exec step s past = some t ∧ step t op = some u := Option.bind_eq_some_iff.1 h

theorem exec_step (h : exec step s past = some t) (hstep : step t op = some u) :
    exec step s (op :: past) = some u := by
  rw [exec, h]
  exact hstep

/-- **The rule of invariants**, for histories. -/
theorem exec_invariant {P : List Op → S → Prop} (h₀ : P [] s)
    (hstep : ∀ past op t u, exec step s past = some t → P past t → step t op = some u →
      P (op :: past) u)
    (h : exec step s past = some t) : P past t := by
  induction past generalizing t with
  | nil =>
      cases h
      exact h₀
  | cons op past ih =>
      obtain ⟨u, hu, hop⟩ := exec_cons h
      exact hstep past op u t hu (ih hu) hop

/-- A history goes on from the state after its first part. -/
theorem exec_append (h : exec step s (later ++ past) = some u) :
    ∃ t, exec step s past = some t ∧ exec step t later = some u := by
  induction later generalizing u with
  | nil => exact ⟨u, h, rfl⟩
  | cons op later ih =>
      obtain ⟨v, hv, hop⟩ := exec_cons h
      obtain ⟨t, ht, hlater⟩ := ih hv
      exact ⟨t, ht, exec_step hlater hop⟩

/-! ### Calls with an address -/

variable {Key Val : Type} [BEq Key] [LawfulBEq Key] {key : Key} {val : Val}
  {calls : List (Key × Val)}

/-- The last call for an address is a call of the history. -/
theorem mem_of_lookup (h : calls.lookup key = some val) : (key, val) ∈ calls := by
  obtain ⟨later, past, rfl, -⟩ := List.lookup_eq_some_iff.1 h
  exact List.mem_append_right later List.mem_cons_self

theorem not_mem_of_lookup (h : calls.lookup key = none) : (key, val) ∉ calls := by
  intro hmem
  exact absurd (List.lookup_eq_none_iff.1 h _ hmem) (by simp)

end DrivingSim.History
