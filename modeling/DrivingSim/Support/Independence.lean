import Mathlib.Data.List.Perm.Basic

/-!
# Support — the order of independent actions

An action takes a state to a result and a state.  Two actions are *independent* when they can
be swapped: neither changes the other's result, and the state after both does not depend on
which came first.

**Reordering** (`run_perm`).  Two orders of the same distinct actions that agree on the order of
every two dependent ones give the same results and the same final state.

The proof takes the first action `a` of one order to the front of the other: everything before
`a` there comes after `a` here, so is independent of `a` (`run_move`).
-/

namespace DrivingSim

section Independence

variable {E R S : Type} (act : E → S → R × S)

/-- The results of a run, each with its action, and the final state. -/
def run : List E → S → List (E × R) × S
  | [], s => ([], s)
  | e :: l, s => ((e, (act e s).1) :: (run l (act e s).2).1, (run l (act e s).2).2)

/-- `e` and `f` can be swapped. -/
structure Independent (e f : E) : Prop where
  state : ∀ s, (act f (act e s).2).2 = (act e (act f s).2).2
  left : ∀ s, (act e (act f s).2).1 = (act e s).1
  right : ∀ s, (act f (act e s).2).1 = (act f s).1

variable {act}

theorem Independent.symm {e f : E} (h : Independent act e f) : Independent act f e :=
  ⟨fun s => (h.state s).symm, h.right, h.left⟩

/-- An action moves to the front past actions it is independent of. -/
theorem run_move {a : E} {v : List E} :
    ∀ {u : List E}, (∀ b ∈ u, Independent act a b) → ∀ s,
      (run act (u ++ a :: v) s).1.Perm (run act (a :: (u ++ v)) s).1 ∧
        (run act (u ++ a :: v) s).2 = (run act (a :: (u ++ v)) s).2
  | [], _, _ => ⟨.refl _, rfl⟩
  | b :: u, h, s => by
      have hb := h b List.mem_cons_self
      obtain ⟨h₁, h₂⟩ := run_move (fun c hc => h c (List.mem_cons_of_mem b hc)) (act b s).2
      simp only [run, List.cons_append] at h₁ h₂ ⊢
      rw [hb.left, ← hb.state] at h₁
      rw [← hb.state] at h₂
      rw [hb.right]
      exact ⟨(h₁.cons _).trans (.swap _ _ _), h₂⟩

theorem run_fst_map (l : List E) : ∀ s, (run act l s).1.map Prod.fst = l := by
  induction l with
  | nil => exact fun _ => rfl
  | cons e l ih => exact fun s => congrArg (e :: ·) (ih _)

/-- What is before `a` in one order and after it in the other is independent of `a`. -/
theorem independent_of_before {a b : E} {t u v : List E} (ht : a ∉ t) (hb : b ∈ u)
    (hab : b ≠ a)
    (h : ¬ Independent act b a → [b, a].Sublist (u ++ a :: v) → [b, a].Sublist (a :: t)) :
    Independent act a b := by
  by_contra hn
  have hs : [b, a].Sublist (u ++ a :: v) :=
    (List.singleton_sublist.mpr hb).append (List.singleton_sublist.mpr List.mem_cons_self)
  rcases List.sublist_cons_iff.mp (h (fun h' => hn h'.symm) hs) with h' | ⟨r, hr, -⟩
  · exact ht (h'.subset (by simp))
  · exact hab (List.cons.inj hr).1

/-- Removing an element keeps the order of two others. -/
theorem pair_sublist_remove {a b c : E} {u v : List E} (hb : b ≠ a) (hc : c ≠ a) (hu : a ∉ u)
    (hv : a ∉ v) : [b, c].Sublist (u ++ a :: v) ↔ [b, c].Sublist (u ++ v) := by
  classical
  constructor
  · intro h
    have h' := h.filter fun x => x ≠ a
    have hu' : u.filter (fun x => x ≠ a) = u :=
      List.filter_eq_self.mpr fun x hx => by simpa using fun e : x = a => hu (e ▸ hx)
    have hv' : v.filter (fun x => x ≠ a) = v :=
      List.filter_eq_self.mpr fun x hx => by simpa using fun e : x = a => hv (e ▸ hx)
    have hbc : [b, c].filter (fun x => x ≠ a) = [b, c] := by simp [hb, hc]
    have hav : (a :: v).filter (fun x => x ≠ a) = v := by
      rw [List.filter_cons_of_neg (by simp), hv']
    rwa [List.filter_append, hbc, hu', hav] at h'
  · exact fun h => h.trans ((List.sublist_cons_self a v).append_left u)

/-- **Reordering.**  Two orders of the same distinct actions that agree on the order of every
two dependent ones give the same results and the same final state. -/
theorem run_perm :
    ∀ {l₁ l₂ : List E}, l₁.Nodup → l₁.Perm l₂ →
      (∀ b c, ¬ Independent act b c → [b, c].Sublist l₂ → [b, c].Sublist l₁) → ∀ s,
        (run act l₁ s).1.Perm (run act l₂ s).1 ∧ (run act l₁ s).2 = (run act l₂ s).2
  | [], l₂, _, hp, _, s => by
      obtain rfl := hp.symm.eq_nil
      exact ⟨.refl _, rfl⟩
  | a :: t, l₂, hn, hp, ho, s => by
      obtain ⟨hat, hnt⟩ := List.nodup_cons.mp hn
      obtain ⟨u, v, rfl⟩ := List.append_of_mem (hp.subset List.mem_cons_self)
      have hpt : t.Perm (u ++ v) := (List.perm_cons a).mp (hp.trans List.perm_middle)
      have hu : a ∉ u := fun h => hat (hpt.symm.subset (List.mem_append_left v h))
      have hv : a ∉ v := fun h => hat (hpt.symm.subset (List.mem_append_right u h))
      have hind : ∀ b ∈ u, Independent act a b := fun b hb =>
        independent_of_before hat hb (fun e => hu (e ▸ hb)) (ho b a)
      have hot : ∀ b c, ¬ Independent act b c → [b, c].Sublist (u ++ v) → [b, c].Sublist t := by
        intro b c hbc hs
        have hb : b ≠ a := fun e => hat (e ▸ hpt.symm.subset (hs.subset (by simp)))
        have hc : c ≠ a := fun e => hat (e ▸ hpt.symm.subset (hs.subset (by simp)))
        have := ho b c hbc ((pair_sublist_remove hb hc hu hv).mpr hs)
        exact (pair_sublist_remove (u := []) hb hc (by simp) hat).mp this
      obtain ⟨h₁, h₂⟩ := run_move hind s (v := v)
      obtain ⟨h₃, h₄⟩ := run_perm hnt hpt hot (act a s).2
      exact ⟨(h₃.cons _).trans h₁.symm, h₄.trans h₂.symm⟩

end Independence

end DrivingSim
