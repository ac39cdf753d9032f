import Mathlib.Data.List.Basic

/-!
# Support — items in the order of their instants

Each item of a list has an instant at which it is due, or none.  `due` are the items that are due
before `n`, in the order of their instants and, at one instant, in that of the list; `pending`
are the others, in the order of the list.  The two together are the list (`due_perm`), as time
goes on the items of an instant go from the one to the other (`due_succ`, `pending_succ`), and
an item that is added to the list before it is due is pending (`due_append`,
`pending_append`).  Of two items, the one that comes first in the list and is not due later is due
first (`due_sublist`).
-/

namespace DrivingSim

variable {α : Type} (instant : α → Option ℕ)

/-- The items due before `n`, in their order. -/
def due (l : List α) (n : ℕ) : List α :=
  (List.range n).flatMap fun k => l.filter fun a => instant a = some k

/-- The items not due before `n`. -/
def pending (l : List α) (n : ℕ) : List α :=
  l.filter fun a => ¬ ∃ k < n, instant a = some k

variable {instant} {l l' : List α} {n : ℕ} {a : α}

@[simp] theorem due_zero : due instant l 0 = [] := rfl

@[simp] theorem pending_zero : pending instant l 0 = l := by
  rw [pending, List.filter_eq_self]
  simp

theorem due_succ :
    due instant l (n + 1) = due instant l n ++ l.filter fun a => instant a = some n := by
  rw [due, List.range_succ, List.flatMap_append, List.flatMap_singleton, due]

theorem mem_due : a ∈ due instant l n ↔ a ∈ l ∧ ∃ k < n, instant a = some k := by
  simp only [due, List.mem_flatMap, List.mem_range, List.mem_filter, decide_eq_true_eq]
  constructor
  · rintro ⟨k, hk, ha, hi⟩
    exact ⟨ha, k, hk, hi⟩
  · rintro ⟨ha, k, hk, hi⟩
    exact ⟨k, hk, ha, hi⟩

theorem mem_pending : a ∈ pending instant l n ↔ a ∈ l ∧ ¬ ∃ k < n, instant a = some k := by
  rw [pending, List.mem_filter, decide_eq_true_eq]

/-- The items that are due next. -/
theorem filter_pending :
    (pending instant l n).filter (fun a => instant a = some n) =
      l.filter fun a => instant a = some n := by
  rw [pending, List.filter_filter]
  refine List.filter_congr fun a _ => ?_
  by_cases h : instant a = some n
  · simp only [h, decide_true, Bool.true_and, decide_eq_true_eq, Option.some.injEq]
    rintro ⟨k, hk, rfl⟩
    exact Nat.lt_irrefl _ hk
  · simp only [h, decide_false, Bool.false_and]

theorem pending_succ :
    pending instant l (n + 1) =
      (pending instant l n).filter fun a => ¬ instant a = some n := by
  rw [pending, pending, List.filter_filter]
  refine List.filter_congr fun a _ => ?_
  rw [← Bool.decide_and, decide_eq_decide]
  constructor
  · intro h
    exact ⟨fun e => h ⟨n, n.lt_succ_self, e⟩, fun ⟨k, hk, e⟩ => h ⟨k, Nat.lt_succ_of_lt hk, e⟩⟩
  · rintro ⟨hn, h⟩ ⟨k, hk, e⟩
    rcases Nat.lt_succ_iff_lt_or_eq.mp hk with hk | rfl
    · exact h ⟨k, hk, e⟩
    · exact hn e

/-- Items that are not due yet make no difference to those that are. -/
theorem due_append (h : ∀ a ∈ l', ¬ ∃ k < n, instant a = some k) :
    due instant (l ++ l') n = due instant l n := by
  rw [due, due]
  refine List.flatMap_congr fun k hk => ?_
  have hnil : l'.filter (fun a => instant a = some k) = [] :=
    List.filter_eq_nil_iff.mpr fun a ha e =>
      h a ha ⟨k, List.mem_range.mp hk, of_decide_eq_true e⟩
  rw [List.filter_append, hnil, List.append_nil]

theorem pending_append (h : ∀ a ∈ l', ¬ ∃ k < n, instant a = some k) :
    pending instant (l ++ l') n = pending instant l n ++ l' := by
  rw [pending, List.filter_append, ← pending, List.filter_eq_self.mpr]
  exact fun a ha => decide_eq_true (h a ha)

variable (instant) in
/-- **Each item is due or pending.** -/
theorem due_perm (l : List α) (n : ℕ) : (due instant l n ++ pending instant l n).Perm l := by
  induction n with
  | zero => rw [due_zero, pending_zero, List.nil_append]
  | succ n ih =>
      rw [due_succ, pending_succ, ← filter_pending, List.append_assoc]
      refine (List.Perm.append_left _ ?_).trans ih
      have h := List.filter_append_perm (fun a => decide (instant a = some n))
        (pending instant l n)
      simpa only [decide_not] using h

/-! ### Two items -/

/-- Two items of a list whose keys go up. -/
theorem pair_sublist {key : α → ℕ} {b : α} (hl : l.Pairwise fun x y => key x < key y)
    (ha : a ∈ l) (hb : b ∈ l) (h : key a < key b) : [a, b].Sublist l := by
  induction l with
  | nil => exact absurd ha List.not_mem_nil
  | cons x l ih =>
      obtain ⟨hx, hl⟩ := List.pairwise_cons.1 hl
      rcases List.mem_cons.1 ha with rfl | hal
      · rcases List.mem_cons.1 hb with rfl | hbl
        · exact absurd h (Nat.lt_irrefl _)
        · exact (List.singleton_sublist.2 hbl).cons_cons _
      · rcases List.mem_cons.1 hb with rfl | hbl
        · exact absurd (Nat.lt_trans h (hx a hal)) (Nat.lt_irrefl _)
        · exact (ih hl hal hbl).cons _

/-- Where the second of two items is not in the second part of a list, both are in the first. -/
theorem sublist_of_not_mem {b : α} (h : [a, b].Sublist (l ++ l')) (hb : b ∉ l') :
    [a, b].Sublist l := by
  obtain ⟨l₁, l₂, heq, h₁, h₂⟩ := List.sublist_append_iff.1 h
  have hl₂ : b ∉ l₂ := fun hmem => hb (h₂.subset hmem)
  rcases l₁ with - | ⟨x, - | ⟨y, l₁⟩⟩
  · obtain rfl : [a, b] = l₂ := heq
    exact absurd (List.mem_cons_of_mem _ List.mem_cons_self) hl₂
  · obtain ⟨-, rfl⟩ := List.cons.inj heq
    exact absurd List.mem_cons_self hl₂
  · simp only [List.cons_append, List.cons.injEq] at heq
    obtain ⟨rfl, rfl, hnil⟩ := heq
    obtain ⟨rfl, -⟩ := List.append_eq_nil_iff.1 hnil.symm
    exact h₁

/-- **The first of two items is due first**, unless it is due later. -/
theorem due_sublist {b : α} {i j : ℕ} (h : [a, b].Sublist l) (ha : instant a = some i)
    (hb : instant b = some j) (hij : i ≤ j) (hn : j < n) : [a, b].Sublist (due instant l n) := by
  induction n with
  | zero => exact absurd hn (Nat.not_lt_zero _)
  | succ n ih =>
      rw [due_succ]
      rcases Nat.lt_succ_iff_lt_or_eq.1 hn with hlt | rfl
      · exact (ih hlt).trans (List.sublist_append_left _ _)
      · have hnext := h.filter fun x => decide (instant x = some j)
        rcases Nat.lt_or_eq_of_le hij with hlt | rfl
        · have hdue : [a].Sublist (due instant l j) := List.singleton_sublist.2
            (mem_due.2 ⟨h.subset List.mem_cons_self, i, hlt, ha⟩)
          have hnow : [b].Sublist (l.filter fun x => decide (instant x = some j)) :=
            List.singleton_sublist.2 (List.mem_filter.2
              ⟨h.subset (List.mem_cons_of_mem _ List.mem_cons_self), decide_eq_true hb⟩)
          exact hdue.append hnow
        · have hboth : [a, b].filter (fun x => decide (instant x = some i)) = [a, b] :=
            List.filter_eq_self.2 (by simp [ha, hb])
          rw [hboth] at hnext
          exact hnext.trans (List.sublist_append_right _ _)

/-- Where the second of two items is in the first part of a list, so is the first. -/
theorem mem_of_prefix {b : α} {sofar : List α} (hl : l.Nodup) (h : [a, b].Sublist l)
    (hsofar : sofar <+: l) (hb : b ∈ sofar) : a ∈ sofar := by
  obtain ⟨rest, rfl⟩ := hsofar
  obtain ⟨l₁, l₂, heq, h₁, h₂⟩ := List.sublist_append_iff.1 h
  cases l₁ with
  | nil =>
      obtain rfl : [a, b] = l₂ := heq
      have hrest := h₂.subset (List.mem_cons_of_mem _ List.mem_cons_self)
      exact absurd rfl ((List.nodup_append.1 hl).2.2 b hb b hrest)
  | cons x l₁ =>
      obtain ⟨rfl, -⟩ := List.cons.inj heq
      exact h₁.subset List.mem_cons_self

end DrivingSim
