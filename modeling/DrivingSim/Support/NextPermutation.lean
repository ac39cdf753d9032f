import Mathlib.Data.List.Lex
import Mathlib.Data.List.Sort
import Mathlib.Data.List.TakeWhile
import Mathlib.Data.List.Permutation
import Mathlib.Data.Finset.Card

/-!
# Support — the next permutation

`nextPermutation key l` is what `std::next_permutation` makes of `l`, whose items are compared by a
key, where it returns `true`, and `none` where it returns `false`.  Of the permutations of the keys
that come after those of `l`, in the lexicographic order, it has the first, and there are none where
there is no next one (`nextPermutation_spec`).

`ordersFrom key l` are the lists that a loop comes to that begins with `l` and goes on to the next
permutation while there is one.  Their keys go up, and are all the permutations of those of `l` that
do not come before them (`pairwise_ordersFrom`, `perm_of_mem_ordersFrom`, `exists_mem_ordersFrom`).
-/

namespace DrivingSim

variable {α κ : Type} [LinearOrder κ] (key : α → κ)

def nextPermutation : List α → Option (List α)
  | [] => none
  | a :: l =>
    match nextPermutation l with
    | some l' => some (a :: l')
    | none =>
      -- the tail is the last of its permutations, so the head is the next key
      let sorted := (a :: l).insertionSort fun x y => key x ≤ key y
      match sorted.dropWhile fun x => key x ≤ key a with
      | [] => none
      | b :: rest => some (b :: (sorted.takeWhile (fun x => key x ≤ key a) ++ rest))

variable {key} {a b : α} {l l' m : List α} {ks ms : List κ}

/-! ### The lexicographic order -/

theorem cons_lt_cons {k k' : κ} : k :: ks < k' :: ms ↔ k < k' ∨ k = k' ∧ ks < ms :=
  List.cons_lt_cons_iff

theorem cons_le_cons {k k' : κ} : k :: ks ≤ k' :: ms ↔ k < k' ∨ k = k' ∧ ks ≤ ms := by
  rw [le_iff_lt_or_eq, cons_lt_cons, List.cons.injEq, le_iff_lt_or_eq]
  tauto

theorem nil_le (ks : List κ) : [] ≤ ks := not_lt.1 (List.not_lt_nil ks)

/-- Sorted keys are the first of their permutations. -/
theorem sorted_le (h : ks.Pairwise (· ≤ ·)) (hperm : ms.Perm ks) : ks ≤ ms := by
  induction ks generalizing ms with
  | nil => exact nil_le ms
  | cons k ks ih =>
      obtain ⟨hk, hks⟩ := List.pairwise_cons.1 h
      cases ms with
      | nil => exact absurd hperm.length_eq (by simp)
      | cons m ms =>
          have hm : k ≤ m := by
            rcases List.mem_cons.1 (hperm.subset List.mem_cons_self) with rfl | hm
            · exact le_rfl
            · exact hk m hm
          rw [cons_le_cons]
          rcases hm.lt_or_eq with hlt | rfl
          · exact .inl hlt
          · exact .inr ⟨rfl, ih hks hperm.cons_inv⟩

/-! ### The next permutation -/

variable (key) in
/-- The three cases of a list that is not empty. -/
theorem nextPermutation_cons (a : α) (l : List α) :
    (∃ l', nextPermutation key l = some l' ∧ nextPermutation key (a :: l) = some (a :: l')) ∨
    nextPermutation key l = none ∧ nextPermutation key (a :: l) = none ∧
      (∀ x ∈ l, key x ≤ key a) ∨
    nextPermutation key l = none ∧ ∃ b rest, nextPermutation key (a :: l) = some (b :: rest) ∧
      (b :: rest).Perm (a :: l) ∧ key a < key b ∧ (∀ x ∈ l, key a < key x → key b ≤ key x) ∧
      (rest.map key).Pairwise (· ≤ ·) := by
  rw [nextPermutation]
  cases hl : nextPermutation key l with
  | some l' => exact .inl ⟨l', rfl, rfl⟩
  | none =>
      refine .inr ?_
      dsimp only
      obtain ⟨sorted, hsorted⟩ :
          ∃ sorted, sorted = (a :: l).insertionSort fun x y => key x ≤ key y := ⟨_, rfl⟩
      rw [← hsorted]
      have hperm : sorted.Perm (a :: l) := hsorted ▸ List.perm_insertionSort _ _
      have hpairwise : sorted.Pairwise fun x y => key x ≤ key y := by
        rw [hsorted]
        have : Std.Total fun x y : α => key x ≤ key y := ⟨fun x y => le_total _ _⟩
        have : IsTrans α fun x y => key x ≤ key y := ⟨fun _ _ _ => le_trans⟩
        exact List.pairwise_insertionSort _ _
      have hsplit := List.takeWhile_append_dropWhile (p := fun x => decide (key x ≤ key a))
        (l := sorted)
      cases hrest : sorted.dropWhile fun x => decide (key x ≤ key a) with
      | nil =>
          refine .inl ⟨rfl, rfl, fun x hx => ?_⟩
          have hall := List.dropWhile_eq_nil_iff.1 hrest x
            (hperm.symm.subset (List.mem_cons_of_mem _ hx))
          exact of_decide_eq_true hall
      | cons b rest =>
          rw [hrest] at hsplit
          refine .inr ⟨rfl, b, _, rfl, ?_, ?_, fun x hx hlt => ?_, ?_⟩
          · exact (List.perm_middle.symm.trans (.of_eq hsplit)).trans hperm
          · have hfirst := List.head?_dropWhile_not (fun x => decide (key x ≤ key a)) sorted
            rw [hrest] at hfirst
            exact not_le.1 (of_decide_eq_false hfirst)
          · have hx' : x ∈ sorted := hperm.symm.subset (List.mem_cons_of_mem _ hx)
            rw [← hsplit] at hx' hpairwise
            rcases List.mem_append.1 hx' with hmem | hmem
            · have hle := List.mem_takeWhile_imp (p := fun x => decide (key x ≤ key a)) hmem
              exact absurd (of_decide_eq_true hle) (not_le.2 hlt)
            · rcases List.mem_cons.1 hmem with rfl | hmem
              · exact le_rfl
              · exact (List.pairwise_cons.1 (List.pairwise_append.1 hpairwise).2.1).1 x hmem
          · have hsub : (sorted.takeWhile (fun x => decide (key x ≤ key a)) ++ rest).Sublist
                (sorted.takeWhile (fun x => decide (key x ≤ key a)) ++ b :: rest) :=
              (List.Sublist.refl _).append (List.sublist_cons_self b rest)
            rw [hsplit] at hsub
            rw [List.pairwise_map]
            exact hpairwise.sublist hsub

variable (key) in
/-- What follows a list, and is followed by no permutation that does. -/
theorem nextPermutation_spec (l : List α) :
    (∀ l', nextPermutation key l = some l' → l'.Perm l ∧ l.map key < l'.map key ∧
      ∀ ks, ks.Perm (l.map key) → l.map key < ks → l'.map key ≤ ks) ∧
    (nextPermutation key l = none → ∀ ks, ks.Perm (l.map key) → ks ≤ l.map key) := by
  induction l with
  | nil =>
      refine ⟨fun l' h => absurd h (Option.some_ne_none _).symm, fun _ ks hks => ?_⟩
      rw [List.map_nil, List.perm_nil] at hks
      rw [hks]
      exact le_rfl
  | cons a l ih =>
      rcases nextPermutation_cons key a l with
        ⟨l', hl, hal⟩ | ⟨hl, hal, hlast⟩ | ⟨hl, b, rest, hal, hperm, hlt, hleast, hsorted⟩
      · rw [hal]
        refine ⟨fun l'' h => ?_, fun h => absurd h (Option.some_ne_none _)⟩
        obtain rfl := Option.some.inj h
        obtain ⟨hperm, hlt, hleast⟩ := ih.1 l' hl
        refine ⟨hperm.cons a, cons_lt_cons.2 (.inr ⟨rfl, hlt⟩), fun ks hks hafter => ?_⟩
        cases ks with
        | nil => exact absurd hks.length_eq (by simp)
        | cons k ms =>
            refine cons_le_cons.2 ?_
            rcases cons_lt_cons.1 hafter with hk | ⟨rfl, hms⟩
            · exact .inl hk
            · exact .inr ⟨rfl, hleast ms hks.cons_inv hms⟩
      · rw [hal]
        refine ⟨fun l' h => absurd h (Option.some_ne_none _).symm, fun _ ks hks => ?_⟩
        cases ks with
        | nil => exact nil_le _
        | cons k ms =>
            have hk : k ≤ key a := by
              obtain ⟨x, hx, rfl⟩ := List.mem_map.1 (hks.subset List.mem_cons_self)
              rcases List.mem_cons.1 hx with rfl | hx
              · exact le_rfl
              · exact hlast x hx
            refine cons_le_cons.2 ?_
            rcases hk.lt_or_eq with hk | rfl
            · exact .inl hk
            · exact .inr ⟨rfl, ih.2 hl ms hks.cons_inv⟩
      · rw [hal]
        refine ⟨fun l' h => ?_, fun h => absurd h (Option.some_ne_none _)⟩
        obtain rfl := Option.some.inj h
        refine ⟨hperm, cons_lt_cons.2 (.inl hlt), fun ks hks hafter => ?_⟩
        cases ks with
        | nil => exact absurd hks.length_eq (by simp)
        | cons k ms =>
            rcases cons_lt_cons.1 hafter with hk | ⟨rfl, hms⟩
            · -- no later head is smaller than `b`, and after `b` all is sorted
              have hb : key b ≤ k := by
                obtain ⟨x, hx, rfl⟩ := List.mem_map.1 (hks.subset List.mem_cons_self)
                rcases List.mem_cons.1 hx with rfl | hx
                · exact absurd hk (lt_irrefl _)
                · exact hleast x hx hk
              refine cons_le_cons.2 ?_
              rcases hb.lt_or_eq with hb | rfl
              · exact .inl hb
              · exact .inr ⟨rfl, sorted_le hsorted (hks.trans (hperm.map key).symm).cons_inv⟩
            · exact absurd hms (not_lt.2 (ih.2 hl ms hks.cons_inv))

/-! ### The orders of the loop -/

/-- The keys that come after those of a list. -/
theorem after_ssubset {l' : List α} (h : nextPermutation key l = some l') :
    ((l'.map key).permutations.toFinset.filter (l'.map key < ·)) ⊂
      ((l.map key).permutations.toFinset.filter (l.map key < ·)) := by
  obtain ⟨hperm, hlt, -⟩ := (nextPermutation_spec key l).1 l' h
  refine Finset.ssubset_iff_subset_ne.2 ⟨fun ks hks => ?_, fun heq => ?_⟩
  · simp only [Finset.mem_filter, List.mem_toFinset, List.mem_permutations] at hks ⊢
    exact ⟨hks.1.trans (hperm.map key), hlt.trans hks.2⟩
  · have hmem : l'.map key ∈ (l.map key).permutations.toFinset.filter (l.map key < ·) := by
      simp only [Finset.mem_filter, List.mem_toFinset, List.mem_permutations]
      exact ⟨hperm.map key, hlt⟩
    rw [← heq, Finset.mem_filter] at hmem
    exact lt_irrefl _ hmem.2

variable (key) in
/-- The lists of the loop, from `l` on. -/
def ordersFrom (l : List α) : List (List α) :=
  l :: match _h : nextPermutation key l with
    | none => []
    | some l' => ordersFrom l'
termination_by ((l.map key).permutations.toFinset.filter (l.map key < ·)).card
decreasing_by exact Finset.card_lt_card (after_ssubset _h)

theorem ordersFrom_of_none (h : nextPermutation key l = none) : ordersFrom key l = [l] := by
  rw [ordersFrom]
  split
  · rfl
  · rename_i h'
    cases h.symm.trans h'

theorem ordersFrom_of_some {l' : List α} (h : nextPermutation key l = some l') :
    ordersFrom key l = l :: ordersFrom key l' := by
  rw [ordersFrom]
  split
  · rename_i h'
    cases h.symm.trans h'
  · rename_i l'' h'
    obtain rfl := Option.some.inj (h.symm.trans h')
    rfl

variable (key) in
theorem exists_ordersFrom_eq (l : List α) : ∃ rest, ordersFrom key l = l :: rest := by
  rw [ordersFrom]
  exact ⟨_, rfl⟩

variable (key) in
/-- The rule for the loop: what holds of the last order, and of an order when it holds of the next,
holds of every order. -/
theorem orders_induction {P : List α → Prop}
    (last : ∀ l, nextPermutation key l = none → P l)
    (next : ∀ l l', nextPermutation key l = some l' → P l' → P l) (l : List α) : P l := by
  induction l using @ordersFrom.induct _ _ _ key with
  | case1 l ih =>
      cases h : nextPermutation key l with
      | none => exact last l h
      | some l' => exact next l l' h (ih l' h)

/-- The orders are permutations, and none comes before the first. -/
theorem perm_of_mem_ordersFrom (h : m ∈ ordersFrom key l) :
    m.Perm l ∧ l.map key ≤ m.map key := by
  induction l using orders_induction key with
  | last l hlast =>
      rw [ordersFrom_of_none hlast, List.mem_singleton] at h
      rw [h]
      exact ⟨.refl l, le_rfl⟩
  | next l l' hnext ih =>
      obtain ⟨hperm, hlt, -⟩ := (nextPermutation_spec key l).1 l' hnext
      rw [ordersFrom_of_some hnext] at h
      rcases List.mem_cons.1 h with rfl | h
      · exact ⟨.refl m, le_rfl⟩
      · obtain ⟨hm, hle⟩ := ih h
        exact ⟨hm.trans hperm, hlt.le.trans hle⟩

variable (key) in
/-- **The keys of the orders go up**, so no order comes twice. -/
theorem pairwise_ordersFrom (l : List α) :
    (ordersFrom key l).Pairwise fun x y => x.map key < y.map key := by
  induction l using orders_induction key with
  | last l hlast =>
      rw [ordersFrom_of_none hlast]
      exact List.pairwise_singleton _ _
  | next l l' hnext ih =>
      rw [ordersFrom_of_some hnext]
      refine List.pairwise_cons.2 ⟨fun m hm => ?_, ih⟩
      exact ((nextPermutation_spec key l).1 l' hnext).2.1.trans_le (perm_of_mem_ordersFrom hm).2

/-- **Every permutation that does not come before the first** is the order of some turn. -/
theorem exists_mem_ordersFrom (hperm : ks.Perm (l.map key)) (hle : l.map key ≤ ks) :
    ∃ m ∈ ordersFrom key l, m.map key = ks := by
  induction l using orders_induction key with
  | last l hlast =>
      rw [ordersFrom_of_none hlast]
      exact ⟨l, List.mem_singleton_self l,
        hle.antisymm ((nextPermutation_spec key l).2 hlast ks hperm)⟩
  | next l l' hnext ih =>
      obtain ⟨hperm', -, hleast⟩ := (nextPermutation_spec key l).1 l' hnext
      rw [ordersFrom_of_some hnext]
      rcases hle.eq_or_lt with rfl | hlt
      · exact ⟨l, List.mem_cons_self, rfl⟩
      · obtain ⟨m, hm, hkeys⟩ := ih (hperm.trans (hperm'.map key).symm) (hleast ks hperm hlt)
        exact ⟨m, List.mem_cons_of_mem _ hm, hkeys⟩

end DrivingSim
