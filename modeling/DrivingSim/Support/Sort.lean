import Mathlib.Data.List.Sort

/-!
# Support — `std::sort`

`std::sort` rearranges a range.  The result is in order when the comparison is a strict weak
order on the elements of the range, and the order of equivalent elements is left open.  A
`StdSort` is any function that does so; what is proved for every `StdSort` holds however ties
are broken.
-/

namespace DrivingSim

/-- `lt` is a strict weak order on the elements of `l`. -/
structure StrictWeak {α : Type} (lt : α → α → Bool) (l : List α) : Prop where
  asymm : ∀ a ∈ l, ∀ b ∈ l, lt a b = true → lt b a = false
  trans : ∀ a ∈ l, ∀ b ∈ l, ∀ c ∈ l, lt b a = false → lt c b = false → lt c a = false

/-- A sort for `std::sort` to be. -/
structure StdSort (α : Type) where
  sort : (α → α → Bool) → List α → List α
  perm : ∀ lt l, (sort lt l).Perm l
  sorted : ∀ lt l, StrictWeak lt l → (sort lt l).Pairwise fun a b => lt b a = false

namespace StdSort

variable {α : Type}

/-- The stable merge sort is one. -/
def stable : StdSort α where
  sort lt l := (l.attach.mergeSort fun a b => !lt b a).map Subtype.val
  perm lt l := by
    have h := (List.mergeSort_perm l.attach fun a b => !lt b.1 a.1).map Subtype.val
    rwa [List.attach_map_subtype_val] at h
  sorted lt l h := by
    refine List.pairwise_map.mpr ?_
    have hs := @List.pairwise_mergeSort {x // x ∈ l} (fun a b => !lt b.1 a.1)
      (fun a b c hab hbc => ?_) (fun a b => ?_) l.attach
    · exact hs.imp fun hab => by simpa using hab
    · simp only [Bool.not_eq_true'] at hab hbc ⊢
      exact h.trans a.1 a.2 b.1 b.2 c.1 c.2 hab hbc
    · cases hab : lt a.1 b.1
      · simp
      · simp [h.asymm a.1 a.2 b.1 b.2 hab]

end StdSort

end DrivingSim
