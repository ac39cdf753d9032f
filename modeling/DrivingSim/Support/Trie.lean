import Mathlib.Data.List.Nodup
import Mathlib.Logic.Function.Basic

/-!
# Support — tries

A trie keeps a value at a path of keys.  A node has a value or none, and a table from keys to
pointers; a pointer of the table may be null.  What a trie keeps is the partial function `get`, and
`entries` lists it: each path with a value once, in the order of the tables (`mem_entries`,
`nodup_entries`).  These two laws want that each table has a key once, and every key whose pointer
is not null (`Keyed`).

* `insertAt` writes a value where there is none.
* `findAt` gives the values at and under a path.  It may add keys to tables, and what the trie keeps
  stays the same.
-/

namespace DrivingSim

variable {K V : Type}

inductive Trie (K V : Type) where
  | null
  /-- The value, the keys of the table, and what the table has at a key. -/
  | node (value : Option V) (keys : List K) (child : K → Trie K V)

/-- The order in which a table is gone through, each key once. -/
structure TableOrder (K : Type) where
  order : List K → List K
  perm : ∀ keys, (order keys).Perm keys

/-- The order in which the keys are kept is one. -/
instance : Inhabited (TableOrder K) := ⟨⟨fun keys => keys, fun _ => .refl _⟩⟩

namespace Trie

/-- A node with nothing in it. -/
def empty : Trie K V := node none [] fun _ => null

def isNull : Trie K V → Bool
  | null => true
  | node _ _ _ => false

def value : Trie K V → Option V
  | null => none
  | node value _ _ => value

def keys : Trie K V → List K
  | null => []
  | node _ keys _ => keys

def child : Trie K V → K → Trie K V
  | null, _ => null
  | node _ _ child, k => child k

def setValue (t : Trie K V) (v : V) : Trie K V := node (some v) t.keys t.child

/-- The values, in the order of the tables. -/
def all (o : TableOrder K) : Trie K V → List V
  | null => []
  | node value keys child => value.toList ++ (o.order keys).flatMap fun k => (child k).all o

/-! ### What a trie keeps -/

/-- The trie at a path. -/
def sub (t : Trie K V) : List K → Trie K V
  | [] => t
  | k :: path => (t.child k).sub path

/-- The value at a path. -/
def get (t : Trie K V) (path : List K) : Option V := (t.sub path).value

/-- The paths with a value, and their values. -/
def entries (o : TableOrder K) : Trie K V → List (List K × V)
  | null => []
  | node value keys child =>
    value.toList.map (fun v => ([], v)) ++
      (o.order keys).flatMap fun k => ((child k).entries o).map fun e => (k :: e.1, e.2)

variable {t : Trie K V} {k : K} {path q : List K} {v : V} {o : TableOrder K}

theorem get_nil (t : Trie K V) : t.get [] = t.value := rfl

theorem get_cons (t : Trie K V) (k : K) (path : List K) :
    t.get (k :: path) = (t.child k).get path := rfl

theorem get_append (t : Trie K V) (p q : List K) : t.get (p ++ q) = (t.sub p).get q := by
  induction p generalizing t with
  | nil => rfl
  | cons k p ih => exact ih _

@[simp] theorem sub_null (path : List K) : (null : Trie K V).sub path = null := by
  induction path with
  | nil => rfl
  | cons k path ih => exact ih

@[simp] theorem get_null (path : List K) : (null : Trie K V).get path = none := by
  rw [get, sub_null, value]

@[simp] theorem get_empty (path : List K) : (empty : Trie K V).get path = none := by
  cases path with
  | nil => rfl
  | cons k path => exact get_null path

theorem isNull_iff : t.isNull = true ↔ t = null := by
  cases t <;> simp [isNull]

theorem map_snd_entries (o : TableOrder K) (t : Trie K V) :
    (t.entries o).map Prod.snd = t.all o := by
  induction t with
  | null => rfl
  | node value keys child ih =>
      simp only [entries, all, List.map_append, List.map_flatMap, List.map_map, ← ih]
      simp [Function.comp_def]

/-! ### Each key once -/

/-- Each table has a key once, and every key whose pointer is not null. -/
def Keyed : Trie K V → Prop
  | null => True
  | node _ keys child => keys.Nodup ∧ (∀ k, child k ≠ null → k ∈ keys) ∧ ∀ k, (child k).Keyed

theorem keyed_empty : (empty : Trie K V).Keyed :=
  ⟨.nil, fun _ h => absurd rfl h, fun _ => trivial⟩

namespace Keyed

theorem nodup (h : t.Keyed) : t.keys.Nodup := by
  cases t with
  | null => exact .nil
  | node value keys child => exact h.1

theorem mem_keys (h : t.Keyed) (hk : t.child k ≠ null) : k ∈ t.keys := by
  cases t with
  | null => exact absurd rfl hk
  | node value keys child => exact h.2.1 k hk

theorem child (h : t.Keyed) (k : K) : (t.child k).Keyed := by
  cases t with
  | null => exact trivial
  | node value keys child => exact h.2.2 k

theorem sub (h : t.Keyed) (path : List K) : (t.sub path).Keyed := by
  induction path generalizing t with
  | nil => exact h
  | cons k path ih => exact ih (h.child k)

end Keyed

theorem keyed_setValue (h : t.Keyed) (v : V) : (t.setValue v).Keyed :=
  ⟨h.nodup, fun _ => h.mem_keys, h.child⟩

/-- A node that is made for a null pointer has nothing in it, as the pointer has not. -/
theorem get_made (t : Trie K V) (q : List K) :
    (if t.isNull then empty else t).get q = t.get q := by
  cases t with
  | null => exact (get_empty q).trans (get_null q).symm
  | node value keys child => rfl

theorem keyed_made (h : t.Keyed) : (if t.isNull then empty else t).Keyed := by
  split_ifs
  · exact keyed_empty
  · exact h

/-- **The entries** are what the trie keeps. -/
theorem mem_entries (h : t.Keyed) : (path, v) ∈ t.entries o ↔ t.get path = some v := by
  induction t generalizing path with
  | null => simp [entries]
  | node value keys child ih =>
      obtain ⟨-, hkeys, hchild⟩ := h
      cases path with
      | nil => simp [entries, get_nil, Trie.value]
      | cons k path =>
          have hk := @ih k path (hchild k)
          rw [entries, List.mem_append, get_cons]
          constructor
          · rintro (hmem | hmem)
            · simp at hmem
            · obtain ⟨k', -, hmem⟩ := List.mem_flatMap.1 hmem
              obtain ⟨⟨p, w⟩, hentry, heq⟩ := List.mem_map.1 hmem
              cases heq
              exact hk.1 hentry
          · intro hget
            have hne : child k ≠ null := by
              intro hnull
              rw [Trie.child, hnull, get_null] at hget
              cases hget
            have hmem : k ∈ o.order keys := (o.perm keys).mem_iff.2 (hkeys k hne)
            exact .inr (List.mem_flatMap.2 ⟨k, hmem, List.mem_map.2 ⟨_, hk.2 hget, rfl⟩⟩)

/-- Each path once. -/
theorem nodup_entries (h : t.Keyed) : ((t.entries o).map Prod.fst).Nodup := by
  induction t with
  | null => exact .nil
  | node value keys child ih =>
      obtain ⟨hnodup, -, hchild⟩ := h
      -- the paths through a key are those of its trie, behind it
      have hthrough : ∀ k, (((child k).entries o).map fun e => (k :: e.1, e.2)).map Prod.fst =
          (((child k).entries o).map Prod.fst).map (List.cons k) := by simp
      rw [entries, List.map_append, List.map_flatMap]
      simp only [hthrough]
      refine List.nodup_append.2 ⟨?_, List.nodup_flatMap.2 ⟨fun k _ => ?_, ?_⟩, ?_⟩
      · cases value <;> simp
      · exact (ih k (hchild k)).map (List.cons_injective)
      · refine ((o.perm keys).nodup_iff.2 hnodup).imp fun {k k'} hne p hp hp' => ?_
        obtain ⟨q, -, rfl⟩ := List.mem_map.1 hp
        obtain ⟨q', -, heq⟩ := List.mem_map.1 hp'
        cases heq
        exact hne rfl
      · intro p hp p' hp' heq
        obtain ⟨k, -, hp'⟩ := List.mem_flatMap.1 hp'
        obtain ⟨q, -, rfl⟩ := List.mem_map.1 hp'
        simp [heq] at hp

/-- **The values at and under a path**, when what the trie keeps is a list of paths with values. -/
theorem all_sub_perm [DecidableEq K] (h : t.Keyed) {l : List (List K × V)}
    (hnodup : (l.map Prod.fst).Nodup) (hl : ∀ p v, (p, v) ∈ l ↔ t.get p = some v)
    (path : List K) :
    ((t.sub path).all o).Perm ((l.filter fun e => path <+: e.1).map Prod.snd) := by
  have hsub := h.sub path
  have hunder : (((t.sub path).entries o).map fun e => (path ++ e.1, e.2)).Perm
      (l.filter fun e => path <+: e.1) := by
    refine (List.perm_ext_iff_of_nodup ?_ (hnodup.of_map.filter _)).2 fun e => ?_
    · refine (nodup_entries hsub).of_map.map fun e e' heq => ?_
      obtain ⟨hpath, hvalue⟩ := Prod.ext_iff.1 heq
      exact Prod.ext (List.append_cancel_left hpath) hvalue
    · obtain ⟨p, v⟩ := e
      rw [List.mem_filter, hl, decide_eq_true_eq]
      constructor
      · intro hmem
        obtain ⟨⟨q, w⟩, hentry, heq⟩ := List.mem_map.1 hmem
        cases heq
        exact ⟨(get_append t path q).trans ((mem_entries hsub).1 hentry), List.prefix_append _ _⟩
      · rintro ⟨hget, q, rfl⟩
        rw [get_append] at hget
        exact List.mem_map.2 ⟨(q, v), (mem_entries hsub).2 hget, rfl⟩
  have hvalues := hunder.map Prod.snd
  rw [List.map_map] at hvalues
  rw [← map_snd_entries]
  exact hvalues

/-! ### The operations -/

section

variable [DecidableEq K]

/-- The key is added to the table when it is not there. -/
def setChild (t : Trie K V) (k : K) (c : Trie K V) : Trie K V :=
  node t.value (t.keys.insert k) (Function.update t.child k c)

/-- Nothing is written where there is a value already.  The result says whether there was none. -/
def insertAt (t : Trie K V) : List K → V → Bool × Trie K V
  | [], v =>
    match t.value with
    | some _ => (false, t)
    | none => (true, t.setValue v)
  | k :: path, v =>
    let c := if (t.child k).isNull then empty else t.child k
    let r := c.insertAt path v
    (r.1, t.setChild k r.2)

/-- The values at and under a path. -/
def findAt (o : TableOrder K) (t : Trie K V) : List K → List V × Trie K V
  | [] => (t.all o, t)
  | k :: path =>
    if (t.child k).isNull then ([], t.setChild k null)
    else
      let r := (t.child k).findAt o path
      (r.1, t.setChild k r.2)

/-! ### What the operations do -/

theorem get_setChild_cons (t : Trie K V) (k : K) (c : Trie K V) (k' : K) (q : List K) :
    (t.setChild k c).get (k' :: q) = if k' = k then c.get q else t.get (k' :: q) := by
  rw [get_cons, setChild, child]
  by_cases hk : k' = k
  · subst hk
    rw [Function.update_self, if_pos rfl]
  · rw [Function.update_of_ne hk, if_neg hk, get_cons]

/-- A child that keeps the same does not change what is kept. -/
theorem get_setChild_of_same {c : Trie K V} (h : ∀ q, c.get q = (t.child k).get q) (q : List K) :
    (t.setChild k c).get q = t.get q := by
  cases q with
  | nil => rfl
  | cons k' q =>
      rw [get_setChild_cons]
      by_cases hk : k' = k
      · rw [if_pos hk, h, hk, get_cons]
      · rw [if_neg hk]

theorem setChild_self (h : t.Keyed) (hk : t.child k ≠ null) : t.setChild k (t.child k) = t := by
  cases t with
  | null => exact absurd rfl hk
  | node value keys child =>
      have hmem := h.mem_keys hk
      rw [setChild, List.insert_of_mem hmem, Function.update_eq_self]
      rfl

theorem keyed_setChild (h : t.Keyed) (k : K) {c : Trie K V} (hc : c.Keyed) :
    (t.setChild k c).Keyed := by
  refine ⟨h.nodup.insert, fun k' hk' => ?_, fun k' => ?_⟩
  · by_cases hk : k' = k
    · rw [hk]
      exact List.mem_insert_self
    · rw [Function.update_of_ne hk] at hk'
      exact List.mem_insert_of_mem (h.mem_keys hk')
  · by_cases hk : k' = k
    · subst hk
      rwa [Function.update_self]
    · rw [Function.update_of_ne hk]
      exact h.child k'

theorem insertAt_fst (t : Trie K V) (path : List K) (v : V) :
    (t.insertAt path v).1 = (t.get path).isNone := by
  induction path generalizing t with
  | nil =>
      rw [insertAt, get_nil]
      cases t.value <;> rfl
  | cons k path ih =>
      rw [insertAt, get_cons, ← get_made]
      exact ih _

theorem get_insertAt (t : Trie K V) (path : List K) (v : V) (q : List K) :
    (t.insertAt path v).2.get q = if q = path then some ((t.get path).getD v) else t.get q := by
  induction path generalizing t q with
  | nil =>
      rw [insertAt, get_nil]
      cases hvalue : t.value with
      | none => cases q <;> rfl
      | some w =>
          cases q with
          | nil => exact hvalue
          | cons k q => rfl
  | cons k path ih =>
      rw [insertAt]
      dsimp only
      cases q with
      | nil => rfl
      | cons k' q =>
          rw [get_setChild_cons, ih, get_made, get_made]
          by_cases hk : k' = k
          · subst hk
            simp [get_cons]
          · simp [hk]

theorem keyed_insertAt (h : t.Keyed) (path : List K) (v : V) : (t.insertAt path v).2.Keyed := by
  induction path generalizing t with
  | nil =>
      rw [insertAt]
      cases t.value with
      | none => exact keyed_setValue h v
      | some w => exact h
  | cons k path ih =>
      rw [insertAt]
      exact keyed_setChild h k (ih (keyed_made (h.child k)))

/-- Where there is a value, nothing is changed. -/
theorem insertAt_of_some (h : t.Keyed) {w : V} (hget : t.get path = some w) :
    (t.insertAt path v).2 = t := by
  induction path generalizing t with
  | nil =>
      rw [get_nil] at hget
      rw [insertAt, hget]
  | cons k path ih =>
      rw [get_cons] at hget
      have hne : t.child k ≠ null := by
        intro hnull
        rw [hnull, get_null] at hget
        cases hget
      have hmade : (if (t.child k).isNull then empty else t.child k) = t.child k :=
        if_neg fun hnull => hne (isNull_iff.1 hnull)
      rw [insertAt, hmade]
      dsimp only
      rw [ih (h.child k) hget, setChild_self h hne]

theorem findAt_fst (o : TableOrder K) (t : Trie K V) (path : List K) :
    (t.findAt o path).1 = (t.sub path).all o := by
  induction path generalizing t with
  | nil => rfl
  | cons k path ih =>
      rw [findAt, sub]
      split_ifs with hnull
      · rw [isNull_iff.1 hnull, sub_null, all]
      · exact ih (t.child k)

theorem get_findAt (o : TableOrder K) (t : Trie K V) (path q : List K) :
    (t.findAt o path).2.get q = t.get q := by
  induction path generalizing t q with
  | nil => rfl
  | cons k path ih =>
      rw [findAt]
      split_ifs with hnull
      · rw [← isNull_iff.1 hnull]
        exact get_setChild_of_same (fun q => rfl) q
      · exact get_setChild_of_same (ih (t.child k)) q

theorem keyed_findAt (h : t.Keyed) (path : List K) : (t.findAt o path).2.Keyed := by
  induction path generalizing t with
  | nil => exact h
  | cons k path ih =>
      rw [findAt]
      split_ifs
      · exact keyed_setChild h k trivial
      · exact keyed_setChild h k (ih (h.child k))

end

end Trie

end DrivingSim
