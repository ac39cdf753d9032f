import Mathlib.Data.List.TakeWhile
import DrivingSim.Support.Trie

/-!
# Testing — the registry of the tests

`test_trie` of `test.cpp` keeps the tests under the segments of their names.  A name is taken apart
by `extract_prefix`, which reads up to a dot and then, as a stream does, up to a white space; the
rest of a name that has none is all that there is behind the dot (`extractPrefix_name`).  Whatever
the key is, `insert` and `find` are the operations of a trie at its tokens (`insert_eq`, `find_eq`);
and those of a name are its segments (`tokens_name`).

A string is the list of its characters.  A `unique_ptr` that is null is the trie `null`, and
`operator[]` of `children` adds a null pointer where there is no key.
-/

namespace DrivingSim

/-- `test_functor`; what `run` does is left open. -/
structure TestFunctor (ρ : Type) where
  name : List Char
  run : ρ

abbrev TestTrie (ρ : Type) := Trie (List Char) (TestFunctor ρ)

namespace TestTrie

variable {ρ : Type}

inductive InsertStatus where
  | duplicate
  | success

/-- `isspace`, which the stream asks. -/
def isSpace (c : Char) : Bool := c.toNat = 32 || (9 ≤ c.toNat && c.toNat ≤ 13)

def extractPrefix (key : List Char) : List Char × List Char :=
  -- `getline` drops the dot
  let first := key.takeWhile (· ≠ '.')
  let rest := (key.dropWhile (· ≠ '.')).tail
  (first, (rest.dropWhile isSpace).takeWhile fun c => !isSpace c)

theorem length_extractPrefix {key : List Char} (h : key ≠ []) :
    (extractPrefix key).2.length < key.length := by
  have hpos : 0 < key.length := List.length_pos_iff.2 h
  have hfrom := (List.dropWhile_suffix (fun c => decide (c ≠ '.')) (l := key)).length_le
  have hrest : ((key.dropWhile (· ≠ '.')).tail).length < key.length := by
    rw [List.length_tail]
    omega
  have hread : (extractPrefix key).2.length ≤ ((key.dropWhile (· ≠ '.')).tail).length :=
    ((List.takeWhile_sublist _).trans (List.dropWhile_sublist _)).length_le
  exact Nat.lt_of_le_of_lt hread hrest

def insert (t : TestTrie ρ) (key : List Char) (val : TestFunctor ρ) :
    InsertStatus × TestTrie ρ :=
  if key = [] then
    match t.value with
    | some _ => (.duplicate, t)
    | none => (.success, t.setValue val)
  else
    let tokens := extractPrefix key
    let c := if (t.child tokens.1).isNull then Trie.empty else t.child tokens.1
    let r := insert c tokens.2 val
    (r.1, t.setChild tokens.1 r.2)
termination_by key.length
decreasing_by exact length_extractPrefix ‹_›

def find (o : TableOrder (List Char)) (t : TestTrie ρ) (key : List Char) :
    List (TestFunctor ρ) × TestTrie ρ :=
  if key = [] then (t.all o, t)
  else
    let tokens := extractPrefix key
    if (t.child tokens.1).isNull then ([], t.setChild tokens.1 .null)
    else
      let r := find o (t.child tokens.1) tokens.2
      (r.1, t.setChild tokens.1 r.2)
termination_by key.length
decreasing_by exact length_extractPrefix ‹_›

/-! ### The tokens of a key -/

/-- What `extract_prefix` takes off, one after the other. -/
def tokens (key : List Char) : List (List Char) :=
  if key = [] then []
  else (extractPrefix key).1 :: tokens (extractPrefix key).2
termination_by key.length
decreasing_by exact length_extractPrefix ‹_›

theorem tokens_nil : tokens [] = [] := by rw [tokens, if_pos rfl]

theorem tokens_of_ne_nil {key : List Char} (h : key ≠ []) :
    tokens key = (extractPrefix key).1 :: tokens (extractPrefix key).2 := by
  rw [tokens, if_neg h]

def status (written : Bool) : InsertStatus := if written then .success else .duplicate

theorem insert_eq (t : TestTrie ρ) (key : List Char) (val : TestFunctor ρ) :
    insert t key val = (status (t.insertAt (tokens key) val).1,
      (t.insertAt (tokens key) val).2) := by
  induction key using tokens.induct generalizing t with
  | case1 =>
      rw [insert, if_pos rfl, tokens_nil, Trie.insertAt]
      cases t.value <;> rfl
  | case2 key hkey ih =>
      rw [insert, if_neg hkey, tokens_of_ne_nil hkey]
      simp only [ih]
      rfl

theorem find_eq (o : TableOrder (List Char)) (t : TestTrie ρ) (key : List Char) :
    find o t key = t.findAt o (tokens key) := by
  induction key using tokens.induct generalizing t with
  | case1 =>
      rw [find, if_pos rfl, tokens_nil]
      rfl
  | case2 key hkey ih =>
      rw [find, if_neg hkey, tokens_of_ne_nil hkey]
      simp only [ih]
      rfl

/-! ### Names -/

/-- A part of a name: not empty, with no dot and no white space. -/
@[ext] structure Segment where
  text : List Char
  nonempty : text ≠ []
  plain : ∀ c ∈ text, c ≠ '.' ∧ isSpace c = false
  deriving DecidableEq

/-- The segments with dots between them. -/
def name : List Segment → List Char
  | [] => []
  | [s] => s.text
  | s :: s' :: segs => s.text ++ '.' :: name (s' :: segs)

theorem name_ne_nil (s : Segment) (segs : List Segment) : name (s :: segs) ≠ [] := by
  cases segs with
  | nil => exact s.nonempty
  | cons s' segs => exact List.append_ne_nil_of_left_ne_nil s.nonempty _

theorem isSpace_of_mem_name {segs : List Segment} {c : Char} (h : c ∈ name segs) :
    isSpace c = false := by
  induction segs with
  | nil => exact absurd h List.not_mem_nil
  | cons s segs ih =>
      cases segs with
      | nil => exact (s.plain c h).2
      | cons s' segs =>
          rcases List.mem_append.1 h with h | h
          · exact (s.plain c h).2
          · rcases List.mem_cons.1 h with rfl | h
            · rfl
            · exact ih h

/-- A name is read to its end. -/
theorem read_name (segs : List Segment) :
    ((name segs).dropWhile isSpace).takeWhile (fun c => !isSpace c) = name segs := by
  have hread : (name segs).takeWhile (fun c => !isSpace c) = name segs :=
    List.takeWhile_eq_self_iff.2 fun c hc => by simp [isSpace_of_mem_name hc]
  have hdrop : (name segs).dropWhile isSpace = name segs := by
    cases hname : name segs with
    | nil => rfl
    | cons c cs =>
        have hc : isSpace c = false := isSpace_of_mem_name (hname ▸ List.mem_cons_self)
        rw [List.dropWhile_cons_of_neg (by simp [hc])]
  rw [hdrop, hread]

/-- **The first segment of a name, and the rest.** -/
theorem extractPrefix_name (s : Segment) (segs : List Segment) :
    extractPrefix (name (s :: segs)) = (s.text, name segs) := by
  have hdot : ∀ c ∈ s.text, decide (c ≠ '.') = true := fun c hc => decide_eq_true (s.plain c hc).1
  cases segs with
  | nil =>
      have hname : name [s] = s.text := rfl
      rw [extractPrefix, hname, List.takeWhile_eq_self_iff.2 hdot, List.dropWhile_eq_nil_iff.2 hdot]
      rfl
  | cons s' segs =>
      rw [name, extractPrefix, List.takeWhile_append_of_pos hdot, List.dropWhile_append_of_pos hdot]
      simp [read_name]

/-- The keys under which a test is kept. -/
def path (segs : List Segment) : List (List Char) := segs.map Segment.text

theorem tokens_name (segs : List Segment) : tokens (name segs) = path segs := by
  induction segs with
  | nil => exact tokens_nil
  | cons s segs ih =>
      rw [tokens_of_ne_nil (name_ne_nil s segs), extractPrefix_name, ih]
      rfl

theorem path_injective : Function.Injective path :=
  List.map_injective_iff.2 fun _ _ => Segment.ext

/-- A name has its segments only. -/
theorem name_injective : Function.Injective name := by
  intro segs segs' h
  have hpath : path segs = path segs' := by rw [← tokens_name, ← tokens_name, h]
  exact path_injective hpath

/-! ### Histories -/

/-- A call of the registry: names are inserted, and any key is looked for. -/
inductive Op (ρ : Type) where
  | insert (segs : List Segment) (val : TestFunctor ρ)
  | find (key : List Char)

def step (o : TableOrder (List Char)) (t : TestTrie ρ) : Op ρ → TestTrie ρ
  | .insert segs val => (insert t (name segs) val).2
  | .find key => (find o t key).2

/-- The registry after a history, the last call first. -/
def after (o : TableOrder (List Char)) (past : List (Op ρ)) : TestTrie ρ :=
  past.foldr (fun op t => step o t op) Trie.empty

/-- What has been registered: for each name, the test that has been inserted under it first. -/
def registered : List (Op ρ) → List (List Segment × TestFunctor ρ)
  | [] => []
  | .find _ :: past => registered past
  | .insert segs val :: past =>
    if segs ∈ (registered past).map Prod.fst then registered past
    else (segs, val) :: registered past

variable {o : TableOrder (List Char)} {past : List (Op ρ)} {segs : List Segment}
  {val : TestFunctor ρ}

theorem mem_registered_iff : segs ∈ (registered past).map Prod.fst ↔
    ∃ val, .insert segs val ∈ past := by
  induction past with
  | nil => simp [registered]
  | cons op past ih =>
      cases op with
      | find key => simp [registered, ih]
      | insert segs' val =>
          rw [registered]
          by_cases hsegs : segs = segs'
          · subst hsegs
            split_ifs with h
            · exact iff_of_true h ⟨val, List.mem_cons_self⟩
            · exact iff_of_true List.mem_cons_self ⟨val, List.mem_cons_self⟩
          · split_ifs with h
            · simp [ih, hsegs]
            · simp [ih, hsegs]

theorem nodup_registered : ((registered past).map Prod.fst).Nodup := by
  induction past with
  | nil => exact .nil
  | cons op past ih =>
      cases op with
      | find key => exact ih
      | insert segs val =>
          rw [registered]
          split_ifs with h
          · exact ih
          · exact List.nodup_cons.2 ⟨h, ih⟩

/-- What has been registered, under the keys of the trie. -/
def kept (past : List (Op ρ)) : List (List (List Char) × TestFunctor ρ) :=
  (registered past).map fun e => (path e.1, e.2)

/-- The registry keeps what has been registered, and nothing else. -/
structure Registers (o : TableOrder (List Char)) (past : List (Op ρ)) : Prop where
  keyed : (after o past).Keyed
  mem_kept : ∀ p val, (p, val) ∈ kept past ↔ (after o past).get p = some val

theorem Registers.get_path (h : Registers o past) :
    (after o past).get (path segs) = some val ↔ (segs, val) ∈ registered past := by
  rw [← h.mem_kept, kept, List.mem_map]
  constructor
  · rintro ⟨e, he, heq⟩
    obtain ⟨hpath, rfl⟩ := Prod.ext_iff.1 heq
    exact path_injective hpath ▸ he
  · exact fun he => ⟨_, he, rfl⟩

theorem Registers.get_eq_none (h : Registers o past) :
    (after o past).get (path segs) = none ↔ segs ∉ (registered past).map Prod.fst := by
  constructor
  · intro hnone hmem
    obtain ⟨⟨segs, val⟩, he, rfl⟩ := List.mem_map.1 hmem
    rw [h.get_path.2 he] at hnone
    cases hnone
  · intro hmem
    cases hget : (after o past).get (path segs) with
    | none => rfl
    | some val => exact absurd (List.mem_map.2 ⟨_, h.get_path.1 hget, rfl⟩) hmem

theorem Registers.find (h : Registers o past) (key : List Char) :
    Registers o (.find key :: past) := by
  have hafter : after o (.find key :: past) = ((after o past).findAt o (tokens key)).2 := by
    rw [← find_eq]
    rfl
  refine ⟨?_, fun p val => ?_⟩
  · rw [hafter]
    exact Trie.keyed_findAt h.keyed _
  · rw [hafter, Trie.get_findAt]
    exact h.mem_kept p val

theorem Registers.insert (h : Registers o past) (segs : List Segment) (val : TestFunctor ρ) :
    Registers o (.insert segs val :: past) := by
  have hafter : after o (.insert segs val :: past) =
      ((after o past).insertAt (path segs) val).2 := by
    change (TestTrie.insert (after o past) (name segs) val).2 = _
    rw [insert_eq, tokens_name]
  by_cases hmem : segs ∈ (registered past).map Prod.fst
  · -- a duplicate changes neither the registry nor what has been registered
    obtain ⟨⟨segs, w⟩, he, rfl⟩ := List.mem_map.1 hmem
    have hkept : kept (.insert segs val :: past) = kept past := by
      rw [kept, registered, if_pos hmem, kept]
    rw [Trie.insertAt_of_some h.keyed (h.get_path.2 he)] at hafter
    refine ⟨?_, ?_⟩
    · rw [hafter]
      exact h.keyed
    · rw [hafter, hkept]
      exact h.mem_kept
  · have hkept : kept (.insert segs val :: past) = (path segs, val) :: kept past := by
      rw [kept, registered, if_neg hmem, List.map_cons, kept]
    have hnone := h.get_eq_none.2 hmem
    refine ⟨?_, fun p w => ?_⟩
    · rw [hafter]
      exact Trie.keyed_insertAt h.keyed _ _
    · rw [hafter, hkept, List.mem_cons, Trie.get_insertAt, hnone, h.mem_kept]
      by_cases hp : p = path segs
      · subst hp
        simp [hnone, eq_comm]
      · simp [hp]

theorem registers (o : TableOrder (List Char)) (past : List (Op ρ)) : Registers o past := by
  induction past with
  | nil => exact ⟨Trie.keyed_empty, fun p val => by simp [kept, registered, after]⟩
  | cons op past ih =>
      cases op with
      | insert segs val => exact ih.insert segs val
      | find key => exact ih.find key

/-- What any key finds. -/
theorem find_perm (key : List Char) : (find o (after o past) key).1.Perm
    (((registered past).filter fun e => tokens key <+: path e.1).map Prod.snd) := by
  have h := registers o past
  have hnodup : ((kept past).map Prod.fst).Nodup := by
    have hpaths := (@nodup_registered ρ past).map path_injective
    rw [List.map_map] at hpaths
    rw [kept, List.map_map]
    exact hpaths
  have hfound := Trie.all_sub_perm (o := o) h.keyed hnodup h.mem_kept (tokens key)
  rw [kept, List.filter_map, List.map_map] at hfound
  rw [find_eq, Trie.findAt_fst]
  exact hfound

/-- The tokens of a name begin another exactly where its segments do. -/
theorem tokens_name_prefix_iff {segs' : List Segment} :
    tokens (name segs) <+: path segs' ↔ segs <+: segs' := by
  rw [tokens_name]
  exact List.prefix_map_iff_of_injective fun _ _ => Segment.ext

theorem find_name_perm (segs : List Segment) : (find o (after o past) (name segs)).1.Perm
    (((registered past).filter fun e => segs <+: e.1).map Prod.snd) := by
  have hfound := @find_perm _ o past (name segs)
  simp only [tokens_name_prefix_iff] at hfound
  exact hfound

theorem insert_duplicate_iff : (insert (after o past) (name segs) val).1 = .duplicate ↔
    ∃ val', (after o past).get (path segs) = some val' := by
  rw [insert_eq, tokens_name, Trie.insertAt_fst]
  cases (after o past).get (path segs) with
  | none => simp [status]
  | some w => simp [status]

/-- **The registry finds exactly what was registered.**  After any history, with any keys looked
for, a name is a duplicate exactly where it has been inserted before, and then nothing is changed;
and a key of segments finds the tests that have been inserted first under the names that begin with
its segments, each once. -/
theorem testTrie_exact (o : TableOrder (List Char)) (past : List (Op ρ)) :
    (∀ segs val,
      ((insert (after o past) (name segs) val).1 = .duplicate ↔
        ∃ segs' val', .insert segs' val' ∈ past ∧ name segs' = name segs) ∧
      ((insert (after o past) (name segs) val).1 = .duplicate →
        (insert (after o past) (name segs) val).2 = after o past)) ∧
    ∀ segs, (find o (after o past) (name segs)).1.Perm
      (((registered past).filter fun e => segs <+: e.1).map Prod.snd) := by
  have h := registers o past
  refine ⟨fun segs val => ⟨?_, fun hdup => ?_⟩, find_name_perm⟩
  · rw [insert_duplicate_iff]
    constructor
    · rintro ⟨w, hget⟩
      obtain ⟨val', hins⟩ := mem_registered_iff.1 (List.mem_map.2 ⟨_, h.get_path.1 hget, rfl⟩)
      exact ⟨segs, val', hins, rfl⟩
    · rintro ⟨segs', val', hins, hname⟩
      rw [name_injective hname] at hins
      obtain ⟨⟨segs, w⟩, he, rfl⟩ := List.mem_map.1 (mem_registered_iff.2 ⟨val', hins⟩)
      exact ⟨w, h.get_path.2 he⟩
  · obtain ⟨w, hget⟩ := insert_duplicate_iff.1 hdup
    rw [insert_eq, tokens_name]
    exact Trie.insertAt_of_some h.keyed hget

end TestTrie

end DrivingSim
