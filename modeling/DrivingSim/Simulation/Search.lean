import DrivingSim.Support.NextPermutation
import DrivingSim.Simulation.Replanning
import DrivingSim.Simulation.Reordering
import Mathlib.Algebra.Order.Floor.Ring

/-!
# Simulation — the search over the orders

The program of `test_grid.cpp`: it plans for one order of the autos after the other, each time with
a new `Grid` on the same intersections, and keeps the accelerations with the highest sum.  The
orders are those of `std::next_permutation` on the addresses.

The intersections keep their windows from one turn to the next.  After the first turn every
intersection ahead of a car holds one, and no turn changes any (`Settled`): the human's are
overwritten by the same ones, and the autos leave what they find.  So in all later turns each auto
is given the same acceleration, whatever the order (`findAccelerations_of_settled`).  That is what
the call of every turn returns (`call_of_turn`), so that the search compares the first order with
what it gives (`search_best`).
-/

namespace DrivingSim.Grid

/-- The variables of the loop, and the windows of the intersections. -/
structure Search (D : Type) where
  windows : Windows D
  maxSum : ℤ
  maxAccs : List D

section Definitions

variable {D : Type} [Double D] (S : StdSort (Intersection D)) (toInt : D → ℤ) (g : Grid D)

/-- `std::accumulate` from `0`: the sum is an `int`, to which each `double` sum is converted. -/
def accumulate (accs : List D) : ℤ :=
  accs.foldl (fun sum acc => toInt (Double.ofRat sum + acc)) 0

/-- The body of the loop, for an order of the autos. -/
def searchStep (s : Search D) (autos : List (Auto D)) : Search D :=
  let r := { g with autos := autos }.findAccelerations S s.windows
  let sum := accumulate toInt r.1
  if s.maxSum < sum then ⟨r.2, sum, r.1⟩ else ⟨r.2, s.maxSum, s.maxAccs⟩

/-- The loop, from the order of the grid on. -/
def search (σ : Windows D) : Search D :=
  (ordersFrom Auto.addr g.autos).foldl (g.searchStep S toInt) ⟨σ, 0, []⟩

end Definitions

/-! ### The best of a list -/

section Best

variable {τ β : Type} (score : τ → ℤ) (value : τ → β) (best : ℤ × β)

/-- Keep a turn if it is better than what there is. -/
def keepBest (turn : τ) : ℤ × β :=
  if best.1 < score turn then (score turn, value turn) else best

/-- **What is kept** is the first of the best turns, if any is better than what there was. -/
theorem foldl_keepBest (turns : List τ) :
    best.1 ≤ (turns.foldl (keepBest score value) best).1 ∧
    (∀ turn ∈ turns, score turn ≤ (turns.foldl (keepBest score value) best).1) ∧
    (turns.foldl (keepBest score value) best = best ∨
      ∃ before turn after, turns = before ++ turn :: after ∧
        turns.foldl (keepBest score value) best = (score turn, value turn) ∧
        best.1 < score turn ∧ ∀ earlier ∈ before, score earlier < score turn) := by
  induction turns using List.reverseRecOn with
  | nil => exact ⟨le_rfl, fun _ h => absurd h List.not_mem_nil, .inl rfl⟩
  | append_singleton turns turn ih =>
      obtain ⟨hle, hall, hkept⟩ := ih
      rw [List.foldl_append, List.foldl_cons, List.foldl_nil]
      generalize turns.foldl (keepBest score value) best = r at hle hall hkept ⊢
      rw [keepBest]
      split_ifs with hbetter
      · refine ⟨hle.trans hbetter.le, fun turn' h => ?_, .inr ⟨turns, turn, [], rfl, rfl,
          hle.trans_lt hbetter, fun earlier h => (hall earlier h).trans_lt hbetter⟩⟩
        rcases List.mem_append.1 h with h | h
        · exact (hall turn' h).trans hbetter.le
        · rw [List.mem_singleton.1 h]
      · refine ⟨hle, fun turn' h => ?_, hkept.imp_right ?_⟩
        · rcases List.mem_append.1 h with h | h
          · exact hall turn' h
          · rw [List.mem_singleton.1 h]
            exact not_lt.1 hbetter
        · rintro ⟨before, turn', after, rfl, hr, hbest, hearlier⟩
          exact ⟨before, turn', after ++ [turn], by rw [List.append_assoc, List.cons_append], hr,
            hbest, hearlier⟩

end Best

variable {D : Type} [Double D] {S : StdSort (Intersection D)} {toInt : D → ℤ} {g : Grid D}
  {σ : Windows D} {autos : List (Auto D)}

/-! ### Windows that stay -/

/-- The human writes what is there, and no auto finds an intersection without a window. -/
structure Settled (S : StdSort (Intersection D)) (g : Grid D) (σ : Windows D) : Prop where
  human : g.reserveHuman S σ = σ
  autos : ∀ a ∈ g.autos, ∀ x ∈ g.footprint S a.toCar, σ x ≠ none

theorem settled_of_call (σ : Windows D) : g.Settled S (g.findAccelerations S σ).2 := by
  rw [findAccelerations_windows]
  refine ⟨funext fun x => ?_, fun a ha x hx => (windowsAfter_ne_none _).2 (.inr ⟨a, ha, hx⟩)⟩
  by_cases h : x ∈ g.footprint S g.human.toCar
  · obtain ⟨w, hw⟩ := foldl_setWindow_some g.humanWindow h σ
    have hkeeps := windowsAfter_keeps (l := []) hw g.autos
    exact (reserveHuman_congr h).trans (hw.trans hkeeps.symm)
  · exact reserveHuman_frame h

/-- An auto leaves the windows that it finds. -/
theorem setMinWindows_of_settled {a : Auto D} (h : ∀ x ∈ g.footprint S a.toCar, σ x ≠ none) :
    (g.setMinWindows S a σ).2 = σ := by
  funext x
  by_cases hx : x ∈ g.footprint S a.toCar
  · obtain ⟨w, hw⟩ := Option.ne_none_iff_exists'.1 (h x hx)
    rw [setMinWindows_keeps hw, hw]
  · exact setMinWindows_frame hx

/-- **Later turns.**  The windows stay, and each auto has an acceleration of its own. -/
theorem findAccelerations_of_settled (h : g.Settled S σ) (hautos : autos.Perm g.autos) :
    { g with autos := autos }.findAccelerations S σ =
      (autos.map fun a => (g.setMinWindows S a σ).1, σ) := by
  have hloop : ∀ l : List (Auto D), (∀ a ∈ l, a ∈ g.autos) → ∀ accs,
      l.foldl ({ g with autos := autos }.planStep S) (accs, σ) =
        (accs ++ l.map fun a => (g.setMinWindows S a σ).1, σ) := by
    intro l
    induction l with
    | nil => exact fun _ accs => by rw [List.foldl_nil, List.map_nil, List.append_nil]
    | cons a l ih =>
        intro hl accs
        have hsame : { g with autos := autos }.setMinWindows S a σ =
            ((g.setMinWindows S a σ).1, σ) :=
          Prod.ext rfl (setMinWindows_of_settled (h.autos a (hl a List.mem_cons_self)))
        rw [List.foldl_cons, planStep]
        dsimp only
        rw [hsame, ih fun b hb => hl b (List.mem_cons_of_mem a hb)]
        simp only [List.map_cons, List.append_assoc, List.singleton_append]
  have hhuman : { g with autos := autos }.reserveHuman S σ = σ := h.human
  rw [findAccelerations, hhuman, hloop autos (fun a ha => hautos.subset ha), List.nil_append]

/-! ### The turns -/

section Turns

variable (S toInt g)

/-- An order to which the loop comes: it does not come before that of the grid. -/
def Turn (autos : List (Auto D)) : Prop :=
  autos.Perm g.autos ∧ g.autos.map Auto.addr ≤ autos.map Auto.addr

/-- The accelerations of a turn: the first plans with the windows that it finds, and all others with
those that the first has left. -/
def accsIn (σ : Windows D) (autos : List (Auto D)) : List D :=
  if autos.map Auto.addr = g.autos.map Auto.addr then (g.findAccelerations S σ).1
  else autos.map fun a => (g.setMinWindows S a (g.findAccelerations S σ).2).1

/-- What is kept of the turns. -/
def keep (σ : Windows D) : ℤ × List D → List (Auto D) → ℤ × List D :=
  keepBest (fun autos => accumulate toInt (g.accsIn S σ autos)) (g.accsIn S σ)

end Turns

theorem accsIn_self : g.accsIn S σ g.autos = (g.findAccelerations S σ).1 := if_pos rfl

/-- A turn keeps what it should. -/
theorem searchStep_eq {s : Search D} {σ' : Windows D}
    (h : { g with autos := autos }.findAccelerations S s.windows = (g.accsIn S σ autos, σ')) :
    g.searchStep S toInt s autos =
      ⟨σ', (g.keep S toInt σ (s.maxSum, s.maxAccs) autos).1,
        (g.keep S toInt σ (s.maxSum, s.maxAccs) autos).2⟩ := by
  rw [searchStep, h, keep, keepBest]
  dsimp only
  split_ifs
  · rfl
  · rfl

/-- The call of a turn after the first. -/
theorem call_of_later (hperm : autos.Perm g.autos)
    (hlater : autos.map Auto.addr ≠ g.autos.map Auto.addr) :
    { g with autos := autos }.findAccelerations S (g.findAccelerations S σ).2 =
      (g.accsIn S σ autos, (g.findAccelerations S σ).2) := by
  rw [findAccelerations_of_settled (settled_of_call σ) hperm, accsIn, if_neg hlater]

/-- The turns after the first. -/
theorem foldl_searchStep {turns : List (List (Auto D))}
    (h : ∀ o ∈ turns, o.Perm g.autos ∧ o.map Auto.addr ≠ g.autos.map Auto.addr)
    (best : ℤ × List D) :
    turns.foldl (g.searchStep S toInt) ⟨(g.findAccelerations S σ).2, best.1, best.2⟩ =
      ⟨(g.findAccelerations S σ).2, (turns.foldl (g.keep S toInt σ) best).1,
        (turns.foldl (g.keep S toInt σ) best).2⟩ := by
  induction turns generalizing best with
  | nil => rfl
  | cons o turns ih =>
      obtain ⟨hperm, hlater⟩ := h o List.mem_cons_self
      rw [List.foldl_cons, List.foldl_cons, searchStep_eq (call_of_later hperm hlater)]
      exact ih (fun o' ho' => h o' (List.mem_cons_of_mem _ ho')) _

/-- The first turn. -/
theorem searchStep_first (σ : Windows D) : g.searchStep S toInt ⟨σ, 0, []⟩ g.autos =
    ⟨(g.findAccelerations S σ).2, (g.keep S toInt σ (0, []) g.autos).1,
      (g.keep S toInt σ (0, []) g.autos).2⟩ :=
  searchStep_eq (Prod.ext accsIn_self.symm rfl)

omit [Double D] in
/-- The first turn is the order of the grid, and no other is. -/
theorem exists_later (g : Grid D) : ∃ rest, ordersFrom Auto.addr g.autos = g.autos :: rest ∧
    ∀ o ∈ rest, o.Perm g.autos ∧ o.map Auto.addr ≠ g.autos.map Auto.addr := by
  have hpairwise := pairwise_ordersFrom Auto.addr g.autos
  obtain ⟨rest, hrest⟩ := exists_ordersFrom_eq Auto.addr g.autos
  refine ⟨rest, hrest, fun o ho => ?_⟩
  rw [hrest] at hpairwise
  have hmem : o ∈ ordersFrom Auto.addr g.autos := hrest ▸ List.mem_cons_of_mem _ ho
  exact ⟨(perm_of_mem_ordersFrom hmem).1, ((List.pairwise_cons.1 hpairwise).1 o ho).ne'⟩

/-- **The loop keeps the best of its turns**, and the windows of the first. -/
theorem search_eq (σ : Windows D) : g.search S toInt σ =
    ⟨(g.findAccelerations S σ).2,
      ((ordersFrom Auto.addr g.autos).foldl (g.keep S toInt σ) (0, [])).1,
      ((ordersFrom Auto.addr g.autos).foldl (g.keep S toInt σ) (0, [])).2⟩ := by
  obtain ⟨rest, hrest, hlater⟩ := g.exists_later
  rw [search, hrest, List.foldl_cons, List.foldl_cons, searchStep_first]
  exact foldl_searchStep hlater _

/-- **What the call of a turn returns**: its accelerations, whatever has been kept before it; and it
leaves the windows of the first. -/
theorem call_of_turn (σ : Windows D) {before after : List (List (Auto D))}
    (h : ordersFrom Auto.addr g.autos = before ++ autos :: after) :
    { g with autos := autos }.findAccelerations S
        (before.foldl (g.searchStep S toInt) ⟨σ, 0, []⟩).windows =
      (g.accsIn S σ autos, (g.findAccelerations S σ).2) := by
  obtain ⟨rest, hrest, hlater⟩ := g.exists_later
  rw [hrest] at h
  cases before with
  | nil =>
      obtain ⟨rfl, -⟩ := List.cons.inj h
      exact Prod.ext accsIn_self.symm rfl
  | cons o before =>
      obtain ⟨rfl, rfl⟩ := List.cons.inj h
      have hbefore : ∀ o ∈ before, o.Perm g.autos ∧ o.map Auto.addr ≠ g.autos.map Auto.addr :=
        fun o ho => hlater o (List.mem_append_left _ ho)
      obtain ⟨hperm, hne⟩ := hlater autos (List.mem_append_right _ List.mem_cons_self)
      rw [List.foldl_cons, searchStep_first, foldl_searchStep hbefore]
      exact call_of_later hperm hne

omit [Double D] in
/-- Distinct autos in the same order of addresses. -/
theorem eq_of_addrs {l l' : List (Auto D)} (hd : (g.autos.map Auto.addr).Nodup)
    (hl : ∀ a ∈ l, a ∈ g.autos) (hl' : ∀ a ∈ l', a ∈ g.autos)
    (h : l.map Auto.addr = l'.map Auto.addr) : l = l' := by
  induction l generalizing l' with
  | nil => exact (List.map_eq_nil_iff.1 h.symm).symm
  | cons a l ih =>
      cases l' with
      | nil => cases h
      | cons b l' =>
          obtain ⟨haddr, hrest⟩ := List.cons.inj h
          obtain rfl := List.inj_on_of_nodup_map hd (hl a List.mem_cons_self)
            (hl' b List.mem_cons_self) haddr
          rw [ih (fun c hc => hl c (List.mem_cons_of_mem _ hc))
            (fun c hc => hl' c (List.mem_cons_of_mem _ hc)) hrest]

omit [Double D] in
theorem mem_ordersFrom_iff (hd : (g.autos.map Auto.addr).Nodup) :
    autos ∈ ordersFrom Auto.addr g.autos ↔ g.Turn autos := by
  constructor
  · exact fun h => perm_of_mem_ordersFrom h
  · rintro ⟨hperm, hle⟩
    obtain ⟨o, ho, haddrs⟩ := exists_mem_ordersFrom (hperm.map Auto.addr) hle
    rwa [← eq_of_addrs hd (fun a ha => (perm_of_mem_ordersFrom ho).1.subset ha)
      (fun a ha => hperm.subset ha) haddrs]

/-- **What the search finds.**  The windows are those of the first turn; the call of every turn
returns its accelerations and leaves those windows; no turn has a higher sum than the one that is
kept; and what is kept is the accelerations of the first turn with that sum, or nothing if no sum
is positive. -/
theorem search_best (hd : (g.autos.map Auto.addr).Nodup) (σ : Windows D) :
    (g.search S toInt σ).windows = (g.findAccelerations S σ).2 ∧
    (∀ before autos after, ordersFrom Auto.addr g.autos = before ++ autos :: after →
      g.Turn autos ∧
      { g with autos := autos }.findAccelerations S
          (before.foldl (g.searchStep S toInt) ⟨σ, 0, []⟩).windows =
        (g.accsIn S σ autos, (g.findAccelerations S σ).2)) ∧
    (∀ autos, g.Turn autos →
      accumulate toInt (g.accsIn S σ autos) ≤ (g.search S toInt σ).maxSum) ∧
    ((g.search S toInt σ).maxSum = 0 ∧ (g.search S toInt σ).maxAccs = [] ∨
      ∃ autos, g.Turn autos ∧ (g.search S toInt σ).maxAccs = g.accsIn S σ autos ∧
        (g.search S toInt σ).maxSum = accumulate toInt (g.accsIn S σ autos) ∧
        0 < accumulate toInt (g.accsIn S σ autos) ∧
        ∀ earlier, g.Turn earlier → earlier.map Auto.addr < autos.map Auto.addr →
          accumulate toInt (g.accsIn S σ earlier) < accumulate toInt (g.accsIn S σ autos)) := by
  obtain ⟨-, hall, hkept⟩ := foldl_keepBest (fun autos => accumulate toInt (g.accsIn S σ autos))
    (g.accsIn S σ) (0, []) (ordersFrom Auto.addr g.autos)
  rw [search_eq, keep]
  generalize (ordersFrom Auto.addr g.autos).foldl _ _ = best at hall hkept ⊢
  refine ⟨rfl, fun before autos after horders => ⟨(mem_ordersFrom_iff hd).1 ?_,
    call_of_turn σ horders⟩, fun autos hturn => hall autos ((mem_ordersFrom_iff hd).2 hturn), ?_⟩
  · exact horders ▸ List.mem_append_right _ List.mem_cons_self
  rcases hkept with rfl | ⟨before, autos, after, horders, rfl, hpos, hearlier⟩
  · exact .inl ⟨rfl, rfl⟩
  · have hpairwise := pairwise_ordersFrom Auto.addr g.autos
    have hmem : autos ∈ ordersFrom Auto.addr g.autos :=
      horders ▸ List.mem_append_right _ List.mem_cons_self
    refine .inr ⟨autos, (mem_ordersFrom_iff hd).1 hmem, rfl, rfl, hpos, fun earlier hturn hlt => ?_⟩
    have hmem' := (mem_ordersFrom_iff hd).2 hturn
    rw [horders] at hmem' hpairwise
    rcases List.mem_append.1 hmem' with h | h
    · exact hearlier earlier h
    · -- it does not come later
      rcases List.mem_cons.1 h with rfl | h
      · exact absurd hlt (lt_irrefl _)
      · have hafter := (List.pairwise_cons.1 (List.pairwise_append.1 hpairwise).2.1).1 earlier h
        exact absurd (hlt.trans hafter) (lt_irrefl _)

/-- A number that fits is converted to `int` by dropping what follows the point. -/
noncomputable def toIntReal : XReal → ℤ
  | .fin x => if 0 ≤ x then ⌊x⌋ else ⌈x⌉
  | _ => 0

theorem threeAutos_search :
    (threeAutos.search StdSort.stable toIntReal Windows.empty).windows =
        (threeAutos.findAccelerations StdSort.stable Windows.empty).2 ∧
      (∀ before autos after, ordersFrom Auto.addr threeAutos.autos = before ++ autos :: after →
        ({ threeAutos with autos := autos }.findAccelerations StdSort.stable
          (before.foldl (threeAutos.searchStep StdSort.stable toIntReal)
            ⟨Windows.empty, 0, []⟩).windows).1 =
          threeAutos.accsIn StdSort.stable Windows.empty autos) ∧
      ∀ autos, threeAutos.Turn autos →
        accumulate toIntReal (threeAutos.accsIn StdSort.stable Windows.empty autos) ≤
          (threeAutos.search StdSort.stable toIntReal Windows.empty).maxSum := by
  have hd : (threeAutos.autos.map Auto.addr).Nodup := by simp [threeAutos]
  obtain ⟨hwindows, hcalls, hall, -⟩ :=
    @search_best _ _ StdSort.stable toIntReal threeAutos hd Windows.empty
  refine ⟨hwindows, fun before autos after horders => ?_, hall⟩
  rw [(hcalls before autos after horders).2]

end DrivingSim.Grid
