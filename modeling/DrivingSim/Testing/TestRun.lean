import Mathlib.Algebra.GroupWithZero.Nat
import DrivingSim.Objects.Renumbered
import DrivingSim.Testing.TestTrie

/-!
# Testing — runs of the tests

`test.cpp` from the static initialisation to the end of `main`.  The objects, their mocks and the
tests are registered in some order; `run_tests` finds the tests of a key and runs them one after
the other, with `objects::reset` after each; and `main` does so for each of its arguments.  What
calls `diag.fail` gives `none`.

A test is a program that calls the registry of the objects and goes on with what it gets
(`TestBody`).  It knows an instance by its factory and by which of those made since it began it
is, and it keeps nothing for the tests after it.

* `run_renumber`: a test does the same whatever has been made before it.
* `foldlM_runTest`: so each test of a list does what it does alone.
* `main_returns_iff`: the program passes exactly when every argument, whatever its text, finds a
  test and every test that is found passes alone.
-/

namespace DrivingSim

/-- What a test sees of an instance. -/
structure Seen (F : Type) where
  number : Nat
  factory : F

/-- The body of a test. -/
inductive TestBody (F : Type) where
  | passed
  | failed
  | get (itf : String) (next : Seen F → TestBody F)
  | replace (itf : String) (factory : F) (next : TestBody F)
  | mock (itf : String) (next : TestBody F)
  | reset (next : TestBody F)

variable {F : Type}

/-- `base` is how many instances had been made when the test began. -/
def TestBody.run (base : String → Nat) : TestBody F → Registry F → Option (Registry F)
  | .passed, s => some s
  | .failed, _ => none
  | .get itf next, s =>
    (s.get itf).bind fun r => (next ⟨r.1.number - base r.1.itf, r.1.factory⟩).run base r.2
  | .replace itf factory next, s => (s.replace itf factory).bind (next.run base)
  | .mock itf next, s => (s.mock itf).bind (next.run base)
  | .reset next, s => next.run base s.reset

/-- The registries of the program. -/
structure Suite (F : Type) where
  registry : Registry F
  tests : TestTrie (TestBody F)

namespace Suite

open TestTrie (Segment name)

def empty : Suite F := ⟨.empty, .empty⟩

/-! ### Static initialisation -/

/-- A registration: `object_registration`, `mock_object_registration`, `test_case_registration`. -/
inductive Registration (F : Type) where
  | object (itf : String) (factory : F)
  | mockObject (itf : String) (factory : F)
  | testCase (segs : List Segment) (body : TestBody F)

def register (s : Suite F) : Registration F → Option (Suite F)
  | .object itf factory => (s.registry.objectRegistration itf factory).map (⟨·, s.tests⟩)
  | .mockObject itf factory => (s.registry.mockObjectRegistration itf factory).map (⟨·, s.tests⟩)
  | .testCase segs body =>
    match TestTrie.insert s.tests (name segs) ⟨name segs, body⟩ with
    | (.duplicate, _) => none
    | (.success, tests) => some ⟨s.registry, tests⟩

/-- The program after its registrations, the last one first. -/
def exec (past : List (Registration F)) : Option (Suite F) := History.exec register empty past

/-! ### `run_tests` and `main` -/

/-- The body of the loop of `run_tests`. -/
def runTest (s : Registry F) (test : TestFunctor (TestBody F)) : Option (Registry F) :=
  (test.run.run s.made s).map Registry.reset

variable (o : TableOrder (List Char)) (s : Suite F)

def runTests (key : List Char) : Option (Nat × Suite F) :=
  let (testCases, tests) := TestTrie.find o s.tests key
  if testCases.isEmpty then none
  else (testCases.foldlM runTest s.registry).map fun registry =>
    (testCases.length, ⟨registry, tests⟩)

def runAllTests : Option (Nat × Suite F) := s.runTests o []

/-- The number of tests that `main` says have passed. -/
def main (args : List (List Char)) : Option (Nat × Suite F) :=
  match args with
  | [] => s.runAllTests o
  | args => args.foldlM
    (fun r key => (r.2.runTests o key).map fun r' => (r.1 + r'.1, r'.2)) (0, s)

end Suite

/-! ### One test -/

namespace TestBody

/-- The test passes in the registry as it is. -/
def Passes (body : TestBody F) (s : Registry F) : Prop := (body.run s.made s).isSome = true

/-- **A test does the same whatever has been made before it.** -/
theorem run_renumber (base : String → Nat) (body : TestBody F) (s : Registry F) :
    body.run base (s.renumber base) =
      (body.run (fun _ => 0) s).map (Registry.renumber base) := by
  induction body generalizing s with
  | passed => rfl
  | failed => rfl
  | get itf next ih =>
      rw [run, run, Registry.get_renumber]
      cases s.get itf with
      | none => rfl
      | some r =>
          obtain ⟨x, t⟩ := r
          dsimp only [Option.map_some, Option.bind_some, Instance.renumber]
          rw [Nat.add_sub_cancel_left, Nat.sub_zero]
          exact ih _ t
  | replace itf factory next ih =>
      rw [run, run, Registry.replace_renumber]
      cases s.replace itf factory with
      | none => rfl
      | some t => exact ih t
  | mock itf next ih =>
      rw [run, run, Registry.mock_renumber]
      cases s.mock itf with
      | none => rfl
      | some t => exact ih t
  | reset next ih =>
      rw [run, run, Registry.reset_renumber]
      exact ih s.reset

/-- A test registers nothing. -/
theorem sameRegistered_run {base : String → Nat} {body : TestBody F} {s t : Registry F}
    (h : body.run base s = some t) : Registry.SameRegistered s t := by
  induction body generalizing s with
  | passed =>
      cases h
      exact ⟨rfl, rfl⟩
  | failed => cases h
  | get itf next ih =>
      obtain ⟨⟨x, u⟩, hget, hnext⟩ := Option.bind_eq_some_iff.1 h
      exact (Registry.sameRegistered_get hget).trans (ih _ hnext)
  | replace itf factory next ih =>
      obtain ⟨u, hreplace, hnext⟩ := Option.bind_eq_some_iff.1 h
      exact (Registry.sameRegistered_replace hreplace).trans (ih hnext)
  | mock itf next ih =>
      obtain ⟨u, hmock, hnext⟩ := Option.bind_eq_some_iff.1 h
      exact (Registry.sameRegistered_mock hmock).trans (ih hnext)
  | reset next ih =>
      have hnext := ih h
      exact ⟨hnext.registrations, hnext.mocks⟩

end TestBody

namespace Suite

open TestTrie (Segment name path tokens)

variable {o : TableOrder (List Char)} {past : List (Registration F)} {s : Suite F}

/-! ### The tests of a list -/

theorem runTest_renumber {r : Registry F} (hr : r.Untouched) (b : String → Nat)
    (test : TestFunctor (TestBody F)) : runTest (r.renumber b) test =
      ((test.run.run (fun _ => 0) r).map (Registry.renumber b)).map Registry.reset := by
  rw [runTest, hr.made_renumber, TestBody.run_renumber]

/-- **Each test does what it does alone**, and leaves the registry as it was but for the
numbers. -/
theorem foldlM_runTest {r : Registry F} (hr : r.Untouched)
    (testCases : List (TestFunctor (TestBody F))) (b : String → Nat) :
    ((∀ test ∈ testCases, test.run.Passes r) ∧
      ∃ b', testCases.foldlM runTest (r.renumber b) = some (r.renumber b')) ∨
    (¬ ∀ test ∈ testCases, test.run.Passes r) ∧
      testCases.foldlM runTest (r.renumber b) = none := by
  induction testCases generalizing b with
  | nil => exact .inl ⟨fun _ h => absurd h List.not_mem_nil, b, rfl⟩
  | cons test testCases ih =>
      rw [List.foldlM_cons, runTest_renumber hr]
      have hmade : r.made = fun _ => 0 := hr.made
      cases hrun : test.run.run (fun _ => 0) r with
      | none =>
          refine .inr ⟨fun h => ?_, rfl⟩
          have htest := h test List.mem_cons_self
          rw [TestBody.Passes, hmade, hrun] at htest
          cases htest
      | some t =>
          have htest : test.run.Passes r := by
            rw [TestBody.Passes, hmade, hrun]
            rfl
          -- all that is left of the test is the number of the instances it has made
          have hreset : (t.renumber b).reset = r.renumber (t.renumber b).made :=
            Registry.reset_eq_renumber hr
              ⟨(TestBody.sameRegistered_run hrun).registrations,
                (TestBody.sameRegistered_run hrun).mocks⟩
          rcases ih (t.renumber b).made with ⟨hall, b', hrest⟩ | ⟨hnot, hrest⟩
          · refine .inl ⟨List.forall_mem_cons.2 ⟨htest, hall⟩, b', ?_⟩
            rw [← hreset] at hrest
            exact hrest
          · refine .inr ⟨fun h => hnot (List.forall_mem_cons.1 h).2, ?_⟩
            rw [← hreset] at hrest
            exact hrest

/-! ### What has been registered -/

/-- The tests, each with the segments of its name, the last one first. -/
def testCases : List (Registration F) → List (List Segment × TestBody F)
  | [] => []
  | .testCase segs body :: past => (segs, body) :: testCases past
  | _ :: past => testCases past

/-- The tests that a key finds: its tokens begin their names. -/
def matching (past : List (Registration F)) (key : List Char) :
    List (List Segment × TestBody F) :=
  (testCases past).filter fun e => tokens key <+: path e.1

/-- The key of a name finds those whose segments begin with its own. -/
theorem matching_name (past : List (Registration F)) (segs : List Segment) :
    matching past (name segs) = (testCases past).filter fun e => segs <+: e.1 := by
  simp only [matching, TestTrie.tokens_name_prefix_iff]

/-- The empty key finds all tests. -/
theorem matching_nil (past : List (Registration F)) : matching past [] = testCases past := by
  refine (matching_name past []).trans (List.filter_eq_self.2 fun e _ => ?_)
  exact decide_eq_true List.nil_prefix

/-- The calls of the registry of the tests. -/
def inserts : List (Registration F) → List (TestTrie.Op (TestBody F))
  | [] => []
  | .testCase segs body :: past => .insert segs ⟨name segs, body⟩ :: inserts past
  | _ :: past => inserts past

/-- What there is at the beginning of `main`. -/
structure Started (o : TableOrder (List Char)) (past : List (Registration F)) (s : Suite F) :
    Prop where
  untouched : s.registry.Untouched
  tests : s.tests = TestTrie.after o (inserts past)
  registered : TestTrie.registered (inserts past) =
    (testCases past).map fun e => (e.1, ⟨name e.1, e.2⟩)

theorem Started.object (h : Started o past s) {itf : String} {factory : F} {t : Suite F}
    (hs : s.register (.object itf factory) = some t) :
    Started o (.object itf factory :: past) t := by
  obtain ⟨r, hr, rfl⟩ := Option.map_eq_some_iff.1 hs
  obtain ⟨-, rfl⟩ := Registry.objectRegistration_eq_some hr
  exact ⟨⟨h.untouched.instances, h.untouched.replacements, h.untouched.made⟩, h.tests,
    h.registered⟩

theorem Started.mockObject (h : Started o past s) {itf : String} {factory : F} {t : Suite F}
    (hs : s.register (.mockObject itf factory) = some t) :
    Started o (.mockObject itf factory :: past) t := by
  obtain ⟨r, hr, rfl⟩ := Option.map_eq_some_iff.1 hs
  obtain ⟨-, -, rfl⟩ := Registry.mockObjectRegistration_eq_some hr
  exact ⟨⟨h.untouched.instances, h.untouched.replacements, h.untouched.made⟩, h.tests,
    h.registered⟩

/-- A test that is registered has a new name. -/
theorem Started.testCase (h : Started o past s) {segs : List Segment} {body : TestBody F}
    {t : Suite F} (hs : s.register (.testCase segs body) = some t) :
    Started o (.testCase segs body :: past) t := by
  have hinsert : TestTrie.insert s.tests (name segs) ⟨name segs, body⟩ =
      (.success, t.tests) ∧ t.registry = s.registry := by
    rw [register] at hs
    split at hs
    · cases hs
    · rename_i tests hinsert
      cases hs
      exact ⟨hinsert, rfl⟩
  obtain ⟨hinsert, hregistry⟩ := hinsert
  rw [h.tests] at hinsert
  have hnew : segs ∉ (TestTrie.registered (inserts past)).map Prod.fst := by
    rw [← (TestTrie.registers o (inserts past)).get_eq_none]
    cases hget : (TestTrie.after o (inserts past)).get (TestTrie.path segs) with
    | none => rfl
    | some val =>
        have hdup : (TestTrie.insert (TestTrie.after o (inserts past)) (name segs)
            ⟨name segs, body⟩).1 = .duplicate := TestTrie.insert_duplicate_iff.2 ⟨val, hget⟩
        rw [hinsert] at hdup
        cases hdup
  refine ⟨hregistry ▸ h.untouched, ?_, ?_⟩
  · exact (congrArg Prod.snd hinsert).symm
  · rw [inserts, TestTrie.registered, if_neg hnew, h.registered]
    rfl

theorem started (h : exec past = some s) (o : TableOrder (List Char)) : Started o past s := by
  refine History.exec_invariant (P := Started o) ⟨⟨rfl, rfl, rfl⟩, rfl, rfl⟩
    (fun past op t u _ ht hstep => ?_) h
  cases op with
  | object itf factory => exact ht.object hstep
  | mockObject itf factory => exact ht.mockObject hstep
  | testCase segs body => exact ht.testCase hstep

/-! ### `run_tests` -/

/-- The key finds tests, and each passes alone. -/
def KeyPasses (past : List (Registration F)) (r : Registry F) (key : List Char) : Prop :=
  matching past key ≠ [] ∧ ∀ e ∈ matching past key, e.2.Passes r

/-- Between two arguments of `main`. -/
structure Between (o : TableOrder (List Char)) (past : List (Registration F)) (r : Registry F)
    (s : Suite F) : Prop where
  untouched : r.Untouched
  registry : ∃ b, s.registry = r.renumber b
  tests : ∃ calls, s.tests = TestTrie.after o calls ∧
    TestTrie.registered calls = (testCases past).map fun e => (e.1, ⟨name e.1, e.2⟩)

theorem Started.between (h : Started o past s) : Between o past s.registry s :=
  ⟨h.untouched, ⟨fun _ => 0, Registry.renumber_zero.symm⟩, inserts past, h.tests, h.registered⟩

/-- The tests that are found are those of the key. -/
theorem Between.find_perm {r : Registry F} (h : Between o past r s) (key : List Char) :
    (TestTrie.find o s.tests key).1.Perm
      ((matching past key).map fun e => ⟨name e.1, e.2⟩) := by
  obtain ⟨calls, htests, hregistered⟩ := h.tests
  have hfound := @TestTrie.find_perm _ o calls key
  rw [hregistered, List.filter_map, List.map_map] at hfound
  rw [htests]
  exact hfound

/-- And nothing is changed by looking for them. -/
theorem Between.found {r : Registry F} (h : Between o past r s) (key : List Char)
    (b : String → Nat) :
    Between o past r ⟨r.renumber b, (TestTrie.find o s.tests key).2⟩ := by
  obtain ⟨calls, htests, hregistered⟩ := h.tests
  refine ⟨h.untouched, ⟨b, rfl⟩, .find key :: calls, ?_, hregistered⟩
  rw [htests]
  rfl

theorem Between.runTests {r : Registry F} (h : Between o past r s) (key : List Char) :
    (KeyPasses past r key ∧ ∃ t, Between o past r t ∧
      s.runTests o key = some ((matching past key).length, t)) ∨
    (¬ KeyPasses past r key ∧ s.runTests o key = none) := by
  obtain ⟨b, hb⟩ := h.registry
  have hperm := h.find_perm key
  have hlength := hperm.length_eq
  rw [List.length_map] at hlength
  have hall : (∀ test ∈ (TestTrie.find o s.tests key).1, test.run.Passes r) ↔
      ∀ e ∈ matching past key, e.2.Passes r := by
    simp only [hperm.mem_iff, List.forall_mem_map]
  rw [Suite.runTests]
  dsimp only
  by_cases hnone : matching past key = []
  · refine .inr ⟨fun hkey => hkey.1 hnone, if_pos ?_⟩
    rw [hnone, List.length_nil, List.length_eq_zero_iff] at hlength
    rw [hlength]
    rfl
  · have hfound : ¬ (TestTrie.find o s.tests key).1.isEmpty = true := by
      rw [List.isEmpty_iff, ← List.length_eq_zero_iff, hlength, List.length_eq_zero_iff]
      exact hnone
    rw [if_neg hfound, hb]
    rcases foldlM_runTest h.untouched (TestTrie.find o s.tests key).1 b with
      ⟨hpass, b', hrun⟩ | ⟨hnot, hrun⟩
    · refine .inl ⟨⟨hnone, hall.1 hpass⟩, _, h.found key b', ?_⟩
      rw [hrun, Option.map_some, hlength]
    · refine .inr ⟨fun hkey => hnot (hall.2 hkey.2), ?_⟩
      rw [hrun]
      rfl

/-! ### `main` -/

theorem Between.foldlM_runTests {r : Registry F} (h : Between o past r s)
    (keys : List (List Char)) (n : Nat) :
    ((∀ key ∈ keys, KeyPasses past r key) ∧ ∃ t,
      keys.foldlM
        (fun r key => (r.2.runTests o key).map fun r' => (r.1 + r'.1, r'.2)) (n, s) =
        some (n + (keys.map fun key => (matching past key).length).sum, t)) ∨
    ((¬ ∀ key ∈ keys, KeyPasses past r key) ∧
      keys.foldlM
        (fun r key => (r.2.runTests o key).map fun r' => (r.1 + r'.1, r'.2)) (n, s) = none) := by
  induction keys generalizing n s with
  | nil => exact .inl ⟨fun _ hmem => absurd hmem List.not_mem_nil, s, rfl⟩
  | cons key keys ih =>
      rw [List.foldlM_cons]
      rcases h.runTests key with ⟨hkey, t, ht, hrun⟩ | ⟨hnot, hrun⟩
      · rw [hrun]
        rcases ih ht (n + (matching past key).length) with ⟨hall, u, hrest⟩ | ⟨hnot, hrest⟩
        · refine .inl ⟨List.forall_mem_cons.2 ⟨hkey, hall⟩, u, ?_⟩
          rw [List.map_cons, List.sum_cons, ← Nat.add_assoc]
          exact hrest
        · exact .inr ⟨fun h => hnot (List.forall_mem_cons.1 h).2, hrest⟩
      · refine .inr ⟨fun h => hnot (List.forall_mem_cons.1 h).1, ?_⟩
        rw [hrun]
        rfl

/-- The keys that are looked for: without arguments, that of all tests. -/
def keysOf (args : List (List Char)) : List (List Char) :=
  if args = [] then [[]] else args

theorem Between.main {r : Registry F} (h : Between o past r s) (args : List (List Char)) :
    ((∀ key ∈ keysOf args, KeyPasses past r key) ∧ ∃ t, s.main o args =
      some (((keysOf args).map fun key => (matching past key).length).sum, t)) ∨
    ((¬ ∀ key ∈ keysOf args, KeyPasses past r key) ∧ s.main o args = none) := by
  cases args with
  | nil =>
      have hall : (∀ key ∈ keysOf [], KeyPasses past r key) ↔ KeyPasses past r [] :=
        List.forall_mem_singleton
      rw [hall]
      rcases h.runTests [] with ⟨hkey, t, -, hrun⟩ | hrun
      · exact .inl ⟨hkey, t, hrun⟩
      · exact .inr hrun
  | cons key args =>
      have hmain := h.foldlM_runTests (key :: args) 0
      rw [Nat.zero_add] at hmain
      exact hmain

/-- **The tests are isolated.**  Whatever the order in which the objects and the tests have been
registered and the tests are found, and whatever the arguments, `main` comes to its end exactly
when every argument finds a test and every test that is found passes alone, in the registry as the
registrations have left it; and it counts the tests that the arguments find. -/
theorem main_returns_iff (h : exec past = some s) (o : TableOrder (List Char))
    (args : List (List Char)) (n : Nat) :
    (s.main o args).map Prod.fst = some n ↔
      (∀ key ∈ keysOf args, matching past key ≠ [] ∧
        ∀ e ∈ matching past key, e.2.Passes s.registry) ∧
      n = ((keysOf args).map fun key => (matching past key).length).sum := by
  rcases (started h o).between.main args with ⟨hall, t, hmain⟩ | ⟨hnot, hmain⟩
  · rw [hmain, Option.map_some, Option.some.injEq]
    exact ⟨fun hn => ⟨hall, hn.symm⟩, fun hn => hn.2.symm⟩
  · rw [hmain]
    exact ⟨fun hn => (by cases hn), fun hn => absurd hn.1 hnot⟩

/-- A test that mocks the widget, and one that wants the first real one. -/
def widgetTests : List (Registration Nat) :=
  [.testCase [⟨['b'], List.cons_ne_nil _ _, by simp [TestTrie.isSpace]⟩]
      (.get "widget" fun x => if x.factory = 0 ∧ x.number = 0 then .passed else .failed),
    .testCase [⟨['a'], List.cons_ne_nil _ _, by simp [TestTrie.isSpace]⟩]
      (.mock "widget" (.get "widget" fun x => if x.factory = 1 then .passed else .failed)),
    .mockObject "widget" 1, .object "widget" 0]

theorem widgetTests_registry : (exec widgetTests).map Suite.registry =
    some ⟨Function.update (fun _ => none) "widget" (some 0), fun _ => none,
      Function.update (fun _ => none) "widget" (some 1), fun _ => none, fun _ => 0⟩ := by
  rw [exec, widgetTests]
  simp [History.exec, register, TestTrie.insert_eq, TestTrie.tokens_name]
  rfl

/-- The mock of the one test is not there for the other, in whatever order they are run. -/
theorem widgetTests_pass : ∃ s, exec widgetTests = some s ∧
    ∀ o, (s.main o []).map Prod.fst = some 2 := by
  obtain ⟨s, hs, hregistry⟩ := Option.map_eq_some_iff.1 widgetTests_registry
  refine ⟨s, hs, fun o => (main_returns_iff hs o [] 2).2 ⟨fun key hkey => ?_, ?_⟩⟩
  · obtain rfl : key = [] := List.mem_singleton.1 hkey
    rw [matching_nil]
    refine ⟨List.cons_ne_nil _ _, fun e he => ?_⟩
    rw [hregistry]
    rcases List.mem_cons.1 he with rfl | he
    · rfl
    · rw [List.mem_singleton.1 he]
      rfl
  · change 2 = ([[]].map fun key => (matching widgetTests key).length).sum
    rw [List.map_singleton, matching_nil]
    rfl

end Suite

end DrivingSim
