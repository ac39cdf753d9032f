import DrivingSim.Support.History
import Mathlib.Logic.Function.Basic
import Mathlib.Tactic.SplitIfs

/-!
# Objects — the registry of singletons

`objects.cpp`: four maps from the names of interfaces, to the factories that have been registered,
to those that replace them, to those of mocks, and to the instances.  A map is a function to
`Option`; an operation that calls `diag().fail` gives `none`, as the program aborts.

A factory returns a new instance at each call, so that an instance is known by its interface and
by how many have been made for it before; it does not call the registry.
-/

namespace DrivingSim

/-- What a factory has returned. -/
structure Instance (F : Type) where
  itf : String
  number : Nat
  factory : F

structure Registry (F : Type) where
  registrations : String → Option F
  replacements : String → Option F
  mocks : String → Option F
  instances : String → Option (Instance F)
  /-- How many instances have been made for each interface. -/
  made : String → Nat

namespace Registry

variable {F : Type}

def empty : Registry F where
  registrations := fun _ => none
  replacements := fun _ => none
  mocks := fun _ => none
  instances := fun _ => none
  made := fun _ => 0

variable (s : Registry F) (itf : String)

/-- `instances()[itf] = factory()`. -/
def instantiate (factory : F) : Registry F :=
  { s with
    instances := Function.update s.instances itf (some ⟨itf, s.made itf, factory⟩)
    made := Function.update s.made itf (s.made itf + 1) }

/-- The instance is null where the interface has not been registered. -/
def getInstance : Option (Instance F) × Registry F :=
  let s :=
    match s.instances itf with
    | some _ => s
    | none =>
      -- first see if the original registration has been replaced
      match s.replacements itf with
      | some factory => s.instantiate itf factory
      | none =>
        match s.registrations itf with
        | some factory => s.instantiate itf factory
        | none => s
  (s.instances itf, s)

def objectRegistration (factory : F) : Option (Registry F) :=
  if (s.registrations itf).isSome then none
  else some { s with registrations := Function.update s.registrations itf (some factory) }

def mockObjectRegistration (factory : F) : Option (Registry F) :=
  if (s.registrations itf).isNone then none
  else if (s.mocks itf).isSome then none
  else some { s with mocks := Function.update s.mocks itf (some factory) }

def get : Option (Instance F × Registry F) :=
  match s.getInstance itf with
  | (none, _) => none
  | (some obj, s) => some (obj, s)

def replace (factory : F) : Option (Registry F) :=
  if (s.registrations itf).isNone then none
  else if (s.instances itf).isSome then
    -- the replacement is not stored: it is the live instance that makes it count
    some (s.instantiate itf factory)
  else some { s with replacements := Function.update s.replacements itf (some factory) }

def mock : Option (Registry F) :=
  match s.mocks itf with
  -- falling back to the real implementation
  | none => some s
  | some factory => s.replace itf factory

def reset : Registry F := { s with instances := fun _ => none, replacements := fun _ => none }

/-- A call of one of the operations. -/
inductive Op (F : Type) where
  | objectRegistration (itf : String) (factory : F)
  | mockObjectRegistration (itf : String) (factory : F)
  | get (itf : String)
  | replace (itf : String) (factory : F)
  | mock (itf : String)
  | reset

/-- What an operation does to the registry, unless it aborts. -/
def step (s : Registry F) : Op F → Option (Registry F)
  | .objectRegistration itf factory => s.objectRegistration itf factory
  | .mockObjectRegistration itf factory => s.mockObjectRegistration itf factory
  | .get itf => (s.get itf).map Prod.snd
  | .replace itf factory => s.replace itf factory
  | .mock itf => s.mock itf
  | .reset => some s.reset

/-- The registry after a history. -/
def exec (past : List (Op F)) : Option (Registry F) := History.exec step empty past

/-! ### What the operations do -/

variable {s itf} {t : Registry F} {factory : F}

theorem objectRegistration_eq_some (h : s.objectRegistration itf factory = some t) :
    s.registrations itf = none ∧
      t = { s with registrations := Function.update s.registrations itf (some factory) } := by
  rw [objectRegistration] at h
  split_ifs at h with hreg
  exact ⟨Option.not_isSome_iff_eq_none.1 hreg, (Option.some.inj h).symm⟩

theorem mockObjectRegistration_eq_some (h : s.mockObjectRegistration itf factory = some t) :
    s.registrations itf ≠ none ∧ s.mocks itf = none ∧
      t = { s with mocks := Function.update s.mocks itf (some factory) } := by
  rw [mockObjectRegistration] at h
  split_ifs at h with hreg hmock
  exact ⟨fun hnone => hreg (Option.isNone_iff_eq_none.2 hnone),
    Option.not_isSome_iff_eq_none.1 hmock, (Option.some.inj h).symm⟩

/-- A replacement makes a new instance where there is one, and waits where there is none. -/
theorem replace_eq_some (h : s.replace itf factory = some t) : s.registrations itf ≠ none ∧
    (s.instances itf ≠ none ∧ t = s.instantiate itf factory ∨
      s.instances itf = none ∧
        t = { s with replacements := Function.update s.replacements itf (some factory) }) := by
  rw [replace] at h
  split_ifs at h with hreg hlive
  · refine ⟨fun hnone => hreg (Option.isNone_iff_eq_none.2 hnone), .inl ⟨fun hnone => ?_, ?_⟩⟩
    · rw [hnone] at hlive
      cases hlive
    · exact (Option.some.inj h).symm
  · exact ⟨fun hnone => hreg (Option.isNone_iff_eq_none.2 hnone),
      .inr ⟨Option.not_isSome_iff_eq_none.1 hlive, (Option.some.inj h).symm⟩⟩

theorem mock_eq_some (h : s.mock itf = some t) : s.mocks itf = none ∧ t = s ∨
    ∃ factory, s.mocks itf = some factory ∧ s.replace itf factory = some t := by
  rw [mock] at h
  cases hmock : s.mocks itf with
  | none =>
      rw [hmock] at h
      exact .inl ⟨rfl, (Option.some.inj h).symm⟩
  | some factory =>
      rw [hmock] at h
      exact .inr ⟨factory, rfl, h⟩

/-- What there is, or else a new instance from the replacement or from the original. -/
theorem get_eq_some {x : Instance F} (h : s.get itf = some (x, t)) :
    s.instances itf = some x ∧ t = s ∨
    s.instances itf = none ∧ x = ⟨itf, s.made itf, x.factory⟩ ∧ t = s.instantiate itf x.factory ∧
      (s.replacements itf).or (s.registrations itf) = some x.factory := by
  have hnew : ∀ factory, (s.instantiate itf factory).instances itf =
      some ⟨itf, s.made itf, factory⟩ := fun factory => Function.update_self ..
  rw [get, getInstance] at h
  cases hlive : s.instances itf with
  | some y =>
      simp only [hlive, Option.some.injEq, Prod.mk.injEq] at h
      obtain ⟨rfl, rfl⟩ := h
      exact .inl ⟨rfl, rfl⟩
  | none =>
      refine .inr ⟨rfl, ?_⟩
      cases hrep : s.replacements itf with
      | some factory =>
          simp only [hlive, hrep, hnew, Option.some.injEq, Prod.mk.injEq] at h
          obtain ⟨rfl, rfl⟩ := h
          exact ⟨rfl, rfl, rfl⟩
      | none =>
          cases hreg : s.registrations itf with
          | some factory =>
              simp only [hlive, hrep, hreg, hnew, Option.some.injEq, Prod.mk.injEq] at h
              obtain ⟨rfl, rfl⟩ := h
              exact ⟨rfl, rfl, rfl⟩
          | none =>
              simp only [hlive, hrep, hreg] at h
              cases h

theorem get_of_instance {x : Instance F} (h : s.instances itf = some x) :
    s.get itf = some (x, s) := by
  rw [get, getInstance]
  simp only [h]

/-- The instance that `get` returns. -/
theorem get_fst : (s.get itf).map Prod.fst = (s.instances itf).or
    (((s.replacements itf).or (s.registrations itf)).map (⟨itf, s.made itf, ·⟩)) := by
  cases hget : s.get itf with
  | some p =>
      obtain ⟨x, t⟩ := p
      rcases get_eq_some hget with ⟨hlive, -⟩ | ⟨hnone, hx, -, hfactory⟩
      · rw [hlive]
        rfl
      · rw [hnone, hfactory]
        exact congrArg some hx
  | none =>
      rw [get, getInstance] at hget
      cases hlive : s.instances itf with
      | some x => simp [hlive] at hget
      | none =>
          cases hrep : s.replacements itf with
          | some factory => simp [hlive, hrep, instantiate] at hget
          | none =>
              cases hreg : s.registrations itf with
              | some factory => simp [hlive, hrep, hreg, instantiate] at hget
              | none => rfl

end Registry

end DrivingSim
