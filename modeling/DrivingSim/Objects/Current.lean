import DrivingSim.Objects.Registry

/-!
# Objects — the current factory

What the registry is for: at any time an interface has at most one current factory, which is the
one it was last given by `replace` or `mock`, or else the one that it was registered with
(`current`), and at most one instance.

The registry does not hold that factory in one place.  It is the factory of the instance where
there is one, whatever the map of replacements says; and where there is none it is in the map of
replacements, or in that of registrations (`Refines`).
-/

namespace DrivingSim.Registry

variable {F : Type}

/-! ### The history -/

/-- The factories that interfaces were registered with. -/
def registeredOf : List (Op F) → String → Option F
  | [] => fun _ => none
  | .objectRegistration itf factory :: past =>
    Function.update (registeredOf past) itf (some factory)
  | _ :: past => registeredOf past

/-- The registered mocks. -/
def mockOf : List (Op F) → String → Option F
  | [] => fun _ => none
  | .mockObjectRegistration itf factory :: past => Function.update (mockOf past) itf (some factory)
  | _ :: past => mockOf past

/-- The factories of the last `replace`, or of the last `mock` that had one, since the last
`reset`. -/
def chosen : List (Op F) → String → Option F
  | [] => fun _ => none
  | .replace itf factory :: past => Function.update (chosen past) itf (some factory)
  | .mock itf :: past => Function.update (chosen past) itf ((mockOf past itf).or (chosen past itf))
  | .reset :: _ => fun _ => none
  | _ :: past => chosen past

/-- The current factory of an interface. -/
def current (past : List (Op F)) (itf : String) : Option F :=
  (chosen past itf).or (registeredOf past itf)

/-- The operation replaces the interface, mocks it by a mock that there is, or resets. -/
def Changes (itf : String) (past : List (Op F)) : Op F → Prop
  | .replace itf' _ => itf' = itf
  | .mock itf' => itf' = itf ∧ mockOf past itf ≠ none
  | .reset => True
  | _ => False

/-- No operation of `later`, which comes after `past`, is such. -/
def Undisturbed (itf : String) (past : List (Op F)) : List (Op F) → Prop
  | [] => True
  | op :: later => ¬ Changes itf (later ++ past) op ∧ Undisturbed itf past later

/-- The operation is one on this interface. -/
def Op.On (itf : String) : Op F → Prop
  | .objectRegistration itf' _ => itf' = itf
  | .mockObjectRegistration itf' _ => itf' = itf
  | .get itf' => itf' = itf
  | .replace itf' _ => itf' = itf
  | .mock itf' => itf' = itf
  | .reset => True

/-- The operation is one on this interface, and not a `get`. -/
def Op.sets (itf : String) : Op F → Bool
  | .objectRegistration itf' _ => itf' = itf
  | .mockObjectRegistration itf' _ => itf' = itf
  | .get _ => false
  | .replace itf' _ => itf' = itf
  | .mock itf' => itf' = itf
  | .reset => true

/-! ### The registry holds the current factories -/

/-- The registry after a history. -/
structure Refines (past : List (Op F)) (s : Registry F) : Prop where
  registrations : s.registrations = registeredOf past
  mocks : s.mocks = mockOf past
  live : ∀ itf x, s.instances itf = some x → current past itf = some x.factory
  waiting : ∀ itf, s.instances itf = none → s.replacements itf = chosen past itf
  registered : ∀ itf, registeredOf past itf = none → chosen past itf = none

variable {past : List (Op F)} {s t : Registry F} {itf : String} {factory : F}

/-- A new instance is the only one of its interface. -/
theorem instantiate_some {itf' : String} {x : Instance F}
    (h : (s.instantiate itf factory).instances itf' = some x) :
    itf' = itf ∧ x.factory = factory ∨ itf' ≠ itf ∧ s.instances itf' = some x := by
  rw [instantiate] at h
  dsimp only at h
  rcases eq_or_ne itf' itf with rfl | hne
  · rw [Function.update_self] at h
    cases h
    exact .inl ⟨rfl, rfl⟩
  · rw [Function.update_of_ne hne] at h
    exact .inr ⟨hne, h⟩

theorem instantiate_none {itf' : String}
    (h : (s.instantiate itf factory).instances itf' = none) :
    itf' ≠ itf ∧ s.instances itf' = none := by
  rw [instantiate] at h
  dsimp only at h
  rcases eq_or_ne itf' itf with rfl | hne
  · rw [Function.update_self] at h
    cases h
  · rw [Function.update_of_ne hne] at h
    exact ⟨hne, h⟩

theorem current_of_chosen (h : chosen past itf = some factory) :
    current past itf = some factory := by
  rw [current, h, Option.some_or]

namespace Refines

/-- An interface that has not been registered has no instance. -/
theorem instances_eq_none (h : Refines past s) (hreg : s.registrations itf = none) :
    s.instances itf = none := by
  rw [h.registrations] at hreg
  cases hlive : s.instances itf with
  | none => rfl
  | some x =>
      have hcurrent := h.live itf x hlive
      rw [current, h.registered itf hreg, hreg] at hcurrent
      cases hcurrent

theorem objectRegistration (h : Refines past s)
    (hs : s.objectRegistration itf factory = some t) :
    Refines (.objectRegistration itf factory :: past) t := by
  obtain ⟨hreg, rfl⟩ := objectRegistration_eq_some hs
  refine ⟨congrArg (Function.update · itf _) h.registrations, h.mocks, fun itf' x hlive => ?_,
    h.waiting, fun itf' hnone => ?_⟩
  · have hne : itf' ≠ itf := by
      rintro rfl
      rw [h.instances_eq_none hreg] at hlive
      cases hlive
    rw [current, registeredOf, Function.update_of_ne hne]
    exact h.live itf' x hlive
  · rw [registeredOf] at hnone
    rcases eq_or_ne itf' itf with rfl | hne
    · rw [Function.update_self] at hnone
      cases hnone
    · rw [Function.update_of_ne hne] at hnone
      exact h.registered itf' hnone

theorem mockObjectRegistration (h : Refines past s)
    (hs : s.mockObjectRegistration itf factory = some t) :
    Refines (.mockObjectRegistration itf factory :: past) t := by
  obtain ⟨-, -, rfl⟩ := mockObjectRegistration_eq_some hs
  exact ⟨h.registrations, congrArg (Function.update · itf _) h.mocks, h.live, h.waiting,
    h.registered⟩

/-- A replacement, by the operation of that name or by `mock`. -/
theorem replace {later : List (Op F)} (h : Refines past s) (hs : s.replace itf factory = some t)
    (hreg : registeredOf later = registeredOf past) (hmock : mockOf later = mockOf past)
    (hchosen : chosen later = Function.update (chosen past) itf (some factory)) :
    Refines later t := by
  obtain ⟨hknown, hs⟩ := replace_eq_some hs
  have hself : chosen later itf = some factory := by
    rw [hchosen, Function.update_self]
  have hother : ∀ {itf'}, itf' ≠ itf → chosen later itf' = chosen past itf' := by
    intro itf' hne
    rw [hchosen, Function.update_of_ne hne]
  have hcurrent : ∀ {itf'}, itf' ≠ itf → current later itf' = current past itf' := by
    intro itf' hne
    rw [current, current, hother hne, hreg]
  have hregistered : ∀ itf', registeredOf later itf' = none → chosen later itf' = none := by
    intro itf' hnone
    rw [hreg] at hnone
    have hne : itf' ≠ itf := by
      rintro rfl
      rw [h.registrations] at hknown
      exact hknown hnone
    rw [hother hne]
    exact h.registered itf' hnone
  rcases hs with ⟨-, rfl⟩ | ⟨hnone, rfl⟩
  · -- the new instance counts, whatever the map of replacements says
    refine ⟨h.registrations.trans hreg.symm, h.mocks.trans hmock.symm, fun itf' x hlive => ?_,
      fun itf' hnone => ?_, hregistered⟩
    · rcases instantiate_some hlive with ⟨rfl, rfl⟩ | ⟨hne, hlive⟩
      · exact current_of_chosen hself
      · rw [hcurrent hne]
        exact h.live itf' x hlive
    · obtain ⟨hne, hnone⟩ := instantiate_none hnone
      rw [hother hne]
      exact h.waiting itf' hnone
  · refine ⟨h.registrations.trans hreg.symm, h.mocks.trans hmock.symm, fun itf' x hlive => ?_,
      fun itf' hnone' => ?_, hregistered⟩
    · have hne : itf' ≠ itf := by
        rintro rfl
        rw [hnone] at hlive
        cases hlive
      rw [hcurrent hne]
      exact h.live itf' x hlive
    · dsimp only
      rcases eq_or_ne itf' itf with rfl | hne
      · rw [Function.update_self, hself]
      · rw [Function.update_of_ne hne, hother hne]
        exact h.waiting itf' hnone'

theorem mock (h : Refines past s) (hs : s.mock itf = some t) : Refines (.mock itf :: past) t := by
  rcases mock_eq_some hs with ⟨hnone, rfl⟩ | ⟨factory, hsome, hs⟩
  · have hchosen : chosen (.mock itf :: past) = chosen past := by
      rw [h.mocks] at hnone
      rw [chosen, hnone, Option.none_or, Function.update_eq_self]
    refine ⟨h.registrations, h.mocks, fun itf' x hlive => ?_, fun itf' hnone' => ?_,
      fun itf' hnone' => ?_⟩
    · rw [current, hchosen]
      exact h.live itf' x hlive
    · rw [hchosen]
      exact h.waiting itf' hnone'
    · rw [hchosen]
      exact h.registered itf' hnone'
  · refine h.replace hs rfl rfl ?_
    rw [h.mocks] at hsome
    rw [chosen, hsome, Option.some_or]

/-- The instance of a `get` is one of the current factory. -/
theorem current_of_get {x : Instance F} (h : Refines past s) (hs : s.get itf = some (x, t)) :
    current past itf = some x.factory := by
  rcases get_eq_some hs with ⟨hlive, -⟩ | ⟨hnone, -, -, hfactory⟩
  · exact h.live itf x hlive
  · rw [current, ← h.waiting itf hnone, ← h.registrations]
    exact hfactory

theorem get {x : Instance F} (h : Refines past s) (hs : s.get itf = some (x, t)) :
    Refines (.get itf :: past) t := by
  have hcurrent := h.current_of_get hs
  rcases get_eq_some hs with ⟨-, rfl⟩ | ⟨hnone, -, rfl, -⟩
  · exact ⟨h.registrations, h.mocks, h.live, h.waiting, h.registered⟩
  · refine ⟨h.registrations, h.mocks, fun itf' y hlive => ?_, fun itf' hnone' => ?_,
      h.registered⟩
    · rcases instantiate_some hlive with ⟨rfl, hfactory⟩ | ⟨-, hlive⟩
      · rw [hfactory]
        exact hcurrent
      · exact h.live itf' y hlive
    · exact h.waiting itf' (instantiate_none hnone').2

theorem reset (h : Refines past s) : Refines (.reset :: past) s.reset :=
  ⟨h.registrations, h.mocks, fun _ _ hlive => (by cases hlive), fun _ _ => rfl, fun _ _ => rfl⟩

theorem step {op : Op F} (h : Refines past s) (hs : s.step op = some t) :
    Refines (op :: past) t := by
  cases op with
  | objectRegistration itf factory => exact h.objectRegistration hs
  | mockObjectRegistration itf factory => exact h.mockObjectRegistration hs
  | get itf =>
      obtain ⟨⟨x, t⟩, hget, rfl⟩ := Option.map_eq_some_iff.1 hs
      exact h.get hget
  | replace itf factory => exact h.replace hs rfl rfl rfl
  | mock itf => exact h.mock hs
  | reset =>
      cases hs
      exact h.reset

end Refines

/-- **The registry refines the history.** -/
theorem refines_exec (h : exec past = some s) : Refines past s :=
  History.exec_invariant
    ⟨rfl, rfl, fun _ _ hlive => (by cases hlive), fun _ _ => rfl, fun _ _ => rfl⟩
    (fun _ _ _ _ _ ht hstep => ht.step hstep) h

end DrivingSim.Registry
