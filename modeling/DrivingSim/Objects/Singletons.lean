import DrivingSim.Objects.Current

/-!
# Objects — what a `get` returns

A `get` returns an instance of the current factory.  The same instance is returned until the
interface is replaced or mocked or all is reset (`instances_of_undisturbed`).  The current factory
does not depend on when instances were made, as no `get` changes it, nor on what is done to other
interfaces (`current_of_relevant`); and no operation on another interface changes what a `get`
returns (`get_frame`).
-/

namespace DrivingSim.Registry

variable {F : Type} {past later : List (Op F)} {op : Op F} {s t : Registry F} {itf : String}

/-! ### The same instance -/

theorem instances_of_replace {itf' : String} {factory : F} (h : s.replace itf' factory = some t)
    (hne : itf' ≠ itf) : t.instances itf = s.instances itf := by
  rcases (replace_eq_some h).2 with ⟨-, rfl⟩ | ⟨-, rfl⟩
  · exact Function.update_of_ne hne.symm _ _
  · rfl

/-- An instance stays unless the operation is one that changes it. -/
theorem instances_step {x : Instance F} (h : Refines past s) (hlive : s.instances itf = some x)
    (hstep : s.step op = some t) (hop : ¬ Changes itf past op) : t.instances itf = some x := by
  cases op with
  | objectRegistration itf' factory =>
      obtain ⟨-, rfl⟩ := objectRegistration_eq_some hstep
      exact hlive
  | mockObjectRegistration itf' factory =>
      obtain ⟨-, -, rfl⟩ := mockObjectRegistration_eq_some hstep
      exact hlive
  | get itf' =>
      obtain ⟨⟨y, t⟩, hget, rfl⟩ := Option.map_eq_some_iff.1 hstep
      rcases get_eq_some hget with ⟨-, rfl⟩ | ⟨hnone, -, rfl, -⟩
      · exact hlive
      · have hne : itf ≠ itf' := by
          rintro rfl
          rw [hnone] at hlive
          cases hlive
        exact (Function.update_of_ne hne _ _).trans hlive
  | replace itf' factory => exact (instances_of_replace hstep hop).trans hlive
  | mock itf' =>
      rcases mock_eq_some hstep with ⟨-, rfl⟩ | ⟨factory, hmock, hreplace⟩
      · exact hlive
      · refine (instances_of_replace hreplace ?_).trans hlive
        rintro rfl
        refine hop ⟨rfl, ?_⟩
        rw [← h.mocks, hmock]
        exact Option.some_ne_none factory
  | reset => exact absurd trivial hop

theorem instances_of_undisturbed {x : Instance F} (h : exec past = some s)
    (hlive : s.instances itf = some x) (hlater : Undisturbed itf past later)
    (ht : exec (later ++ past) = some t) : t.instances itf = some x := by
  induction later generalizing t with
  | nil =>
      cases h.symm.trans ht
      exact hlive
  | cons op later ih =>
      obtain ⟨u, hu, hstep⟩ := History.exec_cons ht
      exact instances_step (refines_exec hu) (ih hlater.2 hu) hstep hlater.1

/-- What has been returned is the instance of the interface. -/
theorem instances_of_get {x : Instance F} (h : s.get itf = some (x, t)) :
    t.instances itf = some x := by
  rcases get_eq_some h with ⟨hlive, rfl⟩ | ⟨-, hx, rfl, -⟩
  · exact hlive
  · rw [hx]
    exact Function.update_self ..

/-! ### What the current factory depends on -/

/-- The operations of a history that set the factories of the interface. -/
def relevant (itf : String) (past : List (Op F)) : List (Op F) := past.filter (·.sets itf)

/-- An operation that does not set the factories of the interface leaves them alone. -/
theorem history_of_not_sets (past : List (Op F)) (h : op.sets itf = false) :
    registeredOf (op :: past) itf = registeredOf past itf ∧
    mockOf (op :: past) itf = mockOf past itf ∧
    chosen (op :: past) itf = chosen past itf := by
  cases op with
  | objectRegistration itf' factory =>
      exact ⟨Function.update_of_ne (Ne.symm (of_decide_eq_false h)) _ _, rfl, rfl⟩
  | mockObjectRegistration itf' factory =>
      exact ⟨rfl, Function.update_of_ne (Ne.symm (of_decide_eq_false h)) _ _, rfl⟩
  | get itf' => exact ⟨rfl, rfl, rfl⟩
  | replace itf' factory =>
      exact ⟨rfl, rfl, Function.update_of_ne (Ne.symm (of_decide_eq_false h)) _ _⟩
  | mock itf' =>
      exact ⟨rfl, rfl, Function.update_of_ne (Ne.symm (of_decide_eq_false h)) _ _⟩
  | reset => cases h

/-- One that does sets them to what depends on them alone. -/
theorem history_of_sets {past' : List (Op F)} (h : op.sets itf = true)
    (hreg : registeredOf past itf = registeredOf past' itf)
    (hmock : mockOf past itf = mockOf past' itf) (hchosen : chosen past itf = chosen past' itf) :
    registeredOf (op :: past) itf = registeredOf (op :: past') itf ∧
    mockOf (op :: past) itf = mockOf (op :: past') itf ∧
    chosen (op :: past) itf = chosen (op :: past') itf := by
  cases op with
  | objectRegistration itf' factory =>
      obtain rfl := of_decide_eq_true h
      refine ⟨?_, hmock, hchosen⟩
      rw [registeredOf, registeredOf, Function.update_self, Function.update_self]
  | mockObjectRegistration itf' factory =>
      obtain rfl := of_decide_eq_true h
      refine ⟨hreg, ?_, hchosen⟩
      rw [mockOf, mockOf, Function.update_self, Function.update_self]
  | get itf' => cases h
  | replace itf' factory =>
      obtain rfl := of_decide_eq_true h
      refine ⟨hreg, hmock, ?_⟩
      rw [chosen, chosen, Function.update_self, Function.update_self]
  | mock itf' =>
      obtain rfl := of_decide_eq_true h
      refine ⟨hreg, hmock, ?_⟩
      rw [chosen, chosen, Function.update_self, Function.update_self, hmock, hchosen]
  | reset => exact ⟨hreg, hmock, rfl⟩

theorem history_relevant (itf : String) (past : List (Op F)) :
    registeredOf past itf = registeredOf (relevant itf past) itf ∧
    mockOf past itf = mockOf (relevant itf past) itf ∧
    chosen past itf = chosen (relevant itf past) itf := by
  induction past with
  | nil => exact ⟨rfl, rfl, rfl⟩
  | cons op past ih =>
      obtain ⟨hreg, hmock, hchosen⟩ := ih
      cases hop : op.sets itf with
      | false =>
          rw [relevant, List.filter_cons_of_neg (Bool.eq_false_iff.1 hop)]
          obtain ⟨hreg', hmock', hchosen'⟩ := history_of_not_sets past hop
          exact ⟨hreg'.trans hreg, hmock'.trans hmock, hchosen'.trans hchosen⟩
      | true =>
          rw [relevant, List.filter_cons_of_pos hop]
          exact history_of_sets hop hreg hmock hchosen

/-- Neither when instances were made nor what was done to other interfaces makes a difference. -/
theorem current_of_relevant {past' : List (Op F)} (h : relevant itf past' = relevant itf past) :
    current past' itf = current past itf := by
  rw [current, current, (history_relevant itf past').1, (history_relevant itf past').2.2, h,
    ← (history_relevant itf past).1, ← (history_relevant itf past).2.2]

/-! ### Other interfaces -/

/-- What a registry holds for an interface. -/
structure SameAt (itf : String) (s t : Registry F) : Prop where
  registrations : t.registrations itf = s.registrations itf
  replacements : t.replacements itf = s.replacements itf
  instances : t.instances itf = s.instances itf
  made : t.made itf = s.made itf

theorem instantiate_sameAt {itf' : String} {factory : F} (hne : itf' ≠ itf) :
    SameAt itf s (s.instantiate itf' factory) :=
  ⟨rfl, rfl, Function.update_of_ne hne.symm _ _, Function.update_of_ne hne.symm _ _⟩

theorem replace_sameAt {itf' : String} {factory : F} (hne : itf' ≠ itf)
    (h : s.replace itf' factory = some t) : SameAt itf s t := by
  rcases (replace_eq_some h).2 with ⟨-, rfl⟩ | ⟨-, rfl⟩
  · exact instantiate_sameAt hne
  · exact ⟨rfl, Function.update_of_ne hne.symm _ _, rfl, rfl⟩

theorem step_sameAt (hop : ¬ op.On itf) (h : s.step op = some t) : SameAt itf s t := by
  cases op with
  | objectRegistration itf' factory =>
      obtain ⟨-, rfl⟩ := objectRegistration_eq_some h
      exact ⟨Function.update_of_ne (Ne.symm hop) _ _, rfl, rfl, rfl⟩
  | mockObjectRegistration itf' factory =>
      obtain ⟨-, -, rfl⟩ := mockObjectRegistration_eq_some h
      exact ⟨rfl, rfl, rfl, rfl⟩
  | get itf' =>
      obtain ⟨⟨y, t⟩, hget, rfl⟩ := Option.map_eq_some_iff.1 h
      rcases get_eq_some hget with ⟨-, rfl⟩ | ⟨-, -, rfl, -⟩
      · exact ⟨rfl, rfl, rfl, rfl⟩
      · exact instantiate_sameAt hop
  | replace itf' factory => exact replace_sameAt hop h
  | mock itf' =>
      rcases mock_eq_some h with ⟨-, rfl⟩ | ⟨factory, -, hreplace⟩
      · exact ⟨rfl, rfl, rfl, rfl⟩
      · exact replace_sameAt hop hreplace
  | reset => exact absurd trivial hop

/-- An operation on one interface does not change what a `get` of another returns. -/
theorem get_frame (hop : ¬ op.On itf) (h : s.step op = some t) :
    (t.get itf).map Prod.fst = (s.get itf).map Prod.fst := by
  obtain ⟨hreg, hrep, hlive, hmade⟩ := step_sameAt hop h
  rw [get_fst, get_fst, hreg, hrep, hlive, hmade]

/-- **What a `get` returns.**  After any history that does not abort, a `get` returns an instance
of the current factory.  Every other one returns the same instance where the interface has not been
replaced or mocked and nothing reset in between; the current factory is the same after every
history with the same registrations, replacements, mocks and resets, whenever instances were made
and whatever was done to other interfaces; and an operation on another interface changes nothing. -/
theorem get_current {x : Instance F} (h : exec past = some s) (hget : s.get itf = some (x, t)) :
    current past itf = some x.factory ∧
    (∀ later u y v, Undisturbed itf (.get itf :: past) later →
      exec (later ++ .get itf :: past) = some u → u.get itf = some (y, v) → y = x) ∧
    (∀ past' u y v, relevant itf past' = relevant itf past → exec past' = some u →
      u.get itf = some (y, v) → y.factory = x.factory) ∧
    ∀ op u, ¬ op.On itf → s.step op = some u → (u.get itf).map Prod.fst = some x := by
  have hcurrent := (refines_exec h).current_of_get hget
  refine ⟨hcurrent, fun later u y v hlater hu hy => ?_, fun past' u y v hsame hu hy => ?_,
    fun op u hop hu => ?_⟩
  · have ht : exec (.get itf :: past) = some t := by
      refine History.exec_step h ?_
      rw [step, hget]
      rfl
    have hlive := instances_of_undisturbed ht (instances_of_get hget) hlater hu
    rw [get_of_instance hlive] at hy
    cases hy
    rfl
  · have hcurrent' := (refines_exec hu).current_of_get hy
    rw [current_of_relevant hsame, hcurrent] at hcurrent'
    exact (Option.some.inj hcurrent').symm
  · rw [get_frame hop hu, hget]
    rfl

/-- A widget is registered, made, mocked over, and got again. -/
def mockedOver : List (Op Nat) :=
  [.mock "widget", .get "widget", .mockObjectRegistration "widget" 1,
    .objectRegistration "widget" 0]

theorem mockedOver_current : current mockedOver "widget" = some 1 := by
  have hrun : exec mockedOver = some _ := rfl
  exact (get_current (x := ⟨"widget", 1, 1⟩) hrun rfl).1

end DrivingSim.Registry
