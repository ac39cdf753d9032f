import DrivingSim.Objects.Current

/-!
# Objects — which instance it is does not matter

An instance is known by how many have been made for its interface before it.  The registry never
looks at that number: where all numbers are greater by as much, every operation does the same, and
the numbers stay greater by as much (`get_renumber`, `replace_renumber`, `mock_renumber`).

After a `reset` nothing is left of what has been done since the registrations but the numbers
(`reset_eq_renumber`).
-/

namespace DrivingSim

variable {F : Type}

def Instance.renumber (b : String → Nat) (x : Instance F) : Instance F :=
  { x with number := b x.itf + x.number }

namespace Registry

/-- The registry, had `b` instances been made for each interface before. -/
def renumber (b : String → Nat) (s : Registry F) : Registry F :=
  { s with
    instances := fun itf => (s.instances itf).map (Instance.renumber b)
    made := fun itf => b itf + s.made itf }

/-- No instance has been made, and nothing replaced. -/
structure Untouched (s : Registry F) : Prop where
  instances : s.instances = fun _ => none
  replacements : s.replacements = fun _ => none
  made : s.made = fun _ => 0

variable {s t : Registry F} {itf : String} {factory : F} (b : String → Nat)

theorem renumber_zero : s.renumber (fun _ => 0) = s := by
  have hinstance : Instance.renumber (F := F) (fun _ => 0) = id := by
    funext x
    rw [Instance.renumber, Nat.zero_add, id]
  simp [renumber, hinstance]

/-- How many instances there were before. -/
theorem Untouched.made_renumber (h : s.Untouched) : (s.renumber b).made = b := by
  funext itf
  rw [renumber, h.made]
  rfl

/-! ### The operations -/

theorem instantiate_renumber :
    (s.renumber b).instantiate itf factory = (s.instantiate itf factory).renumber b := by
  rw [instantiate, instantiate, renumber, renumber, Registry.mk.injEq]
  refine ⟨rfl, rfl, rfl, ?_, ?_⟩
  · funext itf'
    dsimp only
    rcases eq_or_ne itf' itf with rfl | hne
    · rw [Function.update_self, Function.update_self]
      rfl
    · rw [Function.update_of_ne hne, Function.update_of_ne hne]
  · funext itf'
    dsimp only
    rcases eq_or_ne itf' itf with rfl | hne
    · rw [Function.update_self, Function.update_self, Nat.add_assoc]
    · rw [Function.update_of_ne hne, Function.update_of_ne hne]

theorem getInstance_renumber : (s.renumber b).getInstance itf =
    ((s.getInstance itf).1.map (Instance.renumber b), (s.getInstance itf).2.renumber b) := by
  have hinstances : (s.renumber b).instances itf =
      (s.instances itf).map (Instance.renumber b) := rfl
  have hreplacements : (s.renumber b).replacements = s.replacements := rfl
  have hregistrations : (s.renumber b).registrations = s.registrations := rfl
  rw [getInstance, getInstance, hinstances, hreplacements, hregistrations]
  cases hlive : s.instances itf with
  | some x => rfl
  | none =>
      cases hrep : s.replacements itf with
      | some factory =>
          simp only [Option.map_none, instantiate_renumber]
          rfl
      | none =>
          cases hreg : s.registrations itf with
          | some factory =>
              simp only [Option.map_none, instantiate_renumber]
              rfl
          | none => rfl

theorem get_renumber : (s.renumber b).get itf =
    (s.get itf).map fun r => (r.1.renumber b, r.2.renumber b) := by
  rw [get, get, getInstance_renumber]
  rcases s.getInstance itf with ⟨_ | x, t⟩
  · rfl
  · rfl

theorem replace_renumber :
    (s.renumber b).replace itf factory = (s.replace itf factory).map (renumber b) := by
  have hregistrations : (s.renumber b).registrations = s.registrations := rfl
  have hlive : ((s.renumber b).instances itf).isSome = (s.instances itf).isSome :=
    Option.isSome_map
  rw [replace, replace, hregistrations, hlive, instantiate_renumber]
  split_ifs
  · rfl
  · rfl
  · rfl

theorem mock_renumber : (s.renumber b).mock itf = (s.mock itf).map (renumber b) := by
  have hmocks : (s.renumber b).mocks = s.mocks := rfl
  rw [mock, mock, hmocks]
  cases s.mocks itf with
  | none => rfl
  | some factory => exact replace_renumber b

theorem reset_renumber : (s.renumber b).reset = s.reset.renumber b := rfl

/-! ### What the operations leave -/

/-- What was registered is the same. -/
structure SameRegistered (s t : Registry F) : Prop where
  registrations : t.registrations = s.registrations
  mocks : t.mocks = s.mocks

theorem SameRegistered.trans {u : Registry F} (h : SameRegistered s t) (h' : SameRegistered t u) :
    SameRegistered s u :=
  ⟨h'.registrations.trans h.registrations, h'.mocks.trans h.mocks⟩

theorem sameRegistered_get {x : Instance F} (h : s.get itf = some (x, t)) :
    SameRegistered s t := by
  rcases get_eq_some h with ⟨-, rfl⟩ | ⟨-, -, rfl, -⟩
  · exact ⟨rfl, rfl⟩
  · exact ⟨rfl, rfl⟩

theorem sameRegistered_replace (h : s.replace itf factory = some t) : SameRegistered s t := by
  rcases (replace_eq_some h).2 with ⟨-, rfl⟩ | ⟨-, rfl⟩
  · exact ⟨rfl, rfl⟩
  · exact ⟨rfl, rfl⟩

theorem sameRegistered_mock (h : s.mock itf = some t) : SameRegistered s t := by
  rcases mock_eq_some h with ⟨-, rfl⟩ | ⟨factory, -, hreplace⟩
  · exact ⟨rfl, rfl⟩
  · exact sameRegistered_replace hreplace

/-- **A `reset` takes the registry back** to where the registrations have left it, but for the
numbers. -/
theorem reset_eq_renumber (hs : s.Untouched) (h : SameRegistered s t) :
    t.reset = s.renumber t.made := by
  rw [reset, renumber, Registry.mk.injEq]
  refine ⟨h.registrations, hs.replacements.symm, h.mocks, ?_, ?_⟩
  · rw [hs.instances]
    rfl
  · rw [hs.made]
    rfl

end Registry

end DrivingSim
