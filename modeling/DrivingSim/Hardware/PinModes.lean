import DrivingSim.Hardware.IndependentPins

/-!
# Hardware — the modes of the emulated pins

The emulator aborts where a pin is read that has not been configured for input last, and where one
is written that has not been configured for output last, and nowhere else in a read or a write
(`digitalRead_eq`, `isSome_digitalWrite`).  No other operation than `pin_mode` changes a mode.
-/

namespace DrivingSim

deriving instance DecidableEq for PinMode

namespace PinEmulator

variable {Dev : Type} [DecidableEq Dev]

/-- The modes of the pins after an operation. -/
def modesAfter (modes : Int → Option PinMode) : Op Dev → Int → Option PinMode
  | .pinMode pin mode => Function.update modes pin (some mode)
  | _ => modes

/-- The modes that the pins have been given last. -/
def modes : List (Op Dev) → Int → Option PinMode
  | [] => fun _ => none
  | op :: past => modesAfter (modes past) op

variable {past : List (Op Dev)} {s t : PinEmulator Dev} {op : Op Dev} {pin : Int}

theorem pinModes_step (h : s.step op = some t) : t.pinModes = modesAfter s.pinModes op := by
  cases op with
  | pinMode pin mode =>
      cases h
      rfl
  | connectOutput pin dev =>
      obtain ⟨-, -, rfl⟩ := connectOutput_eq_some h
      rfl
  | connectInput pin =>
      obtain ⟨-, -, rfl⟩ := connectInput_eq_some h
      rfl
  | writeHandle handle value =>
      obtain ⟨-, rfl⟩ := writeHandle_eq_some h
      rfl
  | digitalWrite pin value =>
      rcases digitalWrite_eq_some h with ⟨dev, -, rfl⟩ | ⟨-, rfl⟩
      · rfl
      · rfl
  | digitalRead pin =>
      obtain ⟨value, -, rfl⟩ := Option.map_eq_some_iff.1 h
      rfl

theorem pinModes_exec (h : exec past = some s) : s.pinModes = modes past := by
  refine History.exec_invariant (P := fun past (s : PinEmulator Dev) => s.pinModes = modes past)
    rfl (fun past op t u _ ht hstep => ?_) h
  rw [pinModes_step hstep, ht, modes]

/-- **What a read gives**, or that it aborts. -/
theorem digitalRead_eq (h : exec past = some s) : s.digitalRead pin =
    if modes past pin = some .input then some (lastWritten pin past) else none := by
  rw [← pinModes_exec h, ← (holds_exec h).reading pin, digitalRead]
  cases hmode : s.pinModes pin with
  | none => simp
  | some mode =>
      cases mode with
      | output => simp
      | input => cases hin : s.inputs pin <;> simp

/-- **Where a write does not abort.** -/
theorem isSome_digitalWrite (h : exec past = some s) {value : DigitalVal} :
    (s.digitalWrite pin value).isSome = true ↔ modes past pin = some .output := by
  rw [← pinModes_exec h, digitalWrite]
  cases hmode : s.pinModes pin with
  | none => simp
  | some mode =>
      cases mode with
      | input => simp
      | output => cases hout : s.outputs pin <;> simp

end PinEmulator

end DrivingSim
