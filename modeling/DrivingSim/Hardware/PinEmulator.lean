import DrivingSim.Hardware.Oscilloscope
import DrivingSim.Support.History
import Mathlib.Logic.Function.Basic
import Mathlib.Tactic.SplitIfs

/-!
# Hardware — the emulator of the pins

`mock_raspi` of `raspi.cpp`: the mode of each pin, the value that the input device at a pin has
last written, and the output device at a pin.  An operation that calls `diag.fail` gives `none`,
as the program aborts.

An input device writes through the handle that it is given when it is connected.  An output device
is known by its identity, and what it does with a value is that it has received it.
-/

namespace DrivingSim

/-- `raspi::pin_mode_t`. -/
inductive PinMode where
  | input
  | output

/-- `input_handle_impl`. -/
structure InputHandle where
  pin : Int
  deriving DecidableEq

structure PinEmulator (Dev : Type) where
  pinModes : Int → Option PinMode
  inputs : Int → Option DigitalVal
  outputs : Int → Option Dev
  /-- The handles that input devices have been given. -/
  handles : List InputHandle
  /-- What has been written to each output device. -/
  received : Dev → List DigitalVal

namespace PinEmulator

variable {Dev : Type} [DecidableEq Dev]

def empty : PinEmulator Dev where
  pinModes := fun _ => none
  inputs := fun _ => none
  outputs := fun _ => none
  handles := []
  received := fun _ => []

variable (s : PinEmulator Dev) (pin : Int)

def connectOutput (dev : Dev) : Option (PinEmulator Dev) :=
  if (s.inputs pin).isSome ∨ (s.outputs pin).isSome then none
  -- a warning only where the pin is not configured for output
  else some { s with outputs := Function.update s.outputs pin (some dev) }

def connectInput : Option (PinEmulator Dev) :=
  if (s.inputs pin).isSome ∨ (s.outputs pin).isSome then none
  else some
    { s with
      -- pins are low until explicitly written to
      inputs := Function.update s.inputs pin (some .low)
      handles := s.handles ++ [⟨pin⟩] }

def digitalWrite (value : DigitalVal) : Option (PinEmulator Dev) :=
  match s.pinModes pin with
  | none => none
  | some .input => none
  | some .output =>
    match s.outputs pin with
    | some dev =>
      some { s with received := Function.update s.received dev (s.received dev ++ [value]) }
    | none => some s

def digitalRead : Option DigitalVal :=
  match s.pinModes pin with
  | none => none
  | some .output => none
  | some .input =>
    match s.inputs pin with
    | some reading => some reading
    | none => some .low

def pinMode (mode : PinMode) : PinEmulator Dev :=
  { s with pinModes := Function.update s.pinModes pin (some mode) }

/-- `input_handle_impl::write`, which checks nothing. -/
def writeHandle (handle : InputHandle) (value : DigitalVal) : PinEmulator Dev :=
  { s with inputs := Function.update s.inputs handle.pin (some value) }

inductive Op (Dev : Type) where
  | pinMode (pin : Int) (mode : PinMode)
  | connectOutput (pin : Int) (dev : Dev)
  | connectInput (pin : Int)
  | writeHandle (handle : InputHandle) (value : DigitalVal)
  | digitalWrite (pin : Int) (value : DigitalVal)
  | digitalRead (pin : Int)

/-- What an operation does to the emulator, unless it aborts.  Nobody has a handle that no device
has been given. -/
def step (s : PinEmulator Dev) : Op Dev → Option (PinEmulator Dev)
  | .pinMode pin mode => some (s.pinMode pin mode)
  | .connectOutput pin dev => s.connectOutput pin dev
  | .connectInput pin => s.connectInput pin
  | .writeHandle handle value =>
    if handle ∈ s.handles then some (s.writeHandle handle value) else none
  | .digitalWrite pin value => s.digitalWrite pin value
  | .digitalRead pin => (s.digitalRead pin).map fun _ => s

/-- The emulator after a history. -/
def exec (past : List (Op Dev)) : Option (PinEmulator Dev) := History.exec step empty past

/-! ### What the operations do -/

variable {s pin} {t : PinEmulator Dev} {dev : Dev} {value : DigitalVal}

omit [DecidableEq Dev] in
/-- What a device can be connected to. -/
theorem not_isSome_or (h : ¬ ((s.inputs pin).isSome ∨ (s.outputs pin).isSome)) :
    s.inputs pin = none ∧ s.outputs pin = none :=
  ⟨Option.not_isSome_iff_eq_none.1 fun hin => h (.inl hin),
    Option.not_isSome_iff_eq_none.1 fun hout => h (.inr hout)⟩

omit [DecidableEq Dev] in
theorem connectOutput_eq_some (h : s.connectOutput pin dev = some t) :
    s.inputs pin = none ∧ s.outputs pin = none ∧
      t = { s with outputs := Function.update s.outputs pin (some dev) } := by
  rw [connectOutput] at h
  split_ifs at h with hconnected
  obtain ⟨hin, hout⟩ := not_isSome_or hconnected
  exact ⟨hin, hout, (Option.some.inj h).symm⟩

omit [DecidableEq Dev] in
theorem connectInput_eq_some (h : s.connectInput pin = some t) :
    s.inputs pin = none ∧ s.outputs pin = none ∧
      t = { s with
        inputs := Function.update s.inputs pin (some .low)
        handles := s.handles ++ [⟨pin⟩] } := by
  rw [connectInput] at h
  split_ifs at h with hconnected
  obtain ⟨hin, hout⟩ := not_isSome_or hconnected
  exact ⟨hin, hout, (Option.some.inj h).symm⟩

/-- A write reaches the device of the pin, where there is one, and changes nothing else. -/
theorem digitalWrite_eq_some (h : s.digitalWrite pin value = some t) :
    (∃ dev, s.outputs pin = some dev ∧
      t = { s with received := Function.update s.received dev (s.received dev ++ [value]) }) ∨
    s.outputs pin = none ∧ t = s := by
  rw [digitalWrite] at h
  cases hmode : s.pinModes pin with
  | none =>
      rw [hmode] at h
      cases h
  | some mode =>
      cases mode with
      | input =>
          rw [hmode] at h
          cases h
      | output =>
          cases hout : s.outputs pin with
          | none =>
              rw [hmode, hout] at h
              exact .inr ⟨rfl, (Option.some.inj h).symm⟩
          | some dev =>
              rw [hmode, hout] at h
              exact .inl ⟨dev, rfl, (Option.some.inj h).symm⟩

omit [DecidableEq Dev] in
/-- A read that does not abort. -/
theorem digitalRead_eq_some (h : s.digitalRead pin = some value) :
    value = (s.inputs pin).getD .low := by
  rw [digitalRead] at h
  cases hmode : s.pinModes pin with
  | none =>
      rw [hmode] at h
      cases h
  | some mode =>
      cases mode with
      | output =>
          rw [hmode] at h
          cases h
      | input =>
          cases hin : s.inputs pin with
          | none =>
              rw [hmode, hin] at h
              exact (Option.some.inj h).symm
          | some reading =>
              rw [hmode, hin] at h
              exact (Option.some.inj h).symm

theorem writeHandle_eq_some {handle : InputHandle}
    (h : s.step (.writeHandle handle value) = some t) :
    handle ∈ s.handles ∧ t = s.writeHandle handle value := by
  rw [step] at h
  split_ifs at h with hmem
  exact ⟨hmem, (Option.some.inj h).symm⟩

end PinEmulator

end DrivingSim
