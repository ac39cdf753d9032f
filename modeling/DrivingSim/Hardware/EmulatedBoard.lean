import DrivingSim.Hardware.Gpio
import DrivingSim.Hardware.PinModes

/-!
# Hardware — the emulator and the board

The same program on `mock_raspi` and on `raspi_impl`.  A history of the program and of the devices
at its pins is one of the emulator (`Call.toPins`), and one of the registers (`board`).  Of a
device that is connected for input the board knows the level that it drives its pin to, where the
pin is an input.

A history that does not abort on the emulator does the same on the board as long as no pin is made
an input after it has been an output, and nothing is read back from `GPSET` and `GPCLR` but the
bits of pins that are at the level being written (`emulated_on_board`).
-/

namespace DrivingSim

/-- The number of a pin. -/
def Pin.number (pin : Pin) : Int := (pin.val : Int)

theorem Pin.number_injective : Function.Injective Pin.number := by
  intro pin pin' h
  exact Fin.ext (Int.ofNat.inj h)

namespace Gpio

variable {g : Gpio} {pin other : Pin} {value : DigitalVal} {readBack : BitVec 32}

/-- A device at an input brings it to a level, as a write with nothing read back would; at an
output it can do nothing. -/
def drive (g : Gpio) (pin : Pin) (value : DigitalVal) : Gpio :=
  if g.function pin = PinMode.input.field then g.digitalWrite pin value 0 else g

theorem function_digitalWrite :
    (g.digitalWrite pin value readBack).function other = g.function other := by
  cases value with
  | high => rfl
  | low => rfl

theorem level_pinMode {fn : PinMode} : (g.pinMode pin fn).level other = g.level other := rfl

theorem level_digitalWrite_zero :
    (g.digitalWrite pin value 0).level other = if other = pin then value else g.level other := by
  rw [level_digitalWrite]
  refine if_congr ?_ rfl rfl
  simp [Driven]

end Gpio

namespace Emulated

/-- A call of the program, or what a device at a pin does. -/
inductive Call (Dev : Type) where
  | pinMode (pin : Pin) (mode : PinMode)
  /-- `readBack` is what `GPSET`, or `GPCLR`, reads as on the board. -/
  | digitalWrite (pin : Pin) (value : DigitalVal) (readBack : BitVec 32)
  | digitalRead (pin : Pin)
  | connectOutput (pin : Pin) (dev : Dev)
  | connectInput (pin : Pin)
  /-- The device writes through its handle. -/
  | drive (pin : Pin) (value : DigitalVal)

variable {Dev : Type}

def Call.toPins : Call Dev → PinEmulator.Op Dev
  | .pinMode pin mode => .pinMode pin.number mode
  | .digitalWrite pin value _ => .digitalWrite pin.number value
  | .digitalRead pin => .digitalRead pin.number
  | .connectOutput pin dev => .connectOutput pin.number dev
  | .connectInput pin => .connectInput pin.number
  | .drive pin value => .writeHandle ⟨pin.number⟩ value

/-- The registers after a call. -/
def onBoard (g : Gpio) : Call Dev → Gpio
  | .pinMode pin mode => g.pinMode pin mode
  | .digitalWrite pin value readBack => g.digitalWrite pin value readBack
  | .drive pin value => g.drive pin value
  | _ => g

def board (g : Gpio) (past : List (Call Dev)) : Gpio :=
  past.foldr (fun call g => onBoard g call) g

/-! ### The history -/

/-- The call makes the pin an output. -/
def Call.makesOutput (pin : Pin) : Call Dev → Bool
  | .pinMode pin' .output => pin' = pin
  | _ => false

/-- The pin has been made an output. -/
def hasBeenOutput (past : List (Call Dev)) (pin : Pin) : Bool := past.any (Call.makesOutput pin)

/-- The levels of the pins: what has been written to an output last, and what the device at a pin
that has been none has brought it to. -/
def line : List (Call Dev) → Pin → DigitalVal
  | [] => fun _ => .low
  | .digitalWrite pin value _ :: past => Function.update (line past) pin value
  | .drive pin value :: past =>
    if hasBeenOutput past pin then line past else Function.update (line past) pin value
  | _ :: past => line past

/-- No pin that has been an output is made an input, and what is read back has the bits of no pins
but its own and those that are at the level that is written. -/
def Portable : List (Call Dev) → Prop
  | [] => True
  | .pinMode pin .input :: past => hasBeenOutput past pin = false ∧ Portable past
  | .digitalWrite pin value readBack :: past =>
    (∀ other, other ≠ pin → other.bank = pin.bank →
      readBack.getLsbD other.bankOffset = true → line past other = value) ∧ Portable past
  | _ :: past => Portable past

/-- The pins are inputs, and low. -/
structure AtReset (g : Gpio) : Prop where
  function : ∀ pin, g.function pin = PinMode.input.field
  level : ∀ pin, g.level pin = .low

/-! ### The board -/

/-- The registers after a history. -/
structure Tells (past : List (Call Dev)) (g : Gpio) : Prop where
  function : ∀ pin, g.function pin =
    if hasBeenOutput past pin then PinMode.output.field else PinMode.input.field
  level : ∀ pin, g.level pin = line past pin

variable {past : List (Call Dev)} {g : Gpio} {pin : Pin} {value : DigitalVal}
  {readBack : BitVec 32}

theorem hasBeenOutput_cons (call : Call Dev) :
    hasBeenOutput (call :: past) pin = (call.makesOutput pin || hasBeenOutput past pin) := rfl

theorem Tells.pinMode (h : Tells past g) {mode : PinMode}
    (hmode : mode = .input → hasBeenOutput past pin = false) :
    Tells (.pinMode pin mode :: past) (g.pinMode pin mode) := by
  refine ⟨fun other => ?_, fun other => Gpio.level_pinMode.trans (h.level other)⟩
  rw [hasBeenOutput_cons]
  rcases eq_or_ne other pin with rfl | hne
  · rw [Gpio.function_pinMode_self, h.function]
    cases mode with
    | input =>
        rw [hmode rfl]
        rfl
    | output =>
        have hmade : (Call.pinMode other .output : Call Dev).makesOutput other = true :=
          decide_eq_true rfl
        rw [hmade, Bool.true_or, if_pos rfl]
        split_ifs
        · rfl
        · rfl
  · have hother : (Call.pinMode pin mode : Call Dev).makesOutput other = false := by
      cases mode with
      | input => rfl
      | output => exact decide_eq_false hne.symm
    rw [hother, Bool.false_or, Gpio.function_pinMode_of_ne hne, h.function]

theorem Tells.digitalWrite (h : Tells past g)
    (hback : ∀ other, other ≠ pin → other.bank = pin.bank →
      readBack.getLsbD other.bankOffset = true → line past other = value) :
    Tells (.digitalWrite pin value readBack :: past) (g.digitalWrite pin value readBack) := by
  refine ⟨fun other => Gpio.function_digitalWrite.trans (h.function other), fun other => ?_⟩
  rw [Gpio.level_digitalWrite, line]
  rcases eq_or_ne other pin with rfl | hne
  · rw [if_pos (.inl rfl), Function.update_self]
  · rw [Function.update_of_ne hne]
    split_ifs with hdriven
    · obtain ⟨hbank, hbit⟩ := hdriven.resolve_left hne
      exact (hback other hne hbank hbit).symm
    · exact h.level other

theorem Tells.drive (h : Tells past g) :
    Tells (.drive pin value :: past) (g.drive pin value) := by
  have hfunction := h.function pin
  rw [Gpio.drive]
  cases hout : hasBeenOutput past pin with
  | true =>
      rw [hout, if_pos rfl] at hfunction
      have hne : g.function pin ≠ PinMode.input.field := by
        rw [hfunction]
        simp [PinMode.field, PinMode.word]
      rw [if_neg hne]
      refine ⟨h.function, fun other => ?_⟩
      rw [line, hout, if_pos rfl]
      exact h.level other
  | false =>
      rw [hout, if_neg Bool.false_ne_true] at hfunction
      rw [if_pos hfunction]
      refine ⟨fun other => Gpio.function_digitalWrite.trans (h.function other), fun other => ?_⟩
      rw [Gpio.level_digitalWrite_zero, line, hout, if_neg Bool.false_ne_true]
      rcases eq_or_ne other pin with rfl | hne
      · rw [if_pos rfl, Function.update_self]
      · rw [if_neg hne, Function.update_of_ne hne]
        exact h.level other

theorem tells_board (hg : AtReset g) (h : Portable past) : Tells past (board g past) := by
  induction past with
  | nil => exact ⟨hg.function, hg.level⟩
  | cons call past ih =>
      cases call with
      | pinMode pin mode =>
          cases mode with
          | input => exact (ih h.2).pinMode fun _ => h.1
          | output => exact (ih h).pinMode fun hmode => (nomatch hmode)
      | digitalWrite pin value readBack => exact (ih h.2).digitalWrite h.1
      | drive pin value => exact (ih h).drive
      | digitalRead pin => exact ⟨(ih h).function, (ih h).level⟩
      | connectOutput pin dev => exact ⟨(ih h).function, (ih h).level⟩
      | connectInput pin => exact ⟨(ih h).function, (ih h).level⟩

/-! ### The emulator -/

section Emulator

variable {past later earlier : List (Call Dev)} {pin : Pin}

/-- A pin whose mode is output has been made one, and one whose mode is input has not. -/
theorem hasBeenOutput_of_modes (h : Portable past) {mode : PinMode}
    (hmode : PinEmulator.modes (past.map Call.toPins) pin.number = some mode) :
    hasBeenOutput past pin = decide (mode = .output) := by
  induction past with
  | nil => cases hmode
  | cons call past ih =>
      rw [hasBeenOutput_cons]
      cases call with
      | pinMode pin' mode' =>
          rw [List.map_cons, PinEmulator.modes, Call.toPins, PinEmulator.modesAfter] at hmode
          rcases eq_or_ne pin pin' with rfl | hne
          · rw [Function.update_self] at hmode
            obtain rfl := Option.some.inj hmode
            cases mode' with
            | input => exact h.1
            | output => simp [Call.makesOutput]
          · rw [Function.update_of_ne (fun e => hne (Pin.number_injective e))] at hmode
            cases mode' with
            | input => exact ih h.2 hmode
            | output =>
                rw [Call.makesOutput, decide_eq_false hne.symm, Bool.false_or]
                exact ih h hmode
      | digitalWrite pin' value readBack => exact ih h.2 hmode
      | drive pin' value => exact ih h hmode
      | digitalRead pin' => exact ih h hmode
      | connectOutput pin' dev => exact ih h hmode
      | connectInput pin' => exact ih h hmode

variable [DecidableEq Dev] {s : PinEmulator Dev}

/-- Only an output is written. -/
theorem hasBeenOutput_of_digitalWrite (hp : Portable past) {value : DigitalVal}
    {readBack : BitVec 32}
    (h : PinEmulator.exec ((Call.digitalWrite pin value readBack :: past).map Call.toPins) =
      some s) : hasBeenOutput past pin = true := by
  obtain ⟨t, ht, hstep⟩ := History.exec_cons h
  have hwrite : (t.digitalWrite pin.number value).isSome = true := by
    rw [show t.digitalWrite pin.number value = some s from hstep]
    rfl
  exact hasBeenOutput_of_modes hp ((PinEmulator.isSome_digitalWrite ht).1 hwrite)

/-- What a device has written to a pin that has been no output is its level. -/
theorem lastWritten_eq_line (hp : Portable past)
    (h : PinEmulator.exec (past.map Call.toPins) = some s)
    (hin : hasBeenOutput past pin = false) :
    PinEmulator.lastWritten pin.number (past.map Call.toPins) = line past pin := by
  induction past generalizing s with
  | nil => rfl
  | cons call past ih =>
      obtain ⟨t, ht, -⟩ := History.exec_cons h
      have hpast : hasBeenOutput past pin = false := (Bool.or_eq_false_iff.1 hin).2
      cases call with
      | pinMode pin' mode =>
          cases mode with
          | input => exact ih hp.2 ht hpast
          | output => exact ih hp ht hpast
      | digitalRead pin' => exact ih hp ht hpast
      | connectOutput pin' dev => exact ih hp ht hpast
      | connectInput pin' => exact ih hp ht hpast
      | digitalWrite pin' value readBack =>
          have hne : pin ≠ pin' := by
            rintro rfl
            rw [hasBeenOutput_of_digitalWrite hp.2 h] at hpast
            cases hpast
          rw [line, Function.update_of_ne hne]
          exact ih hp.2 ht hpast
      | drive pin' value =>
          rw [List.map_cons, Call.toPins, PinEmulator.lastWritten, line, ih hp ht hpast]
          rcases eq_or_ne pin pin' with rfl | hne
          · rw [if_pos rfl, if_neg (hpast ▸ Bool.false_ne_true), Function.update_self]
          · rw [if_neg fun e => hne (Pin.number_injective e).symm]
            split_ifs
            · rfl
            · rw [Function.update_of_ne hne]

/-- What has been written to an output last is its level, whatever a device does there. -/
theorem written_line (hp : Portable (later ++ earlier))
    (h : PinEmulator.exec ((later ++ earlier).map Call.toPins) = some s) {value : DigitalVal}
    (hlast : (PinEmulator.written pin.number (later.map Call.toPins)).getLast? = some value) :
    hasBeenOutput (later ++ earlier) pin = true ∧ line (later ++ earlier) pin = value := by
  induction later generalizing s with
  | nil => cases hlast
  | cons call later ih =>
      obtain ⟨t, ht, -⟩ := History.exec_cons h
      rw [List.cons_append, hasBeenOutput_cons]
      cases call with
      | pinMode pin' mode =>
          have hp' : Portable (later ++ earlier) := by
            cases mode with
            | input => exact hp.2
            | output => exact hp
          obtain ⟨hout, hline⟩ := ih hp' ht hlast
          exact ⟨by rw [hout, Bool.or_true], hline⟩
      | digitalRead pin' => exact ih hp ht hlast
      | connectOutput pin' dev => exact ih hp ht hlast
      | connectInput pin' => exact ih hp ht hlast
      | drive pin' v =>
          obtain ⟨hout, hline⟩ := ih hp ht hlast
          refine ⟨hout, ?_⟩
          rw [line]
          rcases eq_or_ne pin pin' with rfl | hne
          · rw [hout, if_pos rfl]
            exact hline
          · split_ifs
            · exact hline
            · rw [Function.update_of_ne hne]
              exact hline
      | digitalWrite pin' v readBack =>
          rw [List.map_cons, Call.toPins, PinEmulator.written] at hlast
          rw [line]
          rcases eq_or_ne pin pin' with rfl | hne
          · rw [if_pos rfl, List.getLast?_concat] at hlast
            have hout : hasBeenOutput (later ++ earlier) pin = true :=
              hasBeenOutput_of_digitalWrite hp.2 h
            rw [hout, Function.update_self]
            exact ⟨rfl, Option.some.inj hlast⟩
          · rw [if_neg fun e => hne (Pin.number_injective e).symm] at hlast
            rw [Function.update_of_ne hne]
            exact ih hp.2 ht hlast

/-- **What works on the emulator works on the board.**  After every portable history that does not
abort on the emulator, from a board at reset: each pin has the mode that the emulator has for it;
a read that does not abort on the emulator returns the same on the board; and a device that is
connected for output, to one pin, has received last what that pin is at on the board. -/
theorem emulated_on_board {g : Gpio} (hg : AtReset g) (hp : Portable past)
    (h : PinEmulator.exec (past.map Call.toPins) = some s) :
    (∀ pin mode, s.pinModes (Pin.number pin) = some mode →
      (board g past).function pin = mode.field) ∧
    (∀ pin value, s.digitalRead (Pin.number pin) = some value →
      (board g past).digitalRead pin = value) ∧
    ∀ pin dev later earlier value, past = later ++ .connectOutput pin dev :: earlier →
      (∀ pin', s.outputs pin' = some dev → pin' = pin.number) →
      (s.received dev).getLast? = some value → (board g past).level pin = value := by
  have htells := tells_board hg hp
  have hmodes := PinEmulator.pinModes_exec h
  refine ⟨fun pin mode hmode => ?_, fun pin value hread => ?_, ?_⟩
  · rw [hmodes] at hmode
    rw [htells.function, hasBeenOutput_of_modes hp hmode]
    cases mode <;> rfl
  · rw [PinEmulator.digitalRead_eq h] at hread
    split_ifs at hread with hmode
    obtain rfl := Option.some.inj hread
    have hin : hasBeenOutput past pin = false := hasBeenOutput_of_modes hp hmode
    rw [Gpio.digitalRead_eq, htells.level, lastWritten_eq_line hp h hin]
  · rintro pin dev later earlier value rfl halone hlast
    have hexec := h
    rw [List.map_append, List.map_cons] at hexec
    rw [PinEmulator.received_of_attached hexec halone] at hlast
    rw [htells.level]
    exact (written_line hp h hlast).2

end Emulator

/-- A sensor that is triggered, and a motor that is sent a pulse. -/
def sensorAndMotor : List (Call Unit) :=
  [.digitalWrite 18 .high 0, .drive 0 .high, .connectInput 0, .connectOutput 18 (),
    .pinMode 18 .output, .pinMode 0 .input]

theorem sensorAndMotor_portable : Portable sensorAndMotor := by
  refine ⟨fun other _ _ hbit => ?_, rfl, trivial⟩
  simp at hbit

theorem zero_atReset : AtReset ⟨fun _ => 0, fun _ => 0⟩ where
  function pin := by simp [Gpio.function, PinMode.field, PinMode.word]
  level pin := by simp [Gpio.level]

theorem sensorAndMotor_on_board :
    (board ⟨fun _ => 0, fun _ => 0⟩ sensorAndMotor).digitalRead 0 = .high ∧
      (board ⟨fun _ => 0, fun _ => 0⟩ sensorAndMotor).level 18 = .high := by
  have hexec : PinEmulator.exec (sensorAndMotor.map Call.toPins) = some _ := rfl
  obtain ⟨-, hread, hlevel⟩ := emulated_on_board zero_atReset sensorAndMotor_portable hexec
  refine ⟨hread 0 .high rfl, hlevel 18 () [.digitalWrite 18 .high 0, .drive 0 .high,
    .connectInput 0] [.pinMode 18 .output, .pinMode 0 .input] .high rfl (fun pin' hpin' => ?_) rfl⟩
  by_contra hne
  have hnone : Function.update (fun _ => none) (Pin.number 18) (some ()) pin' = some () := hpin'
  rw [Function.update_of_ne hne] at hnone
  cases hnone

end Emulated

end DrivingSim
