import DrivingSim.Support.BitField
import DrivingSim.Hardware.PinEmulator

/-!
# Hardware — the registers of the pins

`raspi_impl` of `raspi.cpp`, over the registers of the board.  `GPFSEL` is ordinary memory: three
bits a pin, ten pins a register.  A word written to `GPSET` drives high, and one written to `GPCLR`
low, the pins whose bit is set; `GPLEV` is what the pins are at.  What `GPSET` and `GPCLR` read as
is not known, and is given with each call.

* `function_pinMode_self`, `function_pinMode_of_ne`: what is selected for a pin after a call of
  `pin_mode`.
* `level_digitalWrite`: what a pin is at after a call of `digital_write`.
-/

namespace DrivingSim

/-- The pins of the board. -/
abbrev Pin := Fin 54

namespace Pin

variable (pin : Pin)

/-- The register of `GPFSEL` with the function of the pin. -/
def selReg : Fin 6 := ⟨pin / 10, by omega⟩

def selOffset : Nat := pin % 10 * 3

/-- The register of `GPSET`, `GPCLR` and `GPLEV` with the bit of the pin. -/
def bank : Fin 2 := ⟨pin / 32, by omega⟩

def bankOffset : Nat := pin % 32

theorem selOffset_le : pin.selOffset + 3 ≤ 32 := by
  rw [selOffset]
  omega

theorem bankOffset_lt : pin.bankOffset < 32 := Nat.mod_lt _ (by omega)

variable {pin} {other : Pin}

/-- The fields of two pins in one register are apart. -/
theorem selOffset_disjoint (hne : other ≠ pin) (hreg : other.selReg = pin.selReg) :
    pin.selOffset + 3 ≤ other.selOffset ∨ other.selOffset + 3 ≤ pin.selOffset := by
  simp only [selReg, Fin.mk.injEq] at hreg
  have hval : other.val ≠ pin.val := fun h => hne (Fin.ext h)
  rw [selOffset, selOffset]
  omega

theorem bankOffset_ne (hne : other ≠ pin) (hbank : other.bank = pin.bank) :
    other.bankOffset ≠ pin.bankOffset := by
  simp only [bank, Fin.mk.injEq] at hbank
  have hval : other.val ≠ pin.val := fun h => hne (Fin.ext h)
  rw [bankOffset, bankOffset]
  omega

end Pin

namespace PinMode

/-- The number of a mode. -/
def word : PinMode → BitVec 32
  | input => 0
  | output => 1

/-- What is in the field of a pin of the mode. -/
def field (fn : PinMode) : BitVec 3 := fn.word.setWidth 3

end PinMode

structure Gpio where
  gpfsel : Fin 6 → BitVec 32
  gplev : Fin 2 → BitVec 32

namespace Gpio

/-! ### `pin_mode` -/

def writeSel (g : Gpio) (reg : Fin 6) (w : BitVec 32) : Gpio :=
  { g with gpfsel := Function.update g.gpfsel reg w }

def pinMode (g : Gpio) (pin : Pin) (fn : PinMode) : Gpio :=
  let bits := (0b111 &&& fn.word) <<< pin.selOffset
  -- clear bits
  let g := g.writeSel pin.selReg (g.gpfsel pin.selReg &&& ~~~bits)
  -- set bits
  g.writeSel pin.selReg (g.gpfsel pin.selReg ||| bits)

/-- What is selected for a pin. -/
def function (g : Gpio) (pin : Pin) : BitVec 3 :=
  (g.gpfsel pin.selReg).extractLsb' pin.selOffset 3

variable {g : Gpio} {pin other : Pin} {fn : PinMode} {value : DigitalVal} {readBack : BitVec 32}

theorem bits_eq_place : (0b111 &&& fn.word) <<< pin.selOffset =
    BitField.place pin.selOffset 3 fn.word := rfl

theorem gpfsel_pinMode (reg : Fin 6) : (g.pinMode pin fn).gpfsel reg =
    if reg = pin.selReg then
      g.gpfsel reg &&& ~~~BitField.place pin.selOffset 3 fn.word |||
        BitField.place pin.selOffset 3 fn.word
    else g.gpfsel reg := by
  rw [pinMode, bits_eq_place]
  by_cases h : reg = pin.selReg
  · subst h
    simp [writeSel]
  · simp [writeSel, h]

/-- **Only the bits that are set are cleared**, so that a mode is added to what is there. -/
theorem function_pinMode_self : (g.pinMode pin fn).function pin = g.function pin ||| fn.field := by
  rw [function, gpfsel_pinMode, if_pos rfl, BitVec.extractLsb'_or, BitVec.extractLsb'_and,
    BitField.extract_not pin.selOffset_le, BitField.extract_place pin.selOffset_le]
  ext i hi
  simp [function, PinMode.field]
  cases fn.word.getLsbD i <;> simp

theorem function_pinMode_of_ne (h : other ≠ pin) :
    (g.pinMode pin fn).function other = g.function other := by
  rw [function, gpfsel_pinMode]
  by_cases hreg : other.selReg = pin.selReg
  · rw [if_pos hreg, BitVec.extractLsb'_or, BitVec.extractLsb'_and,
      BitField.extract_not other.selOffset_le,
      BitField.extract_place_of_disjoint (Pin.selOffset_disjoint h hreg) other.selOffset_le,
      BitVec.not_zero, BitVec.and_allOnes, BitVec.or_zero, function]
  · rw [if_neg hreg, function]

/-! ### `digital_write` and `digital_read` -/

/-- What the hardware does with a word that is written to `GPSET`. -/
def writeSet (g : Gpio) (reg : Fin 2) (w : BitVec 32) : Gpio :=
  { g with gplev := Function.update g.gplev reg (g.gplev reg ||| w) }

/-- And with one that is written to `GPCLR`. -/
def writeClr (g : Gpio) (reg : Fin 2) (w : BitVec 32) : Gpio :=
  { g with gplev := Function.update g.gplev reg (g.gplev reg &&& ~~~w) }

@[simp] theorem gplev_writeSet (reg reg' : Fin 2) (w : BitVec 32) :
    (g.writeSet reg w).gplev reg' = if reg' = reg then g.gplev reg ||| w else g.gplev reg' :=
  Function.update_apply _ _ _ _

@[simp] theorem gplev_writeClr (reg reg' : Fin 2) (w : BitVec 32) :
    (g.writeClr reg w).gplev reg' = if reg' = reg then g.gplev reg &&& ~~~w else g.gplev reg' :=
  Function.update_apply _ _ _ _

/-- `readBack` is what `GPSET`, or `GPCLR`, reads as during the call. -/
def digitalWrite (g : Gpio) (pin : Pin) (value : DigitalVal) (readBack : BitVec 32) : Gpio :=
  match value with
  | .high => g.writeSet pin.bank (readBack ||| 0x1#32 <<< pin.bankOffset)
  | .low => g.writeClr pin.bank (readBack ||| 0x1#32 <<< pin.bankOffset)

def digitalRead (g : Gpio) (pin : Pin) : DigitalVal :=
  if (g.gplev pin.bank >>> pin.bankOffset) &&& 0x1 = 1 then .high else .low

/-- What a pin is at. -/
def level (g : Gpio) (pin : Pin) : DigitalVal :=
  if (g.gplev pin.bank).getLsbD pin.bankOffset then .high else .low

theorem digitalRead_eq : g.digitalRead pin = g.level pin := by
  have hbit : (g.gplev pin.bank >>> pin.bankOffset) &&& 0x1#32 = 1#32 ↔
      (g.gplev pin.bank).getLsbD pin.bankOffset = true := by
    rw [BitVec.and_one_eq_setWidth_ofBool_getLsbD, BitVec.getLsbD_ushiftRight, Nat.add_zero]
    cases (g.gplev pin.bank).getLsbD pin.bankOffset <;> simp
  rw [digitalRead, level]
  exact if_congr hbit rfl rfl

/-- The pins that a call of `digital_write` drives: the one it is for, and those whose bit is in
the word that is read back. -/
def Driven (pin : Pin) (readBack : BitVec 32) (other : Pin) : Prop :=
  other = pin ∨ other.bank = pin.bank ∧ readBack.getLsbD other.bankOffset = true

instance : Decidable (Driven pin readBack other) := inferInstanceAs (Decidable (_ ∨ _))

theorem getLsbD_written (h : other.bank = pin.bank) :
    (readBack ||| 0x1#32 <<< pin.bankOffset).getLsbD other.bankOffset =
      decide (Driven pin readBack other) := by
  rw [BitVec.getLsbD_or, ← BitVec.twoPow_eq, BitVec.getLsbD_twoPow]
  by_cases hpin : other = pin
  · subst hpin
    simp [Driven, other.bankOffset_lt]
  · simp [Driven, hpin, h, (Pin.bankOffset_ne hpin h).symm]

/-- **A call of `digital_write`** brings the pins it drives to its value. -/
theorem level_digitalWrite : (g.digitalWrite pin value readBack).level other =
    if Driven pin readBack other then value else g.level other := by
  by_cases hbank : other.bank = pin.bank
  · have hbit := @getLsbD_written pin other readBack hbank
    cases value with
    | high =>
        rw [level, digitalWrite, gplev_writeSet, if_pos hbank, BitVec.getLsbD_or, hbit]
        by_cases hd : Driven pin readBack other <;> simp [hd, level, hbank]
    | low =>
        rw [level, digitalWrite, gplev_writeClr, if_pos hbank, BitVec.getLsbD_and,
          BitVec.getLsbD_not, hbit]
        by_cases hd : Driven pin readBack other <;> simp [hd, level, hbank, other.bankOffset_lt]
  · have hd : ¬ Driven pin readBack other := by
      rintro (rfl | ⟨h, -⟩)
      · exact hbank rfl
      · exact hbank h
    cases value with
    | high => simp [level, digitalWrite, hbank, hd]
    | low => simp [level, digitalWrite, hbank, hd]

end Gpio

end DrivingSim
