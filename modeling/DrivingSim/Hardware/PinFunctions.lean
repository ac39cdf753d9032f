import DrivingSim.Hardware.Gpio

/-!
# Hardware — the functions of the pins

A history of calls of `pin_mode`, the last one first.  `pin_mode` clears the bits of the mode it
sets, and these are no others than it sets again: a pin that has been an output stays one, and a
function that has a bit besides stays what it is (`function_afterModes_output`,
`function_afterModes_input`).  So the pins have the modes of their last calls exactly where there
has been nothing to clear (`selects_iff`).  No call touches another pin.
-/

namespace DrivingSim.Gpio

variable {g : Gpio} {pin : Pin} {past : List (Pin × PinMode)}

/-- The registers after a history of calls of `pin_mode`. -/
def afterModes (g : Gpio) (past : List (Pin × PinMode)) : Gpio :=
  past.foldr (fun call g => g.pinMode call.1 call.2) g

/-- The pins have the modes of their last calls, and the other pins the functions they had. -/
structure Selects (g : Gpio) (past : List (Pin × PinMode)) : Prop where
  touched : ∀ pin fn, past.lookup pin = some fn → (g.afterModes past).function pin = fn.field
  untouched : ∀ pin, past.lookup pin = none → (g.afterModes past).function pin = g.function pin

/-! ### What is selected after a history -/

theorem input_or (w : BitVec 3) : w ||| PinMode.input.field = w := BitVec.or_zero

/-- A pin that no call has made an output keeps its function. -/
theorem function_afterModes_input (h : (pin, .output) ∉ past) :
    (g.afterModes past).function pin = g.function pin := by
  induction past with
  | nil => rfl
  | cons call past ih =>
      obtain ⟨other, fn⟩ := call
      have hpast := ih fun hmem => h (List.mem_cons_of_mem _ hmem)
      by_cases hpin : pin = other
      · subst hpin
        cases fn with
        | output => exact absurd List.mem_cons_self h
        | input => exact (function_pinMode_self.trans (input_or _)).trans hpast
      · exact (function_pinMode_of_ne hpin).trans hpast

/-- One that some call has made an output has the bit of an output added, once and for all. -/
theorem function_afterModes_output (h : (pin, .output) ∈ past) :
    (g.afterModes past).function pin = g.function pin ||| PinMode.output.field := by
  induction past with
  | nil => exact absurd h List.not_mem_nil
  | cons call past ih =>
      obtain ⟨other, fn⟩ := call
      by_cases hpin : pin = other
      · subst hpin
        refine function_pinMode_self.trans ?_
        change (g.afterModes past).function pin ||| fn.field = _
        by_cases hmem : (pin, .output) ∈ past
        · rw [ih hmem, BitVec.or_assoc]
          cases fn with
          | input => rw [input_or]
          | output => rw [BitVec.or_self]
        · rw [function_afterModes_input hmem]
          cases fn with
          | output => rfl
          | input => simp [hmem] at h
      · have hmem : (pin, .output) ∈ past := by simpa [hpin] using h
        exact (function_pinMode_of_ne hpin).trans (ih hmem)

/-- The bit of an output makes an output of an input, and of an output. -/
theorem or_output_iff (w : BitVec 3) :
    w ||| PinMode.output.field = PinMode.output.field ↔ ∃ fn : PinMode, w = fn.field := by
  have hbits : ∀ w : BitVec 3, w ||| 1#3 = 1#3 → w = 0#3 ∨ w = 1#3 := by decide
  constructor
  · intro h
    rcases hbits w h with rfl | rfl
    · exact ⟨.input, rfl⟩
    · exact ⟨.output, rfl⟩
  · rintro ⟨fn, rfl⟩
    cases fn <;> rfl

theorem or_output_ne (w : BitVec 3) : w ||| PinMode.output.field ≠ PinMode.input.field := by
  intro h
  exact absurd (BitVec.or_eq_zero_iff.1 h).2 (by simp [PinMode.field, PinMode.word])

/-! ### When the functions are the modes -/

/-- **When the pins have the modes that they were given.**  A pin whose last mode is an input has
been one from before the first call and throughout; one whose last mode is an output had the
function of an input or of an output before. -/
theorem selects_iff : g.Selects past ↔
    (∀ pin, past.lookup pin = some .input →
      g.function pin = PinMode.input.field ∧ (pin, .output) ∉ past) ∧
    ∀ pin, past.lookup pin = some .output → ∃ fn : PinMode, g.function pin = fn.field := by
  constructor
  · rintro ⟨htouched, -⟩
    refine ⟨fun pin hlast => ?_, fun pin hlast => ?_⟩
    · have hin := htouched pin .input hlast
      by_cases hmem : (pin, .output) ∈ past
      · rw [function_afterModes_output hmem] at hin
        exact absurd hin (or_output_ne _)
      · rw [function_afterModes_input hmem] at hin
        exact ⟨hin, hmem⟩
    · have hout := htouched pin .output hlast
      rw [function_afterModes_output (History.mem_of_lookup hlast)] at hout
      exact (or_output_iff _).1 hout
  · rintro ⟨hin, hout⟩
    refine ⟨fun pin fn hlast => ?_, fun pin hlast => ?_⟩
    · cases fn with
      | input =>
          obtain ⟨hfunction, hmem⟩ := hin pin hlast
          rw [function_afterModes_input hmem, hfunction]
      | output =>
          rw [function_afterModes_output (History.mem_of_lookup hlast)]
          exact (or_output_iff _).2 (hout pin hlast)
    · exact function_afterModes_input (History.not_mem_of_lookup hlast)

/-- A pin that is made an output and then an input: it stays an output. -/
theorem outputThenInput_stays :
    ¬ Selects ⟨fun _ => 0, fun _ => 0⟩ [(4, .input), (4, .output)] := by
  intro h
  have hin := h.touched 4 .input rfl
  rw [function_afterModes_output (by simp)] at hin
  exact or_output_ne _ hin

end DrivingSim.Gpio
