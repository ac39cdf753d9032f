import DrivingSim.Hardware.Gpio

/-!
# Hardware — the levels of the pins

A history of calls of `digital_write`, the last one first, with what `GPSET` or `GPCLR` reads as
during each.  `digital_write` writes back what it has read, with the bit of its pin: a pin whose bit
is read is driven as well.  So every pin keeps the level that it was given last exactly where each
pin whose bit is read is at the level being written already (`drives_iff`).
-/

namespace DrivingSim.Gpio

/-- A call of `digital_write`, and what the register reads as. -/
structure WriteCall where
  value : DigitalVal
  readBack : BitVec 32

variable {g : Gpio} {pin : Pin} {past : List (Pin × WriteCall)}

/-- The registers after a history of calls of `digital_write`. -/
def afterWrites (g : Gpio) (past : List (Pin × WriteCall)) : Gpio :=
  past.foldr (fun call g => g.digitalWrite call.1 call.2.value call.2.readBack) g

/-- The value that has been written to a pin last; the level before, when none has been. -/
def written (g : Gpio) (past : List (Pin × WriteCall)) (pin : Pin) : DigitalVal :=
  ((past.lookup pin).map WriteCall.value).getD (g.level pin)

/-- In every state that the history goes through, each pin is at the level that has been written to
it last, and reads so; and no call changes the level of another pin. -/
structure Drives (g : Gpio) (past : List (Pin × WriteCall)) : Prop where
  level : ∀ sofar, sofar <:+ past → ∀ pin, (g.afterWrites sofar).level pin = g.written sofar pin
  read : ∀ sofar, sofar <:+ past →
    ∀ pin, (g.afterWrites sofar).digitalRead pin = g.written sofar pin
  frame : ∀ call sofar, call :: sofar <:+ past → ∀ other, other ≠ call.1 →
    (g.afterWrites (call :: sofar)).level other = (g.afterWrites sofar).level other

/-- What a call reads back has the bits of no pins but its own, and those that are at the level it
writes. -/
def Harmless (g : Gpio) (call : Pin × WriteCall) (sofar : List (Pin × WriteCall)) : Prop :=
  ∀ other, other ≠ call.1 → other.bank = call.1.bank →
    call.2.readBack.getLsbD other.bankOffset = true → g.written sofar other = call.2.value

/-! ### One call -/

variable {call : Pin × WriteCall} {sofar : List (Pin × WriteCall)} {other : Pin}

theorem written_self : g.written (call :: sofar) call.1 = call.2.value := by
  obtain ⟨pin, call⟩ := call
  rw [written, List.lookup_cons_self]
  rfl

theorem written_of_ne (h : other ≠ call.1) :
    g.written (call :: sofar) other = g.written sofar other := by
  rw [written, written, List.lookup_cons, beq_eq_false_iff_ne.2 h]

theorem level_afterWrites_cons : (g.afterWrites (call :: sofar)).level other =
    if Driven call.1 call.2.readBack other then call.2.value
    else (g.afterWrites sofar).level other := level_digitalWrite

/-- A harmless call gives its pin the level that it writes, and leaves the others. -/
theorem level_cons_of_harmless (hcall : g.Harmless call sofar)
    (hsofar : ∀ pin, (g.afterWrites sofar).level pin = g.written sofar pin) (pin : Pin) :
    (g.afterWrites (call :: sofar)).level pin = g.written (call :: sofar) pin := by
  rw [level_afterWrites_cons]
  by_cases hpin : pin = call.1
  · rw [if_pos (.inl hpin), hpin, written_self]
  · rw [written_of_ne hpin]
    by_cases hd : Driven call.1 call.2.readBack pin
    · obtain ⟨hbank, hbit⟩ := hd.resolve_left hpin
      rw [if_pos hd, hcall pin hpin hbank hbit]
    · rw [if_neg hd, hsofar]

/-! ### A history -/

theorem level_of_harmless (h : ∀ call sofar, call :: sofar <:+ past → g.Harmless call sofar) :
    ∀ pin, (g.afterWrites past).level pin = g.written past pin := by
  induction past with
  | nil => exact fun pin => rfl
  | cons call past ih =>
      refine level_cons_of_harmless (h call past (List.suffix_refl _)) (ih fun call' sofar hs => ?_)
      exact h call' sofar (hs.trans (List.suffix_cons _ _))

theorem drives_of_harmless (h : ∀ call sofar, call :: sofar <:+ past → g.Harmless call sofar) :
    g.Drives past := by
  have hlevel : ∀ sofar, sofar <:+ past →
      ∀ pin, (g.afterWrites sofar).level pin = g.written sofar pin := fun sofar hs =>
    level_of_harmless fun call sofar' hs' => h call sofar' (hs'.trans hs)
  refine ⟨hlevel, fun sofar hs pin => ?_, fun call sofar hs other hother => ?_⟩
  · rw [digitalRead_eq, hlevel sofar hs]
  · rw [hlevel _ hs, hlevel _ ((List.suffix_cons _ _).trans hs), written_of_ne hother]

/-- A pin whose bit is read is at what is written after the call, and was at it before if the call
is not to change it. -/
theorem harmless_of_drives (h : g.Drives past) (hs : call :: sofar <:+ past) :
    g.Harmless call sofar := by
  intro other hother hbank hbit
  have hafter := h.level _ hs other
  rw [level_afterWrites_cons, if_pos (.inr ⟨hbank, hbit⟩), written_of_ne hother] at hafter
  exact hafter.symm

/-- **When the pins are at the levels that they were given.**  At every call, what is read back has
the bits of no other pins than those that are at the level being written. -/
theorem drives_iff : g.Drives past ↔
    ∀ call sofar, call :: sofar <:+ past → g.Harmless call sofar :=
  ⟨fun h _ _ hs => harmless_of_drives h hs, drives_of_harmless⟩

/-- Where the registers read as zero, as write-only registers may, every history does. -/
theorem drives_of_readBack_zero (h : ∀ call ∈ past, call.2.readBack = 0) : g.Drives past := by
  refine drives_of_harmless fun call sofar hs other _ _ hbit => ?_
  rw [h call (hs.subset List.mem_cons_self)] at hbit
  simp at hbit

/-- Pin `0` is raised and lowered, and then pin `1` is raised, where `GPSET` reads as the word that
was written to it last: pin `0` is raised again. -/
theorem raisedAgain : ¬ Drives ⟨fun _ => 0, fun _ => 0⟩
    [(1, ⟨.high, 0b1⟩), (0, ⟨.low, 0⟩), (0, ⟨.high, 0⟩)] := by
  intro h
  have h₀ := harmless_of_drives h (List.suffix_refl _) 0 (by simp) rfl rfl
  cases h₀

end DrivingSim.Gpio
