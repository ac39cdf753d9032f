import DrivingSim.Hardware.PinEmulator

/-!
# Hardware — independent pins

What the emulator of the pins holds after a history, pin by pin (`Holds`): the input device of a
pin has its handle and last wrote this value, or there is an output device, or neither; and no pin
has ever had a second device.  So a read returns what was last written through the handle of the
pin, and the modes have nothing to do with it.

What an output device has received are the values written to its pins (`delivered`).  A device may
be attached to several pins, and then it receives the values written to each of them
(`sharedDevice_received`); one that is attached to a single pin receives those written to that pin
from then on (`received_of_attached`).
-/

namespace DrivingSim.PinEmulator

variable {Dev : Type} [DecidableEq Dev]

/-! ### The history -/

/-- The value last written through the handle of the pin, or low. -/
def lastWritten (pin : Int) : List (Op Dev) → DigitalVal
  | [] => .low
  | .writeHandle handle value :: past => if handle.pin = pin then value else lastWritten pin past
  | _ :: past => lastWritten pin past

/-- The operation connects a device to the pin. -/
def Op.connects (pin : Int) : Op Dev → Bool
  | .connectOutput pin' _ => pin' = pin
  | .connectInput pin' => pin' = pin
  | _ => false

/-- The output devices of the pins. -/
def attached : List (Op Dev) → Int → Option Dev
  | [] => fun _ => none
  | .connectOutput pin dev :: past => Function.update (attached past) pin (some dev)
  | _ :: past => attached past

/-- The values written to the pins that a device was attached to at the time, in order. -/
def delivered (dev : Dev) : List (Op Dev) → List DigitalVal
  | [] => []
  | .digitalWrite pin value :: past =>
    if attached past pin = some dev then delivered dev past ++ [value] else delivered dev past
  | _ :: past => delivered dev past

/-- The values written to a pin, in order. -/
def written (pin : Int) : List (Op Dev) → List DigitalVal
  | [] => []
  | .digitalWrite pin' value :: past =>
    if pin' = pin then written pin past ++ [value] else written pin past
  | _ :: past => written pin past

/-! ### What the emulator holds -/

/-- The emulator after a history. -/
structure Holds (past : List (Op Dev)) (s : PinEmulator Dev) : Prop where
  exclusive : ∀ pin, s.inputs pin = none ∨ s.outputs pin = none
  handles : ∀ handle ∈ s.handles, s.inputs handle.pin ≠ none
  reading : ∀ pin, (s.inputs pin).getD .low = lastWritten pin past
  outputs : s.outputs = attached past
  received : ∀ dev, s.received dev = delivered dev past
  fresh : ∀ pin, s.inputs pin = none → s.outputs pin = none → past.countP (Op.connects pin) = 0
  once : ∀ pin, past.countP (Op.connects pin) ≤ 1

namespace Holds

variable {past : List (Op Dev)} {s t : PinEmulator Dev} {op : Op Dev} {pin : Int} {dev : Dev}

omit [DecidableEq Dev] in
theorem countP_cons_of_not (h : ∀ pin, op.connects pin = false) (pin : Int) :
    (op :: past).countP (Op.connects pin) = past.countP (Op.connects pin) :=
  List.countP_cons_of_neg (Bool.eq_false_iff.1 (h pin))

/-- An operation that connects no device. -/
theorem of_connected (h : Holds past s) (hop : ∀ pin, op.connects pin = false)
    (hin : ∀ pin, t.inputs pin = none ↔ s.inputs pin = none) (hout : t.outputs = s.outputs)
    (hhandles : t.handles = s.handles) (hattached : attached (op :: past) = attached past)
    (hreading : ∀ pin, (t.inputs pin).getD .low = lastWritten pin (op :: past))
    (hreceived : ∀ dev, t.received dev = delivered dev (op :: past)) :
    Holds (op :: past) t := by
  refine ⟨fun pin => ?_, fun handle hmem hnone => ?_, hreading,
    hout.trans (h.outputs.trans hattached.symm), hreceived, fun pin hnone hnone' => ?_,
    fun pin => ?_⟩
  · rw [hout, hin]
    exact h.exclusive pin
  · rw [hhandles] at hmem
    exact h.handles handle hmem ((hin _).1 hnone)
  · rw [hout] at hnone'
    rw [countP_cons_of_not hop]
    exact h.fresh pin ((hin pin).1 hnone) hnone'
  · rw [countP_cons_of_not hop]
    exact h.once pin

/-- One more device, at a pin that has none. -/
theorem countP_connect (h : Holds past s) (op : Op Dev)
    (hop : ∀ pin', op.connects pin' = decide (pin = pin')) (hin : s.inputs pin = none)
    (hout : s.outputs pin = none) (pin' : Int) :
    (op :: past).countP (Op.connects pin') ≤ 1 ∧
      (pin ≠ pin' → (op :: past).countP (Op.connects pin') = past.countP (Op.connects pin')) := by
  rw [List.countP_cons, hop]
  rcases eq_or_ne pin pin' with rfl | hne
  · rw [h.fresh pin hin hout]
    exact ⟨by simp, fun hne => absurd rfl hne⟩
  · rw [if_neg (by simpa using hne), Nat.add_zero]
    exact ⟨h.once pin', fun _ => rfl⟩

theorem connectOutput (h : Holds past s) (hs : s.connectOutput pin dev = some t) :
    Holds (.connectOutput pin dev :: past) t := by
  obtain ⟨hin, hout, rfl⟩ := connectOutput_eq_some hs
  have hcount := h.countP_connect (.connectOutput pin dev) (fun _ => rfl) hin hout
  refine ⟨fun pin' => ?_, h.handles, h.reading, congrArg (Function.update · pin _) h.outputs,
    h.received, fun pin' hnone hnone' => ?_, fun pin' => (hcount pin').1⟩
  · rcases eq_or_ne pin' pin with rfl | hne
    · exact .inl hin
    · dsimp only
      rw [Function.update_of_ne hne]
      exact h.exclusive pin'
  · dsimp only at hnone'
    rcases eq_or_ne pin' pin with rfl | hne
    · rw [Function.update_self] at hnone'
      cases hnone'
    · rw [Function.update_of_ne hne] at hnone'
      exact ((hcount pin').2 hne.symm).trans (h.fresh pin' hnone hnone')

theorem connectInput (h : Holds past s) (hs : s.connectInput pin = some t) :
    Holds (.connectInput pin :: past) t := by
  obtain ⟨hin, hout, rfl⟩ := connectInput_eq_some hs
  have hcount := h.countP_connect (.connectInput pin) (fun _ => rfl) hin hout
  refine ⟨fun pin' => ?_, fun handle hmem hnone => ?_, fun pin' => ?_, h.outputs, h.received,
    fun pin' hnone hnone' => ?_, fun pin' => (hcount pin').1⟩
  · rcases eq_or_ne pin' pin with rfl | hne
    · exact .inr hout
    · dsimp only
      rw [Function.update_of_ne hne]
      exact h.exclusive pin'
  · dsimp only at hnone hmem
    rcases eq_or_ne handle.pin pin with hpin | hne
    · rw [hpin, Function.update_self] at hnone
      cases hnone
    · rw [Function.update_of_ne hne] at hnone
      rcases List.mem_append.1 hmem with hmem | hmem
      · exact h.handles handle hmem hnone
      · rw [List.mem_singleton.1 hmem] at hne
        exact hne rfl
  · have hreading := h.reading pin'
    dsimp only
    rcases eq_or_ne pin' pin with rfl | hne
    · -- nothing can have been written through a handle of the pin
      rw [hin] at hreading
      rw [Function.update_self]
      exact hreading
    · rw [Function.update_of_ne hne]
      exact hreading
  · dsimp only at hnone
    rcases eq_or_ne pin' pin with rfl | hne
    · rw [Function.update_self] at hnone
      cases hnone
    · rw [Function.update_of_ne hne] at hnone
      exact ((hcount pin').2 hne.symm).trans (h.fresh pin' hnone hnone')

theorem writeHandle (h : Holds past s) {handle : InputHandle} {value : DigitalVal}
    (hmem : handle ∈ s.handles) :
    Holds (.writeHandle handle value :: past) (s.writeHandle handle value) := by
  refine h.of_connected (fun _ => rfl) (fun pin => ?_) rfl rfl rfl (fun pin => ?_) h.received
  · rw [PinEmulator.writeHandle]
    dsimp only
    rcases eq_or_ne pin handle.pin with rfl | hne
    · rw [Function.update_self]
      exact ⟨fun hnone => (by cases hnone), fun hnone => absurd hnone (h.handles handle hmem)⟩
    · rw [Function.update_of_ne hne]
  · rw [PinEmulator.writeHandle, lastWritten]
    dsimp only
    rcases eq_or_ne pin handle.pin with rfl | hne
    · rw [Function.update_self, if_pos rfl]
      rfl
    · rw [Function.update_of_ne hne, if_neg hne.symm]
      exact h.reading pin

theorem digitalWrite (h : Holds past s) {value : DigitalVal}
    (hs : s.digitalWrite pin value = some t) : Holds (.digitalWrite pin value :: past) t := by
  rcases digitalWrite_eq_some hs with ⟨dev, hdev, rfl⟩ | ⟨hnone, rfl⟩
  · refine h.of_connected (fun _ => rfl) (fun _ => Iff.rfl) rfl rfl rfl h.reading fun dev' => ?_
    rw [delivered, ← h.outputs, hdev]
    dsimp only
    rcases eq_or_ne dev' dev with rfl | hne
    · rw [Function.update_self, if_pos rfl, h.received]
    · rw [Function.update_of_ne hne, if_neg fun hsome => hne (Option.some.inj hsome).symm]
      exact h.received dev'
  · refine h.of_connected (fun _ => rfl) (fun _ => Iff.rfl) rfl rfl rfl h.reading fun dev' => ?_
    rw [delivered, ← h.outputs, hnone, if_neg (Option.some_ne_none dev').symm]
    exact h.received dev'

theorem step (h : Holds past s) (hs : s.step op = some t) : Holds (op :: past) t := by
  cases op with
  | pinMode pin mode =>
      cases hs
      exact h.of_connected (fun _ => rfl) (fun _ => Iff.rfl) rfl rfl rfl h.reading h.received
  | connectOutput pin dev => exact h.connectOutput hs
  | connectInput pin => exact h.connectInput hs
  | writeHandle handle value =>
      obtain ⟨hmem, rfl⟩ := writeHandle_eq_some hs
      exact h.writeHandle hmem
  | digitalWrite pin value => exact h.digitalWrite hs
  | digitalRead pin =>
      obtain ⟨value, -, rfl⟩ := Option.map_eq_some_iff.1 hs
      exact h.of_connected (fun _ => rfl) (fun _ => Iff.rfl) rfl rfl rfl h.reading h.received

end Holds

variable {past later : List (Op Dev)} {s t : PinEmulator Dev} {pin : Int} {dev : Dev}

theorem holds_exec (h : exec past = some s) : Holds past s :=
  History.exec_invariant
    ⟨fun _ => .inl rfl, fun _ hmem => absurd hmem List.not_mem_nil, fun _ => rfl, rfl,
      fun _ => rfl, fun _ _ _ => rfl, fun _ => Nat.zero_le 1⟩
    (fun _ _ _ _ _ ht hstep => ht.step hstep) h

/-! ### A device that is attached to one pin -/

/-- An output device stays attached. -/
theorem outputs_step {op : Op Dev} (hs : s.step op = some t) (h : s.outputs pin = some dev) :
    t.outputs pin = some dev := by
  cases op with
  | pinMode pin' mode =>
      cases hs
      exact h
  | connectOutput pin' dev' =>
      obtain ⟨-, hnone, rfl⟩ := connectOutput_eq_some hs
      have hne : pin ≠ pin' := by
        rintro rfl
        rw [hnone] at h
        cases h
      exact (Function.update_of_ne hne _ _).trans h
  | connectInput pin' =>
      obtain ⟨-, -, rfl⟩ := connectInput_eq_some hs
      exact h
  | writeHandle handle value =>
      obtain ⟨-, rfl⟩ := writeHandle_eq_some hs
      exact h
  | digitalWrite pin' value =>
      rcases digitalWrite_eq_some hs with ⟨dev', -, rfl⟩ | ⟨-, rfl⟩
      · exact h
      · exact h
  | digitalRead pin' =>
      obtain ⟨value, -, rfl⟩ := Option.map_eq_some_iff.1 hs
      exact h

theorem outputs_exec (hs : exec past = some s) (ht : exec (later ++ past) = some t)
    (h : s.outputs pin = some dev) : t.outputs pin = some dev := by
  induction later generalizing t with
  | nil =>
      cases hs.symm.trans ht
      exact h
  | cons op later ih =>
      obtain ⟨u, hu, hstep⟩ := History.exec_cons ht
      exact outputs_step hstep (ih hu)

/-- What a device attached to one pin receives. -/
theorem received_later (hs : exec past = some s) (hpin : s.outputs pin = some dev)
    (ht : exec (later ++ past) = some t) (halone : ∀ pin', t.outputs pin' = some dev → pin' = pin) :
    t.received dev = s.received dev ++ written pin later := by
  induction later generalizing t with
  | nil =>
      cases hs.symm.trans ht
      exact (List.append_nil _).symm
  | cons op later ih =>
      obtain ⟨u, hu, hstep⟩ : ∃ u, exec (later ++ past) = some u ∧ u.step op = some t :=
        History.exec_cons ht
      have hsame := ih hu fun pin' hpin' => halone pin' (outputs_step hstep hpin')
      rw [(holds_exec hu).received] at hsame
      rw [(holds_exec ht).received]
      cases op with
      | pinMode pin' mode => exact hsame
      | connectOutput pin' dev' => exact hsame
      | connectInput pin' => exact hsame
      | writeHandle handle value => exact hsame
      | digitalRead pin' => exact hsame
      | digitalWrite pin' value =>
          have hattached : attached (later ++ past) pin' = some dev ↔ pin' = pin := by
            rw [← (holds_exec hu).outputs]
            refine ⟨fun hpin' => halone pin' (outputs_step hstep hpin'), ?_⟩
            rintro rfl
            exact outputs_exec hs hu hpin
          rw [List.cons_append, delivered, written]
          simp only [hattached]
          split_ifs
          · rw [hsame, List.append_assoc]
          · exact hsame

/-- A device that is attached nowhere has received nothing. -/
theorem received_eq_nil (h : exec past = some s) (hnone : ∀ pin, s.outputs pin ≠ some dev) :
    s.received dev = [] := by
  refine History.exec_invariant
    (P := fun _ s => (∀ pin, s.outputs pin ≠ some dev) → s.received dev = [])
    (fun _ => rfl) (fun past op t u ht ih hstep hnone => ?_) h hnone
  have hbefore : ∀ pin, t.outputs pin ≠ some dev :=
    fun pin hpin => hnone pin (outputs_step hstep hpin)
  have hempty := ih hbefore
  rw [(holds_exec ht).received] at hempty
  rw [(holds_exec (History.exec_step ht hstep)).received]
  cases op with
  | pinMode pin' mode => exact hempty
  | connectOutput pin' dev' => exact hempty
  | connectInput pin' => exact hempty
  | writeHandle handle value => exact hempty
  | digitalRead pin' => exact hempty
  | digitalWrite pin' value =>
      rw [(holds_exec ht).outputs] at hbefore
      rw [delivered, if_neg (hbefore pin')]
      exact hempty

/-- A device that is attached to one pin receives what is written to it from then on. -/
theorem received_of_attached {earlier : List (Op Dev)}
    (h : exec (later ++ .connectOutput pin dev :: earlier) = some s)
    (halone : ∀ pin', s.outputs pin' = some dev → pin' = pin) :
    s.received dev = written pin later := by
  obtain ⟨t, ht, -⟩ := History.exec_append h
  obtain ⟨u, hu, hstep⟩ := History.exec_cons ht
  obtain ⟨-, hnone, ht'⟩ := connectOutput_eq_some hstep
  have hempty : u.received dev = [] := by
    refine received_eq_nil hu fun pin' hpin' => ?_
    cases halone pin' (outputs_exec ht h (outputs_step hstep hpin'))
    rw [hnone] at hpin'
    cases hpin'
  have hpin : t.outputs pin = some dev := by
    rw [ht']
    exact Function.update_self ..
  rw [received_later ht hpin h halone, ht']
  exact congrArg (· ++ written pin later) hempty

/-! ### All pins -/

/-- **The pins are independent.**  After any history that does not abort, no pin has both an input
and an output, each handle is that of an input, and no pin has been connected twice; a read
returns what was last written through the handle of the pin, or low; and an output device has
received the values written to the pins that it was attached to when they were written, in order:
for one that is attached to a single pin, those written to the pin after it was attached. -/
theorem pins_independent (h : exec past = some s) :
    (∀ pin, s.inputs pin = none ∨ s.outputs pin = none) ∧
    (∀ handle ∈ s.handles, s.inputs handle.pin ≠ none) ∧
    (∀ pin, past.countP (Op.connects pin) ≤ 1) ∧
    (∀ pin value, s.digitalRead pin = some value → value = lastWritten pin past) ∧
    (∀ dev, s.received dev = delivered dev past) ∧
    ∀ pin dev later earlier, past = later ++ .connectOutput pin dev :: earlier →
      (∀ pin', attached past pin' = some dev → pin' = pin) →
      s.received dev = written pin later := by
  have hholds := holds_exec h
  refine ⟨hholds.exclusive, hholds.handles, hholds.once, fun pin value hread => ?_,
    hholds.received, ?_⟩
  · rw [digitalRead_eq_some hread]
    exact hholds.reading pin
  · rintro pin dev later earlier rfl halone
    rw [← hholds.outputs] at halone
    exact received_of_attached h halone

/-- One device, attached to two pins. -/
def sharedDevice : List (Op Unit) :=
  [.digitalWrite 1 .high, .pinMode 1 .output, .connectOutput 1 ()]

theorem sharedDevice_independent :
    delivered () (sharedDevice ++ [Op.connectOutput 0 ()]) = [.high] ∧
    ∀ pin, (sharedDevice ++ [Op.connectOutput 0 ()]).countP (Op.connects pin) ≤ 1 := by
  have hrun : exec (sharedDevice ++ [Op.connectOutput 0 ()]) = some _ := rfl
  obtain ⟨-, -, honce, -, hreceived, -⟩ := pins_independent hrun
  exact ⟨(hreceived ()).symm, honce⟩

/-- The device receives what is written to pin 1, although it is attached to pin 0 as well. -/
theorem sharedDevice_received : ¬ ∀ (pin : Int) (dev : Unit) (later earlier : List (Op Unit))
    (s t : PinEmulator Unit), exec (.connectOutput pin dev :: earlier) = some s →
    exec (later ++ .connectOutput pin dev :: earlier) = some t →
    t.received dev = s.received dev ++ written pin later := by
  intro h
  have hreceived := h 0 () sharedDevice [] _ _ rfl rfl
  cases hreceived

end DrivingSim.PinEmulator
