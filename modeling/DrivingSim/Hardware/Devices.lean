import DrivingSim.Hardware.PinModes

/-!
# Hardware — the devices of the program

`sensor_impl` of `sensor.cpp`, `button_impl` of `button.cpp`, and what `motor_impl` of `motor.cpp`
does with its pin, over the emulator of the pins.  A device finds its pin in the table of its file,
and its constructor sets the mode of the pin; a sensor or a button reads the pin, and a motor
writes it.

No device looks at whether its pin is taken.  So a device works exactly as long as the last device
that has been made on its pin has the same mode (`device_works`), and the devices of a program
never abort exactly where no motor has the pin of a sensor or a button, which the tables say by the
tracks (`neverAborts_iff`).
-/

namespace DrivingSim

/-- `pins[track_id]`: a track that is not in the table is added with pin `0`. -/
def pinOf (pins : List (Int × Int)) (trackId : Int) : Int := (pins.lookup trackId).getD 0

def Sensor.pins : List (Int × Int) := [(0, 0), (1, 1), (2, 2), (3, 3), (4, 4), (5, 5)]
def Button.pins : List (Int × Int) := [(0, 0), (1, 1), (2, 2), (3, 3), (4, 4), (5, 5)]
def Motor.pins : List (Int × Int) := [(0, 18), (1, 23), (2, 4), (3, 5), (4, 6), (5, 12)]

inductive DeviceKind where
  | sensor
  | button
  | motor
  deriving DecidableEq

namespace DeviceKind

/-- The table of the kind. -/
def pins : DeviceKind → List (Int × Int)
  | sensor => Sensor.pins
  | button => Button.pins
  | motor => Motor.pins

/-- The mode that the constructor sets. -/
def mode : DeviceKind → PinMode
  | sensor => .input
  | button => .input
  | motor => .output

end DeviceKind

structure Device where
  kind : DeviceKind
  pinId : Int
  deriving DecidableEq

/-- `create` of the factory of the kind. -/
def DeviceKind.create (kind : DeviceKind) (trackId : Int) : Device :=
  ⟨kind, pinOf kind.pins trackId⟩

section Reading

variable {Dev : Type} (pi : PinEmulator Dev) (pinId : Int)

/-- What `is_triggered` and `is_pushed` do. -/
def isHigh : Option Bool := (pi.digitalRead pinId).map fun value => decide (value = .high)

def Sensor.isTriggered : Option Bool := isHigh pi pinId
def Button.isPushed : Option Bool := isHigh pi pinId

end Reading

/-- The emulator, and the devices that have been made. -/
structure Devices (Dev : Type) where
  pi : PinEmulator Dev
  made : List Device

namespace Devices

variable {Dev : Type} [DecidableEq Dev]

def empty : Devices Dev := ⟨.empty, []⟩

/-- What the program does with its devices, and what the test at the other side of the pins does. -/
inductive Op (Dev : Type) where
  | create (kind : DeviceKind) (trackId : Int)
  | isTriggered (pinId : Int)
  | isPushed (pinId : Int)
  /-- A motor writes its pin. -/
  | write (pinId : Int) (value : DigitalVal)
  | connectOutput (pin : Int) (dev : Dev)
  | connectInput (pin : Int)
  | writeHandle (handle : InputHandle) (value : DigitalVal)

/-- The operation of the emulator. -/
def Op.toPins : Op Dev → PinEmulator.Op Dev
  | .create kind trackId => .pinMode (kind.create trackId).pinId kind.mode
  | .isTriggered pinId => .digitalRead pinId
  | .isPushed pinId => .digitalRead pinId
  | .write pinId value => .digitalWrite pinId value
  | .connectOutput pin dev => .connectOutput pin dev
  | .connectInput pin => .connectInput pin
  | .writeHandle handle value => .writeHandle handle value

/-- The device that an operation uses. -/
def Op.device : Op Dev → Option Device
  | .isTriggered pinId => some ⟨.sensor, pinId⟩
  | .isPushed pinId => some ⟨.button, pinId⟩
  | .write pinId _ => some ⟨.motor, pinId⟩
  | _ => none

/-- The devices after an operation. -/
def madeAfter (made : List Device) : Op Dev → List Device
  | .create kind trackId => kind.create trackId :: made
  | _ => made

/-- What an operation does, unless it aborts.  Nobody uses a device that has not been made. -/
def step (s : Devices Dev) (op : Op Dev) : Option (Devices Dev) :=
  if ∀ device ∈ op.device, device ∈ s.made then
    (s.pi.step op.toPins).map (⟨·, madeAfter s.made op⟩)
  else none

/-- The devices and the pins after a history. -/
def exec (past : List (Op Dev)) : Option (Devices Dev) := History.exec step empty past

/-! ### The history -/

/-- The mode of the last device that has been made on a pin. -/
def lastMode : List (Op Dev) → Int → Option PinMode
  | [] => fun _ => none
  | .create kind trackId :: past =>
    Function.update (lastMode past) (kind.create trackId).pinId (some kind.mode)
  | _ :: past => lastMode past

/-- The value last written through the handle of a pin, or low. -/
def lastInput (pin : Int) : List (Op Dev) → DigitalVal
  | [] => .low
  | .writeHandle handle value :: past => if handle.pin = pin then value else lastInput pin past
  | _ :: past => lastInput pin past

variable {past : List (Op Dev)} {s t : Devices Dev} {op : Op Dev} {pin : Int}

omit [DecidableEq Dev] in
theorem modes_toPins (past : List (Op Dev)) :
    PinEmulator.modes (past.map Op.toPins) = lastMode past := by
  induction past with
  | nil => rfl
  | cons op past ih =>
      rw [List.map_cons, PinEmulator.modes, ih]
      cases op <;> rfl

omit [DecidableEq Dev] in
theorem lastWritten_toPins (past : List (Op Dev)) :
    PinEmulator.lastWritten pin (past.map Op.toPins) = lastInput pin past := by
  induction past with
  | nil => rfl
  | cons op past ih =>
      cases op with
      | writeHandle handle value =>
          rw [List.map_cons, Op.toPins, PinEmulator.lastWritten, lastInput, ih]
      | _ => exact ih

theorem step_eq_some (h : s.step op = some t) :
    (∀ device ∈ op.device, device ∈ s.made) ∧ s.pi.step op.toPins = some t.pi ∧
      t.made = madeAfter s.made op := by
  rw [step] at h
  split_ifs at h with huses
  obtain ⟨pi, hpi, rfl⟩ := Option.map_eq_some_iff.1 h
  exact ⟨huses, hpi, rfl⟩

/-- A history of the devices is one of the pins. -/
theorem exec_pins (h : exec past = some s) :
    PinEmulator.exec (past.map Op.toPins) = some s.pi :=
  History.exec_invariant
    (P := fun past (s : Devices Dev) => PinEmulator.exec (past.map Op.toPins) = some s.pi) rfl
    (fun _ _ _ _ _ ht hstep => History.exec_step ht (step_eq_some hstep).2.1) h

/-- A pin with a device has a mode. -/
theorem lastMode_ne_none (h : exec past = some s) {device : Device} (hmade : device ∈ s.made) :
    lastMode past device.pinId ≠ none := by
  refine History.exec_invariant
    (P := fun past (s : Devices Dev) => ∀ device ∈ s.made, lastMode past device.pinId ≠ none)
    (fun _ hmem => absurd hmem List.not_mem_nil) (fun past op t u _ ht hstep => ?_) h device hmade
  rw [(step_eq_some hstep).2.2]
  cases op with
  | create kind trackId =>
      intro device hmem
      rw [lastMode]
      rcases eq_or_ne device.pinId (kind.create trackId).pinId with hpin | hne
      · rw [hpin, Function.update_self]
        exact Option.some_ne_none _
      · rw [Function.update_of_ne hne]
        rcases List.mem_cons.1 hmem with rfl | hmem
        · exact absurd rfl hne
        · exact ht device hmem
  | _ => exact ht

/-! ### What works -/

theorem isHigh_eq (h : exec past = some s) : isHigh s.pi pin =
    if lastMode past pin = some .input then some (decide (lastInput pin past = .high))
    else none := by
  rw [isHigh, PinEmulator.digitalRead_eq (exec_pins h), modes_toPins, lastWritten_toPins]
  split_ifs
  · rfl
  · rfl

theorem isHigh_of_made (h : exec past = some s) {device : Device} (hmade : device ∈ s.made) :
    isHigh s.pi device.pinId = if lastMode past device.pinId = some .output then none
      else some (decide (lastInput device.pinId past = .high)) := by
  rw [isHigh_eq h]
  cases hmode : lastMode past device.pinId with
  | none => exact absurd hmode (lastMode_ne_none h hmade)
  | some mode => cases mode <;> simp

theorem digitalWrite_of_made (h : exec past = some s) {device : Device}
    (hmade : device ∈ s.made) {value : DigitalVal} :
    s.pi.digitalWrite device.pinId value = none ↔
      lastMode past device.pinId = some .input := by
  have hwrite : (s.pi.digitalWrite device.pinId value).isSome = true ↔
      PinEmulator.modes (past.map Op.toPins) device.pinId = some .output :=
    PinEmulator.isSome_digitalWrite (exec_pins h)
  rw [modes_toPins] at hwrite
  rw [← Option.not_isSome_iff_eq_none, hwrite]
  cases hmode : lastMode past device.pinId with
  | none => exact absurd hmode (lastMode_ne_none h hmade)
  | some mode => cases mode <;> simp

/-- **What a device does after any history.**  A sensor is triggered, and a button pushed, exactly
where the value last written through the handle of its pin is high, whichever device of the
program reads it; and the one aborts where the last device that has been made on its pin is a
motor.  A motor's write aborts where that device is a sensor or a button, and nowhere else. -/
theorem device_works (h : exec past = some s) :
    (∀ pinId, ⟨.sensor, pinId⟩ ∈ s.made → Sensor.isTriggered s.pi pinId =
      if lastMode past pinId = some .output then none
      else some (decide (lastInput pinId past = .high))) ∧
    (∀ pinId, ⟨.button, pinId⟩ ∈ s.made → Button.isPushed s.pi pinId =
      if lastMode past pinId = some .output then none
      else some (decide (lastInput pinId past = .high))) ∧
    ∀ pinId value, ⟨.motor, pinId⟩ ∈ s.made →
      (s.pi.digitalWrite pinId value = none ↔ lastMode past pinId = some .input) :=
  ⟨fun _ hmade => isHigh_of_made h hmade, fun _ hmade => isHigh_of_made h hmade,
    fun _ _ hmade => digitalWrite_of_made h hmade⟩

/-- A sensor at track `4`, which is triggered, and a motor that then takes its pin. -/
def takenSensor : List (Op Unit) :=
  [.create .motor 2, .writeHandle ⟨4⟩ .high, .connectInput 4, .create .sensor 4]

theorem takenSensor_works : ∃ s t, exec takenSensor.tail = some s ∧ exec takenSensor = some t ∧
    Sensor.isTriggered s.pi 4 = some true ∧ Sensor.isTriggered t.pi 4 = none := by
  have hs : exec takenSensor.tail = some _ := rfl
  have ht : exec takenSensor = some _ := rfl
  exact ⟨_, _, hs, ht, (device_works hs).1 4 List.mem_cons_self,
    (device_works ht).1 4 (List.mem_cons_of_mem _ List.mem_cons_self)⟩

/-! ### Which devices a program may have -/

/-- A track of the tables. -/
def Known (trackId : Int) : Prop := 0 ≤ trackId ∧ trackId ≤ 5

/-- A motor at the one track has the pin of a sensor or a button at the other. -/
def Clash (motor reader : Int) : Prop :=
  motor = 2 ∧ reader = 4 ∨ motor = 3 ∧ reader = 5 ∨
    ¬ Known motor ∧ (reader = 0 ∨ ¬ Known reader)

theorem pinOf_of_not_known {pins : List (Int × Int)} (hpins : ∀ e ∈ pins, Known e.1)
    {trackId : Int} (h : ¬ Known trackId) : pinOf pins trackId = 0 := by
  have hnone : pins.lookup trackId = none := by
    rw [List.lookup_eq_none_iff]
    intro e he
    have hne : trackId ≠ e.1 := fun heq => h (heq ▸ hpins e he)
    simpa using hne
  rw [pinOf, hnone, Option.getD_none]

theorem known_cases {trackId : Int} (h : Known trackId) : trackId = 0 ∨ trackId = 1 ∨
    trackId = 2 ∨ trackId = 3 ∨ trackId = 4 ∨ trackId = 5 := by
  rw [Known] at h
  omega

/-- A sensor or a button has the pin of the number of its track. -/
theorem pinOf_sensor (trackId : Int) :
    pinOf Sensor.pins trackId = if 0 ≤ trackId ∧ trackId ≤ 5 then trackId else 0 := by
  by_cases h : Known trackId
  · rcases known_cases h with rfl | rfl | rfl | rfl | rfl | rfl <;> rfl
  · rw [pinOf_of_not_known (by simp [Sensor.pins, Known]) h]
    exact (if_neg h).symm

/-- A motor has a pin of its table. -/
theorem mem_pins_motor {trackId : Int} (h : Known trackId) :
    (trackId, pinOf Motor.pins trackId) ∈ Motor.pins := by
  rcases known_cases h with rfl | rfl | rfl | rfl | rfl | rfl
  · exact .head _
  · exact .tail _ (.head _)
  · exact .tail _ (.tail _ (.head _))
  · exact .tail _ (.tail _ (.tail _ (.head _)))
  · exact .tail _ (.tail _ (.tail _ (.tail _ (.head _))))
  · exact .tail _ (.tail _ (.tail _ (.tail _ (.tail _ (.head _)))))

theorem pinOf_motor_eq_iff (motor reader : Int) :
    pinOf Motor.pins motor = pinOf Sensor.pins reader ↔ Clash motor reader := by
  rw [pinOf_sensor, Clash]
  by_cases h : Known motor
  · have hpin := mem_pins_motor h
    generalize pinOf Motor.pins motor = pin at hpin ⊢
    simp only [Motor.pins, List.mem_cons, Prod.mk.injEq, List.not_mem_nil, or_false] at hpin
    simp only [Known]
    split_ifs
    all_goals omega
  · rw [pinOf_of_not_known (by simp [Motor.pins, Known]) h]
    simp only [Known] at h ⊢
    split_ifs
    all_goals omega

/-- No use of a device aborts, in any history in which no devices are made but those of `devices`,
each of a kind and for a track. -/
def NeverAborts (Dev : Type) [DecidableEq Dev] (devices : List (DeviceKind × Int)) : Prop :=
  ∀ (past : List (Op Dev)) (s : Devices Dev), exec past = some s →
    (∀ kind trackId, .create kind trackId ∈ past → (kind, trackId) ∈ devices) →
    ∀ (op : Op Dev) (device : Device), op.device = some device → device ∈ s.made →
      (s.pi.step op.toPins).isSome = true

/-- The devices of a program have been made for the tracks in its history. -/
theorem exists_create (h : exec past = some s) {device : Device} (hmade : device ∈ s.made) :
    ∃ kind trackId, .create kind trackId ∈ past ∧ device = kind.create trackId := by
  refine History.exec_invariant
    (P := fun past (s : Devices Dev) => ∀ device ∈ s.made, ∃ kind trackId,
      .create kind trackId ∈ past ∧ device = DeviceKind.create kind trackId)
    (fun _ hmem => absurd hmem List.not_mem_nil) (fun past op t u _ ht hstep => ?_) h device hmade
  rw [(step_eq_some hstep).2.2]
  have hpast : ∀ device ∈ t.made, ∃ kind trackId, .create kind trackId ∈ op :: past ∧
      device = DeviceKind.create kind trackId := by
    intro device hmem
    obtain ⟨kind, trackId, hcreate, hdevice⟩ := ht device hmem
    exact ⟨kind, trackId, List.mem_cons_of_mem _ hcreate, hdevice⟩
  cases op with
  | create kind trackId =>
      intro device hmem
      rcases List.mem_cons.1 hmem with rfl | hmem
      · exact ⟨kind, trackId, List.mem_cons_self, rfl⟩
      · exact hpast device hmem
  | _ => exact hpast

omit [DecidableEq Dev] in
/-- The mode of a pin is that of a device on it. -/
theorem exists_create_of_lastMode {mode : PinMode} (h : lastMode past pin = some mode) :
    ∃ kind trackId, .create kind trackId ∈ past ∧ (kind.create trackId).pinId = pin ∧
      kind.mode = mode := by
  induction past with
  | nil => cases h
  | cons op past ih =>
      have hpast : lastMode past pin = some mode → ∃ kind trackId,
          .create kind trackId ∈ op :: past ∧ (kind.create trackId).pinId = pin ∧
            kind.mode = mode := by
        intro hmode
        obtain ⟨kind, trackId, hcreate, hpin, hkind⟩ := ih hmode
        exact ⟨kind, trackId, List.mem_cons_of_mem _ hcreate, hpin, hkind⟩
      cases op with
      | create kind trackId =>
          rw [lastMode] at h
          rcases eq_or_ne pin (kind.create trackId).pinId with hpin | hne
          · rw [hpin, Function.update_self] at h
            exact ⟨kind, trackId, List.mem_cons_self, hpin.symm, Option.some.inj h⟩
          · rw [Function.update_of_ne hne] at h
            exact hpast h
      | _ => exact hpast h

theorem exec_create (h : exec past = some s) (kind : DeviceKind) (trackId : Int) :
    ∃ t, exec (.create kind trackId :: past) = some t ∧
      t.made = kind.create trackId :: s.made := by
  refine ⟨⟨s.pi.pinMode (kind.create trackId).pinId kind.mode, kind.create trackId :: s.made⟩,
    History.exec_step h ?_, rfl⟩
  rw [step, if_pos fun device hdevice => (by cases hdevice)]
  rfl

/-- A use of a device aborts only where the mode of its pin is not that of its kind. -/
theorem isSome_of_lastMode (h : exec past = some s) {op : Op Dev} {device : Device}
    (hop : op.device = some device) (hmode : lastMode past device.pinId = some device.kind.mode) :
    (s.pi.step op.toPins).isSome = true := by
  have hmodes := modes_toPins past
  cases op with
  | isTriggered pinId =>
      cases hop
      simp [Op.toPins, PinEmulator.step, PinEmulator.digitalRead_eq (exec_pins h), hmodes, hmode,
        DeviceKind.mode]
  | isPushed pinId =>
      cases hop
      simp [Op.toPins, PinEmulator.step, PinEmulator.digitalRead_eq (exec_pins h), hmodes, hmode,
        DeviceKind.mode]
  | write pinId value =>
      cases hop
      rw [Op.toPins, PinEmulator.step, PinEmulator.isSome_digitalWrite (exec_pins h), hmodes]
      exact hmode
  | _ => cases hop

/-- A kind that reads. -/
theorem pins_of_ne_motor {kind : DeviceKind} (h : kind ≠ .motor) :
    kind.pins = Sensor.pins ∧ kind.mode = .input := by
  cases kind with
  | sensor => exact ⟨rfl, rfl⟩
  | button => exact ⟨rfl, rfl⟩
  | motor => exact absurd rfl h

/-- Two devices of different modes on one pin are a motor and a reader that clash. -/
theorem clash_of_pinId {kind kind' : DeviceKind} {trackId trackId' : Int}
    (hpin : (kind.create trackId).pinId = (kind'.create trackId').pinId)
    (hmode : kind.mode ≠ kind'.mode) :
    kind = .motor ∧ kind' ≠ .motor ∧ Clash trackId trackId' ∨
      kind' = .motor ∧ kind ≠ .motor ∧ Clash trackId' trackId := by
  by_cases hkind : kind = .motor
  · have hkind' : kind' ≠ .motor := fun h => hmode (by rw [hkind, h])
    refine .inl ⟨hkind, hkind', (pinOf_motor_eq_iff _ _).1 ?_⟩
    rw [← (pins_of_ne_motor hkind').1]
    subst hkind
    exact hpin
  · have hkind' : kind' = .motor := by
      by_contra h
      exact hmode ((pins_of_ne_motor hkind).2.trans (pins_of_ne_motor h).2.symm)
    refine .inr ⟨hkind', hkind, (pinOf_motor_eq_iff _ _).1 ?_⟩
    rw [← (pins_of_ne_motor hkind).1]
    subst hkind'
    exact hpin.symm

/-- A motor that is made on the pin of a reader takes it away. -/
theorem digitalRead_of_clash {kind : DeviceKind} {motor reader : Int} (hkind : kind ≠ .motor)
    (hclash : Clash motor reader) : ∃ s : Devices Dev,
      exec [.create .motor motor, .create kind reader] = some s ∧ kind.create reader ∈ s.made ∧
        s.pi.digitalRead (kind.create reader).pinId = none := by
  obtain ⟨s, hs, hmade⟩ := @exec_create Dev _ [] _ rfl kind reader
  obtain ⟨t, ht, hmade'⟩ := exec_create hs .motor motor
  have hpin : (kind.create reader).pinId = (DeviceKind.motor.create motor).pinId := by
    rw [DeviceKind.create, (pins_of_ne_motor hkind).1]
    exact ((pinOf_motor_eq_iff _ _).2 hclash).symm
  have hdevice : kind.create reader ∈ t.made := by simp [hmade', hmade]
  have hhigh := isHigh_of_made ht hdevice
  rw [if_pos (by rw [lastMode, hpin, Function.update_self]; rfl), isHigh,
    Option.map_eq_none_iff] at hhigh
  exact ⟨t, ht, hdevice, hhigh⟩

/-- **Which devices never abort.**  Those of which no motor has the pin of a sensor or of a button:
a motor at track `2` that of one at track `4`, a motor at track `3` that of one at track `5`, or a
motor that is at no track of the table that of one at track `0` or at no track of its own. -/
theorem neverAborts_iff (devices : List (DeviceKind × Int)) : NeverAborts Dev devices ↔
    ∀ motor reader kind, (.motor, motor) ∈ devices → (kind, reader) ∈ devices →
      kind ≠ .motor → ¬ Clash motor reader := by
  constructor
  · intro hnever motor reader kind hmotor hreader hkind hclash
    obtain ⟨s, hs, hmade, hread⟩ := @digitalRead_of_clash Dev _ _ _ _ hkind hclash
    have hall : ∀ kind' trackId, (.create kind' trackId : Op Dev) ∈
        [.create .motor motor, .create kind reader] → (kind', trackId) ∈ devices := by
      intro kind' trackId hmem
      simp only [List.mem_cons, List.not_mem_nil, or_false, Op.create.injEq] at hmem
      rcases hmem with ⟨rfl, rfl⟩ | ⟨rfl, rfl⟩
      · exact hmotor
      · exact hreader
    have hsome : (s.pi.step (.digitalRead (kind.create reader).pinId)).isSome = true := by
      cases kind with
      | sensor => exact hnever _ s hs hall (.isTriggered _) _ rfl hmade
      | button => exact hnever _ s hs hall (.isPushed _) _ rfl hmade
      | motor => exact absurd rfl hkind
    rw [PinEmulator.step, hread] at hsome
    cases hsome
  · intro hclash past s h hall op device hop hmade
    refine isSome_of_lastMode h hop ?_
    obtain ⟨kind, trackId, hcreate, rfl⟩ := exists_create h hmade
    cases hmode : lastMode past (kind.create trackId).pinId with
    | none => exact absurd hmode (lastMode_ne_none h hmade)
    | some mode =>
        obtain ⟨kind', trackId', hcreate', hpin, rfl⟩ := exists_create_of_lastMode hmode
        by_contra hne
        have hkinds : kind'.mode ≠ kind.mode := fun heq => hne (congrArg some heq)
        rcases clash_of_pinId hpin hkinds with ⟨rfl, hkind, hc⟩ | ⟨rfl, hkind, hc⟩
        · exact hclash _ _ _ (hall _ _ hcreate') (hall _ _ hcreate) hkind hc
        · exact hclash _ _ _ (hall _ _ hcreate) (hall _ _ hcreate') hkind hc

end Devices

end DrivingSim
