import DrivingSim.Hardware.Devices
import DrivingSim.Objects.Singletons
import DrivingSim.Objects.Renumbered

/-!
# Hardware — emulation

`emulate_raspi` of `raspi.cpp` and the constructors of the devices, over the registry of the
singletons: the one mocks the interface `raspi` and gets it, the others get it and keep the board
that they are given.  Emulated boards are known by the numbers of their instances; what is done on
the board of the hardware is not modelled here.

A call of `emulate_raspi` returns a board that nobody has had.  Until `raspi` is emulated, mocked or
replaced once more, or all is reset, every device is made on that board and on no other, and a board
is what its own devices and the test have made of it (`emulated_devices`).
-/

namespace DrivingSim

/-- The registry, the emulated boards, and those that `emulate_raspi` has returned. -/
structure Lab (F Dev : Type) where
  registry : Registry F
  boards : Nat → Devices Dev
  emulated : List Nat

namespace Lab

/-- The name of the interface. -/
def raspi : String := "raspi"

inductive Op (F Dev : Type) where
  | emulateRaspi
  | create (kind : DeviceKind) (trackId : Int)
  /-- What a device that has been made, or the test, does on a board. -/
  | use (board : Nat) (op : Devices.Op Dev)
  /-- Another call of the registry. -/
  | objects (op : Registry.Op F)

section Model

variable {F Dev : Type} (emulator : F) (s : Lab F Dev)

def emulateRaspi : Option (Nat × Lab F Dev) := do
  let registry ← s.registry.mock raspi
  let (pi, registry) ← registry.get raspi
  return (pi.number, { s with registry, emulated := pi.number :: s.emulated })

variable [DecidableEq Dev]

def onBoard (board : Nat) (op : Devices.Op Dev) : Option (Lab F Dev) :=
  ((s.boards board).step op).map fun b => { s with boards := Function.update s.boards board b }

variable [DecidableEq F]

/-- The constructor of a device. -/
def create (kind : DeviceKind) (trackId : Int) : Option (Lab F Dev) := do
  let (pi, registry) ← s.registry.get raspi
  let s := { s with registry }
  if pi.factory = emulator then s.onBoard pi.number (.create kind trackId) else some s

/-- The test uses the boards that it has been given. -/
def step (s : Lab F Dev) : Op F Dev → Option (Lab F Dev)
  | .emulateRaspi => s.emulateRaspi.map Prod.snd
  | .create kind trackId => s.create emulator kind trackId
  | .use _ (.create _ _) => none
  | .use board op =>
    if op.device.isSome ∨ board ∈ s.emulated then s.onBoard board op else none
  | .objects op => (s.registry.step op).map fun registry => { s with registry }

/-- With what static initialization has registered. -/
def start (r : Registry F) : Lab F Dev := ⟨r, fun _ => .empty, []⟩

def exec (r : Registry F) (past : List (Op F Dev)) : Option (Lab F Dev) :=
  History.exec (step emulator) (start r) past

end Model

/-- A call that may change what a `get` of the interface returns. -/
def Replaces {F : Type} : Registry.Op F → Prop
  | .replace itf _ => itf = raspi
  | .mock itf => itf = raspi
  | .reset => True
  | _ => False

/-- An operation that leaves the board of the interface. -/
def Op.Quiet {F Dev : Type} : Op F Dev → Prop
  | .emulateRaspi => False
  | .objects op => ¬ Replaces op
  | _ => True

/-- What has been done on a board while devices were made on the board `live`. -/
def sentTo {F Dev : Type} (live board : Nat) : List (Op F Dev) → List (Devices.Op Dev)
  | [] => []
  | .create kind trackId :: past =>
    if board = live then .create kind trackId :: sentTo live board past
    else sentTo live board past
  | .use used op :: past =>
    if board = used then op :: sentTo live board past else sentTo live board past
  | _ :: past => sentTo live board past

variable {F Dev : Type} {emulator : F} {r r' : Registry F}

/-! ### The registry -/

/-- `mock_raspi` is the mock of the interface, and the numbers of its instances are taken. -/
structure Mocked (emulator : F) (r : Registry F) : Prop where
  registered : r.registrations raspi ≠ none
  mock : r.mocks raspi = some emulator
  made : ∀ x, r.instances raspi = some x → x.number < r.made raspi

theorem Mocked.instantiate (h : Mocked emulator r) (itf : String) (factory : F) :
    Mocked emulator (r.instantiate itf factory) ∧
      r.made raspi ≤ (r.instantiate itf factory).made raspi := by
  rcases eq_or_ne itf raspi with rfl | hne
  · refine ⟨⟨h.registered, h.mock, fun x hx => ?_⟩, ?_⟩
    · rw [Registry.instantiate] at hx ⊢
      dsimp only at hx ⊢
      rw [Function.update_self] at hx ⊢
      rw [← Option.some.inj hx]
      exact Nat.lt_succ_self _
    · rw [Registry.instantiate]
      dsimp only
      rw [Function.update_self]
      exact Nat.le_succ _
  · refine ⟨⟨h.registered, h.mock, fun x hx => ?_⟩, ?_⟩
    · rw [Registry.instantiate] at hx ⊢
      dsimp only at hx ⊢
      rw [Function.update_of_ne hne.symm] at hx ⊢
      exact h.made x hx
    · exact Nat.le_of_eq (Function.update_of_ne hne.symm _ _).symm

theorem Mocked.replace (h : Mocked emulator r) {itf : String} {factory : F}
    (hr : r.replace itf factory = some r') :
    Mocked emulator r' ∧ r.made raspi ≤ r'.made raspi := by
  rcases (Registry.replace_eq_some hr).2 with ⟨-, rfl⟩ | ⟨-, rfl⟩
  · exact h.instantiate itf factory
  · exact ⟨⟨h.registered, h.mock, h.made⟩, Nat.le_refl _⟩

/-- No call of the registry takes the mock back. -/
theorem Mocked.step (h : Mocked emulator r) {op : Registry.Op F} (hr : r.step op = some r') :
    Mocked emulator r' ∧ r.made raspi ≤ r'.made raspi := by
  cases op with
  | objectRegistration itf factory =>
      obtain ⟨hnone, rfl⟩ := Registry.objectRegistration_eq_some hr
      have hne : raspi ≠ itf := fun heq => h.registered (heq ▸ hnone)
      exact ⟨⟨(Function.update_of_ne hne _ _).trans_ne h.registered, h.mock, h.made⟩, Nat.le_refl _⟩
  | mockObjectRegistration itf factory =>
      obtain ⟨-, hnone, rfl⟩ := Registry.mockObjectRegistration_eq_some hr
      have hne : raspi ≠ itf := by
        rintro rfl
        rw [h.mock] at hnone
        cases hnone
      exact ⟨⟨h.registered, (Function.update_of_ne hne _ _).trans h.mock, h.made⟩, Nat.le_refl _⟩
  | get itf =>
      obtain ⟨⟨x, u⟩, hget, rfl⟩ := Option.map_eq_some_iff.1 hr
      rcases Registry.get_eq_some hget with ⟨-, rfl⟩ | ⟨-, -, rfl, -⟩
      · exact ⟨h, Nat.le_refl _⟩
      · exact h.instantiate itf x.factory
  | replace itf factory => exact h.replace hr
  | mock itf =>
      rcases Registry.mock_eq_some hr with ⟨-, rfl⟩ | ⟨factory, -, hreplace⟩
      · exact ⟨h, Nat.le_refl _⟩
      · exact h.replace hreplace
  | reset =>
      obtain rfl := Option.some.inj hr
      exact ⟨⟨h.registered, h.mock, fun x hx => absurd hx.symm (Option.some_ne_none x)⟩,
        Nat.le_refl _⟩

/-- The board of the interface stays. -/
theorem instances_of_not_replaces {op : Registry.Op F} {x : Instance F}
    (hlive : r.instances raspi = some x) (hop : ¬ Replaces op) (hr : r.step op = some r') :
    r'.instances raspi = some x := by
  cases op with
  | objectRegistration itf factory =>
      obtain ⟨-, rfl⟩ := Registry.objectRegistration_eq_some hr
      exact hlive
  | mockObjectRegistration itf factory =>
      obtain ⟨-, -, rfl⟩ := Registry.mockObjectRegistration_eq_some hr
      exact hlive
  | get itf =>
      obtain ⟨⟨y, u⟩, hget, rfl⟩ := Option.map_eq_some_iff.1 hr
      rcases Registry.get_eq_some hget with ⟨-, rfl⟩ | ⟨hnone, -, rfl, -⟩
      · exact hlive
      · have hne : raspi ≠ itf := by
          rintro rfl
          rw [hnone] at hlive
          cases hlive
        exact (Function.update_of_ne hne _ _).trans hlive
  | replace itf factory => exact (Registry.instances_of_replace hr hop).trans hlive
  | mock itf =>
      rcases Registry.mock_eq_some hr with ⟨-, rfl⟩ | ⟨factory, -, hreplace⟩
      · exact hlive
      · exact (Registry.instances_of_replace hreplace hop).trans hlive
  | reset => exact absurd trivial hop

theorem step_get {itf : String} {x : Instance F} (h : r.get itf = some (x, r')) :
    r.step (.get itf) = some r' := by
  rw [Registry.step, h]
  rfl

/-- **What a mocked interface gives** is a new instance of the mock, whatever there was. -/
theorem get_of_mock (h : Mocked emulator r) : ∃ u t, r.mock raspi = some u ∧
    u.get raspi = some (⟨raspi, r.made raspi, emulator⟩, t) := by
  have hmock : r.mock raspi = r.replace raspi emulator := by
    rw [Registry.mock, h.mock]
  have hregistered : ¬ (r.registrations raspi).isNone := fun hnone =>
    h.registered (Option.isNone_iff_eq_none.1 hnone)
  rw [hmock, Registry.replace, if_neg hregistered]
  have hnew : (r.instantiate raspi emulator).instances raspi =
      some ⟨raspi, r.made raspi, emulator⟩ := by
    rw [Registry.instantiate]
    dsimp only
    rw [Function.update_self]
  cases hlive : r.instances raspi with
  | some x => exact ⟨_, _, if_pos rfl, Registry.get_of_instance hnew⟩
  | none =>
      obtain ⟨u, hu⟩ : ∃ u, u = { r with
        replacements := Function.update r.replacements raspi (some emulator) } := ⟨_, rfl⟩
      have hfst : (u.get raspi).map Prod.fst = some ⟨raspi, r.made raspi, emulator⟩ := by
        rw [Registry.get_fst, hu]
        dsimp only
        rw [hlive, Function.update_self]
        rfl
      obtain ⟨⟨x, t⟩, hget, rfl⟩ := Option.map_eq_some_iff.1 hfst
      exact ⟨u, t, (if_neg (by simp)).trans (congrArg some hu.symm), hget⟩

/-! ### One operation -/

variable {s t u : Lab F Dev} {past later : List (Op F Dev)} {board n m : Nat}

/-- A board that has not been made is as a new one. -/
structure Good (emulator : F) (s : Lab F Dev) : Prop where
  mocked : Mocked emulator s.registry
  boards : ∀ n, s.registry.made raspi ≤ n → s.boards n = .empty
  emulated : ∀ n ∈ s.emulated, n < s.registry.made raspi

/-- **Emulation never fails**, and gives a new board. -/
theorem emulateRaspi_eq (h : Good emulator s) : ∃ registry,
    s.emulateRaspi = some (s.registry.made raspi, { s with
      registry := registry, emulated := s.registry.made raspi :: s.emulated }) ∧
    registry.instances raspi = some ⟨raspi, s.registry.made raspi, emulator⟩ ∧
    Mocked emulator registry ∧ s.registry.made raspi ≤ registry.made raspi := by
  obtain ⟨u, registry, hmock, hget⟩ := get_of_mock h.mocked
  have hu := h.mocked.step (show s.registry.step (.mock raspi) = some u from hmock)
  have hregistry := hu.1.step (step_get hget)
  refine ⟨registry, ?_, Registry.instances_of_get hget, hregistry.1,
    Nat.le_trans hu.2 hregistry.2⟩
  rw [emulateRaspi, hmock]
  dsimp only [Option.bind_eq_bind, Option.bind_some]
  rw [hget]
  rfl

/-- The registry goes on. -/
theorem Good.registry (h : Good emulator s) (hr : Mocked emulator r)
    (hmade : s.registry.made raspi ≤ r.made raspi) : Good emulator { s with registry := r } :=
  ⟨hr, fun n hn => h.boards n (Nat.le_trans hmade hn),
    fun n hn => Nat.lt_of_lt_of_le (h.emulated n hn) hmade⟩

theorem mem_madeAfter {made : List Device} {device : Device} (op : Devices.Op Dev)
    (h : device ∈ made) : device ∈ Devices.madeAfter made op := by
  cases op with
  | create kind trackId => exact List.mem_cons_of_mem _ h
  | _ => exact h

variable [DecidableEq Dev]

theorem onBoard_eq_some {op : Devices.Op Dev} (h : s.onBoard board op = some t) :
    ∃ b, (s.boards board).step op = some b ∧
      t = { s with boards := Function.update s.boards board b } := by
  obtain ⟨b, hb, rfl⟩ := Option.map_eq_some_iff.1 h
  exact ⟨b, hb, rfl⟩

theorem Good.onBoard (h : Good emulator s) {op : Devices.Op Dev}
    (hboard : board < s.registry.made raspi) (ht : s.onBoard board op = some t) :
    Good emulator t := by
  obtain ⟨b, -, rfl⟩ := onBoard_eq_some ht
  refine ⟨h.mocked, fun n hn => ?_, h.emulated⟩
  have hne : n ≠ board := fun heq => Nat.lt_irrefl _ (Nat.lt_of_lt_of_le (heq ▸ hboard) hn)
  exact (Function.update_of_ne hne _ _).trans (h.boards n hn)

variable [DecidableEq F]

theorem use_eq_some {op : Devices.Op Dev} (h : s.step emulator (.use board op) = some t) :
    (op.device.isSome ∨ board ∈ s.emulated) ∧ (∀ made, Devices.madeAfter made op = made) ∧
      s.onBoard board op = some t := by
  cases op with
  | create kind trackId => cases h
  | _ =>
      rw [step] at h
      split_ifs at h with huse
      · exact ⟨huse, fun _ => rfl, h⟩
      · simp

theorem create_eq_some {kind : DeviceKind} {trackId : Int}
    (h : s.create emulator kind trackId = some t) :
    ∃ x registry, s.registry.get raspi = some (x, registry) ∧
      (x.factory = emulator ∧
          { s with registry := registry }.onBoard x.number (.create kind trackId) = some t ∨
        x.factory ≠ emulator ∧ t = { s with registry := registry }) := by
  obtain ⟨⟨x, registry⟩, hget, h⟩ := Option.bind_eq_some_iff.1 h
  refine ⟨x, registry, hget, ?_⟩
  dsimp only at h
  split_ifs at h with hfactory
  · exact .inl ⟨hfactory, h⟩
  · exact .inr ⟨hfactory, (Option.some.inj h).symm⟩

theorem Good.step (h : Good emulator s) {op : Op F Dev} (ht : s.step emulator op = some t) :
    Good emulator t := by
  cases op with
  | emulateRaspi =>
      obtain ⟨registry, hemulate, hlive, hmocked, hmade⟩ := emulateRaspi_eq h
      rw [Lab.step, hemulate] at ht
      obtain rfl := Option.some.inj ht
      have hgood := h.registry hmocked hmade
      refine ⟨hmocked, hgood.boards, fun n hn => ?_⟩
      rcases List.mem_cons.1 hn with rfl | hn
      · exact hmocked.made _ hlive
      · exact hgood.emulated n hn
  | create kind trackId =>
      obtain ⟨x, registry, hget, hcreate⟩ := create_eq_some ht
      obtain ⟨hmocked, hmade⟩ := h.mocked.step (step_get hget)
      rcases hcreate with ⟨-, hcreate⟩ | ⟨-, rfl⟩
      · exact (h.registry hmocked hmade).onBoard
          (hmocked.made x (Registry.instances_of_get hget)) hcreate
      · exact h.registry hmocked hmade
  | use board op =>
      obtain ⟨huse, -, hboard⟩ := use_eq_some ht
      refine h.onBoard (Nat.lt_of_not_le fun hle => ?_) hboard
      rcases huse with hdevice | hemulated
      · -- nothing has been made on the board
        obtain ⟨b, hb, -⟩ := onBoard_eq_some hboard
        rw [h.boards board hle] at hb
        obtain ⟨device, hop⟩ := Option.isSome_iff_exists.1 hdevice
        exact absurd ((Devices.step_eq_some hb).1 device hop) List.not_mem_nil
      · exact absurd (h.emulated board hemulated) (Nat.not_lt.2 hle)
  | objects op =>
      obtain ⟨registry, hregistry, rfl⟩ := Option.map_eq_some_iff.1 ht
      obtain ⟨hmocked, hmade⟩ := h.mocked.step hregistry
      exact h.registry hmocked hmade

/-- Static initialization has made no instance, and has registered the mock. -/
structure Registered (emulator : F) (r : Registry F) : Prop where
  untouched : r.Untouched
  registered : r.registrations raspi ≠ none
  mock : r.mocks raspi = some emulator

theorem good_exec (hr : Registered emulator r) (h : exec emulator r past = some s) :
    Good emulator s := by
  refine History.exec_invariant (P := fun _ s => Good emulator s) ?_
    (fun _ _ _ _ _ hgood ht => hgood.step ht) h
  refine ⟨⟨hr.registered, hr.mock, fun x hx => ?_⟩, fun _ _ => rfl, fun _ hn => ?_⟩
  · rw [start, hr.untouched.instances] at hx
    cases hx
  · exact absurd hn List.not_mem_nil

/-! ### Since the emulation -/

/-- What has become of `s`, in which the live board was made with the number `n`. -/
structure Since (emulator : F) (n : Nat) (s : Lab F Dev) (later : List (Op F Dev))
    (t : Lab F Dev) : Prop where
  live : t.registry.instances raspi = some ⟨raspi, n, emulator⟩
  history : ∀ m, History.exec Devices.step (s.boards m) (sentTo n m later) = some (t.boards m)
  others : ∀ m, m ≠ n → (t.boards m).made = (s.boards m).made
  created : ∀ kind trackId, .create kind trackId ∈ later →
    kind.create trackId ∈ (t.boards n).made

/-- What is done on one board is done on no other. -/
theorem history_update {b d : Devices Dev} {boards : Nat → Devices Dev} {op : Devices.Op Dev}
    {ops : List (Devices.Op Dev)} (h : History.exec Devices.step d ops = some (boards m))
    (hb : (boards board).step op = some b) :
    History.exec Devices.step d (if m = board then op :: ops else ops) =
      some (Function.update boards board b m) := by
  rcases eq_or_ne m board with rfl | hm
  · rw [if_pos rfl, Function.update_self]
    exact History.exec_step h hb
  · rw [if_neg hm, Function.update_of_ne hm, h]

theorem Since.step (h : Since emulator n s later t) {op : Op F Dev} (hop : op.Quiet)
    (hu : t.step emulator op = some u) : Since emulator n s (op :: later) u := by
  cases op with
  | emulateRaspi => exact absurd hop id
  | create kind trackId =>
      obtain ⟨x, registry, hget, hcreate⟩ := create_eq_some hu
      obtain ⟨rfl, rfl⟩ : x = ⟨raspi, n, emulator⟩ ∧ registry = t.registry := by
        rw [Registry.get_of_instance h.live] at hget
        cases hget
        exact ⟨rfl, rfl⟩
      rcases hcreate with ⟨-, hcreate⟩ | ⟨hne, -⟩
      · obtain ⟨b, hb, rfl⟩ := onBoard_eq_some hcreate
        have hmade := (Devices.step_eq_some hb).2.2
        dsimp only at hb hmade
        refine ⟨h.live, fun m => history_update (h.history m) hb, fun m hm => ?_,
          fun kind' trackId' hmem => ?_⟩
        · exact (congrArg Devices.made (Function.update_of_ne hm _ _)).trans (h.others m hm)
        · dsimp only
          rw [Function.update_self, hmade]
          rcases List.mem_cons.1 hmem with heq | hmem
          · cases heq
            exact List.mem_cons_self
          · exact mem_madeAfter _ (h.created kind' trackId' hmem)
      · exact absurd rfl hne
  | use board op =>
      obtain ⟨-, hmadeAfter, hboard⟩ := use_eq_some hu
      obtain ⟨b, hb, rfl⟩ := onBoard_eq_some hboard
      have hmade : b.made = (t.boards board).made :=
        (Devices.step_eq_some hb).2.2.trans (hmadeAfter _)
      have hsame : ∀ m, (Function.update t.boards board b m).made = (t.boards m).made := by
        intro m
        rcases eq_or_ne m board with rfl | hm
        · rw [Function.update_self, hmade]
        · rw [Function.update_of_ne hm]
      refine ⟨h.live, fun m => history_update (h.history m) hb,
        fun m hm => (hsame m).trans (h.others m hm), fun kind trackId hmem => ?_⟩
      rw [hsame n]
      rcases List.mem_cons.1 hmem with heq | hmem
      · cases heq
      · exact h.created kind trackId hmem
  | objects op =>
      obtain ⟨registry, hregistry, rfl⟩ := Option.map_eq_some_iff.1 hu
      refine ⟨instances_of_not_replaces h.live hop hregistry, h.history, h.others,
        fun kind trackId hmem => ?_⟩
      rcases List.mem_cons.1 hmem with heq | hmem
      · cases heq
      · exact h.created kind trackId hmem

theorem since_exec (h : Since emulator n s [] s) (hquiet : ∀ op ∈ later, op.Quiet)
    (ht : History.exec (Lab.step emulator) s later = some t) : Since emulator n s later t := by
  induction later generalizing t with
  | nil =>
      cases ht
      exact h
  | cons op later ih =>
      obtain ⟨u, hu, hop⟩ := History.exec_cons ht
      exact (ih (fun op' h' => hquiet op' (List.mem_cons_of_mem _ h')) hu).step
        (hquiet op List.mem_cons_self) hop

/-- **Emulation, and the devices made after it.**  After any history `emulate_raspi` returns a board
with nothing on it.  While `raspi` is left to it, all devices that are made are on that board, and
none on others; every board is what its own devices and the test have made of it; and a sensor or a
button on the new one reads what the test has last written through a handle of that board. -/
theorem emulated_devices (hr : Registered emulator r) (h : exec emulator r past = some s) :
    ∃ n s', s.emulateRaspi = some (n, s') ∧ n ∉ s.emulated ∧ s.boards n = .empty ∧
      ∀ later t, (∀ op ∈ later, op.Quiet) →
        History.exec (step emulator) s' later = some t →
        (∀ kind trackId, .create kind trackId ∈ later →
          kind.create trackId ∈ (t.boards n).made) ∧
        (∀ m, m ≠ n → (t.boards m).made = (s.boards m).made) ∧
        (∀ m, History.exec Devices.step (s.boards m) (sentTo n m later) = some (t.boards m)) ∧
        ∀ device ∈ (t.boards n).made, isHigh (t.boards n).pi device.pinId =
          if Devices.lastMode (sentTo n n later) device.pinId = some .output then none
          else some (decide (Devices.lastInput device.pinId (sentTo n n later) = .high)) := by
  have hgood := good_exec hr h
  obtain ⟨registry, hemulate, hlive, hmocked, hmade⟩ := emulateRaspi_eq hgood
  have hempty := hgood.boards _ (Nat.le_refl _)
  refine ⟨_, _, hemulate, fun hn => Nat.lt_irrefl _ (hgood.emulated _ hn), hempty,
    fun later t hquiet ht => ?_⟩
  have hsince := since_exec ⟨hlive, fun _ => rfl, fun _ _ => rfl, fun _ _ hmem =>
    absurd hmem List.not_mem_nil⟩ hquiet ht
  refine ⟨hsince.created, hsince.others, hsince.history, fun device hdevice => ?_⟩
  have hexec := hsince.history (s.registry.made raspi)
  dsimp only at hexec
  rw [hempty] at hexec
  exact Devices.isHigh_of_made hexec hdevice

/-- The program's own registrations of the interface. -/
def registered : Registry Nat :=
  { Registry.empty with
    registrations := Function.update (fun _ => none) raspi (some 0)
    mocks := Function.update (fun _ => none) raspi (some 1) }

/-- A sensor on the board of an earlier emulation. -/
def earlierSensor : List (Op Nat Unit) := [.create .sensor 4, .emulateRaspi]

/-- The test triggers a sensor on the board that it is given next. -/
def laterSensor : List (Op Nat Unit) :=
  [.use 1 (.writeHandle ⟨4⟩ .high), .use 1 (.connectInput 4), .create .sensor 4]

theorem registered_registered : Registered 1 registered :=
  ⟨⟨rfl, rfl, rfl⟩, Option.some_ne_none 0, rfl⟩

theorem laterSensor_triggered : ∃ s n s' t, exec 1 registered earlierSensor = some s ∧
    s.emulateRaspi = some (n, s') ∧ History.exec (step 1) s' laterSensor = some t ∧
    isHigh (t.boards n).pi 4 = some true := by
  have hs : exec 1 registered earlierSensor = some _ := rfl
  obtain ⟨n, s', hemulate, -, -, hlater⟩ := emulated_devices registered_registered hs
  have hnew : some _ = some (n, s') := hemulate
  cases hnew
  obtain ⟨hcreated, -, -, hhigh⟩ :=
    hlater laterSensor _ (by simp [laterSensor, Op.Quiet, Replaces]) rfl
  refine ⟨_, _, _, _, hs, hemulate, rfl, ?_⟩
  exact hhigh ⟨.sensor, 4⟩ (hcreated .sensor 4 (by simp [laterSensor]))

end Lab

end DrivingSim
