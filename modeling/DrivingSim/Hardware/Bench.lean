import DrivingSim.Hardware.MotorPin
import DrivingSim.Hardware.PinModes
import DrivingSim.Hardware.WindowDelivery

/-!
# Hardware — a motor on the bench

A motor whose pin is emulated, with an oscilloscope connected to the pin: the owner of the motor,
its thread, the clients and the two threads of the oscilloscope, and other devices at the other
pins of the emulator, in any order.  What the thread writes goes through `digital_write` of the
emulator to `write` of the oscilloscope, which keeps it for the sampler.

So no write of the motor aborts, each sample is what the motor has the pin at when it is taken, and
each window that is delivered is such samples, one after the other (`windows_measure`).
-/

namespace DrivingSim

/-! ### Only a write changes what is kept for the sampler -/

namespace Oscilloscope

variable {κ : Type} {s : Oscilloscope κ}

theorem fillWindowOn_value {name : String} {size : ℕ} {trigger : DigitalVal} {callback : κ} :
    (s.fillWindowOn name size trigger callback).value = s.value := by
  rw [fillWindowOn]
  split_ifs
  · rfl
  · rfl

theorem samplerStep_value : s.samplerStep.value = s.value := by
  rw [samplerStep]
  cases s.sampler with
  | start =>
      dsimp only
      rw [takeSample_eq, activate]
      split_ifs <;> rfl
  | filled newlyFilled => rfl
  | notifying =>
      dsimp only
      rw [notifyOne]
      cases s.flusher <;> rfl

theorem takeFilled_value : s.takeFilled.value = s.value := by
  rw [takeFilled]
  cases s.filledWindows <;> rfl

theorem flusherStep_value : s.flusherStep.value = s.value := by
  rw [flusherStep]
  cases s.flusher with
  | start => exact takeFilled_value
  | waiting => rfl
  | woken => exact takeFilled_value
  | flushing toFlush => cases toFlush <;> rfl

end Oscilloscope

open Motor (Wired)

/-! ### The bench -/

/-- The value that the thread of a motor is about to write. -/
def Motor.Wired.writes {D : Type} (s : Wired D) : Option DigitalVal :=
  match s.motor.thread, s.stage with
  | .pulse _, .high => some .high
  | .pulse _, .low => some .low
  | _, _ => none

structure Bench (D Dev : Type) where
  motor : Wired D
  pins : PinEmulator Dev
  scope : Logged
  /-- What the motor had its pin at when each sample was taken. -/
  seen : List DigitalVal

namespace Bench

variable {D Dev : Type} [Double D] [DecidableEq Dev]

/-- What an operation of the emulator writes to the oscilloscope `dev`. -/
def deliver (dev : Dev) (pins : PinEmulator Dev) (op : PinEmulator.Op Dev) (scope : Logged) :
    Logged :=
  match op with
  | .digitalWrite pin value =>
    if pins.outputs pin = some dev then ⟨scope.scope.write value, scope.log⟩ else scope
  | _ => scope

/-- The operation is none of those that are made for the pin, nor does it connect the oscilloscope
to another one. -/
def Elsewhere (pinId : Int) (dev : Dev) : PinEmulator.Op Dev → Prop
  | .pinMode pin _ => pin ≠ pinId
  | .connectOutput _ dev' => dev' ≠ dev
  | .digitalWrite pin _ => pin ≠ pinId
  | _ => True

/-- A step, for a motor at the pin `pinId` and the oscilloscope `dev`, which had `value` in it when
it was made. -/
inductive Step (pinId : Int) (dev : Dev) (value : DigitalVal) :
    Bench D Dev → Bench D Dev → Prop where
  | call (s : Bench D Dev) (motor : Wired D) (h : s.motor.Call motor) :
      Step pinId dev value s { s with motor := motor }
  | thread (s : Bench D Dev) (h : s.motor.writes = none) :
      Step pinId dev value s { s with motor := s.motor.threadStep }
  | write (s : Bench D Dev) (v : DigitalVal) (pins : PinEmulator Dev)
      (h : s.motor.writes = some v) (hpins : s.pins.digitalWrite pinId v = some pins) :
      Step pinId dev value s { s with
        motor := s.motor.threadStep
        pins := pins
        scope := deliver dev s.pins (.digitalWrite pinId v) s.scope }
  | other (s : Bench D Dev) (op : PinEmulator.Op Dev) (pins : PinEmulator Dev)
      (h : Elsewhere pinId dev op) (hpins : s.pins.step op = some pins) :
      Step pinId dev value s { s with pins := pins, scope := deliver dev s.pins op s.scope }
  | fillWindow (s : Bench D Dev) (name : String) (size : ℕ) :
      Step pinId dev value s { s with scope := s.scope.fillWindow name size }
  | fillWindowOn (s : Bench D Dev) (name : String) (size : ℕ) (trigger : DigitalVal) :
      Step pinId dev value s { s with scope := s.scope.fillWindowOn name size trigger }
  | sampler (s : Bench D Dev) :
      Step pinId dev value s { s with
        scope := s.scope.samplerStep
        seen :=
          match s.scope.scope.sampler with
          | .start => s.seen ++ [Wired.level value s.motor.log]
          | _ => s.seen }
  | flusher (s : Bench D Dev) :
      Step pinId dev value s { s with scope := s.scope.flusherStep }

/-- The pin is an output, with the oscilloscope, which is at no other pin. -/
structure Ready (pinId : Int) (dev : Dev) (pins : PinEmulator Dev) : Prop where
  mode : pins.pinModes pinId = some .output
  output : pins.outputs pinId = some dev
  alone : ∀ pin, pins.outputs pin = some dev → pin = pinId

/-- A new motor and a new oscilloscope. -/
def start (pins : PinEmulator Dev) (value lastSample : DigitalVal) (sr : ℕ) : Bench D Dev :=
  ⟨.init, pins, .init value lastSample sr, []⟩

/-- What is known in every state. -/
structure Measures (pinId : Int) (dev : Dev) (value lastSample : DigitalVal) (sr : ℕ)
    (s : Bench D Dev) : Prop where
  ready : Ready pinId dev s.pins
  motor : Wired.Train s.motor
  scope : Relation.ReflTransGen Logged.Step (.init value lastSample sr) s.scope
  value : s.scope.scope.value = Wired.level value s.motor.log
  samples : s.scope.log.samples = s.seen

/-! ### The pins -/

section Pins

variable {pinId : Int} {dev : Dev} {pins pins' : PinEmulator Dev} {op : PinEmulator.Op Dev}

/-- A write to the pin does not abort, and leaves everything ready. -/
theorem Ready.digitalWrite (h : Ready pinId dev pins) (v : DigitalVal) :
    ∃ pins', pins.digitalWrite pinId v = some pins' := by
  rw [PinEmulator.digitalWrite, h.mode, h.output]
  exact ⟨_, rfl⟩

theorem Ready.written (h : Ready pinId dev pins) {v : DigitalVal}
    (hpins : pins.digitalWrite pinId v = some pins') : Ready pinId dev pins' := by
  rcases PinEmulator.digitalWrite_eq_some hpins with ⟨dev', -, rfl⟩ | ⟨-, rfl⟩
  · exact ⟨h.mode, h.output, h.alone⟩
  · exact h

/-- Nothing that is done at the other pins makes a difference. -/
theorem Ready.other (h : Ready pinId dev pins) (hop : Elsewhere pinId dev op)
    (hpins : pins.step op = some pins') : Ready pinId dev pins' := by
  refine ⟨?_, PinEmulator.outputs_step hpins h.output, fun pin hpin => ?_⟩
  · rw [PinEmulator.pinModes_step hpins]
    cases op with
    | pinMode pin mode =>
        rw [PinEmulator.modesAfter, Function.update_of_ne (Ne.symm hop)]
        exact h.mode
    | _ => exact h.mode
  · cases op with
    | pinMode pin' mode =>
        cases hpins
        exact h.alone pin hpin
    | connectOutput pin' dev' =>
        obtain ⟨-, -, rfl⟩ := PinEmulator.connectOutput_eq_some hpins
        dsimp only at hpin
        rcases eq_or_ne pin pin' with rfl | hne
        · rw [Function.update_self] at hpin
          exact absurd (Option.some.inj hpin) hop
        · rw [Function.update_of_ne hne] at hpin
          exact h.alone pin hpin
    | connectInput pin' =>
        obtain ⟨-, -, rfl⟩ := PinEmulator.connectInput_eq_some hpins
        exact h.alone pin hpin
    | writeHandle handle v =>
        obtain ⟨-, rfl⟩ := PinEmulator.writeHandle_eq_some hpins
        exact h.alone pin hpin
    | digitalWrite pin' v =>
        rcases PinEmulator.digitalWrite_eq_some hpins with ⟨dev', -, rfl⟩ | ⟨-, rfl⟩
        · exact h.alone pin hpin
        · exact h.alone pin hpin
    | digitalRead pin' =>
        obtain ⟨v, -, rfl⟩ := Option.map_eq_some_iff.1 hpins
        exact h.alone pin hpin

theorem Ready.deliver_written (h : Ready pinId dev pins) (v : DigitalVal) (scope : Logged) :
    deliver dev pins (.digitalWrite pinId v) scope = ⟨scope.scope.write v, scope.log⟩ := by
  rw [deliver, if_pos h.output]

/-- And it brings nothing to the oscilloscope. -/
theorem Ready.deliver_other (h : Ready pinId dev pins) (hop : Elsewhere pinId dev op)
    (scope : Logged) : deliver dev pins op scope = scope := by
  cases op with
  | digitalWrite pin v => exact if_neg fun hout => hop (h.alone pin hout)
  | _ => rfl

end Pins

/-! ### The motor -/

section Level

variable {s t : Wired D} {value v : DigitalVal}

theorem level_call (h : s.Call t) : Wired.level value t.log = Wired.level value s.log := by
  cases h with
  | setAcceleration a h => rfl
  | calibrate x h =>
      rw [Wired.level_append]
      rfl
  | requestHalt h => rfl
  | join h h' => rfl

/-- What the thread is about to write is what the pin is at next. -/
theorem level_threadStep : Wired.level value s.threadStep.log =
    s.writes.getD (Wired.level value s.log) := by
  rcases s.threadStep_cases with ⟨hr, hs⟩ | ⟨delay, hp, hs⟩ | ⟨hr, hp, hs⟩
  · rw [hs, Wired.level_append, Wired.writes, hr]
    rfl
  · rw [hs, Wired.level_append, Wired.writes, hp]
    cases s.stage <;> rfl
  · rw [hs, Wired.writes]
    cases h : s.motor.thread with
    | read => exact absurd h hr
    | pulse delay => exact absurd h (hp delay)
    | _ => rfl

end Level

/-! ### A run -/

variable {pinId : Int} {dev : Dev} {value lastSample : DigitalVal} {sr : ℕ} {s t : Bench D Dev}

namespace Measures

omit [DecidableEq Dev] in
theorem start {pins : PinEmulator Dev} (h : Ready pinId dev pins) :
    Measures pinId dev value lastSample sr (start pins value lastSample sr : Bench D Dev) :=
  ⟨h, .init, .refl, rfl, rfl⟩

omit [DecidableEq Dev] in
/-- A step of the oscilloscope that takes no sample. -/
theorem scope_step (h : Measures pinId dev value lastSample sr s) {scope : Logged}
    (hstep : Logged.Step s.scope scope) (hvalue : scope.scope.value = s.scope.scope.value)
    (hsamples : scope.log.samples = s.scope.log.samples) :
    Measures pinId dev value lastSample sr { s with scope := scope } :=
  ⟨h.ready, h.motor, h.scope.tail hstep, hvalue.trans h.value, hsamples.trans h.samples⟩

omit [DecidableEq Dev] in
theorem sampler (h : Measures pinId dev value lastSample sr s) :
    Measures pinId dev value lastSample sr { s with
      scope := s.scope.samplerStep
      seen :=
        match s.scope.scope.sampler with
        | .start => s.seen ++ [Wired.level value s.motor.log]
        | _ => s.seen } := by
  refine ⟨h.ready, h.motor, h.scope.tail (.sampler s.scope),
    Oscilloscope.samplerStep_value.trans h.value, ?_⟩
  dsimp only
  rw [Logged.samplerStep]
  cases s.scope.scope.sampler with
  | start =>
      dsimp only
      rw [Logged.takeSample_samples, h.samples, h.value]
  | filled newlyFilled => exact h.samples
  | notifying => exact h.samples

theorem step (h : Measures pinId dev value lastSample sr s) (hs : Step pinId dev value s t) :
    Measures pinId dev value lastSample sr t := by
  cases hs with
  | call motor hcall =>
      exact ⟨h.ready, h.motor.call hcall, h.scope, h.value.trans (level_call hcall).symm, h.samples⟩
  | thread hnone =>
      refine ⟨h.ready, h.motor.threadStep, h.scope, ?_, h.samples⟩
      dsimp only
      rw [level_threadStep, hnone]
      exact h.value
  | write v pins hv hpins =>
      rw [h.ready.deliver_written]
      refine ⟨h.ready.written hpins, h.motor.threadStep, h.scope.tail (.write s.scope v), ?_,
        h.samples⟩
      dsimp only
      rw [level_threadStep, hv]
      rfl
  | other op pins hop hpins =>
      rw [h.ready.deliver_other hop]
      exact ⟨h.ready.other hop hpins, h.motor, h.scope, h.value, h.samples⟩
  | fillWindow name size => exact h.scope_step (.fillWindow s.scope name size) rfl rfl
  | fillWindowOn name size trigger =>
      exact h.scope_step (.fillWindowOn s.scope name size trigger)
        Oscilloscope.fillWindowOn_value rfl
  | sampler => exact h.sampler
  | flusher =>
      refine h.scope_step (.flusher s.scope) Oscilloscope.flusherStep_value ?_
      rw [Logged.flusherStep]
      cases s.scope.scope.flusher with
      | flushing toFlush => cases toFlush <;> rfl
      | _ => rfl

theorem of_run {pins : PinEmulator Dev} (hpins : Ready pinId dev pins)
    (h : Relation.ReflTransGen (Step pinId dev value) (Bench.start pins value lastSample sr) s) :
    Measures pinId dev value lastSample sr s :=
  reachable_invariant (start hpins) (fun _ _ _ ht hstep => ht.step hstep) h

omit [Double D] in
/-- Once the motor has written, what was there before is of no account. -/
theorem level_eq_of_write {log : List (Motor.Event D)} {v w : DigitalVal}
    (h : ∃ u, Motor.Event.write u ∈ log) : Wired.level v log = Wired.level w log := by
  induction log generalizing v w with
  | nil =>
      obtain ⟨u, hu⟩ := h
      exact absurd hu List.not_mem_nil
  | cons e log ih =>
      cases e with
      | write u => rfl
      | read delay => exact ih (by simpa using h)
      | sleep delay => exact ih (by simpa using h)
      | turn => exact ih (by simpa using h)
      | calibrate x => exact ih (by simpa using h)

omit [Double D] [DecidableEq Dev] in
/-- A window that has been delivered is full. -/
theorem called (h : Logged.Tracks s.scope) {req : WindowReq ℕ} (hreq : req ∈ s.scope.log.called) :
    ∃ a ∈ s.scope.log.admitted,
      req.data = (s.scope.log.samples.drop a.start).take req.numSamples ∧
        req.data.length = req.numSamples := by
  have hdue : req ∈ (due Admission.last s.scope.log.admitted s.scope.log.samples.length).map
      (Admission.full · s.scope.log.samples) := by
    rw [← h.filled]
    simp only [List.mem_append, hreq, true_or]
  obtain ⟨a, ha, rfl⟩ := List.mem_map.1 hdue
  obtain ⟨hadmitted, k, hk, hlast⟩ := mem_due.1 ha
  exact ⟨a, hadmitted, rfl, Logged.full_length hlast hk⟩

end Measures

/-- **The oscilloscope measures the motor.**  Whatever the order of the steps of the owner, of the
three threads, of the clients of the oscilloscope and of the devices at the other pins: the pin can
be written; the samples are what the motor had its pin at when they were taken; since its first
write, what the next sample is to be is high exactly where the thread is between the two writes of
a pulse; and each window that has been delivered is as many samples in a row as were requested. -/
theorem windows_measure {pins : PinEmulator Dev} (hpins : Ready pinId dev pins)
    (h : Relation.ReflTransGen (Step pinId dev value) (start pins value lastSample sr) s) :
    (∀ v, ∃ pins', s.pins.digitalWrite pinId v = some pins') ∧
    s.scope.log.samples = s.seen ∧
    ((∃ v, .write v ∈ s.motor.log) → (s.scope.scope.value = .high ↔
      (∃ delay, s.motor.motor.thread = .pulse delay) ∧
        (s.motor.stage = .sleepHigh ∨ s.motor.stage = .low))) ∧
    ∀ req ∈ s.scope.log.called, ∃ a ∈ s.scope.log.admitted,
      req.data = (s.seen.drop a.start).take req.numSamples ∧
        req.data.length = req.numSamples := by
  have hm := Measures.of_run hpins h
  refine ⟨hm.ready.digitalWrite, hm.samples, fun hwritten => ?_, ?_⟩
  · rw [hm.value, Measures.level_eq_of_write (w := .low) hwritten, hm.motor.level]
  · rw [← hm.samples]
    exact fun req hreq => Measures.called (.of_run hm.scope) hreq

/-! ### The first write of a motor -/

/-- The pin of a motor, with the oscilloscope. -/
def motorPins : PinEmulator Unit :=
  { PinEmulator.empty with
    pinModes := Function.update (fun _ => none) 18 (some .output)
    outputs := Function.update (fun _ => none) 18 (some ()) }

theorem motorPins_ready : Ready 18 () motorPins where
  mode := rfl
  output := rfl
  alone pin hpin := by
    by_contra hne
    rw [motorPins] at hpin
    dsimp only at hpin
    rw [Function.update_of_ne hne] at hpin
    cases hpin

theorem thread_of_eq {w w' : Wired D} {pins : PinEmulator Dev} {scope : Logged}
    {seen : List DigitalVal} (h : w.writes = none) (hw : w.threadStep = w') :
    Step pinId dev value ⟨w, pins, scope, seen⟩ ⟨w', pins, scope, seen⟩ := by
  rw [← hw]
  exact .thread _ h

open Motor in
/-- The oscilloscope has the first write of the motor. -/
theorem started_measured :
    PinEmulator.exec [.connectOutput 18 (), .pinMode 18 .output] = some motorPins ∧
    ∃ s : Bench XReal Unit,
      Relation.ReflTransGen (Step 18 () .low) (start motorPins .low .low 44100) s ∧
        s.scope.scope.value = .high := by
  obtain ⟨hcheck, hread, hpulse⟩ := Wired.started_threadStep
  have hset : Step 18 () .low (start motorPins .low .low 44100)
      ⟨⟨started, .calling, .high, []⟩, motorPins, .init .low .low 44100, []⟩ :=
    .call _ _ (.setAcceleration _ (XReal.fin 0) rfl)
  have hquiet : Wired.writes ⟨started, .calling, .high, []⟩ = none := by
    rw [Wired.writes, started_idle.2]
  have hrun := (((Relation.ReflTransGen.single hset).tail (thread_of_eq hquiet hcheck)).tail
    (thread_of_eq rfl hread)).tail (thread_of_eq rfl hpulse)
  have hwrite := hrun.tail (.write _ .high _ rfl rfl)
  exact ⟨rfl, _, hwrite, ((windows_measure motorPins_ready hwrite).2.2.1
    ⟨.high, List.mem_append_right _ List.mem_cons_self⟩).2 ⟨⟨_, rfl⟩, .inl rfl⟩⟩

end Bench

end DrivingSim
