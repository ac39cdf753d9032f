import DrivingSim.Hardware.MotorLifetime
import DrivingSim.Hardware.Oscilloscope

/-!
# Hardware — the motor at its pin

What the thread of `motor_impl` does between the two locks of `pwm`: it writes the pin high and
sleeps, and writes it low and sleeps.  `Motor` makes one step of it; here each write and each sleep
is a step, and the owner may call between any two of them.  A log of the run is kept beside.

* `wired_iff`: the motors that are reached are the same.
* `pulse_train`: the thread sends one pulse after the other, each of two sleeps of the delay that it
  has read under the lock, whatever the owner calls; the pin is high between the two writes of a
  pulse and at no other time; and the position is that of the last calibration with a step of the
  wheel added for each pulse since.
-/

namespace DrivingSim.Motor

/-- Where the thread is between the two locks of `pwm`. -/
inductive Stage where
  /-- At the first write. -/
  | high
  | sleepHigh
  /-- At the second write. -/
  | low
  | sleepLow
  /-- At the second lock. -/
  | lock
  deriving DecidableEq

/-- What is done in `pwm`, and the calls of `calibrate`. -/
inductive Event (D : Type) where
  /-- The first section. -/
  | read (delay : D)
  | write (value : DigitalVal)
  | sleep (delay : D)
  /-- The second section. -/
  | turn
  | calibrate (newPosition : D)

/-- The event is one of the thread. -/
def Event.ofThread {D : Type} : Event D → Bool
  | .calibrate _ => false
  | _ => true

/-- What the thread does at a stage, and the stage after it. -/
def Stage.next {D : Type} (delay : D) : Stage → Event D × Stage
  | .high => (.write .high, .sleepHigh)
  | .sleepHigh => (.sleep delay, .low)
  | .low => (.write .low, .sleepLow)
  | .sleepLow => (.sleep delay, .lock)
  -- and then the test of the loop, or the end
  | .lock => (.turn, .high)

/-- A motor and its owner, and the thread at the pin. -/
structure Wired (D : Type) where
  motor : Motor D
  owner : Owner
  stage : Stage
  log : List (Event D)

namespace Wired

variable {D : Type} [Double D]

def init : Wired D := ⟨Motor.init, .calling, .high, []⟩

def owned (s : Wired D) : Owned D := ⟨s.motor, s.owner⟩

/-- What the thread does next. -/
def threadStep (s : Wired D) : Wired D :=
  match s.motor.thread with
  | .read =>
    { s with motor := s.motor.threadStep, log := s.log ++ [.read s.motor.locklessDelay] }
  | .pulse delay =>
    { s with
      motor := if s.stage = .lock then s.motor.threadStep else s.motor
      stage := (s.stage.next delay).2
      log := s.log ++ [(s.stage.next delay).1] }
  | _ => { s with motor := s.motor.threadStep }

/-- A call of the owner. -/
inductive Call : Wired D → Wired D → Prop where
  | setAcceleration (s : Wired D) (acceleration : D) (h : s.owner = .calling) :
      Call s { s with motor := s.motor.setAcceleration acceleration }
  | calibrate (s : Wired D) (newPosition : D) (h : s.owner = .calling) :
      Call s { s with
        motor := s.motor.calibrate newPosition
        log := s.log ++ [.calibrate newPosition] }
  | requestHalt (s : Wired D) (h : s.owner = .calling) :
      Call s { s with motor := s.motor.requestHalt, owner := .joining }
  | join (s : Wired D) (h : s.owner = .joining) (h' : s.motor.thread = .exited) :
      Call s { s with owner := .destroyed }

inductive Step : Wired D → Wired D → Prop where
  | call {s t : Wired D} (h : Call s t) : Step s t
  | thread (s : Wired D) : Step s s.threadStep

abbrev Run : Wired D → Wired D → Prop := Relation.ReflTransGen Step

/-! ### The steps of the thread -/

variable {s t : Wired D}

theorem threadStep_of_read (h : s.motor.thread = .read) : s.threadStep =
    { s with motor := s.motor.threadStep, log := s.log ++ [.read s.motor.locklessDelay] } := by
  rw [threadStep, h]

theorem threadStep_of_pulse {delay : D} (h : s.motor.thread = .pulse delay) : s.threadStep =
    { s with
      motor := if s.stage = .lock then s.motor.threadStep else s.motor
      stage := (s.stage.next delay).2
      log := s.log ++ [(s.stage.next delay).1] } := by
  rw [threadStep, h]

/-- The thread reads the delay, is in a pulse, or does what it does in `Motor`. -/
theorem threadStep_cases (s : Wired D) :
    (s.motor.thread = .read ∧ s.threadStep =
      { s with motor := s.motor.threadStep, log := s.log ++ [.read s.motor.locklessDelay] }) ∨
    (∃ delay, s.motor.thread = .pulse delay ∧ s.threadStep =
      { s with
        motor := if s.stage = .lock then s.motor.threadStep else s.motor
        stage := (s.stage.next delay).2
        log := s.log ++ [(s.stage.next delay).1] }) ∨
    s.motor.thread ≠ .read ∧ (∀ delay, s.motor.thread ≠ .pulse delay) ∧
      s.threadStep = { s with motor := s.motor.threadStep } := by
  cases h : s.motor.thread with
  | read => exact .inl ⟨rfl, threadStep_of_read h⟩
  | pulse delay => exact .inr (.inl ⟨delay, rfl, threadStep_of_pulse h⟩)
  | idle =>
      refine .inr (.inr ⟨fun e => (nomatch e), fun _ e => (nomatch e), ?_⟩)
      rw [threadStep, h]
  | waiting =>
      refine .inr (.inr ⟨fun e => (nomatch e), fun _ e => (nomatch e), ?_⟩)
      rw [threadStep, h]
  | check =>
      refine .inr (.inr ⟨fun e => (nomatch e), fun _ e => (nomatch e), ?_⟩)
      rw [threadStep, h]
  | exited =>
      refine .inr (.inr ⟨fun e => (nomatch e), fun _ e => (nomatch e), ?_⟩)
      rw [threadStep, h]

/-! ### The motor is the same -/

theorem Call.owned (h : Call s t) : Owned.Step s.owned t.owned := by
  cases h with
  | setAcceleration a h =>
      rw [Wired.owned, h]
      exact .setAcceleration s.motor a
  | calibrate x h =>
      rw [Wired.owned, h]
      exact .calibrate s.motor x
  | requestHalt h =>
      rw [Wired.owned, h]
      exact .requestHalt s.motor
  | join h h' =>
      rw [Wired.owned, h]
      exact .join s.motor h'

/-- A step is one of the motor, or none. -/
theorem Step.owned (h : Step s t) : Owned.Run s.owned t.owned := by
  cases h with
  | call h => exact .single h.owned
  | thread =>
      rcases s.threadStep_cases with ⟨-, hs⟩ | ⟨delay, -, hs⟩ | ⟨-, -, hs⟩
      · rw [hs]
        exact .single (.thread s.motor s.owner)
      · rw [hs]
        by_cases hlock : s.stage = .lock
        · rw [if_pos hlock]
          exact .single (.thread s.motor s.owner)
        · rw [if_neg hlock]
          exact .refl
      · rw [hs]
        exact .single (.thread s.motor s.owner)

theorem Run.owned (h : Run s t) : Owned.Run s.owned t.owned :=
  h.lift' Wired.owned fun _ _ hstep => hstep.owned

/-- A whole pulse. -/
theorem run_pulse {delay : D} (h : s.motor.thread = .pulse delay) (hs : s.stage = .high) :
    ∃ t, Run s t ∧ t.owned = ⟨s.motor.threadStep, s.owner⟩ ∧ t.stage = .high := by
  obtain ⟨m, o, stage, log⟩ := s
  dsimp only at h hs
  subst hs
  have hstep : ∀ stage log, Step ⟨m, o, stage, log⟩
      ⟨if stage = .lock then m.threadStep else m, o, (stage.next delay).2,
        log ++ [(stage.next delay).1]⟩ := by
    intro stage log
    have hthread := Step.thread (⟨m, o, stage, log⟩ : Wired D)
    rw [threadStep_of_pulse h] at hthread
    exact hthread
  exact ⟨_, .tail (.tail (.tail (.tail (.single (hstep .high log)) (hstep .sleepHigh _))
    (hstep .low _)) (hstep .sleepLow _)) (hstep .lock _), rfl, rfl⟩

/-- A step of the motor, from the first write of a pulse or from outside of one. -/
theorem run_of_owned {a : Owned D} (hs : s.stage = .high) (h : Owned.Step s.owned a) :
    ∃ t, Run s t ∧ t.owned = a ∧ t.stage = .high := by
  obtain ⟨m, o, stage, log⟩ := s
  cases h with
  | setAcceleration m x => exact ⟨_, .single (.call (.setAcceleration _ x rfl)), rfl, hs⟩
  | calibrate m x => exact ⟨_, .single (.call (.calibrate _ x rfl)), rfl, hs⟩
  | requestHalt m => exact ⟨_, .single (.call (.requestHalt _ rfl)), rfl, hs⟩
  | join m he => exact ⟨_, .single (.call (.join _ rfl he)), rfl, hs⟩
  | thread m o =>
      rcases threadStep_cases ⟨m, o, stage, log⟩ with ⟨-, ht⟩ | ⟨delay, hp, -⟩ | ⟨-, -, ht⟩
      · refine ⟨_, .single (.thread _), ?_, ?_⟩
        · rw [ht]
          rfl
        · rw [ht]
          exact hs
      · exact run_pulse hp hs
      · refine ⟨_, .single (.thread _), ?_, ?_⟩
        · rw [ht]
          rfl
        · rw [ht]
          exact hs

/-- **The motors that are reached are the same**, whether the writes and the sleeps of a pulse are
steps of their own or not. -/
theorem wired_iff (a : Owned D) :
    (∃ s, Run init s ∧ s.owned = a) ↔ Owned.Run ⟨Motor.init, .calling⟩ a := by
  constructor
  · rintro ⟨s, hrun, rfl⟩
    exact hrun.owned
  · intro hrun
    suffices h : ∃ s, Run init s ∧ s.owned = a ∧ s.stage = .high by
      obtain ⟨s, hs, ha, -⟩ := h
      exact ⟨s, hs, ha⟩
    induction hrun with
    | refl => exact ⟨init, .refl, rfl, rfl⟩
    | tail _ hstep ih =>
        obtain ⟨s, hs, rfl, hstage⟩ := ih
        obtain ⟨t, ht, ha, hstage'⟩ := run_of_owned hstage hstep
        exact ⟨t, hs.trans ht, ha, hstage'⟩

/-! ### The log -/

/-- The events of one pulse. -/
def pulse (delay : D) : List (Event D) :=
  [.read delay, .write .high, .sleep delay, .write .low, .sleep delay, .turn]

/-- The events of a pulse that has come to a stage. -/
def begun (delay : D) : Stage → List (Event D)
  | .high => [.read delay]
  | .sleepHigh => [.read delay, .write .high]
  | .low => [.read delay, .write .high, .sleep delay]
  | .sleepLow => [.read delay, .write .high, .sleep delay, .write .low]
  | .lock => [.read delay, .write .high, .sleep delay, .write .low, .sleep delay]

/-- The events of the pulse that the thread is in. -/
def underway (pc : Pc D) (stage : Stage) : List (Event D) :=
  match pc with
  | .pulse delay => begun delay stage
  | _ => []

/-- What the pin is at, if it was at `value` before. -/
def level (value : DigitalVal) (log : List (Event D)) : DigitalVal :=
  log.foldl (fun v e => match e with | .write w => w | _ => v) value

/-- The position, by the log. -/
def position (log : List (Event D)) : D :=
  log.foldl (fun x e => match e with
    | .turn => x + radiansPerTurn * radius
    | .calibrate y => y
    | _ => x) 0.0

/-- What is known in every state. -/
structure Train (s : Wired D) : Prop where
  pulses : ∃ delays : List D, s.log.filter Event.ofThread =
    delays.flatMap pulse ++ underway s.motor.thread s.stage
  stage : (∀ delay, s.motor.thread ≠ .pulse delay) → s.stage = .high
  pos : s.motor.pos = position s.log
  destroyed : s.owner = .destroyed → s.motor.thread = .exited

omit [Double D] in
/-- A pulse, stage by stage. -/
theorem begun_next {delay : D} {stage : Stage} (h : stage ≠ .lock) :
    begun delay stage ++ [(stage.next delay).1] = begun delay (stage.next delay).2 := by
  cases stage with
  | lock => exact absurd rfl h
  | _ => rfl

omit [Double D] in
theorem ofThread_next (delay : D) (stage : Stage) :
    (stage.next delay).1.ofThread = true := by
  cases stage <;> rfl

omit [Double D] in
theorem filter_append {log : List (Event D)} {e : Event D} (h : e.ofThread = true) :
    (log ++ [e]).filter Event.ofThread = log.filter Event.ofThread ++ [e] := by
  rw [List.filter_append, List.filter_cons_of_pos h]
  rfl

theorem position_append (log : List (Event D)) (e : Event D) : position (log ++ [e]) =
    match e with
    | .turn => position log + radiansPerTurn * radius
    | .calibrate y => y
    | _ => position log := by
  rw [position, List.foldl_append]
  rfl

namespace Train

theorem init : Train (Wired.init : Wired D) :=
  ⟨⟨[], rfl⟩, fun _ => rfl, rfl, fun h => (nomatch h)⟩

/-- A step of the thread outside of a pulse. -/
theorem of_other (h : Train s) (hp : ∀ delay, s.motor.thread ≠ .pulse delay)
    (hr : s.motor.thread ≠ .read) :
    Train { s with motor := s.motor.threadStep } := by
  have hstep : ∃ pc, s.motor.threadStep = { s.motor with thread := pc } := by
    rcases s.motor.threadStep_cases with hs | ⟨delay, pc, ht, -⟩
    · exact hs
    · exact absurd ht (hp delay)
  have hafter : ∀ delay, s.motor.threadStep.thread ≠ .pulse delay :=
    fun delay ht => hr (threadStep_eq_pulse ht).1
  obtain ⟨delays, hlog⟩ := h.pulses
  have hunderway : ∀ {pc : Pc D}, (∀ delay, pc ≠ .pulse delay) →
      underway pc s.stage = [] := by
    intro pc hpc
    cases pc with
    | pulse delay => exact absurd rfl (hpc delay)
    | _ => rfl
  refine ⟨⟨delays, ?_⟩, fun _ => h.stage hp, ?_, fun ho => ?_⟩
  · rw [hlog, hunderway hp]
    exact congrArg (delays.flatMap pulse ++ ·) (hunderway hafter).symm
  · obtain ⟨pc, hs⟩ := hstep
    dsimp only
    rw [hs]
    exact h.pos
  · dsimp only
    rw [Motor.threadStep, h.destroyed ho]
    exact h.destroyed ho

/-- The first section of a pulse. -/
theorem of_read (h : Train s) (hr : s.motor.thread = .read) :
    Train { s with
      motor := s.motor.threadStep, log := s.log ++ [.read s.motor.locklessDelay] } := by
  have hstage : s.stage = .high := by
    refine h.stage fun delay ht => ?_
    rw [hr] at ht
    cases ht
  have hstep : s.motor.threadStep = { s.motor with thread := .pulse s.motor.locklessDelay } := by
    rw [Motor.threadStep, hr]
  obtain ⟨delays, hlog⟩ := h.pulses
  refine ⟨⟨delays, ?_⟩, fun _ => hstage, ?_, fun ho => ?_⟩
  · dsimp only
    rw [filter_append rfl, hlog, hr, hstep, hstage, List.append_assoc]
    rfl
  · dsimp only
    rw [position_append, hstep]
    exact h.pos
  · have hexited := h.destroyed ho
    rw [hr] at hexited
    cases hexited

/-- A stage of a pulse, up to the second lock. -/
theorem of_stage (h : Train s) {delay : D} (hp : s.motor.thread = .pulse delay)
    (hs : s.stage ≠ .lock) :
    Train { s with
      stage := (s.stage.next delay).2, log := s.log ++ [(s.stage.next delay).1] } := by
  obtain ⟨delays, hlog⟩ := h.pulses
  refine ⟨⟨delays, ?_⟩, fun hnot => absurd hp (hnot delay), ?_, h.destroyed⟩
  · dsimp only
    rw [filter_append (ofThread_next delay s.stage), hlog, hp, underway, underway,
      List.append_assoc, begun_next hs]
  · dsimp only
    rw [position_append, h.pos]
    cases hstage : s.stage with
    | lock => exact absurd hstage hs
    | _ => rfl

/-- The second section of a pulse. -/
theorem of_lock (h : Train s) {delay : D} (hp : s.motor.thread = .pulse delay)
    (hs : s.stage = .lock) :
    Train { s with motor := s.motor.threadStep, stage := .high, log := s.log ++ [.turn] } := by
  obtain ⟨pc, hstep⟩ := Motor.threadStep_of_pulse hp
  have hpc : ∀ delay', pc ≠ .pulse delay' := by
    rintro delay' rfl
    have hread := (threadStep_eq_pulse (m := s.motor) (by rw [hstep])).1
    exact nomatch hp.symm.trans hread
  obtain ⟨delays, hlog⟩ := h.pulses
  refine ⟨⟨delays ++ [delay], ?_⟩, fun _ => rfl, ?_, fun ho => ?_⟩
  · dsimp only
    rw [filter_append rfl, hlog, hp, hs, hstep, List.flatMap_append, List.append_assoc,
      List.append_assoc]
    cases pc with
    | pulse delay' => exact absurd rfl (hpc delay')
    | _ => rfl
  · dsimp only
    rw [position_append, hstep, ← h.pos]
    rfl
  · exact nomatch hp.symm.trans (h.destroyed ho)

theorem threadStep (h : Train s) : Train s.threadStep := by
  rcases s.threadStep_cases with ⟨hr, hs⟩ | ⟨delay, hp, hs⟩ | ⟨hr, hp, hs⟩
  · rw [hs]
    exact h.of_read hr
  · rw [hs]
    by_cases hlock : s.stage = .lock
    · rw [if_pos hlock, hlock]
      exact h.of_lock hp hlock
    · rw [if_neg hlock]
      exact h.of_stage hp hlock
  · rw [hs]
    exact h.of_other hp hr

/-- A call of the owner is not in the thread's part of the log. -/
theorem call (h : Train s) (hs : Call s t) : Train t := by
  cases hs with
  | setAcceleration a ho =>
      have hwake : s.motor.wake.thread = s.motor.thread ∧ s.motor.wake.pos = s.motor.pos := by
        rw [wake]
        split_ifs
        · exact ⟨rfl, rfl⟩
        · exact ⟨rfl, rfl⟩
      have hthread : (s.motor.setAcceleration a).thread = s.motor.thread := hwake.1
      have hpos : (s.motor.setAcceleration a).pos = s.motor.pos := hwake.2
      refine ⟨?_, ?_, hpos.trans h.pos, fun hd => ?_⟩
      · rw [hthread]
        exact h.pulses
      · rw [hthread]
        exact h.stage
      · dsimp only at hd
        rw [ho] at hd
        cases hd
  | calibrate x ho =>
      obtain ⟨delays, hlog⟩ := h.pulses
      refine ⟨⟨delays, ?_⟩, h.stage, ?_, h.destroyed⟩
      · dsimp only
        rw [List.filter_append, hlog]
        exact List.append_nil _
      · dsimp only
        rw [position_append]
        rfl
  | requestHalt ho =>
      refine ⟨h.pulses, h.stage, h.pos, fun hd => ?_⟩
      cases hd
  | join ho he => exact ⟨h.pulses, h.stage, h.pos, fun _ => he⟩

theorem step (h : Train s) (hs : Step s t) : Train t := by
  cases hs with
  | call hcall => exact h.call hcall
  | thread => exact h.threadStep

theorem of_run (h : Run Wired.init s) : Train s :=
  reachable_invariant init (fun _ _ _ ht hstep => ht.step hstep) h

end Train

/-! ### The level of the pin -/

omit [Double D] in
theorem level_append (v : DigitalVal) (log log' : List (Event D)) :
    level v (log ++ log') = level (level v log) log' := List.foldl_append

omit [Double D] in
/-- Calibrations write nothing. -/
theorem level_filter (v : DigitalVal) (log : List (Event D)) :
    level v (log.filter Event.ofThread) = level v log := by
  induction log generalizing v with
  | nil => rfl
  | cons e log ih =>
      cases e with
      | calibrate x => exact ih v
      | write w => exact ih w
      | read delay => exact ih v
      | sleep delay => exact ih v
      | turn => exact ih v

omit [Double D] in
/-- A pulse leaves the pin low. -/
theorem level_pulses (delays : List D) : level .low (delays.flatMap pulse) = .low := by
  induction delays with
  | nil => rfl
  | cons delay delays ih =>
      rw [List.flatMap_cons, level_append]
      exact ih

omit [Double D] in
theorem level_underway (pc : Pc D) (stage : Stage) :
    level .low (underway pc stage) = .high ↔
      (∃ delay, pc = .pulse delay) ∧ (stage = .sleepHigh ∨ stage = .low) := by
  cases pc with
  | pulse delay => cases stage <;> simp [underway, begun, level]
  | _ => simp [underway, level]

theorem Train.level (h : Train s) : Wired.level .low s.log = .high ↔
    (∃ delay, s.motor.thread = .pulse delay) ∧ (s.stage = .sleepHigh ∨ s.stage = .low) := by
  obtain ⟨delays, hlog⟩ := h.pulses
  rw [← level_filter, hlog, level_append, level_pulses, level_underway]

/-- **The pulses of the motor.**  In every state that a new motor and its owner come to, the thread
has read a delay, written high, slept for it, written low and slept for it, again and again, and
is on its way through the next pulse; the position is what the calibrations and the ends of the
pulses make of it, in their order; the pin is high exactly between the two writes of a pulse; and
it is low when the destructor has returned. -/
theorem pulse_train (h : Run init s) :
    (∃ delays : List D, s.log.filter Event.ofThread =
      delays.flatMap pulse ++ underway s.motor.thread s.stage) ∧
    s.motor.pos = position s.log ∧
    (Wired.level .low s.log = .high ↔
      (∃ delay, s.motor.thread = .pulse delay) ∧ (s.stage = .sleepHigh ∨ s.stage = .low)) ∧
    (s.owner = .destroyed → Wired.level .low s.log = .low) := by
  have ht := Train.of_run h
  refine ⟨ht.pulses, ht.pos, ht.level, fun ho => ?_⟩
  cases hlevel : Wired.level .low s.log with
  | low => rfl
  | high =>
      obtain ⟨⟨delay, hp⟩, -⟩ := ht.level.1 hlevel
      exact nomatch hp.symm.trans (ht.destroyed ho)

/-- The thread of a motor that has started, on its way to the first write. -/
theorem started_threadStep :
    threadStep ⟨started, .calling, .high, []⟩ =
        ⟨{ started with thread := .check }, .calling, .high, []⟩ ∧
      threadStep ⟨{ started with thread := .check }, .calling, .high, []⟩ =
        ⟨{ started with thread := .read }, .calling, .high, []⟩ ∧
      threadStep ⟨{ started with thread := .read }, .calling, .high, []⟩ =
        ⟨{ started with thread := .pulse started.locklessDelay }, .calling, .high,
          [.read started.locklessDelay]⟩ := by
  obtain ⟨hcheck, hread, hpulse⟩ := started_loop
  rw [hcheck] at hread
  rw [hcheck, hread] at hpulse
  refine ⟨?_, ?_, ?_⟩
  · simp only [threadStep, started_idle.2, hcheck]
  · simp only [threadStep, hread]
  · simp only [threadStep, hpulse]
    rfl

theorem step_of_eq (h : s.threadStep = t) : Step s t := h ▸ .thread s

/-- After the first write. -/
theorem started_wired : Run init
    ⟨{ started with thread := .pulse started.locklessDelay }, .calling, .sleepHigh,
      [.read started.locklessDelay, .write .high]⟩ := by
  obtain ⟨hcheck, hread, hpulse⟩ := started_threadStep
  have hset : Step init ⟨started, .calling, .high, []⟩ :=
    .call (.setAcceleration init (XReal.fin 0) rfl)
  exact ((((Relation.ReflTransGen.single hset).tail (step_of_eq hcheck)).tail
    (step_of_eq hread)).tail (step_of_eq hpulse)).tail (step_of_eq rfl)

theorem started_wired_high : Wired.level .low
    [Event.read (started.locklessDelay), .write .high] = .high :=
  (pulse_train started_wired).2.2.1.2 ⟨⟨_, rfl⟩, .inl rfl⟩

end Wired

end DrivingSim.Motor
