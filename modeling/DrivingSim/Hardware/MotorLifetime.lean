import DrivingSim.Hardware.MotorSpeed

/-!
# Hardware — the end of a motor

The owner of a motor calls its operations and then the destructor, which sets `halt` and joins
the thread.  Nobody calls `set_acceleration` from then on.

A thread that is at work sees `halt` at the lock of `idle` or at the end of a pulse
(`canExit_of_not_stranded`).  One that waits in `start.wait` tests the delay and not `halt`, and
nothing changes the delay any more: it waits for ever, and so does the destructor.  So the
destructor returns exactly when it does not find the thread waiting at a motor that is stopped
(`destructor_returns_iff`); a new motor that is destroyed at once is an example
(`unused_blocks`).
-/

namespace DrivingSim.Motor
open XReal

/-- Where the owner is: calling operations, in the `join` of the destructor, or past it. -/
inductive Owner where
  | calling
  | joining
  | destroyed

/-- A motor and its owner. -/
structure Owned (D : Type) where
  motor : Motor D
  owner : Owner

variable {D : Type} [Double D]

/-- The thread waits, and would go on waiting. -/
def Stranded (m : Motor D) : Prop := m.thread = .waiting ∧ m.stopped = true

namespace Owned

/-- A call of the owner, or a step of the thread of the motor, which may wake up at any time.
`change_acceleration` is a call of `set_acceleration`, as nobody else calls. -/
inductive Step : Owned D → Owned D → Prop where
  | setAcceleration (m : Motor D) (acceleration : D) :
      Step ⟨m, .calling⟩ ⟨m.setAcceleration acceleration, .calling⟩
  | calibrate (m : Motor D) (newPosition : D) :
      Step ⟨m, .calling⟩ ⟨m.calibrate newPosition, .calling⟩
  | requestHalt (m : Motor D) : Step ⟨m, .calling⟩ ⟨m.requestHalt, .joining⟩
  | join (m : Motor D) (h : m.thread = .exited) : Step ⟨m, .joining⟩ ⟨m, .destroyed⟩
  | thread (m : Motor D) (o : Owner) : Step ⟨m, o⟩ ⟨m.threadStep, o⟩

abbrev Run : Owned D → Owned D → Prop := Relation.ReflTransGen Step

/-- The thread can still come to its end. -/
def CanExit (s : Owned D) : Prop := ∃ s', Run s s' ∧ s'.motor.thread = .exited

theorem CanExit.of_run {s s' : Owned D} (h : Run s s') (hs : s'.CanExit) : s.CanExit := by
  obtain ⟨t, ht, he⟩ := hs
  exact ⟨t, h.trans ht, he⟩

theorem canExit_of_exited {m : Motor D} {o : Owner} (h : m.thread = .exited) :
    CanExit ⟨m, o⟩ := ⟨_, .refl, h⟩

/-- One step of the thread on the way. -/
theorem canExit_of_threadStep {m : Motor D} {o : Owner} (h : CanExit ⟨m.threadStep, o⟩) :
    CanExit ⟨m, o⟩ :=
  .of_run (.single (.thread m o)) h

/-! ### A thread that is at work -/

section AtWork

variable {m : Motor D} {o : Owner}

theorem canExit_of_pulse {d : D} (hh : m.halt = true) (ht : m.thread = .pulse d) :
    CanExit ⟨m, o⟩ := by
  refine canExit_of_threadStep (canExit_of_exited ?_)
  rw [threadStep, ht]
  simp only [hh, if_true]

theorem canExit_of_read (hh : m.halt = true) (ht : m.thread = .read) : CanExit ⟨m, o⟩ := by
  have hstep : m.threadStep = { m with thread := .pulse m.locklessDelay } := by
    rw [threadStep, ht]
  refine canExit_of_threadStep (canExit_of_pulse (d := m.locklessDelay) ?_ ?_)
  · rw [hstep]
    exact hh
  · rw [hstep]

theorem canExit_of_idle (hh : m.halt = true) (ht : m.thread = .idle) : CanExit ⟨m, o⟩ := by
  refine canExit_of_threadStep (canExit_of_exited ?_)
  rw [threadStep, ht]
  simp only [hh, if_true]

theorem canExit_of_check (hh : m.halt = true) (ht : m.thread = .check) : CanExit ⟨m, o⟩ := by
  refine canExit_of_threadStep ?_
  cases hs : m.stopped with
  | false =>
      have hstep : m.threadStep = { m with thread := .read } := by
        rw [threadStep, ht]
        simp only [hs, Bool.false_eq_true, if_false]
      rw [hstep]
      exact canExit_of_read hh rfl
  | true =>
      have hstep : m.threadStep = { m with thread := .idle } := by
        rw [threadStep, ht]
        simp only [hs, if_true]
      rw [hstep]
      exact canExit_of_idle hh rfl

/-- Wherever the thread is when `halt` is set, if it is not stranded it can come to its end. -/
theorem canExit_of_not_stranded (hh : m.halt = true) (hs : ¬ m.Stranded) : CanExit ⟨m, o⟩ := by
  cases ht : m.thread with
  | idle => exact canExit_of_idle hh ht
  | waiting =>
      have hmoving : m.stopped = false := by
        rw [← Bool.not_eq_true]
        exact fun h => hs ⟨ht, h⟩
      have hstep : m.threadStep = { m with thread := .check } := by
        rw [threadStep, ht]
        simp only [hmoving, Bool.false_eq_true, if_false]
      refine canExit_of_threadStep ?_
      rw [hstep]
      exact canExit_of_check hh rfl
  | check => exact canExit_of_check hh ht
  | read => exact canExit_of_read hh ht
  | pulse delay => exact canExit_of_pulse hh ht
  | exited => exact canExit_of_exited ht

end AtWork

/-! ### After `halt` has been set -/

/-- In the destructor, with a thread that is stranded or not. -/
structure Halted (stranded : Prop) (s : Owned D) : Prop where
  halt : s.motor.halt = true
  owner : s.owner ≠ .calling
  thread : s.motor.Stranded ↔ stranded

theorem threadStep_halt {m : Motor D} : m.threadStep.halt = m.halt := by
  rcases m.threadStep_cases with ⟨pc, h⟩ | ⟨delay, pc, -, h⟩
  · rw [h]
  · rw [h]
    rfl

/-- A thread that is asked to halt does not start to wait, and one that is stranded stays so. -/
theorem stranded_threadStep {m : Motor D} (hh : m.halt = true) :
    m.threadStep.Stranded ↔ m.Stranded := by
  cases ht : m.thread with
  | idle =>
      simp [Stranded, threadStep, ht, hh]
  | waiting =>
      cases hs : m.stopped with
      | true => simp [Stranded, threadStep, ht, hs]
      | false => simp [Stranded, threadStep, ht, hs]
  | check =>
      cases hs : m.stopped with
      | true => simp [Stranded, threadStep, ht, hs]
      | false => simp [Stranded, threadStep, ht, hs]
  | read => simp [Stranded, threadStep, ht]
  | pulse delay => simp [Stranded, threadStep, ht, hh]
  | exited => simp [Stranded, threadStep, ht]

theorem Halted.step {stranded : Prop} {s s' : Owned D} (h : Halted stranded s)
    (hs : Step s s') : Halted stranded s' := by
  cases hs with
  | setAcceleration m a => exact absurd rfl h.owner
  | calibrate m x => exact absurd rfl h.owner
  | requestHalt m => exact absurd rfl h.owner
  | join m he => exact ⟨h.halt, fun e => (nomatch e), h.thread⟩
  | thread m o =>
      exact ⟨threadStep_halt.trans h.halt, h.owner, (stranded_threadStep h.halt).trans h.thread⟩

theorem Halted.run {stranded : Prop} {s s' : Owned D} (h : Halted stranded s) (hs : Run s s') :
    Halted stranded s' :=
  reachable_invariant h (fun _ _ _ h hs => h.step hs) hs

theorem Halted.canExit_iff {stranded : Prop} {s : Owned D} (h : Halted stranded s) :
    s.CanExit ↔ ¬ stranded := by
  constructor
  · rintro ⟨s', hs', he⟩ hstr
    obtain ⟨hw, -⟩ := (h.run hs').thread.mpr hstr
    rw [he] at hw
    exact nomatch hw
  · exact fun hstr => canExit_of_not_stranded h.halt fun hs => hstr (h.thread.mp hs)

/-- A state in which `halt` is set comes from one in which the owner has just set it. -/
theorem exists_requestHalt {s : Owned D} (h : Run ⟨init, .calling⟩ s) :
    (s.owner = .calling ∧ s.motor.halt = false) ∨
      ∃ m, Run ⟨init, .calling⟩ ⟨m, .calling⟩ ∧ Run ⟨m.requestHalt, .joining⟩ s := by
  refine reachable_invariant (P := fun s => (s.owner = .calling ∧ s.motor.halt = false) ∨
    ∃ m, Run ⟨init, .calling⟩ ⟨m, .calling⟩ ∧ Run ⟨m.requestHalt, .joining⟩ s)
    (.inl ⟨rfl, rfl⟩) ?_ h
  rintro t t' ht (⟨ho, hh⟩ | ⟨m, hm, hrun⟩) hs
  · cases hs with
    | setAcceleration m a => exact .inl ⟨rfl, (m.setAcceleration_halt a).trans hh⟩
    | calibrate m x => exact .inl ⟨rfl, hh⟩
    | requestHalt m => exact .inr ⟨m, ht, .refl⟩
    | join m he => exact nomatch ho
    | thread m o => exact .inl ⟨ho, threadStep_halt.trans hh⟩
  · exact .inr ⟨m, hm, hrun.tail hs⟩

/-- **The end of a motor.**  In a state in which the destructor has set `halt`, the thread can
come to its end exactly when it was not waiting at a motor that is stopped when that was done. -/
theorem destructor_returns_iff {s : Owned D} (h : Run ⟨init, .calling⟩ s)
    (hh : s.motor.halt = true) :
    (∃ m, Run ⟨init, .calling⟩ ⟨m, .calling⟩ ∧ Run ⟨m.requestHalt, .joining⟩ s) ∧
      ∀ m : Motor D, Run ⟨m.requestHalt, .joining⟩ s →
        ((∃ s', Run s s' ∧ s'.motor.thread = .exited) ↔
          ¬ (m.thread = .waiting ∧ m.stopped = true)) := by
  constructor
  · obtain ⟨-, hno⟩ | hm := exists_requestHalt h
    · exact absurd (hno.symm.trans hh) Bool.false_ne_true
    · exact hm
  · intro m hrun
    have h₀ : Halted m.Stranded ⟨m.requestHalt, .joining⟩ :=
      ⟨rfl, fun e => (nomatch e), Iff.rfl⟩
    exact (h₀.run hrun).canExit_iff

/-! ### A motor that moves, and one that is not used -/

/-- The thread of a motor that moves is in its first pulse. -/
noncomputable def pulsing : Motor XReal := started.threadStep.threadStep.threadStep

theorem pulsing_thread : pulsing.thread = .pulse started.locklessDelay := by
  rw [pulsing, started_loop.2.2]

theorem pulsing_run : Run ⟨init, .calling⟩ ⟨pulsing, .calling⟩ :=
  .tail (.tail (.tail (.single (.setAcceleration init (fin 0))) (.thread _ _)) (.thread _ _))
    (.thread _ _)

/-- It ends, where `halt` is set meanwhile. -/
theorem pulsing_returns : ∃ s', Run ⟨pulsing.requestHalt, .joining⟩ s' ∧
    s'.motor.thread = .exited := by
  have hreach : Run ⟨init, .calling⟩ ⟨pulsing.requestHalt, .joining⟩ :=
    pulsing_run.tail (.requestHalt pulsing)
  refine ((destructor_returns_iff hreach rfl).2 pulsing .refl).2 fun hwaiting => ?_
  rw [pulsing_thread] at hwaiting
  cases hwaiting.1

/-- **A destructor that does not return.**  The thread of a new motor waits for an acceleration; the
owner sets `halt` and joins it. -/
theorem unused_blocks : ∃ s : Owned XReal, Run ⟨init, .calling⟩ s ∧ s.motor.halt = true ∧
    ∀ s', Run s s' → s'.motor.thread ≠ .exited := by
  have hwait : (init : Motor XReal).threadStep = { init with thread := .waiting } := by
    have hstep : (init : Motor XReal).threadStep =
        if (init : Motor XReal).stopped then { init with thread := .waiting }
        else { init with thread := .check } := rfl
    rw [hstep, init_stopped, if_pos rfl]
  have hstr : Stranded (init : Motor XReal).threadStep := by
    rw [hwait]
    exact ⟨rfl, init_stopped⟩
  refine ⟨⟨(init : Motor XReal).threadStep.requestHalt, .joining⟩, ?_, rfl, fun s' hs' he => ?_⟩
  · exact .tail (.single (.thread init .calling)) (.requestHalt _)
  · have h₀ : Halted True ⟨(init : Motor XReal).threadStep.requestHalt, .joining⟩ :=
      ⟨rfl, fun e => (nomatch e), iff_true_intro hstr⟩
    exact h₀.canExit_iff.mp ⟨s', hs', he⟩ trivial

end Owned

end DrivingSim.Motor
