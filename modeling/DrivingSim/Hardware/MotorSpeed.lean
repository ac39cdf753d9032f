import DrivingSim.Hardware.Motor
import DrivingSim.Support.Reachable
import DrivingSim.Support.XReal

/-!
# Hardware — the speed of the motor when the acceleration changes

`set_acceleration` should not change the speed.  It resets `curr` and then calculates `next`
from the `curr` that it has reset, so the new delay is all of `next`.  That is the old delay
only when there has been no pulse since the last reset (`setAcceleration_keeps_iff`); after one
pulse, a motor that moves is stopped (`pulsedOnce_stops`).

The invariant (`Motor.Clock`) says which infinities `curr` and `next` can be: a denominator that
is zero makes `next` infinite, an acceleration that is not a number makes it not a number.
-/

namespace DrivingSim.Motor
open XReal

/-- The acceleration can be set without a change of speed, and the speed is recorded. -/
structure Keeps (m : Motor XReal) (acceleration : XReal) : Prop where
  delay : (m.setAcceleration acceleration).locklessDelay = m.locklessDelay
  velocity : (m.setAcceleration acceleration).locklessVelocity = m.locklessVelocity
  stopped : (m.setAcceleration acceleration).stopped = m.stopped
  offset : (m.setAcceleration acceleration).velocityOffset = m.locklessVelocity

/-- What `curr` and `next` can be. -/
inductive Clock : XReal → XReal → Prop where
  | numbers (c n : ℝ) : Clock (fin c) (fin n)
  | never (c : ℝ) : Clock (fin c) pinf
  | notNumber (c : ℝ) : Clock (fin c) nan
  | infinite : Clock pinf pinf
  | afterInfinite : Clock pinf nan
  | afterNotNumber : Clock nan nan

section Step

variable {m : Motor XReal}

/-- A quotient of the calculation of `next`. -/
theorem div_ne_ninf (x : XReal) : (4688.0 : XReal) / x ≠ ninf := by
  rw [ofScientific_eq]
  cases x with
  | nan => exact XReal.noConfusion
  | ninf => exact XReal.noConfusion
  | pinf => exact XReal.noConfusion
  | fin x =>
      by_cases hx : x = 0
      · subst hx
        rw [div_zero, signed_pos (by norm_num)]
        exact XReal.noConfusion
      · rw [div_fin hx]
        exact XReal.noConfusion

/-- A pulse. -/
theorem Clock.pulsed {c n q : XReal} (h : Clock c n) (hq : q ≠ ninf) : Clock n (q + n) := by
  cases q with
  | ninf => exact absurd rfl hq
  | nan => cases h <;> first | exact .notNumber _ | exact .afterInfinite | exact .afterNotNumber
  | fin q => cases h <;> first | exact .numbers _ _ | exact .infinite | exact .afterNotNumber
  | pinf => cases h <;> first | exact .never _ | exact .infinite | exact .afterNotNumber

/-- A reset. -/
theorem Clock.reset {c n : XReal} (h : Clock c n) : Clock (fin 0) (n - fin 0) ∧ n - fin 0 = n := by
  cases h with
  | numbers c n =>
      rw [sub_fin, sub_zero]
      exact ⟨.numbers 0 n, rfl⟩
  | never c => exact ⟨.never 0, rfl⟩
  | notNumber c => exact ⟨.notNumber 0, rfl⟩
  | infinite => exact ⟨.never 0, rfl⟩
  | afterInfinite => exact ⟨.notNumber 0, rfl⟩
  | afterNotNumber => exact ⟨.notNumber 0, rfl⟩

theorem clock_wake (h : Clock m.curr m.next) : Clock m.wake.curr m.wake.next := by
  rw [wake]
  split
  · rw [stopThreshold, zero_eq, ofNat_eq]
    exact .numbers 0 4000
  · exact h

theorem clock_threadStep (h : Clock m.curr m.next) : Clock m.threadStep.curr m.threadStep.next := by
  rcases m.threadStep_cases with ⟨pc, hs⟩ | ⟨delay, pc, -, hs⟩
  · rw [hs]
    exact h
  · rw [hs]
    exact h.pulsed (div_ne_ninf _)

theorem clock_step {m' : Motor XReal} (h : Clock m.curr m.next) (hs : Step m m') :
    Clock m'.curr m'.next := by
  cases hs with
  | setAcceleration a =>
      have hr := (clock_wake h).reset.1
      rw [← zero_eq] at hr
      exact hr
  | calibrate p => exact h
  | requestHalt => exact h
  | thread => exact clock_threadStep h

theorem clock_init : Clock (init : Motor XReal).curr (init : Motor XReal).next := by
  rw [init_curr, init_next, stopThreshold, zero_eq, one_eq, ofNat_eq, add_fin]
  exact .numbers 0 _

/-- The speed depends on the delay alone. -/
theorem speed_congr {m' : Motor XReal} (h : m'.locklessDelay = m.locklessDelay) :
    m'.stopped = m.stopped ∧ m'.locklessVelocity = m.locklessVelocity := by
  have hs : m'.stopped = m.stopped := by rw [stopped, stopped, h]
  exact ⟨hs, by rw [locklessVelocity, locklessVelocity, hs, h]⟩

theorem wake_of_moving (h : m.stopped = false) : m.wake = m := by
  rw [wake, h, if_neg Bool.false_ne_true]

/-- The new delay of a motor that moves is all of `next`. -/
theorem setAcceleration_delay (hm : m.stopped = false) (hc : Clock m.curr m.next) (a : XReal) :
    (m.setAcceleration a).locklessDelay = m.next := by
  rw [locklessDelay, setAcceleration_next, setAcceleration_curr, wake_of_moving hm, zero_eq,
    hc.reset.2, hc.reset.2]

/-- When the new delay is the old one. -/
theorem Clock.next_eq_iff {c n : XReal} (h : Clock c n) (hm : ¬ fin 4000 < n - c) :
    n = n - c ↔ c = fin 0 ∨ n = nan := by
  cases h with
  | numbers c n =>
      rw [sub_fin, XReal.fin.injEq, XReal.fin.injEq]
      refine ⟨fun e => .inl (by linarith), ?_⟩
      rintro (rfl | e)
      · rw [sub_zero]
      · exact nomatch e
  | never c => exact absurd trivial hm
  | notNumber c => exact ⟨fun _ => .inr rfl, fun _ => rfl⟩
  | infinite =>
      refine ⟨fun e => (nomatch e), ?_⟩
      rintro (e | e)
      · exact nomatch e
      · exact nomatch e
  | afterInfinite => exact ⟨fun _ => .inr rfl, fun _ => rfl⟩
  | afterNotNumber => exact ⟨fun _ => .inr rfl, fun _ => rfl⟩

end Step

/-- **The speed when the acceleration is set.**  In every state that a motor comes to and in which
it moves, an acceleration can be set without a change of speed exactly when there has been no
pulse since the last reset, or the clock is lost. -/
theorem setAcceleration_keeps_iff {m : Motor XReal} (h : Relation.ReflTransGen Step init m)
    (hm : m.stopped = false) (acceleration : XReal) :
    m.Keeps acceleration ↔ m.curr = 0 ∨ m.next = nan := by
  have hc : Clock m.curr m.next :=
    reachable_invariant (P := fun m => Clock m.curr m.next) clock_init
      (fun _ _ _ => clock_step) h
  have hmoving : ¬ fin 4000 < m.next - m.curr := by
    have := of_decide_eq_false hm
    rwa [stopThreshold, ofNat_eq] at this
  have hd := setAcceleration_delay hm hc acceleration
  rw [zero_eq, ← hc.next_eq_iff hmoving]
  constructor
  · intro hk
    exact hd.symm.trans hk.delay
  · intro e
    have hdelay : (m.setAcceleration acceleration).locklessDelay = m.locklessDelay := hd.trans e
    obtain ⟨hs, hv⟩ := speed_congr hdelay
    refine ⟨hdelay, hv, hs, ?_⟩
    rw [setAcceleration_velocityOffset, wake_of_moving hm]

/-! ### One pulse -/

/-- The motor that has been set to move, at no acceleration. -/
noncomputable def started : Motor XReal := init.setAcceleration (fin 0)

/-- And has been sent one pulse. -/
noncomputable def pulsedOnce : Motor XReal := started.threadStep.threadStep.threadStep.threadStep

theorem init_stopped : (init : Motor XReal).stopped = true := by
  simp only [stopped, locklessDelay, init, stopThreshold, zero_eq, one_eq, ofNat_eq, add_fin,
    sub_fin, decide_eq_true_eq, fin_lt_fin]
  norm_num

/-- The motor that has been set to move. -/
theorem init_setAcceleration (a : ℝ) : (init : Motor XReal).setAcceleration (fin a) =
    ⟨fin 0, fin 4000, fin a, fin 0.0, fin (1e6 / 4000 * (3.1415926535897 / 100) * 0.075), false,
      .idle⟩ := by
  have hwake : (init : Motor XReal).wake = { init with curr := 0, next := stopThreshold } := by
    rw [wake, init_stopped, if_pos rfl]
  rw [setAcceleration, hwake]
  simp only [locklessVelocity, stopped, locklessDelay, init, stopThreshold, zero_eq, ofNat_eq,
    sub_fin, sub_zero, ofScientific_eq, radiansPerTurn, radius, pi, fin_lt_fin, lt_irrefl,
    decide_false, div_fin (show (4000 : ℝ) ≠ 0 by norm_num),
    div_fin (show (100 : ℝ) ≠ 0 by norm_num), mul_fin]
  rfl

theorem started_eq : started =
    ⟨fin 0, fin 4000, fin 0, fin 0.0, fin (1e6 / 4000 * (3.1415926535897 / 100) * 0.075), false,
      .idle⟩ := init_setAcceleration 0

theorem started_reachable : Relation.ReflTransGen Step init started :=
  .single (.setAcceleration init (fin 0))

theorem started_stopped : started.stopped = false := by
  simp only [started_eq, stopped, locklessDelay, stopThreshold, ofNat_eq, sub_fin, sub_zero,
    fin_lt_fin, lt_irrefl, decide_false]

/-- Setting an acceleration at once changes nothing. -/
theorem started_keeps : started.Keeps (fin 1) := by
  have hcurr : started.curr = 0 := by rw [started_eq, zero_eq]
  exact (setAcceleration_keeps_iff started_reachable started_stopped (fin 1)).mpr (.inl hcurr)

/-- The thread of a motor that moves goes from `idle` into the loop. -/
theorem threadStep_loop {m : Motor XReal} (hm : m.stopped = false) (hh : m.halt = false)
    (ht : m.thread = .idle) :
    m.threadStep = { m with thread := .check } ∧
      m.threadStep.threadStep = { m with thread := .read } ∧
      m.threadStep.threadStep.threadStep = { m with thread := .pulse m.locklessDelay } := by
  obtain ⟨curr, next, accel, pos, velocityOffset, halt, thread⟩ := m
  obtain rfl : halt = false := hh
  obtain rfl : thread = .idle := ht
  have hs : ∀ pc, stopped ⟨curr, next, accel, pos, velocityOffset, false, pc⟩ = false := fun _ => hm
  simp only [threadStep, hs, Bool.false_eq_true, if_false]
  exact ⟨trivial, trivial, rfl⟩

/-- And once through it. -/
theorem threadStep_pulse {m : Motor XReal} (hm : m.stopped = false) (hh : m.halt = false)
    (ht : m.thread = .idle) :
    m.threadStep.threadStep.threadStep.threadStep = { m.pulsed with thread := .check } := by
  have hpulse : threadStep { m with thread := .pulse m.locklessDelay } =
      if m.halt then { m.pulsed with thread := .exited }
      else { m.pulsed with thread := .check } := rfl
  rw [(threadStep_loop hm hh ht).2.2, hpulse, if_neg (hh ▸ Bool.false_ne_true)]

theorem started_idle : started.halt = false ∧ started.thread = .idle := by
  rw [started_eq]
  exact ⟨rfl, rfl⟩

theorem started_loop :
    started.threadStep = { started with thread := .check } ∧
      started.threadStep.threadStep = { started with thread := .read } ∧
      started.threadStep.threadStep.threadStep =
        { started with thread := .pulse started.locklessDelay } :=
  threadStep_loop started_stopped started_idle.1 started_idle.2

theorem pulsedOnce_eq : pulsedOnce = { started.pulsed with thread := .check } :=
  threadStep_pulse started_stopped started_idle.1 started_idle.2

theorem pulsedOnce_clock :
    pulsedOnce.curr = fin 4000 ∧ pulsedOnce.next = fin (4688 / 75 + 4000) := by
  have hpi : (2 * 3.1415926535897 : ℝ) ≠ 0 := by norm_num
  have hv : (1e6 / 4000 * (3.1415926535897 / 100) * 0.075 / 0.075 * 60 /
      (2 * 3.1415926535897) : ℝ) = 75 := by
    norm_num
  have ha : (0 / 0.075 * 60 / (2 * 3.1415926535897) * 1e-6 * 4000 : ℝ) = 0 := by norm_num
  have h75 : (0 + 75 : ℝ) ≠ 0 := by norm_num
  rw [pulsedOnce_eq]
  refine ⟨?_, ?_⟩
  · rw [pulsed_curr, started_eq]
  · simp only [pulsed, started_eq, pi, radius, ofScientific_eq, ofNat_eq, mul_fin, add_fin,
      div_fin hpi, div_fin (show (0.075 : ℝ) ≠ 0 by norm_num), hv, ha, div_fin h75]
    norm_num

theorem pulsedOnce_stopped : pulsedOnce.stopped = false := by
  obtain ⟨hcurr, hnext⟩ := pulsedOnce_clock
  rw [stopped, locklessDelay, hcurr, hnext, stopThreshold, ofNat_eq, sub_fin]
  simp only [fin_lt_fin, decide_eq_false_iff_not]
  norm_num

/-- **A motor that moves is stopped.**  After one pulse at constant speed, setting the
acceleration again, to the same value, makes the delay `4062.5` in place of `62.5`. -/
theorem pulsedOnce_stops :
    Relation.ReflTransGen Step init pulsedOnce ∧ pulsedOnce.stopped = false ∧
      (pulsedOnce.setAcceleration (fin 0)).stopped = true ∧ ¬ pulsedOnce.Keeps (fin 0) := by
  have hrun : Relation.ReflTransGen Step init pulsedOnce :=
    (((started_reachable.tail (.thread _)).tail (.thread _)).tail (.thread _)).tail (.thread _)
  obtain ⟨hcurr, hnext⟩ := pulsedOnce_clock
  have hm := pulsedOnce_stopped
  have hc : Clock pulsedOnce.curr pulsedOnce.next := by
    rw [hcurr, hnext]
    exact .numbers _ _
  have hs : (pulsedOnce.setAcceleration (fin 0)).stopped = true := by
    rw [stopped, setAcceleration_delay hm hc, hnext, stopThreshold, ofNat_eq]
    simp only [fin_lt_fin, decide_eq_true_eq]
    norm_num
  refine ⟨hrun, hm, hs, fun hk => ?_⟩
  have := hk.stopped
  rw [hs, hm] at this
  exact Bool.false_ne_true this.symm

end DrivingSim.Motor
