import DrivingSim.Hardware.PulseTrain

/-!
# Hardware — the position of the motor

`position` is said to be the integral of the velocity.  Each pulse adds the same piece to it, a
step of the wheel, and takes two sleeps of the delay; the velocity is what `lockless_velocity`
calculates from one delay.  So the velocity times the time of a pulse is two steps of the wheel,
whatever the delay, and the position that a run of the loop of `pwm` adds is half of what the
velocity makes of it (`position_pulses_iff`).

A run of the loop is recorded as its pulses, each with the velocity at its start and the delay
for which it has slept, twice (`Metered`).
-/

namespace DrivingSim.Motor
open XReal

/-- A pulse that is over: the velocity at its start, and the time of each of its two sleeps. -/
structure Pulse (D : Type) where
  velocity : D
  delay : D

/-- A motor in the loop of `pwm`, the velocity at the start of the last pulse, and the pulses that
are over. -/
structure Metered (D : Type) where
  motor : Motor D
  velocity : D
  pulses : List (Pulse D)

namespace Metered

variable {D : Type} [Double D]

/-- The velocity times the time, over all pulses; the time of a sleep is in microseconds. -/
def travelled (pulses : List (Pulse D)) : D :=
  pulses.foldl (fun x p => x + p.velocity * ((p.delay + p.delay) * 1e-6)) 0

/-- A pulse starts at the first lock of the loop, and is over at the second. -/
def threadStep (s : Metered D) : Metered D where
  motor := s.motor.threadStep
  velocity :=
    match s.motor.thread with
    | .read => s.motor.locklessVelocity
    | _ => s.velocity
  pulses :=
    match s.motor.thread with
    | .pulse delay => s.pulses ++ [⟨s.velocity, delay⟩]
    | _ => s.pulses

/-- A step with no call of `calibrate` or `set_acceleration`. -/
inductive Step : Metered D → Metered D → Prop where
  | requestHalt (s : Metered D) : Step s ⟨s.motor.requestHalt, s.velocity, s.pulses⟩
  | thread (s : Metered D) : Step s s.threadStep

/-- The velocity times the time is two steps of the wheel, or, at a delay of zero, nothing. -/
def Twofold (p : Pulse XReal) : Prop :=
  p.velocity * ((p.delay + p.delay) * 1e-6) = radiansPerTurn * radius + radiansPerTurn * radius ∨
    p.velocity * ((p.delay + p.delay) * 1e-6) = nan

/-- What is known in a run of the loop, from the position `x`. -/
structure Invariant (x : ℝ) (s : Metered XReal) : Prop where
  sound : Sound s.motor
  pos : s.motor.pos = fin (x + s.pulses.length * (3.1415926535897 / 100 * 0.075))
  read : s.motor.thread = .read → s.motor.stopped = false
  pulse : ∀ delay, s.motor.thread = .pulse delay → Twofold ⟨s.velocity, delay⟩
  pulses : ∀ p ∈ s.pulses, Twofold p

variable {x : ℝ} {s s' : Metered XReal}

/-- A pulse that starts while the motor moves. -/
theorem twofold_of_moving {m : Motor XReal} (h : Sound m) (hs : m.stopped = false) :
    Twofold ⟨m.locklessVelocity, m.locklessDelay⟩ := by
  obtain ⟨c, hc⟩ := h.curr
  obtain ⟨n, hn⟩ := h.next_of_moving hs
  have hd : m.locklessDelay = fin (n - c) := by rw [locklessDelay, hn, hc, sub_fin]
  by_cases h0 : n - c = 0
  · right
    have hzero : m.locklessDelay = fin 0 := hd.trans (congrArg fin h0)
    dsimp only
    rw [locklessVelocity_zero hs hzero, hzero, ofScientific_eq, add_fin, mul_fin, add_zero,
      zero_mul]
    exact signed_zero
  · left
    dsimp only
    rw [locklessVelocity_fin hs hd h0, hd, turn_fin, ofScientific_eq, add_fin, mul_fin, mul_fin,
      add_fin]
    congr 1
    field_simp
    norm_num

/-- A step that is not the end of a pulse. -/
theorem threadStep_pulses (h : ∀ delay, s.motor.thread ≠ .pulse delay) :
    s.threadStep.pulses = s.pulses ∧ s.threadStep.motor.pos = s.motor.pos := by
  constructor
  · cases ht : s.motor.thread with
    | pulse delay => exact absurd ht (h delay)
    | _ => rw [Metered.threadStep, ht]
  · show s.motor.threadStep.pos = s.motor.pos
    rcases s.motor.threadStep_cases with ⟨pc, hs⟩ | ⟨delay, pc, ht, -⟩
    · rw [hs]
    · exact absurd ht (h delay)

/-- The end of a pulse. -/
theorem threadStep_pulse {delay : XReal} {y : ℝ} (ht : s.motor.thread = .pulse delay)
    (hp : s.motor.pos = fin y) :
    s.threadStep.pulses = s.pulses ++ [⟨s.velocity, delay⟩] ∧
      s.threadStep.motor.pos = fin (y + 3.1415926535897 / 100 * 0.075) := by
  constructor
  · rw [Metered.threadStep, ht]
  · show s.motor.threadStep.pos = _
    obtain ⟨pc, hs⟩ := threadStep_of_pulse ht
    rw [hs, pulsed_pos, hp, turn_fin, add_fin]

theorem Invariant.threadStep (h : Invariant x s) : Invariant x s.threadStep := by
  have hread : s.threadStep.motor.thread = .read → s.threadStep.motor.stopped = false := by
    intro hr
    obtain ⟨hs, he⟩ := threadStep_eq_read hr
    show s.motor.threadStep.stopped = false
    rw [he]
    exact hs
  have hpulse : ∀ delay, s.threadStep.motor.thread = .pulse delay →
      Twofold ⟨s.threadStep.velocity, delay⟩ := by
    intro delay hp
    obtain ⟨ht, rfl⟩ := threadStep_eq_pulse hp
    have hv : s.threadStep.velocity = s.motor.locklessVelocity := by
      rw [Metered.threadStep, ht]
    rw [hv]
    exact twofold_of_moving h.sound (h.read ht)
  by_cases ht : ∃ delay, s.motor.thread = .pulse delay
  · obtain ⟨delay, ht⟩ := ht
    obtain ⟨hps, hpos⟩ := threadStep_pulse ht h.pos
    refine ⟨h.sound.threadStep, ?_, hread, hpulse, ?_⟩
    · rw [hpos, hps, List.length_append, List.length_singleton]
      push_cast
      congr 1
      ring
    · intro p hp
      rw [hps, List.mem_append, List.mem_singleton] at hp
      rcases hp with hp | rfl
      · exact h.pulses p hp
      · exact h.pulse delay ht
  · obtain ⟨hps, hpos⟩ := threadStep_pulses fun delay hd => ht ⟨delay, hd⟩
    refine ⟨h.sound.threadStep, ?_, hread, hpulse, ?_⟩
    · rw [hpos, hps]
      exact h.pos
    · rw [hps]
      exact h.pulses

theorem Invariant.step (h : Invariant x s) (hs : Step s s') : Invariant x s' := by
  cases hs with
  | requestHalt =>
      exact ⟨h.sound.step (.requestHalt s.motor), h.pos, h.read, h.pulse, h.pulses⟩
  | thread => exact h.threadStep

/-- What the velocity makes of the position: two steps of the wheel for each pulse. -/
theorem travelled_twofold {pulses : List (Pulse XReal)} (h : ∀ p ∈ pulses, Twofold p) :
    travelled pulses = fin (pulses.length * (2 * (3.1415926535897 / 100 * 0.075))) ∨
      travelled pulses = nan ∧ pulses ≠ [] := by
  induction pulses using List.reverseRecOn with
  | nil =>
      left
      show (0 : XReal) = _
      rw [zero_eq, List.length_nil, Nat.cast_zero, zero_mul]
  | append_singleton pulses p ih =>
      have hlast : travelled (pulses ++ [p]) =
          travelled pulses + p.velocity * ((p.delay + p.delay) * 1e-6) := by
        rw [travelled, List.foldl_append]
        rfl
      rw [hlast]
      rcases h p (List.mem_append_right _ (List.mem_singleton_self p)) with hp | hp
      · rcases ih fun q hq => h q (List.mem_append_left _ hq) with ht | ⟨ht, -⟩
        · left
          rw [ht, hp, turn_fin, add_fin, add_fin, List.length_append, List.length_singleton]
          push_cast
          congr 1
          ring
        · right
          rw [ht]
          exact ⟨rfl, List.append_ne_nil_of_right_ne_nil _ (List.cons_ne_nil _ _)⟩
      · right
        rw [hp]
        refine ⟨?_, List.append_ne_nil_of_right_ne_nil _ (List.cons_ne_nil _ _)⟩
        cases travelled pulses <;> rfl

theorem Invariant.travelled_iff {m : Motor XReal} (h : Invariant x s) (hm : m.pos = fin x) :
    s.motor.pos - m.pos = travelled s.pulses ↔ s.pulses = [] := by
  rw [h.pos, hm, sub_fin, add_sub_cancel_left]
  rcases travelled_twofold h.pulses with ht | ⟨ht, hne⟩
  · rw [ht, XReal.fin.injEq, ← List.length_eq_zero_iff, ← Nat.cast_eq_zero (R := ℝ)]
    constructor
    · intro e
      linarith
    · intro e
      rw [e, zero_mul, zero_mul]
  · rw [ht]
    exact ⟨fun e => (nomatch e), fun e => absurd e hne⟩

/-- A run of the loop starts at its test. -/
theorem Invariant.of_run {m : Motor XReal} (h : Relation.ReflTransGen RealStep init m)
    (hc : m.thread = .check) {v : XReal} (hrun : Relation.ReflTransGen Step ⟨m, v, []⟩ s) :
    ∃ x, m.pos = fin x ∧ Invariant x s := by
  have hsound := Sound.of_run h
  obtain ⟨x, hx⟩ := hsound.pos
  have h₀ : Invariant x ⟨m, v, []⟩ := by
    refine ⟨hsound, ?_, ?_, ?_, fun p hp => absurd hp List.not_mem_nil⟩
    · show m.pos = _
      rw [hx, List.length_nil, Nat.cast_zero, zero_mul, add_zero]
    · intro hr
      exact nomatch hc.symm.trans hr
    · intro delay hp
      exact nomatch hc.symm.trans hp
  exact ⟨x, hx, reachable_invariant h₀ (fun _ _ _ h hs => h.step hs) hrun⟩

/-- **The position is not the velocity integrated**: over a run of the loop of `pwm` the two agree
only before the first pulse is over. -/
theorem position_pulses_iff {m : Motor XReal} (h : Relation.ReflTransGen RealStep init m)
    (hc : m.thread = .check) {v : XReal} (hrun : Relation.ReflTransGen Step ⟨m, v, []⟩ s) :
    s.motor.pos - m.pos = travelled s.pulses ↔ s.pulses = [] := by
  obtain ⟨x, hx, hinv⟩ := Invariant.of_run h hc hrun
  exact hinv.travelled_iff hx

/-! ### One pulse -/

theorem started_check : Relation.ReflTransGen RealStep init started.threadStep ∧
    started.threadStep.thread = .check := by
  obtain ⟨hloop, -⟩ := started_loop
  refine ⟨(Relation.ReflTransGen.single (.setAcceleration init 0)).tail (.thread started), ?_⟩
  rw [hloop]

/-- The motor after its first pulse, with the record of the pulse. -/
noncomputable def onePulse : Metered XReal :=
  threadStep (threadStep (threadStep ⟨started.threadStep, fin 0, []⟩))

theorem onePulse_run :
    Relation.ReflTransGen Step ⟨started.threadStep, fin 0, []⟩ onePulse :=
  ((Relation.ReflTransGen.single (.thread _)).tail (.thread _)).tail (.thread _)

theorem onePulse_pulses :
    onePulse.pulses = [⟨started.locklessVelocity, started.locklessDelay⟩] := by
  have hread : threadStep ⟨started.threadStep, fin 0, []⟩ =
      ⟨{ started with thread := .read }, fin 0, []⟩ := by
    rw [Metered.threadStep]
    simp only [started_check.2, started_loop.2.1]
  rw [onePulse, hread]
  rfl

theorem onePulse_length : onePulse.pulses.length = 1 := by
  rw [onePulse_pulses]
  rfl

theorem onePulse_ne_nil : onePulse.pulses ≠ [] :=
  List.ne_nil_of_length_eq_add_one onePulse_length

/-- The pulse is over, so the two do not agree. -/
theorem onePulse_position : onePulse.pulses.length = 1 ∧
    ¬ onePulse.motor.pos - started.threadStep.pos = travelled onePulse.pulses := by
  refine ⟨onePulse_length, fun hagree => onePulse_ne_nil ?_⟩
  exact (position_pulses_iff started_check.1 started_check.2 onePulse_run).1 hagree

/-- **A position that is not the velocity integrated**, after one pulse. -/
theorem pulsedOnce_position_ne : ∃ s : Metered XReal,
    Relation.ReflTransGen RealStep init started.threadStep ∧ started.threadStep.thread = .check ∧
      Relation.ReflTransGen Step ⟨started.threadStep, fin 0, []⟩ s ∧ s.pulses.length = 1 ∧
      s.motor.pos - started.threadStep.pos ≠ travelled s.pulses := by
  obtain ⟨hreach, hc⟩ := started_check
  obtain ⟨x, hx, hinv⟩ := Invariant.of_run hreach hc onePulse_run
  refine ⟨onePulse, hreach, hc, onePulse_run, onePulse_length, fun hagree => onePulse_ne_nil ?_⟩
  exact (hinv.travelled_iff hx).1 hagree

end Metered

end DrivingSim.Motor
