import DrivingSim.Hardware.MotorSpeed

/-!
# Hardware — the pulses of the motor

What the second section of `pwm` makes of the acceleration.  With `v` the recorded
`velocity_offset`, `a` the acceleration and `t` the instant of the pulse, in microseconds, it
divides `4688` by the turns per minute of a wheel at `v + a * t * 1e-6`.

* `locklessVelocity_iff`: from that delay `lockless_velocity` does not calculate
  `v + a * t * 1e-6` but `300000 / 4688` times it, about `64`.  So the velocity of a motor that
  has been sent a pulse is never the one requested.
* `delay_pos`: the delay is positive for as long as, at each pulse, `v + a * t * 1e-6` is
  positive; it is a pulse at which this is not so that makes it infinite or negative.  A motor
  that brakes hard is past its standstill at the first pulse (`braking_negative`), and a negative
  delay is not one at which the motor is stopped.

Accelerations and positions are real numbers here.  Infinities still arise, where the section
divides by zero and where the velocity of a delay of zero is recorded; `Sound` says where they
can be.
-/

namespace DrivingSim.Motor
open XReal

/-- What the second section of `pwm` divides by: turns per minute. -/
def denominator {D : Type} [Double D] (m : Motor D) : D :=
  m.accel / radius * 60 / (2 * pi) * 1e-6 * m.curr + m.velocityOffset / radius * 60 / (2 * pi)

/-- A step at which an acceleration, or a position, is set to a real number. -/
inductive RealStep : Motor XReal → Motor XReal → Prop where
  | setAcceleration (m : Motor XReal) (acceleration : ℝ) :
      RealStep m (m.setAcceleration (fin acceleration))
  | calibrate (m : Motor XReal) (newPosition : ℝ) : RealStep m (m.calibrate (fin newPosition))
  | requestHalt (m : Motor XReal) : RealStep m m.requestHalt
  | thread (m : Motor XReal) : RealStep m m.threadStep

/-- The thread is not between the test of the loop of `pwm` and the end of the pulse. -/
def Pc.Passive : Pc XReal → Prop
  | .read | .pulse _ => False
  | _ => True

/-- What is a real number, and what can be an infinity. -/
structure Sound (m : Motor XReal) : Prop where
  accel : m.accel.IsReal
  pos : m.pos.IsReal
  curr : m.curr.IsReal
  offset : m.velocityOffset.IsReal ∨ m.velocityOffset = pinf
  next : m.next.IsReal ∨ m.next = pinf ∧ m.thread.Passive

section Arithmetic

variable {m : Motor XReal} {a v c n d : ℝ}

theorem denominator_fin (ha : m.accel = fin a) (hv : m.velocityOffset = fin v)
    (hc : m.curr = fin c) :
    m.denominator = fin ((v + a * (c * 1e-6)) * 400 / 3.1415926535897) := by
  have hpi : (2 * 3.1415926535897 : ℝ) ≠ 0 := by norm_num
  simp only [denominator, ha, hv, hc, radius, pi, ofScientific_eq, ofNat_eq, mul_fin, add_fin,
    div_fin hpi, div_fin (show (0.075 : ℝ) ≠ 0 by norm_num)]
  congr 1
  norm_num
  ring

theorem denominator_pinf (ha : m.accel = fin a) (hv : m.velocityOffset = pinf)
    (hc : m.curr = fin c) : m.denominator = pinf := by
  have hpi : (2 * 3.1415926535897 : ℝ) ≠ 0 := by norm_num
  have hr : (pinf : XReal) / fin 0.075 = pinf := if_neg (by norm_num)
  have h60 : pinf * fin 60 = pinf := signed_pos (by norm_num)
  have h2 : (pinf : XReal) / fin (2 * 3.1415926535897) = pinf := if_neg (by norm_num)
  simp only [denominator, ha, hv, hc, radius, pi, ofScientific_eq, ofNat_eq, mul_fin, hr, h60, h2,
    div_fin hpi, div_fin (show (0.075 : ℝ) ≠ 0 by norm_num)]
  rfl

/-- How far a pulse turns the wheel. -/
theorem turn_fin : (radiansPerTurn * radius : XReal) = fin (3.1415926535897 / 100 * 0.075) := by
  rw [radiansPerTurn, radius, pi, ofScientific_eq, ofScientific_eq, ofNat_eq,
    div_fin (by norm_num), mul_fin]

/-- The delay after a pulse. -/
theorem delay_of_denominator (hn : m.next = 4688.0 / m.denominator + m.curr)
    (hc : m.curr = fin c) (hd : m.denominator = fin d) (h0 : d ≠ 0) :
    m.locklessDelay = fin (4688 / d) := by
  rw [locklessDelay, hn, hd, hc, ofScientific_eq, div_fin h0, add_fin, sub_fin]
  norm_num

/-- The velocity at a delay. -/
theorem locklessVelocity_fin (hs : m.stopped = false) (hd : m.locklessDelay = fin d)
    (h0 : d ≠ 0) :
    m.locklessVelocity = fin (1e6 / d * (3.1415926535897 / 100) * 0.075) := by
  simp only [locklessVelocity, hs, Bool.false_eq_true, if_false, hd, radiansPerTurn, radius, pi,
    ofScientific_eq, ofNat_eq, div_fin h0, div_fin (show (100 : ℝ) ≠ 0 by norm_num), mul_fin]

theorem locklessVelocity_zero (hs : m.stopped = false) (hd : m.locklessDelay = fin 0) :
    m.locklessVelocity = pinf := by
  have h₁ : (1e6 : XReal) / fin 0 = pinf := by
    rw [ofScientific_eq, div_zero]
    exact signed_pos (by norm_num)
  have h₂ : pinf * fin (3.1415926535897 / 100) = pinf := signed_pos (by norm_num)
  have h₃ : pinf * fin 0.075 = pinf := signed_pos (by norm_num)
  rw [locklessVelocity, hs, if_neg Bool.false_ne_true, hd, h₁, radiansPerTurn, radius, pi,
    ofScientific_eq, ofNat_eq, div_fin (by norm_num), h₂, ofScientific_eq, h₃]

theorem stopped_of_pinf (hc : m.curr.IsReal) (hn : m.next = pinf) : m.stopped = true := by
  obtain ⟨c, hc⟩ := hc
  have h : m.locklessDelay = pinf := by
    rw [locklessDelay, hn, hc]
    rfl
  rw [stopped, h, stopThreshold, ofNat_eq]
  exact decide_eq_true (fin_lt_pinf _)

end Arithmetic

/-! ### The invariant -/

namespace Sound

variable {m m' : Motor XReal}

theorem next_of_moving (h : Sound m) (hs : m.stopped = false) : m.next.IsReal := by
  rcases h.next with hn | ⟨hn, -⟩
  · exact hn
  · exact absurd ((stopped_of_pinf h.curr hn).symm.trans hs) (fun e => nomatch e)

/-- A velocity is a real number, or that of a delay of zero. -/
theorem velocity (h : Sound m) : m.locklessVelocity.IsReal ∨ m.locklessVelocity = pinf := by
  cases hs : m.stopped with
  | true =>
      left
      rw [locklessVelocity, hs, if_pos rfl, ofScientific_eq]
      exact isReal_fin _
  | false =>
      obtain ⟨c, hc⟩ := h.curr
      obtain ⟨n, hn⟩ := h.next_of_moving hs
      have hd : m.locklessDelay = fin (n - c) := by rw [locklessDelay, hn, hc, sub_fin]
      by_cases h0 : n - c = 0
      · right
        exact locklessVelocity_zero hs (hd.trans (congrArg fin h0))
      · left
        rw [locklessVelocity_fin hs hd h0]
        exact isReal_fin _

theorem wake (h : Sound m) : Sound m.wake ∧ m.wake.next.IsReal := by
  rw [Motor.wake]
  cases hs : m.stopped with
  | true =>
      have hn : (stopThreshold : XReal).IsReal := by
        rw [stopThreshold, ofNat_eq]
        exact isReal_fin _
      rw [if_pos rfl]
      refine ⟨⟨h.accel, h.pos, ?_, h.offset, .inl hn⟩, hn⟩
      rw [zero_eq]
      exact isReal_fin _
  | false =>
      rw [if_neg Bool.false_ne_true]
      exact ⟨h, h.next_of_moving hs⟩

theorem setAcceleration (h : Sound m) (acceleration : ℝ) :
    Sound (m.setAcceleration (fin acceleration)) := by
  obtain ⟨hw, n, hn⟩ := h.wake
  refine ⟨isReal_fin _, hw.pos, ?_, hw.velocity, .inl ?_⟩
  · rw [setAcceleration_curr, zero_eq]
    exact isReal_fin _
  · rw [setAcceleration_next, zero_eq, hn, sub_fin]
    exact isReal_fin _

/-- What the second section of `pwm` calculates. -/
theorem pulsed_next (h : Sound m) (hn : m.next.IsReal) :
    m.pulsed.next.IsReal ∨ m.pulsed.next = pinf := by
  obtain ⟨a, ha⟩ := h.accel
  obtain ⟨n, hn⟩ := hn
  have hc : m.pulsed.curr = fin n := hn
  have hnext : m.pulsed.next = 4688.0 / m.pulsed.denominator + m.pulsed.curr := rfl
  rw [hnext, hc, ofScientific_eq]
  rcases h.offset with ⟨v, hv⟩ | hv
  · rw [denominator_fin (m := m.pulsed) ha hv hc]
    by_cases h0 : (v + a * (n * 1e-6)) * 400 / 3.1415926535897 = 0
    · right
      rw [h0, div_zero, signed_pos (by norm_num)]
      rfl
    · left
      rw [div_fin h0, add_fin]
      exact isReal_fin _
  · left
    rw [denominator_pinf (m := m.pulsed) ha hv hc]
    exact isReal_fin _

theorem pulsed (h : Sound m) (hn : m.next.IsReal) {pc : Pc XReal} (hpc : pc.Passive) :
    Sound { m.pulsed with thread := pc } := by
  refine ⟨h.accel, ?_, hn, h.offset, ?_⟩
  · obtain ⟨x, hx⟩ := h.pos
    rw [pulsed_pos, hx, turn_fin, add_fin]
    exact isReal_fin _
  · rcases h.pulsed_next hn with hn' | hn'
    · exact .inl hn'
    · exact .inr ⟨hn', hpc⟩

/-- The thread moves on without a pulse. -/
theorem goTo (h : Sound m) {pc : Pc XReal} (hpc : pc.Passive ∨ m.next.IsReal) :
    Sound { m with thread := pc } := by
  refine ⟨h.accel, h.pos, h.curr, h.offset, ?_⟩
  rcases hpc with hpc | hn
  · rcases h.next with hn | ⟨hn, -⟩
    · exact .inl hn
    · exact .inr ⟨hn, hpc⟩
  · exact .inl hn

/-- The thread is only sent on to a pulse when `next` is a real number. -/
theorem next_of_active (h : Sound m) (hpc : ¬ m.thread.Passive) : m.next.IsReal := by
  rcases h.next with hn | ⟨-, hp⟩
  · exact hn
  · exact absurd hp hpc

theorem threadStep (h : Sound m) : Sound m.threadStep := by
  rw [Motor.threadStep]
  cases ht : m.thread with
  | idle =>
      dsimp only
      split_ifs
      · exact h.goTo (.inl trivial)
      · exact h.goTo (.inl trivial)
      · exact h.goTo (.inl trivial)
  | waiting =>
      dsimp only
      split_ifs
      · exact h
      · exact h.goTo (.inl trivial)
  | check =>
      dsimp only
      split_ifs with hs
      · exact h.goTo (.inl trivial)
      · exact h.goTo (.inr (h.next_of_moving (Bool.not_eq_true _ ▸ hs)))
  | read => exact h.goTo (.inr (h.next_of_active (by rw [ht]; exact id)))
  | pulse delay =>
      have hn : m.next.IsReal := h.next_of_active (by rw [ht]; exact id)
      dsimp only
      split_ifs
      · exact h.pulsed hn trivial
      · exact h.pulsed hn trivial
  | exited => exact h

theorem step (h : Sound m) (hs : RealStep m m') : Sound m' := by
  cases hs with
  | setAcceleration a => exact h.setAcceleration a
  | calibrate x => exact ⟨h.accel, isReal_fin x, h.curr, h.offset, h.next⟩
  | requestHalt => exact ⟨h.accel, h.pos, h.curr, h.offset, h.next⟩
  | thread => exact h.threadStep

theorem init : Sound (Motor.init : Motor XReal) := by
  have h0 : (0.0 : XReal).IsReal := by
    rw [ofScientific_eq]
    exact isReal_fin _
  refine ⟨h0, h0, ?_, .inl ?_, .inl ?_⟩
  · rw [init_curr, zero_eq]
    exact isReal_fin _
  · rw [init_velocityOffset, locklessVelocity, init_stopped, if_pos rfl]
    exact h0
  · rw [init_next, stopThreshold, ofNat_eq, one_eq, add_fin]
    exact isReal_fin _

/-- **What a motor is made of**, in every state that it comes to. -/
theorem of_run (h : Relation.ReflTransGen RealStep Motor.init m) : Sound m :=
  reachable_invariant init (fun _ _ _ h hs => h.step hs) h

end Sound

/-! ### The velocity after a pulse -/

/-- A step between two calls of `set_acceleration`. -/
inductive QuietStep : Motor XReal → Motor XReal → Prop where
  | calibrate (m : Motor XReal) (newPosition : ℝ) : QuietStep m (m.calibrate (fin newPosition))
  | requestHalt (m : Motor XReal) : QuietStep m m.requestHalt
  | thread (m : Motor XReal) : QuietStep m m.threadStep

section Velocity

variable {m m' : Motor XReal}

theorem QuietStep.toReal (h : QuietStep m m') : RealStep m m' := by
  cases h with
  | calibrate x => exact .calibrate m x
  | requestHalt => exact .requestHalt m
  | thread => exact .thread m

/-- `next` is what the last pulse has made it. -/
def Paced (m : Motor XReal) : Prop := m.next = 4688.0 / m.denominator + m.curr

theorem Paced.threadStep (h : Paced m) : Paced m.threadStep := by
  rcases m.threadStep_cases with ⟨pc, hs⟩ | ⟨delay, pc, -, hs⟩
  · rw [hs]
    exact h
  · rw [hs]
    rfl

theorem Paced.step (h : Paced m) (hs : QuietStep m m') : Paced m' := by
  cases hs with
  | calibrate x => exact h
  | requestHalt => exact h
  | thread => exact h.threadStep

/-- The end of a pulse. -/
theorem paced_threadStep {delay : XReal} (ht : m.thread = .pulse delay) :
    Paced m.threadStep := by
  rw [Motor.threadStep, ht]
  dsimp only
  split_ifs <;> rfl

/-- The velocity that a paced motor reports. -/
theorem Paced.velocity {a v c : ℝ} (h : Paced m) (hs : m.stopped = false) (ha : m.accel = fin a)
    (hv : m.velocityOffset = fin v) (hc : m.curr = fin c) :
    v + a * (c * 1e-6) ≠ 0 ∧
      m.locklessVelocity = fin (300000 / 4688 * (v + a * (c * 1e-6))) := by
  have hd := denominator_fin ha hv hc
  have h0 : v + a * (c * 1e-6) ≠ 0 := by
    intro h0
    have hn : m.next = pinf := by
      rw [h, hd, h0, zero_mul, zero_div, ofScientific_eq, XReal.div_zero,
        signed_pos (by norm_num), hc]
      rfl
    exact absurd ((stopped_of_pinf ⟨c, hc⟩ hn).symm.trans hs) (fun e => nomatch e)
  have hd0 : (v + a * (c * 1e-6)) * 400 / 3.1415926535897 ≠ 0 :=
    div_ne_zero (mul_ne_zero h0 (by norm_num)) (by norm_num)
  refine ⟨h0, ?_⟩
  rw [locklessVelocity_fin hs (delay_of_denominator h hc hd hd0)
    (div_ne_zero (by norm_num) hd0)]
  congr 1
  field_simp
  norm_num
  ring

/-- What the motor is asked for, from an infinite velocity. -/
theorem Paced.velocity_of_pinf {a c : ℝ} (h : Paced m) (hs : m.stopped = false)
    (ha : m.accel = fin a) (hv : m.velocityOffset = pinf) (hc : m.curr = fin c) :
    m.locklessVelocity = pinf := by
  refine locklessVelocity_zero hs ?_
  have hq : (fin 4688.0 : XReal) / pinf = fin 0 := rfl
  rw [locklessDelay, h, denominator_pinf ha hv hc, hc, ofScientific_eq, hq, add_fin, sub_fin]
  norm_num

/-- **The velocity after a pulse**, while the motor moves, is the one requested only where that is
infinite. -/
theorem locklessVelocity_iff {delay : XReal} (h : Relation.ReflTransGen RealStep init m)
    (ht : m.thread = .pulse delay) (hrun : Relation.ReflTransGen QuietStep m.threadStep m')
    (hs : m'.stopped = false) :
    m'.locklessVelocity = m'.velocityOffset + m'.accel * (m'.curr * 1e-6) ↔
      m'.velocityOffset = pinf := by
  have hpaced : Paced m' :=
    reachable_invariant (paced_threadStep ht) (fun _ _ _ h hs => h.step hs) hrun
  have hsound : Sound m' := by
    refine .of_run ((h.tail (.thread m)).trans ?_)
    exact Relation.ReflTransGen.mono (fun _ _ h => h.toReal) _ _ hrun
  obtain ⟨a, ha⟩ := hsound.accel
  obtain ⟨c, hc⟩ := hsound.curr
  rcases hsound.offset with ⟨v, hv⟩ | hv
  · obtain ⟨h0, hvel⟩ := hpaced.velocity hs ha hv hc
    rw [hvel, ha, hv, hc, ofScientific_eq, mul_fin, mul_fin, add_fin, XReal.fin.injEq]
    constructor
    · intro e
      exact absurd (by linarith) h0
    · intro e
      exact nomatch e
  · rw [hpaced.velocity_of_pinf hs ha hv hc, ha, hv, hc, ofScientific_eq, mul_fin, mul_fin]
    exact ⟨fun _ => rfl, fun _ => rfl⟩

/-! ### One pulse -/

/-- The motor that has been set to move, and is sent its first pulse. -/
theorem firstPulse (a : ℝ) : ∃ m : Motor XReal, Relation.ReflTransGen RealStep init m ∧
    m.thread = .pulse (fin 4000) ∧
    m.threadStep =
      { ((init : Motor XReal).setAcceleration (fin a)).pulsed with thread := .check } := by
  have hd : ((init : Motor XReal).setAcceleration (fin a)).locklessDelay = fin 4000 := by
    rw [init_setAcceleration, locklessDelay, sub_fin, sub_zero]
  have hm : ((init : Motor XReal).setAcceleration (fin a)).stopped = false := by
    rw [stopped, hd, stopThreshold, ofNat_eq]
    exact decide_eq_false (lt_irrefl (4000 : ℝ))
  have hh : ((init : Motor XReal).setAcceleration (fin a)).halt = false := by
    rw [init_setAcceleration]
  have ht : ((init : Motor XReal).setAcceleration (fin a)).thread = .idle := by
    rw [init_setAcceleration]
  have hloop := (threadStep_loop hm hh ht).2.2
  rw [hd] at hloop
  refine ⟨((init : Motor XReal).setAcceleration (fin a)).threadStep.threadStep.threadStep, ?_, ?_,
    threadStep_pulse hm hh ht⟩
  · exact (((Relation.ReflTransGen.single (.setAcceleration init a)).tail (.thread _)).tail
      (.thread _)).tail (.thread _)
  · rw [hloop]

theorem pulsedOnce_run : ∃ (m : Motor XReal) (delay : XReal),
    Relation.ReflTransGen RealStep init m ∧ m.thread = .pulse delay ∧
      m.threadStep = pulsedOnce := by
  obtain ⟨m, hrun, ht, hs⟩ := firstPulse 0
  exact ⟨m, fin 4000, hrun, ht, hs.trans pulsedOnce_eq.symm⟩

theorem pulsedOnce_offset :
    pulsedOnce.velocityOffset = fin (1e6 / 4000 * (3.1415926535897 / 100) * 0.075) := by
  rw [pulsedOnce_eq, pulsed_velocityOffset, started_eq]

/-- The velocity that was recorded is a number, so the one reported is another. -/
theorem pulsedOnce_velocity : ¬ pulsedOnce.locklessVelocity =
    pulsedOnce.velocityOffset + pulsedOnce.accel * (pulsedOnce.curr * 1e-6) := by
  obtain ⟨m, delay, hrun, ht, hp⟩ := pulsedOnce_run
  intro hagree
  have hinf := (locklessVelocity_iff hrun ht (hp ▸ .refl) pulsedOnce_stopped).1 hagree
  rw [pulsedOnce_offset] at hinf
  cases hinf

/-- **Another velocity than requested.**  After one pulse at no acceleration, the velocity is not
the one recorded when the acceleration was set. -/
theorem pulsedOnce_velocity_ne :
    (∃ (m : Motor XReal) (delay : XReal), Relation.ReflTransGen RealStep init m ∧
      m.thread = .pulse delay ∧ Relation.ReflTransGen QuietStep m.threadStep pulsedOnce) ∧
    pulsedOnce.stopped = false ∧ pulsedOnce.denominator ≠ fin 0 ∧
    pulsedOnce.locklessVelocity ≠
      pulsedOnce.velocityOffset + pulsedOnce.accel * (pulsedOnce.curr * 1e-6) := by
  obtain ⟨m, delay, hrun, ht, hp⟩ := pulsedOnce_run
  have hpaced : Paced pulsedOnce := hp ▸ paced_threadStep ht
  have ha : pulsedOnce.accel = fin 0 := by
    rw [pulsedOnce_eq, pulsed_accel, started_eq]
  have hv := pulsedOnce_offset
  have hc := pulsedOnce_clock.1
  obtain ⟨h0, hvel⟩ := hpaced.velocity pulsedOnce_stopped ha hv hc
  refine ⟨⟨m, delay, hrun, ht, hp ▸ .refl⟩, pulsedOnce_stopped, ?_, ?_⟩
  · rw [denominator_fin ha hv hc, Ne, XReal.fin.injEq]
    norm_num
  · rw [hvel, ha, hv, hc, ofScientific_eq, mul_fin, mul_fin, add_fin, Ne, XReal.fin.injEq]
    norm_num

end Velocity

/-! ### The delay -/

/-- The speed that is requested for the next pulse is one forwards. -/
def Forward (m : Motor XReal) : Prop := fin 0 < m.velocityOffset + m.accel * (m.next * 1e-6)

/-- A step which, if it ends a pulse, does so at a speed forwards. -/
def ForwardStep (m m' : Motor XReal) : Prop :=
  RealStep m m' ∧ ∀ delay, m.thread = .pulse delay → m' = m.threadStep → m.Forward

/-- A clock that goes forwards. -/
structure Ticking (m : Motor XReal) : Prop where
  accel : m.accel.IsReal
  offset : m.velocityOffset.IsReal
  clock : ∃ c n : ℝ, m.curr = fin c ∧ m.next = fin n ∧ 0 ≤ c ∧ c < n

namespace Ticking

variable {m m' : Motor XReal}

theorem delay (h : Ticking m) : ∃ d : ℝ, m.locklessDelay = fin d ∧ 0 < d := by
  obtain ⟨c, n, hc, hn, -, hcn⟩ := h.clock
  exact ⟨n - c, by rw [locklessDelay, hc, hn, sub_fin], sub_pos.mpr hcn⟩

theorem wake (h : Ticking m) : Ticking m.wake := by
  rw [Motor.wake]
  split_ifs
  · refine ⟨h.accel, h.offset, 0, 4000, zero_eq, ?_, le_rfl, by norm_num⟩
    show stopThreshold = fin 4000
    rw [stopThreshold, ofNat_eq]
  · exact h

/-- The velocity at a positive delay is a real number. -/
theorem velocity (h : Ticking m) : m.locklessVelocity.IsReal := by
  obtain ⟨d, hd, h0⟩ := h.delay
  cases hs : m.stopped with
  | true =>
      rw [locklessVelocity, hs, if_pos rfl, ofScientific_eq]
      exact isReal_fin _
  | false =>
      rw [locklessVelocity_fin hs hd h0.ne']
      exact isReal_fin _

theorem setAcceleration (h : Ticking m) (acceleration : ℝ) :
    Ticking (m.setAcceleration (fin acceleration)) := by
  obtain ⟨c, n, hc, hn, h0, hcn⟩ := h.wake.clock
  refine ⟨isReal_fin _, h.wake.velocity, 0, n, zero_eq, ?_, le_rfl, h0.trans_lt hcn⟩
  rw [setAcceleration_next, zero_eq, hn, sub_fin, sub_zero]

/-- The section divides by a positive number exactly when the speed is one forwards. -/
theorem pulsed_iff (h : Ticking m) : ∃ d : ℝ, m.pulsed.denominator = fin d ∧
    (m.Forward ↔ 0 < d) := by
  obtain ⟨a, ha⟩ := h.accel
  obtain ⟨v, hv⟩ := h.offset
  obtain ⟨c, n, hc, hn, -⟩ := h.clock
  refine ⟨_, denominator_fin (m := m.pulsed) ha hv hn, ?_⟩
  rw [Forward, ha, hv, hn, ofScientific_eq, mul_fin, mul_fin, add_fin, fin_lt_fin]
  constructor
  · intro hpos
    exact div_pos (mul_pos hpos (by norm_num)) (by norm_num)
  · intro hd
    by_contra hneg
    have : (v + a * (n * 1e-6)) * 400 ≤ 0 :=
      mul_nonpos_of_nonpos_of_nonneg (not_lt.mp hneg) (by norm_num)
    exact absurd (div_nonpos_of_nonpos_of_nonneg this (by norm_num)) (not_le.mpr hd)

/-- The delay that a pulse makes. -/
theorem pulsed_delay (h : Ticking m) {d : ℝ} (hd : m.pulsed.denominator = fin d) (h0 : d ≠ 0) :
    m.pulsed.locklessDelay = fin (4688 / d) := by
  obtain ⟨c, n, -, hn, -⟩ := h.clock
  exact delay_of_denominator rfl hn hd h0

theorem pulsed (h : Ticking m) (hf : m.Forward) : Ticking m.pulsed := by
  obtain ⟨d, hd, hiff⟩ := h.pulsed_iff
  have hpos := hiff.mp hf
  obtain ⟨c, n, hc, hn, h0, hcn⟩ := h.clock
  refine ⟨h.accel, h.offset, n, 4688 / d + n, hn, ?_, h0.trans hcn.le, ?_⟩
  · show 4688.0 / m.pulsed.denominator + m.next = _
    rw [hd, hn, ofScientific_eq, div_fin hpos.ne', add_fin]
    norm_num
  · exact lt_add_of_pos_left n (div_pos (by norm_num) hpos)

theorem threadStep (h : Ticking m) (hf : ∀ delay, m.thread = .pulse delay → m.Forward) :
    Ticking m.threadStep := by
  rcases m.threadStep_cases with ⟨pc, hs⟩ | ⟨delay, pc, ht, hs⟩
  · rw [hs]
    exact ⟨h.accel, h.offset, h.clock⟩
  · have hq := h.pulsed (hf delay ht)
    rw [hs]
    exact ⟨hq.accel, hq.offset, hq.clock⟩

theorem step (h : Ticking m) (hs : ForwardStep m m') : Ticking m' := by
  obtain ⟨hs, hf⟩ := hs
  cases hs with
  | setAcceleration a => exact h.setAcceleration a
  | calibrate x => exact ⟨h.accel, h.offset, h.clock⟩
  | requestHalt => exact ⟨h.accel, h.offset, h.clock⟩
  | thread => exact h.threadStep fun delay ht => hf delay ht rfl

theorem init : Ticking (Motor.init : Motor XReal) := by
  obtain ⟨v, hv⟩ : (Motor.init : Motor XReal).velocityOffset.IsReal := by
    rw [init_velocityOffset, locklessVelocity, init_stopped, if_pos rfl, ofScientific_eq]
    exact isReal_fin _
  refine ⟨?_, ⟨v, hv⟩, 0, 4000 + 1, zero_eq, ?_, le_rfl, by norm_num⟩
  · rw [init_accel, ofScientific_eq]
    exact isReal_fin _
  · rw [init_next, stopThreshold, ofNat_eq, one_eq, add_fin]

end Ticking

/-- **The delay is positive** in every state of a run whose pulses all end at a speed forwards.  A
further pulse leaves it positive, and does not divide by zero, exactly when it ends at one
too. -/
theorem delay_pos {m : Motor XReal} (h : Relation.ReflTransGen ForwardStep init m) :
    fin 0 < m.locklessDelay ∧ ∀ delay, m.thread = .pulse delay →
      (fin 0 < m.threadStep.locklessDelay ∧ m.threadStep.denominator ≠ fin 0 ↔ m.Forward) := by
  have ht : Ticking m := reachable_invariant .init (fun _ _ _ h hs => h.step hs) h
  obtain ⟨d, hd, h0⟩ := ht.delay
  refine ⟨hd ▸ h0, fun delay hpc => ?_⟩
  obtain ⟨pc, hs⟩ := threadStep_of_pulse hpc
  obtain ⟨q, hq, hiff⟩ := ht.pulsed_iff
  rw [hs]
  show fin 0 < m.pulsed.locklessDelay ∧ m.pulsed.denominator ≠ fin 0 ↔ m.Forward
  rw [hiff, hq, Ne, XReal.fin.injEq]
  constructor
  · rintro ⟨hpos, hq0⟩
    rw [ht.pulsed_delay hq hq0, fin_lt_fin] at hpos
    exact (div_pos_iff_of_pos_left (by norm_num)).mp hpos
  · intro hpos
    refine ⟨?_, hpos.ne'⟩
    rw [ht.pulsed_delay hq hpos.ne', fin_lt_fin]
    exact div_pos (by norm_num) hpos

theorem started_forward : Relation.ReflTransGen ForwardStep init pulsedOnce := by
  obtain ⟨h₁, h₂, h₃⟩ := started_loop
  have h₀ : ForwardStep init started :=
    ⟨.setAcceleration init 0, fun delay ht => nomatch ht⟩
  have hi : ForwardStep started started.threadStep :=
    ⟨.thread started, fun delay ht => by rw [started_eq] at ht; exact nomatch ht⟩
  have hc : ForwardStep started.threadStep started.threadStep.threadStep :=
    ⟨.thread _, fun delay ht => by rw [h₁] at ht; exact nomatch ht⟩
  have hr : ForwardStep started.threadStep.threadStep started.threadStep.threadStep.threadStep :=
    ⟨.thread _, fun delay ht => by rw [h₂] at ht; exact nomatch ht⟩
  refine ((((Relation.ReflTransGen.single h₀).tail hi).tail hc).tail hr).tail
    ⟨.thread _, fun delay _ _ => ?_⟩
  rw [h₃, Forward]
  show fin 0 < started.velocityOffset + started.accel * (started.next * 1e-6)
  rw [started_eq, ofScientific_eq, mul_fin, mul_fin, add_fin, fin_lt_fin]
  norm_num

theorem pulsedOnce_delay : fin 0 < pulsedOnce.locklessDelay := (delay_pos started_forward).1

/-- **A negative delay.**  Braking at `150` from a standstill, the first pulse makes the delay
negative, and the motor goes on. -/
theorem braking_negative : ∃ m : Motor XReal, Relation.ReflTransGen RealStep init m ∧
    m.locklessDelay < fin 0 ∧ m.stopped = false ∧ m.locklessVelocity < fin 0 := by
  obtain ⟨m, hrun, ht, hs⟩ := firstPulse (-150)
  have hpaced : Paced m.threadStep := paced_threadStep ht
  have ha : m.threadStep.accel = fin (-150) := by rw [hs, init_setAcceleration]; rfl
  have hv : m.threadStep.velocityOffset =
      fin (1e6 / 4000 * (3.1415926535897 / 100) * 0.075) := by
    rw [hs, init_setAcceleration]; rfl
  have hc : m.threadStep.curr = fin 4000 := by rw [hs, init_setAcceleration]; rfl
  have hd := delay_of_denominator hpaced hc (denominator_fin ha hv hc) (by norm_num)
  have hmoving : m.threadStep.stopped = false := by
    rw [stopped, hd, stopThreshold, ofNat_eq]
    refine decide_eq_false ?_
    rw [fin_lt_fin]
    norm_num
  refine ⟨m.threadStep, hrun.tail (.thread m), ?_, hmoving, ?_⟩
  · rw [hd, fin_lt_fin]
    norm_num
  · rw [(hpaced.velocity hmoving ha hv hc).2, fin_lt_fin]
    norm_num

end DrivingSim.Motor
