import Mathlib.Algebra.Order.Field.Rat
import Mathlib.Tactic.Linarith
import Mathlib.Tactic.Positivity
import Mathlib.Tactic.Ring
import DrivingSim.Hardware.Oscilloscope

/-!
# Hardware — the time that a window spans

`fill_window` rounds the number of samples down, and the constructor rounds down the time between
two of them.  The first costs a window at most one period of the sampling rate.  The second costs
it a part of a microsecond with every sample, and that adds up: a window is too short by all of it
together (`sr_mul_span`).  So it spans the time that was asked for to within a period exactly where
the two together are no more than one (`spans_iff`), and at a given rate every window does exactly
where the rate divides a million (`spans_all_iff`).
-/

namespace DrivingSim.Oscilloscope

variable {κ : Type} (s : Oscilloscope κ)

/-- The `delay_time` of the constructor. -/
def delayTime : Nat := 1000000 / s.sr

/-- The samples of a window, one per `delay_time`, span the time asked for to within a period. -/
def Spans (size : Nat) : Prop :=
  |((s.numSamples size * s.delayTime : Nat) : ℚ) - size| ≤ 1000000 / s.sr

/-- What a window is short of, in parts of a microsecond of which there are `sr` in one: what is
left of the last sample, and what is left of the microsecond at every sample. -/
def lost (size : Nat) : Nat :=
  size * s.sr % 1000000 + size * s.sr / 1000000 * (1000000 % s.sr)

variable {s} {size : Nat}

theorem sr_mul_span :
    s.sr * (s.numSamples size * s.delayTime) + s.lost size = s.sr * size := by
  have hsamples := Nat.div_add_mod (size * s.sr) 1000000
  have hperiod := Nat.div_add_mod 1000000 s.sr
  calc s.sr * (s.numSamples size * s.delayTime) + s.lost size
      = size * s.sr / 1000000 * (s.sr * (1000000 / s.sr) + 1000000 % s.sr) +
          size * s.sr % 1000000 := by rw [numSamples, delayTime, lost]; ring
    _ = 1000000 * (size * s.sr / 1000000) + size * s.sr % 1000000 := by rw [hperiod]; ring
    _ = s.sr * size := by rw [hsamples, Nat.mul_comm]

theorem spans_iff_lost (hsr : 1 ≤ s.sr) : s.Spans size ↔ s.lost size ≤ 1000000 := by
  have hpos : (0 : ℚ) < s.sr := Nat.cast_pos.2 hsr
  have hspan : (s.sr : ℚ) * ((s.numSamples size * s.delayTime : Nat) : ℚ) + s.lost size =
      s.sr * size := by exact_mod_cast @sr_mul_span κ s size
  have hshort : (size : ℚ) - ((s.numSamples size * s.delayTime : Nat) : ℚ) =
      s.lost size / s.sr := by
    rw [eq_div_iff hpos.ne']
    linarith
  have hnonneg : (0 : ℚ) ≤ s.lost size / s.sr := by positivity
  rw [Spans, abs_sub_comm, hshort, abs_of_nonneg hnonneg, div_le_div_iff_of_pos_right hpos]
  exact_mod_cast Iff.rfl

/-- **When a window spans the time asked for**: what is left of the last sample, and what is left
of a microsecond at every sample, are together no more than the period of the sampling rate. -/
theorem spans_iff (hsr : 1 ≤ s.sr) : s.Spans size ↔
    size * s.sr % 1000000 + size * s.sr / 1000000 * (1000000 % s.sr) ≤ 1000000 :=
  spans_iff_lost hsr

/-- A second at 1000 samples a second. -/
theorem thousandHertz_spans : (init .low .low 1000 : Oscilloscope Unit).Spans 1000000 :=
  (spans_iff (by decide)).2 (by decide)

/-- **A window that is too short**: a second at the default rate has 44100 samples, one every 22
microseconds, which is less than 0.971 seconds. -/
theorem defaultRate_short :
    ¬ ∀ (sr size : Nat), 1 ≤ sr → sr ≤ 1000000 →
      (init .low .low sr : Oscilloscope Unit).Spans size := by
  intro h
  have hspans := h 44100 1000000 (by decide) (by decide)
  exact absurd ((spans_iff_lost (by decide)).1 hspans) (by decide)

/-! ### Rates -/

theorem lost_of_dvd (h : s.sr ∣ 1000000) : s.lost size < 1000000 := by
  rw [lost, Nat.mod_eq_zero_of_dvd h, Nat.mul_zero, Nat.add_zero]
  exact Nat.mod_lt _ (Nat.succ_pos _)

/-- At a rate that does not divide a million, long windows are too short. -/
theorem lt_lost_of_not_dvd (hsr : 1 ≤ s.sr) (h : ¬ s.sr ∣ 1000000)
    (hsize : 1000000 * 1000001 ≤ size) : 1000000 < s.lost size := by
  have hleft : 1 ≤ 1000000 % s.sr := Nat.pos_of_ne_zero fun h0 => h (Nat.dvd_of_mod_eq_zero h0)
  have hsamples : 1000001 ≤ size * s.sr / 1000000 := by
    rw [Nat.le_div_iff_mul_le (Nat.succ_pos _), Nat.mul_comm]
    exact hsize.trans (Nat.le_mul_of_pos_right size hsr)
  calc 1000000 < 1000001 * 1 := by simp
    _ ≤ size * s.sr / 1000000 * (1000000 % s.sr) := Nat.mul_le_mul hsamples hleft
    _ ≤ s.lost size := Nat.le_add_left _ _

/-- **The rates at which every window spans the time asked for.** -/
theorem spans_all_iff (hsr : 1 ≤ s.sr) : (∀ size, s.Spans size) ↔ s.sr ∣ 1000000 := by
  constructor
  · intro h
    by_contra hdvd
    have hlost := (spans_iff_lost hsr).1 (h (1000000 * 1000001))
    exact absurd hlost (Nat.not_le.2 (lt_lost_of_not_dvd hsr hdvd (Nat.le_refl _)))
  · intro h size
    exact (spans_iff_lost hsr).2 (lost_of_dvd h).le

end DrivingSim.Oscilloscope
