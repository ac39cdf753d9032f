import DrivingSim.System.Period

/-!
# System — executing a function in a given time

`timed_exec` of `threading.cpp`, under the clock of `Period.lean`.  Its variable `time` holds an
instant until the function has returned, and from then on the duration that the function took.
What is returned is how long ago that was, as if it were an instant.

* `timedExec_sleeps`, `timedExec_warns`: what is returned is what the clock shows at the end, less
  the duration where `timed_exec` has slept, or what it has shown at the beginning.
* `timedExec_meets_iff`: what is documented holds where the clock happens to show twice the
  duration, and so for no function from every instant (`exists_not_meets`).
-/

namespace DrivingSim.TimedExec
open LoopThread

/-- When `timed_exec` returns, whether it has warned, and what it returns. -/
structure Outcome where
  returned : Int
  warned : Bool
  value : Int

/-- `timed_exec` called at `t`, with a function that takes `w`. -/
def timedExec (t duration w : Int) : Outcome :=
  let time := now t
  let t := t + w
  let time := usecondsSince t time
  if time ≤ duration then
    let t := sleep t (duration - time)
    ⟨t, false, usecondsSince t time⟩
  -- "timed_exec: {} exceeded {} us limit ({} us)."
  else ⟨t, true, usecondsSince t time⟩

/-- What is documented. -/
structure Meets (t duration w : Int) : Prop where
  returned : (timedExec t duration w).returned = t + max duration w
  warned : (timedExec t duration w).warned = true ↔ duration < w
  value : (timedExec t duration w).value = w

variable {t duration w : Int}

/-! ### The clock -/

/-- The field of the clock does not show the seconds. -/
theorem now_add_seconds (seconds : Int) : now (t + 1000000 * seconds) = now t :=
  Int.add_mul_emod_self_left t 1000000 seconds

theorem now_add : now (t + w) = now t + w - 1000000 * secondsEnded t w := by
  have helapsed := @usecondsSince_now t w
  rw [usecondsSince] at helapsed
  omega

theorem now_lt : now t < 1000000 := Int.emod_lt_of_pos t (by simp)

/-! ### The two cases -/

theorem timedExec_sleeps (h : w ≤ duration + 1000000 * secondsEnded t w) :
    timedExec t duration w =
      ⟨t + duration + 1000000 * secondsEnded t w, false,
        now (t + duration) - (w - 1000000 * secondsEnded t w)⟩ := by
  have hle : w - 1000000 * secondsEnded t w ≤ duration := by omega
  have hend : t + w + (duration - (w - 1000000 * secondsEnded t w)) =
      t + duration + 1000000 * secondsEnded t w := by omega
  rw [timedExec, usecondsSince_now]
  dsimp only
  rw [if_pos hle, sleep, hend, usecondsSince, now_add_seconds]

theorem timedExec_warns (h : duration + 1000000 * secondsEnded t w < w) :
    timedExec t duration w = ⟨t + w, true, now t⟩ := by
  have hlt : ¬ w - 1000000 * secondsEnded t w ≤ duration := by omega
  have hvalue : usecondsSince (t + w) (w - 1000000 * secondsEnded t w) = now t := by
    rw [usecondsSince, now_add]
    omega
  rw [timedExec, usecondsSince_now]
  dsimp only
  rw [if_neg hlt, hvalue]

/-! ### When it does what is documented -/

theorem meets_of_le (hw : 0 ≤ w) (h : w ≤ duration) :
    Meets t duration w ↔ secondsEnded t w = 0 ∧ now (t + duration) = 2 * w := by
  have hseconds := @secondsEnded_nonneg t w hw
  have heq := @timedExec_sleeps t duration w (by omega)
  constructor
  · rintro ⟨hreturned, -, hvalue⟩
    rw [heq] at hreturned hvalue
    dsimp only at hreturned hvalue
    rw [max_eq_left h] at hreturned
    exact ⟨by omega, by omega⟩
  · rintro ⟨hzero, hshown⟩
    rw [hzero] at heq
    refine ⟨?_, ?_, ?_⟩
    · rw [heq, max_eq_left h]
      dsimp only
      omega
    · rw [heq]
      simpa using h
    · rw [heq]
      dsimp only
      omega

/-- A function that takes too long, and as long as the clock shows that it has, has ended no
second. -/
theorem meets_of_gt (hduration : 0 ≤ duration) (hw : 0 ≤ w) (h : duration < w) :
    Meets t duration w ↔ secondsEnded t w = 0 ∧ now (t + w) = 2 * w := by
  have hseconds := @secondsEnded_nonneg t w hw
  have hnow := @now_lt t
  rw [now_add]
  rcases lt_or_ge (duration + 1000000 * secondsEnded t w) w with hwarns | hsleeps
  · have heq := timedExec_warns hwarns
    constructor
    · rintro ⟨-, -, hvalue⟩
      rw [heq] at hvalue
      dsimp only at hvalue
      exact ⟨by omega, by omega⟩
    · rintro ⟨hzero, hshown⟩
      refine ⟨?_, ?_, ?_⟩
      · rw [heq, max_eq_right h.le]
      · rw [heq]
        simpa using h
      · rw [heq]
        dsimp only
        omega
  · have heq := timedExec_sleeps hsleeps
    refine iff_of_false (fun hmeets => ?_) fun hmeets => by omega
    have hwarned := hmeets.warned.2 h
    rw [heq] at hwarned
    cases hwarned

/-- **When `timed_exec` does what is documented**: no second of the clock ends while the function
runs, and when `timed_exec` is to return the clock shows twice what the function took. -/
theorem timedExec_meets_iff (hduration : 0 ≤ duration) (hw : 0 ≤ w) : Meets t duration w ↔
    secondsEnded t w = 0 ∧ now (t + max duration w) = 2 * w := by
  rcases le_or_gt w duration with hle | hgt
  · rw [max_eq_left hle]
    exact meets_of_le hw hle
  · rw [max_eq_right hgt.le]
    exact meets_of_gt hduration hw hgt

/-- A function of 100 microseconds in 500, from when the clock shows `999700`. -/
theorem twiceShown_meets : Meets 999700 500 100 :=
  (timedExec_meets_iff (by simp) (by simp)).2 ⟨rfl, rfl⟩

/-- **A duration that is not returned**: of the same function, from the beginning of a second on,
400 microseconds are returned. -/
theorem beginningOfSecond_fails : ¬ ∀ t duration w, 0 ≤ duration → 0 ≤ w → Meets t duration w := by
  intro h
  have hvalue := (h 0 500 100 (by simp) (by simp)).value
  exact absurd hvalue (by decide)

/-- **No duration and no function** are such that what is documented holds from every instant. -/
theorem exists_not_meets (hduration : 0 ≤ duration) (hw : 0 ≤ w) : ∃ t, ¬ Meets t duration w := by
  by_contra hall
  have hmeets : ∀ t, Meets t duration w := fun t => by_contra fun h => hall ⟨t, h⟩
  have hshown : ∀ t, now (t + max duration w) = 2 * w := by
    intro t
    rcases le_or_gt w duration with hle | hgt
    · rw [max_eq_left hle]
      exact ((meets_of_le hw hle).1 (hmeets t)).2
    · rw [max_eq_right hgt.le]
      exact ((meets_of_gt hduration hw hgt).1 (hmeets t)).2
  -- the clock shows two different things at two instants
  have hzero := hshown (0 - max duration w)
  have hone := hshown (1 - max duration w)
  rw [Int.sub_add_cancel] at hzero hone
  exact absurd (hzero.trans hone.symm) (by decide)

end DrivingSim.TimedExec
