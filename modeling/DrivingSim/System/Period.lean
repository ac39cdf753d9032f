import Mathlib.Algebra.BigOperators.Group.List.Basic
import Mathlib.Algebra.Order.Ring.Int
import Mathlib.Data.List.Forall2

/-!
# System — the period of a loop

`main` of a `loop_thread`, in time: `enforce_delay` takes the time before `work` and, after it,
sleeps for what is left of the delay or warns that there is nothing left.

Instants and durations are in whole microseconds, and an instant counts from the epoch of the
system clock.  `sys::sleep` takes as long as it is asked to, and other code no time.

`sys::now` is the field `tv_usec` of the clock, without the seconds.  An iteration in which `work`
goes on past the end of a second finds that much less time elapsed for each of them, and sleeps
the longer (`iteration_eq`).  So the loop keeps its period exactly where `work` ends within the
second in which it has begun, or takes longer than the delay and the seconds that it has ended
together (`keepsPeriod_iff`).
-/

namespace DrivingSim.LoopThread

/-- `timeval`. -/
structure Timeval where
  tv_sec : Int
  tv_usec : Int

/-- What the system clock shows at an instant. -/
def gettimeofday (t : Int) : Timeval := ⟨t / 1000000, t % 1000000⟩

def now (t : Int) : Int := (gettimeofday t).tv_usec

def usecondsSince (t time : Int) : Int := now t - time

/-- The instant at which `sys::sleep` returns. -/
def sleep (t us : Int) : Int := t + us

/-- The delay function of a thread, called at `t`: when it returns, and whether it warns. -/
def delay (delayTime t started : Int) : Int × Bool :=
  if delayTime = 0 then (t, false)
  else
    let delayTimeLeft := delayTime - usecondsSince t started
    if 0 ≤ delayTimeLeft then (sleep t delayTimeLeft, false)
    -- "Delay time exceeded."
    else (t, true)

/-- One iteration of `main` from `t` on, in which `work` takes `w`. -/
def iteration (delayTime t w : Int) : Int × Bool :=
  let started := now t
  delay delayTime (t + w) started

/-- The iterations of `main` from `t` on: how long each takes, and whether it warns. -/
def iterations (delayTime : Int) : Int → List Int → List (Int × Bool)
  | _, [] => []
  | t, w :: ws =>
    let (t', warned) := iteration delayTime t w
    (t' - t, warned) :: iterations delayTime t' ws

/-- What an iteration is to do. -/
def Periodic (delayTime w : Int) (r : Int × Bool) : Prop :=
  r.1 = max delayTime w ∧ (r.2 = true ↔ delayTime < w)

/-- How many seconds end while `work` goes on. -/
def secondsEnded (t w : Int) : Int := (t % 1000000 + w) / 1000000

/-- No second ends while `work` goes on, or it takes longer than the delay and these seconds
together. -/
def SecondsHarmless (delayTime t w : Int) : Prop :=
  secondsEnded t w = 0 ∨ delayTime + 1000000 * secondsEnded t w < w

/-- The same, of all the iterations of a loop that keeps its period. -/
def AllHarmless (delayTime : Int) : Int → List Int → Prop
  | _, [] => True
  | t, w :: ws => SecondsHarmless delayTime t w ∧ AllHarmless delayTime (t + max delayTime w) ws

variable {delayTime t w : Int} {ws : List Int}

/-! ### One iteration -/

/-- The time that seems to have elapsed. -/
theorem usecondsSince_now : usecondsSince (t + w) (now t) = w - 1000000 * secondsEnded t w := by
  have hmod : (t + w) % 1000000 = (t % 1000000 + w) % 1000000 := by omega
  have hdiv := Int.emod_add_mul_ediv (t % 1000000 + w) 1000000
  simp only [usecondsSince, now, gettimeofday, hmod, secondsEnded]
  omega

/-- Each second that ends while `work` goes on is slept for. -/
theorem iteration_eq (hdelay : 0 < delayTime) : iteration delayTime t w =
    if w ≤ delayTime + 1000000 * secondsEnded t w
    then (t + delayTime + 1000000 * secondsEnded t w, false) else (t + w, true) := by
  rw [iteration, delay, if_neg hdelay.ne', usecondsSince_now]
  dsimp only [sleep]
  have hleft : 0 ≤ delayTime - (w - 1000000 * secondsEnded t w) ↔
      w ≤ delayTime + 1000000 * secondsEnded t w := by omega
  simp only [hleft]
  split_ifs
  · refine Prod.ext ?_ rfl
    dsimp only
    omega
  · rfl

theorem secondsEnded_nonneg (hw : 0 ≤ w) : 0 ≤ secondsEnded t w :=
  Int.ediv_nonneg (Int.add_nonneg (Int.emod_nonneg t (by simp)) hw) (by simp)

theorem periodic_iff (hdelay : 0 < delayTime) (hw : 0 ≤ w) :
    Periodic delayTime w ((iteration delayTime t w).1 - t, (iteration delayTime t w).2) ↔
      SecondsHarmless delayTime t w := by
  have hseconds := secondsEnded_nonneg (t := t) hw
  rw [iteration_eq hdelay, SecondsHarmless, Periodic]
  split_ifs with hlong
  · -- the loop sleeps, and does not warn
    simp only [false_iff]
    constructor
    · rintro ⟨hmax, hle⟩
      rw [max_eq_left (not_lt.1 hle)] at hmax
      exact .inl (by omega)
    · rintro (hzero | hlt)
      · rw [hzero] at hlong ⊢
        rw [max_eq_left (by omega)]
        exact ⟨by omega, by omega⟩
      · exact absurd hlong (not_le.2 hlt)
  · have hlt : delayTime < w := by omega
    rw [max_eq_right hlt.le]
    refine ⟨fun _ => .inr (not_le.1 hlong), fun _ => ⟨by omega, ?_⟩⟩
    exact ⟨fun _ => hlt, fun _ => rfl⟩

/-! ### The loop -/

/-- Iterations that are as they are to be take together as long as they are to. -/
theorem sum_of_periodic {rs : List (Int × Bool)} (h : List.Forall₂ (Periodic delayTime) ws rs) :
    (rs.map Prod.fst).sum = (ws.map (max delayTime)).sum := by
  induction h with
  | nil => rfl
  | cons hr _ ih => rw [List.map_cons, List.map_cons, List.sum_cons, List.sum_cons, hr.1, ih]

theorem allPeriodic_iff (hdelay : 0 < delayTime) (hws : ∀ w ∈ ws, 0 ≤ w) :
    List.Forall₂ (Periodic delayTime) ws (iterations delayTime t ws) ↔
      AllHarmless delayTime t ws := by
  induction ws generalizing t with
  | nil => exact iff_of_true .nil trivial
  | cons w ws ih =>
      have hw := hws w List.mem_cons_self
      rw [iterations, AllHarmless]
      dsimp only
      rw [List.forall₂_cons, periodic_iff hdelay hw]
      refine and_congr_right fun hharmless => ?_
      -- the next iteration begins where that of a loop that keeps its period does
      have hend : (iteration delayTime t w).1 = t + max delayTime w :=
        eq_add_of_sub_eq' ((periodic_iff hdelay hw).2 hharmless).1
      rw [hend]
      exact ih fun w' hw' => hws w' (List.mem_cons_of_mem w hw')

/-- **The period of a loop.**  From any instant on and whatever `work` takes each time, every
iteration takes the longer of the delay and `work`, and warns where that is `work`, and together
they take the sum of these, exactly where in each iteration no second of the clock ends while
`work` goes on or `work` takes longer than the delay and the seconds that end together. -/
theorem keepsPeriod_iff (hdelay : 0 < delayTime) (hws : ∀ w ∈ ws, 0 ≤ w) :
    (List.Forall₂ (Periodic delayTime) ws (iterations delayTime t ws) ∧
      ((iterations delayTime t ws).map Prod.fst).sum = (ws.map (max delayTime)).sum) ↔
    AllHarmless delayTime t ws := by
  rw [← allPeriodic_iff hdelay hws]
  exact ⟨fun h => h.1, fun h => ⟨h, sum_of_periodic h⟩⟩

/-- Two iterations within one second, of which the second takes too long. -/
theorem withinSecond_keepsPeriod :
    List.Forall₂ (Periodic 100000) [20000, 150000] (iterations 100000 0 [20000, 150000]) ∧
      ((iterations 100000 0 [20000, 150000]).map Prod.fst).sum = 250000 := by
  have hharmless : AllHarmless 100000 0 [20000, 150000] := ⟨.inl rfl, .inl rfl, trivial⟩
  obtain ⟨hperiodic, hsum⟩ := (keepsPeriod_iff (by simp) (by simp)).2 hharmless
  exact ⟨hperiodic, hsum.trans rfl⟩

/-- **A period that is not kept.**  The work begins in the last microsecond of a second and takes
20 milliseconds of a delay of 100; the iteration takes 1.1 seconds. -/
theorem endOfSecond_oversleeps : ¬ ∀ (delayTime t : Int) (ws : List Int), 0 < delayTime →
    (∀ w ∈ ws, 0 ≤ w) → List.Forall₂ (Periodic delayTime) ws (iterations delayTime t ws) := by
  intro h
  have hperiodic := h 100000 999999 [20000] (by simp) (by simp)
  have hduration := (List.forall₂_cons.1 hperiodic).1.1
  exact absurd hduration (by decide)

end DrivingSim.LoopThread
