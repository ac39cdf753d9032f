import DrivingSim.Hardware.WindowDelivery

/-!
# Hardware — renaming the callbacks of a run

`Oscilloscope.rename f` replaces every callback `c` of an oscilloscope by `f c`.  Every step is
carried to a step of the renamed oscilloscope (`step_rename`): nothing looks at a callback.  So
the log, in which the callback of a request is its number, stands for all runs
(`exists_logged`): a run with callbacks of any kind is that of a log, with each number renamed to
the callback of its request.
-/

namespace DrivingSim

variable {κ ι : Type}

/-- `req` with the callback `f c` for its callback `c`. -/
def WindowReq.rename (f : κ → ι) (req : WindowReq κ) : WindowReq ι :=
  ⟨req.name, req.data, req.numSamples, f req.callback⟩

namespace Oscilloscope

def Sampler.rename (f : κ → ι) : Sampler κ → Sampler ι
  | .start => .start
  | .filled newlyFilled => .filled (newlyFilled.map (WindowReq.rename f))
  | .notifying => .notifying

def Flusher.rename (f : κ → ι) : Flusher κ → Flusher ι
  | .start => .start
  | .waiting => .waiting
  | .woken => .woken
  | .flushing toFlush => .flushing (toFlush.map (WindowReq.rename f))

def rename (f : κ → ι) (s : Oscilloscope κ) : Oscilloscope ι where
  highTriggers := s.highTriggers.map (WindowReq.rename f)
  lowTriggers := s.lowTriggers.map (WindowReq.rename f)
  requestedWindows := s.requestedWindows.map (WindowReq.rename f)
  filledWindows := s.filledWindows.map (WindowReq.rename f)
  value := s.value
  lastSample := s.lastSample
  sr := s.sr
  sampler := s.sampler.rename f
  flusher := s.flusher.rename f

variable {f g : κ → ι} {s s' : Oscilloscope κ}

/-! ### The steps of the renamed oscilloscope -/

theorem fillWindow_rename (name : String) (size : ℕ) (callback : κ) :
    (s.fillWindow name size callback).rename f =
      (s.rename f).fillWindow name size (f callback) := by
  simp only [fillWindow, rename, List.map_append, List.map_singleton]
  rfl

theorem fillWindowOn_rename (name : String) (size : ℕ) (trigger : DigitalVal) (callback : κ) :
    (s.fillWindowOn name size trigger callback).rename f =
      (s.rename f).fillWindowOn name size trigger (f callback) := by
  rw [fillWindowOn, fillWindowOn]
  split_ifs
  · simp only [rename, List.map_append, List.map_singleton]
    rfl
  · simp only [rename, List.map_append, List.map_singleton]
    rfl

theorem activate_rename (v : DigitalVal) : (s.activate v).rename f = (s.rename f).activate v := by
  have hlast : (s.rename f).lastSample = s.lastSample := rfl
  rw [activate, activate, hlast]
  split_ifs
  · simp only [rename, List.map_append, List.map_nil]
  · simp only [rename, List.map_append, List.map_nil]
  · rfl

theorem fill_rename (v : DigitalVal) (reqs : List (WindowReq κ)) :
    fill v (reqs.map (WindowReq.rename f)) =
      ((fill v reqs).1.map (WindowReq.rename f), (fill v reqs).2.map (WindowReq.rename f)) := by
  have hpush : (reqs.map (WindowReq.rename f)).map (·.push v) =
      (reqs.map (·.push v)).map (WindowReq.rename f) := by
    rw [List.map_map, List.map_map]
    rfl
  rw [fill_eq, fill_eq, hpush]
  exact congrArg₂ Prod.mk List.filter_map List.filter_map

theorem takeSample_rename : s.takeSample.rename f = (s.rename f).takeSample := by
  have hvalue : (s.rename f).value = s.value := rfl
  have hrequested : ((s.activate s.value).rename f).requestedWindows =
      (s.activate s.value).requestedWindows.map (WindowReq.rename f) := rfl
  rw [takeSample, takeSample, hvalue, ← activate_rename]
  dsimp only
  rw [hrequested, fill_rename]
  rfl

theorem notifyOne_rename : s.notifyOne.rename f = (s.rename f).notifyOne := by
  have hflusher : (s.rename f).flusher = s.flusher.rename f := rfl
  rw [notifyOne, notifyOne, hflusher]
  cases h : s.flusher with
  | start => simp [rename, h, Flusher.rename, Sampler.rename]
  | waiting => simp [rename, h, Flusher.rename, Sampler.rename]
  | woken => simp [rename, h, Flusher.rename, Sampler.rename]
  | flushing toFlush => simp [rename, h, Flusher.rename, Sampler.rename]

theorem samplerStep_rename : s.samplerStep.rename f = (s.rename f).samplerStep := by
  have hsampler : (s.rename f).sampler = s.sampler.rename f := rfl
  rw [samplerStep, samplerStep, hsampler]
  cases s.sampler with
  | start => exact takeSample_rename
  | filled newlyFilled =>
      simp only [queueFilled, rename, List.map_append, Sampler.rename]
  | notifying => exact notifyOne_rename

theorem takeFilled_rename : s.takeFilled.rename f = (s.rename f).takeFilled := by
  have hfilled : (s.rename f).filledWindows = s.filledWindows.map (WindowReq.rename f) := rfl
  rw [takeFilled, takeFilled, hfilled]
  cases h : s.filledWindows with
  | nil => simp [rename, h, Flusher.rename]
  | cons req reqs => simp [rename, Flusher.rename]

theorem flusherStep_rename : s.flusherStep.rename f = (s.rename f).flusherStep := by
  have hflusher : (s.rename f).flusher = s.flusher.rename f := rfl
  rw [flusherStep, flusherStep, hflusher]
  cases s.flusher with
  | start => exact takeFilled_rename
  | waiting => rfl
  | woken => exact takeFilled_rename
  | flushing toFlush =>
      cases toFlush with
      | nil => rfl
      | cons req toFlush => rfl

/-- **A step, renamed.** -/
theorem step_rename (h : Step s s') : Step (s.rename f) (s'.rename f) := by
  cases h with
  | fillWindow name size callback =>
      rw [fillWindow_rename]
      exact .fillWindow _ name size (f callback)
  | fillWindowOn name size trigger callback =>
      rw [fillWindowOn_rename]
      exact .fillWindowOn _ name size trigger (f callback)
  | write newValue => exact .write _ newValue
  | sampler =>
      rw [samplerStep_rename]
      exact .sampler _
  | flusher =>
      rw [flusherStep_rename]
      exact .flusher _

/-! ### Renamings that agree -/

/-- Renamings that agree on the callbacks of an oscilloscope rename it alike. -/
theorem rename_congr (h : ∀ req ∈ s.highTriggers ++ s.lowTriggers ++ s.requestedWindows ++
      s.newlyFilled ++ s.filledWindows ++ s.toFlush, f req.callback = g req.callback) :
    s.rename f = s.rename g := by
  have hmap : ∀ reqs : List (WindowReq κ), (∀ req ∈ reqs, req ∈ s.highTriggers ++ s.lowTriggers ++
      s.requestedWindows ++ s.newlyFilled ++ s.filledWindows ++ s.toFlush) →
      reqs.map (WindowReq.rename f) = reqs.map (WindowReq.rename g) := by
    intro reqs hmem
    refine List.map_congr_left fun req hreq => ?_
    rw [WindowReq.rename, WindowReq.rename, h req (hmem req hreq)]
  have hsampler : s.sampler.rename f = s.sampler.rename g := by
    cases hs : s.sampler with
    | start => rfl
    | filled newlyFilled =>
        refine congrArg Sampler.filled (hmap newlyFilled fun req hreq => ?_)
        have hnewly : s.newlyFilled = newlyFilled := by rw [Oscilloscope.newlyFilled, hs]
        simp [hnewly, hreq]
    | notifying => rfl
  have hflusher : s.flusher.rename f = s.flusher.rename g := by
    cases hs : s.flusher with
    | start => rfl
    | waiting => rfl
    | woken => rfl
    | flushing toFlush =>
        refine congrArg Flusher.flushing (hmap toFlush fun req hreq => ?_)
        have hflush : s.toFlush = toFlush := by rw [Oscilloscope.toFlush, hs]
        simp [hflush, hreq]
  rw [rename, rename, hsampler, hflusher, hmap s.highTriggers fun req hreq => by simp [hreq],
    hmap s.lowTriggers fun req hreq => by simp [hreq],
    hmap s.requestedWindows fun req hreq => by simp [hreq],
    hmap s.filledWindows fun req hreq => by simp [hreq]]

end Oscilloscope

namespace Logged

open Oscilloscope (rename_congr)

variable {s : Logged}

/-- The number of the next request is that of no callback yet. -/
theorem Tracks.rename_update (h : Tracks s) (f : ℕ → κ) (callback : κ) :
    s.scope.rename (Function.update f s.log.issued.length callback) = s.scope.rename f := by
  refine rename_congr fun req hreq => Function.update_of_ne ?_ _ _
  have hmem : req.callback ∈ s.windows.map WindowReq.callback :=
    List.mem_map_of_mem (List.mem_append_left _ hreq)
  exact Nat.ne_of_lt (List.mem_range.mp (h.windows_perm.mem_iff.mp hmem))

/-- **Every run is that of a log**, whatever its callbacks are. -/
theorem exists_logged [Nonempty κ] {value lastSample : DigitalVal} {sr : ℕ} {t : Oscilloscope κ}
    (h : Relation.ReflTransGen Oscilloscope.Step (.init value lastSample sr) t) :
    ∃ (s : Logged) (f : ℕ → κ), Relation.ReflTransGen Step (init value lastSample sr) s ∧
      s.scope.rename f = t := by
  induction h with
  | refl => exact ⟨init value lastSample sr, fun _ => Classical.arbitrary κ, .refl, rfl⟩
  | tail _ hstep ih =>
      obtain ⟨s, f, hrun, rfl⟩ := ih
      have ht := Tracks.of_run hrun
      cases hstep with
      | fillWindow name size callback =>
          refine ⟨s.fillWindow name size, Function.update f s.log.issued.length callback,
            hrun.tail (.fillWindow s name size), ?_⟩
          -- the number of the request is renamed to its callback, and no other number is
          refine (Oscilloscope.fillWindow_rename name size _).trans ?_
          rw [ht.rename_update, Function.update_self]
      | fillWindowOn name size trigger callback =>
          refine ⟨s.fillWindowOn name size trigger,
            Function.update f s.log.issued.length callback,
            hrun.tail (.fillWindowOn s name size trigger), ?_⟩
          refine (Oscilloscope.fillWindowOn_rename name size trigger _).trans ?_
          rw [ht.rename_update, Function.update_self]
      | write newValue =>
          exact ⟨⟨s.scope.write newValue, s.log⟩, f, hrun.tail (.write s newValue), rfl⟩
      | sampler =>
          exact ⟨s.samplerStep, f, hrun.tail (.sampler s), Oscilloscope.samplerStep_rename⟩
      | flusher =>
          exact ⟨s.flusherStep, f, hrun.tail (.flusher s), Oscilloscope.flusherStep_rename⟩

end Logged

end DrivingSim
