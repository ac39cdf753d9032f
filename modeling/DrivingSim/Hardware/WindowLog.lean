import DrivingSim.Hardware.Oscilloscope
import DrivingSim.Support.Schedule
import DrivingSim.Support.Reachable
import Mathlib.Data.List.Nodup

/-!
# Hardware — what happens to the windows of the oscilloscope

A log of a run, kept beside the oscilloscope and read by nobody: the requests in the order of
their calls, those that wait for a trigger, those that have been admitted to
`requested_windows`, each with the number of the first sample it gets, all samples, and the
requests whose callback has been called.  The callback of a request is its number.

Where every window is, and what is in it, can be read off the log (`Tracks`).  A window that is
admitted at sample `k`, for `n` samples, is full with sample `k + n - 1`.  The requested windows
are those that are not full yet, with the samples so far; what has come out of them, in the
list of the sampler, on the queue, with the flusher and delivered, are the others, in the order
in which they have become full.  Every step keeps it so (`Tracks.step`): a sample moves the
windows that it fills from the one to the other (`Tracks.takeSample`), and the rest moves them
along.
-/

namespace DrivingSim

/-- A call of `fill_window`: the request as it is queued, the trigger, and the number of samples
before it. -/
structure Request where
  req : WindowReq ℕ
  size : ℕ
  trigger : Option DigitalVal
  before : ℕ

/-- A request in `requested_windows`, and the number of the first sample it gets. -/
structure Admission where
  request : Request
  start : ℕ

namespace Admission

variable (a : Admission) (samples : List DigitalVal)

def numSamples : ℕ := a.request.req.numSamples

/-- The sample that makes the window full, if any does. -/
def last : Option ℕ :=
  match a.numSamples with
  | 0 => none
  | n + 1 => some (a.start + n)

/-- The window with the samples so far. -/
def window : WindowReq ℕ := { a.request.req with data := samples.drop a.start }

/-- The window when it is full. -/
def full : WindowReq ℕ :=
  { a.request.req with data := (samples.drop a.start).take a.numSamples }

end Admission

structure Log where
  issued : List Request
  waiting : DigitalVal → List Request
  admitted : List Admission
  samples : List DigitalVal
  called : List (WindowReq ℕ)

namespace Log

/-- The next call of `fill_window`; its callback is its number. -/
def request (log : Log) (name : String) (numSamples size : ℕ) (trigger : Option DigitalVal) :
    Request :=
  ⟨⟨name, [], numSamples, log.issued.length⟩, size, trigger, log.samples.length⟩

def init : Log := ⟨[], fun _ => [], [], [], []⟩

/-- A request that is admitted at once: the next sample is its first. -/
def fillWindow (log : Log) (r : Request) : Log :=
  { log with
    issued := log.issued ++ [r]
    admitted := log.admitted ++ [⟨r, log.samples.length⟩] }

def fillWindowOn (log : Log) (r : Request) (trigger : DigitalVal) : Log :=
  { log with
    issued := log.issued ++ [r]
    waiting := Function.update log.waiting trigger (log.waiting trigger ++ [r]) }

/-- A sample, after the one before.  When they differ it admits the requests that wait for it, and
is their first. -/
def takeSample (log : Log) (sample before : DigitalVal) : Log :=
  if sample = before then { log with samples := log.samples ++ [sample] }
  else
    { log with
      waiting := Function.update log.waiting sample []
      admitted :=
        log.admitted ++ (log.waiting sample).map fun r => ⟨r, log.samples.length⟩
      samples := log.samples ++ [sample] }

def call (log : Log) (req : WindowReq ℕ) : Log := { log with called := log.called ++ [req] }

end Log

/-- An oscilloscope and the log of its run. -/
structure Logged where
  scope : Oscilloscope ℕ
  log : Log

namespace Logged

def init (value lastSample : DigitalVal) (sr : ℕ) : Logged :=
  ⟨.init value lastSample sr, .init⟩

variable (s : Logged)

/-- The sampler takes a sample in its first section. -/
def samplerStep : Logged where
  scope := s.scope.samplerStep
  log :=
    match s.scope.sampler with
    | .start => s.log.takeSample s.scope.value s.scope.lastSample
    | _ => s.log

/-- The flusher calls a callback. -/
def flusherStep : Logged where
  scope := s.scope.flusherStep
  log :=
    match s.scope.flusher with
    | .flushing (req :: _) => s.log.call req
    | _ => s.log

def fillWindow (name : String) (size : ℕ) : Logged :=
  ⟨s.scope.fillWindow name size s.log.issued.length,
    s.log.fillWindow (s.log.request name (s.scope.numSamples size) size none)⟩

def fillWindowOn (name : String) (size : ℕ) (trigger : DigitalVal) : Logged :=
  ⟨s.scope.fillWindowOn name size trigger s.log.issued.length,
    s.log.fillWindowOn (s.log.request name (s.scope.numSamples size) size (some trigger)) trigger⟩

inductive Step : Logged → Logged → Prop where
  | fillWindow (s : Logged) (name : String) (size : ℕ) : Step s (s.fillWindow name size)
  | fillWindowOn (s : Logged) (name : String) (size : ℕ) (trigger : DigitalVal) :
      Step s (s.fillWindowOn name size trigger)
  | write (s : Logged) (newValue : DigitalVal) : Step s ⟨s.scope.write newValue, s.log⟩
  | sampler (s : Logged) : Step s s.samplerStep
  | flusher (s : Logged) : Step s s.flusherStep

/-- The log records a run of the oscilloscope. -/
theorem Step.scope {s s' : Logged} (h : Step s s') : s.scope.Step s'.scope := by
  cases h with
  | fillWindow name size => exact .fillWindow s.scope name size _
  | fillWindowOn name size trigger => exact .fillWindowOn s.scope name size trigger _
  | write newValue => exact .write s.scope newValue
  | sampler => exact .sampler s.scope
  | flusher => exact .flusher s.scope

/-- **Where the windows are**, and what is in them. -/
structure Tracks (s : Logged) : Prop where
  triggers : ∀ v, s.scope.triggers v = (s.log.waiting v).map Request.req
  requested : s.scope.requestedWindows =
    (pending Admission.last s.log.admitted s.log.samples.length).map
      (Admission.window · s.log.samples)
  filled : s.log.called ++ s.scope.toFlush ++ s.scope.filledWindows ++ s.scope.newlyFilled =
    (due Admission.last s.log.admitted s.log.samples.length).map (Admission.full · s.log.samples)
  issued : (s.log.waiting .high ++ s.log.waiting .low ++
    s.log.admitted.map Admission.request).Perm s.log.issued
  number : s.log.issued.map (fun r => r.req.callback) = List.range s.log.issued.length
  blank : ∀ r ∈ s.log.issued, r.req.data = []
  start : ∀ a ∈ s.log.admitted, a.start ≤ s.log.samples.length

/-! ### What a step adds to the log -/

section Log

variable {log : Log} {r : Request} {v u w : DigitalVal}

theorem fillWindowOn_waiting : (log.fillWindowOn r v).waiting w =
    if w = v then log.waiting w ++ [r] else log.waiting w := by
  rw [Log.fillWindowOn]
  by_cases h : w = v
  · rw [if_pos h, h]
    exact Function.update_self _ _ _
  · rw [if_neg h]
    exact Function.update_of_ne h _ _

@[simp] theorem takeSample_issued : (log.takeSample v u).issued = log.issued := by
  rw [Log.takeSample]
  split_ifs <;> rfl

@[simp] theorem takeSample_called : (log.takeSample v u).called = log.called := by
  rw [Log.takeSample]
  split_ifs <;> rfl

@[simp] theorem takeSample_samples : (log.takeSample v u).samples = log.samples ++ [v] := by
  rw [Log.takeSample]
  split_ifs <;> rfl

theorem takeSample_waiting : (log.takeSample v u).waiting w =
    if v = u then log.waiting w else if w = v then [] else log.waiting w := by
  rw [Log.takeSample]
  split_ifs with hv hw
  · rfl
  · rw [hw]
    exact Function.update_self _ _ _
  · exact Function.update_of_ne hw _ _

theorem takeSample_admitted : (log.takeSample v u).admitted =
    log.admitted ++ if v = u then [] else
      (log.waiting v).map fun r => ⟨r, log.samples.length⟩ := by
  rw [Log.takeSample]
  split_ifs
  · rw [List.append_nil]
  · rfl

/-- What a sample triggers starts with it. -/
theorem start_of_triggered {a : Admission}
    (h : a ∈ if v = u then [] else (log.waiting v).map fun r => ⟨r, log.samples.length⟩) :
    a.start = log.samples.length := by
  split_ifs at h
  · exact absurd h List.not_mem_nil
  · obtain ⟨r, -, rfl⟩ := List.mem_map.mp h
    rfl

end Log

/-! ### The windows of an admission -/

section Admission

variable {a : Admission} {samples : List DigitalVal} {v : DigitalVal} {n : ℕ}

theorem last_eq_some : a.last = some n ↔ 0 < a.numSamples ∧ a.start + a.numSamples = n + 1 := by
  rw [Admission.last]
  cases h : a.numSamples with
  | zero => simp
  | succ k =>
      simp only [Option.some.injEq]
      omega

/-- What is admitted now is full later, if ever. -/
theorem last_of_le (h : n ≤ a.start) : ¬ ∃ k < n, a.last = some k := by
  rintro ⟨k, hk, hl⟩
  obtain ⟨hpos, hsum⟩ := last_eq_some.mp hl
  omega

theorem not_due_of_triggered {log : Log} {u : DigitalVal}
    (h : a ∈ if v = u then [] else (log.waiting v).map fun r => ⟨r, log.samples.length⟩) :
    ¬ ∃ k < log.samples.length, a.last = some k :=
  last_of_le (Nat.le_of_eq (start_of_triggered h).symm)

theorem window_push (h : a.start ≤ samples.length) :
    (a.window samples).push v = a.window (samples ++ [v]) := by
  rw [Admission.window, Admission.window, WindowReq.push, List.drop_append_of_le_length h]

/-- A window is full with the sample that is its last. -/
theorem window_full_iff (h : a.start ≤ samples.length) :
    (a.window (samples ++ [v])).data.length = (a.window (samples ++ [v])).numSamples ↔
      a.last = some samples.length := by
  rw [last_eq_some]
  show (List.drop a.start (samples ++ [v])).length = a.numSamples ↔ _
  rw [List.length_drop, List.length_append, List.length_singleton]
  omega

theorem window_eq_full (h : a.start + a.numSamples = samples.length) :
    a.window samples = a.full samples := by
  rw [Admission.window, Admission.full, List.take_of_length_le]
  rw [List.length_drop]
  omega

/-- More samples do not change a window that is full. -/
theorem full_append (h : a.start + a.numSamples ≤ samples.length) :
    a.full (samples ++ [v]) = a.full samples := by
  rw [Admission.full, Admission.full, List.drop_append_of_le_length (by omega),
    List.take_append_of_le_length]
  rw [List.length_drop]
  omega

end Admission

/-! ### The windows that a sample fills -/

section Fill

variable {admitted : List Admission} {samples : List DigitalVal} (v : DigitalVal)

/-- A sample goes to every window that is not full. -/
theorem pending_push (h : ∀ a ∈ admitted, a.start ≤ samples.length) :
    ((pending Admission.last admitted samples.length).map (Admission.window · samples)).map
        (·.push v) =
      (pending Admission.last admitted samples.length).map
        (Admission.window · (samples ++ [v])) := by
  rw [List.map_map]
  refine List.map_congr_left fun a ha => ?_
  exact window_push (h a (mem_pending.mp ha).1)

/-- The windows with the sample that are full are those that end with it. -/
theorem pending_full (h : ∀ a ∈ admitted, a.start ≤ samples.length) :
    ∀ a ∈ pending Admission.last admitted samples.length,
      decide ((a.window (samples ++ [v])).data.length = (a.window (samples ++ [v])).numSamples) =
        decide (a.last = some samples.length) := by
  intro a ha
  exact decide_eq_decide.mpr (window_full_iff (h a (mem_pending.mp ha).1))

/-- The windows that stay. -/
theorem fill_pending (h : ∀ a ∈ admitted, a.start ≤ samples.length) :
    (((pending Admission.last admitted samples.length).map (Admission.window · samples)).map
        (·.push v)).filter (fun req => ¬ req.data.length = req.numSamples) =
      (pending Admission.last admitted (samples ++ [v]).length).map
        (Admission.window · (samples ++ [v])) := by
  rw [pending_push v h, List.length_append, List.length_singleton, List.filter_map, pending_succ]
  congr 1
  refine List.filter_congr fun a ha => ?_
  simp only [Function.comp_apply, decide_not, pending_full v h a ha]

/-- The windows that are full, old and new. -/
theorem fill_due (h : ∀ a ∈ admitted, a.start ≤ samples.length) :
    (due Admission.last admitted samples.length).map (Admission.full · samples) ++
      (((pending Admission.last admitted samples.length).map (Admission.window · samples)).map
        (·.push v)).filter (fun req => req.data.length = req.numSamples) =
      (due Admission.last admitted (samples ++ [v]).length).map
        (Admission.full · (samples ++ [v])) := by
  rw [pending_push v h, List.length_append, List.length_singleton, List.filter_map, due_succ,
    List.map_append, ← filter_pending]
  congr 1
  · -- what was full before has the samples that it had
    refine List.map_congr_left fun a ha => ?_
    obtain ⟨-, k, hk, hl⟩ := mem_due.mp ha
    obtain ⟨-, hsum⟩ := last_eq_some.mp hl
    exact (full_append (by omega)).symm
  · -- the others end with this sample
    have hlast : (pending Admission.last admitted samples.length).filter
        ((fun req : WindowReq ℕ => decide (req.data.length = req.numSamples)) ∘
          (Admission.window · (samples ++ [v]))) =
        (pending Admission.last admitted samples.length).filter
          fun a => a.last = some samples.length := List.filter_congr (pending_full v h)
    rw [hlast]
    refine List.map_congr_left fun a ha => ?_
    obtain ⟨-, hsum⟩ := last_eq_some.mp (of_decide_eq_true (List.mem_filter.mp ha).2)
    refine window_eq_full ?_
    rw [List.length_append, List.length_singleton]
    exact hsum

end Fill

namespace Tracks

variable {s : Logged}

theorem init (value lastSample : DigitalVal) (sr : ℕ) :
    Tracks (Logged.init value lastSample sr) where
  triggers v := by cases v <;> rfl
  requested := rfl
  filled := rfl
  issued := .refl []
  number := rfl
  blank r hr := absurd hr List.not_mem_nil
  start a ha := absurd ha List.not_mem_nil

theorem mem_issued (h : Tracks s) {v : DigitalVal} {r : Request} (hr : r ∈ s.log.waiting v) :
    r ∈ s.log.issued := by
  refine h.issued.subset (List.mem_append_left _ ?_)
  cases v with
  | high => exact List.mem_append_left _ hr
  | low => exact List.mem_append_right _ hr

/-- The windows that a sample goes to, those that it triggers among them. -/
theorem activate (h : Tracks s) :
    (s.scope.activate s.scope.value).requestedWindows =
      (pending Admission.last (s.log.takeSample s.scope.value s.scope.lastSample).admitted
        s.log.samples.length).map (Admission.window · s.log.samples) := by
  have hblank : ∀ r ∈ s.log.waiting s.scope.value,
      r.req = Admission.window ⟨r, s.log.samples.length⟩ s.log.samples := by
    intro r hr
    rw [Admission.window, List.drop_length, ← h.blank r (h.mem_issued hr)]
  rw [Oscilloscope.activate_requestedWindows, h.requested, h.triggers, takeSample_admitted,
    pending_append fun _ => not_due_of_triggered, List.map_append]
  congr 1
  split_ifs
  · rfl
  · rw [List.map_map, List.map_congr_left hblank]
    rfl

/-- A sample only moves requests from the one list to the other. -/
theorem admit_perm (log : Log) (v u : DigitalVal) :
    ((log.takeSample v u).waiting .high ++ (log.takeSample v u).waiting .low ++
      (log.takeSample v u).admitted.map Admission.request).Perm
    (log.waiting .high ++ log.waiting .low ++ log.admitted.map Admission.request) := by
  rw [takeSample_waiting, takeSample_waiting, takeSample_admitted]
  by_cases hv : v = u
  · rw [if_pos hv, if_pos hv, if_pos hv, List.append_nil]
  rw [if_neg hv, if_neg hv, if_neg hv, List.map_append, List.map_map]
  -- those that have waited for `v` come last now
  have hmap : (log.waiting v).map (Admission.request ∘ fun r => ⟨r, log.samples.length⟩) =
      log.waiting v := List.map_id _
  rw [hmap]
  cases v with
  | high =>
      rw [if_pos rfl, if_neg (by decide), List.nil_append, List.append_assoc,
        ← List.append_assoc]
      exact List.perm_append_comm
  | low =>
      rw [if_neg (by decide), if_pos rfl, List.append_nil, List.append_assoc]
      exact List.perm_append_comm.append_left _

theorem takeSample (h : Tracks s) (hs : s.scope.sampler = .start) :
    Tracks ⟨s.scope.takeSample, s.log.takeSample s.scope.value s.scope.lastSample⟩ := by
  have hstart : ∀ a ∈ (s.log.takeSample s.scope.value s.scope.lastSample).admitted,
      a.start ≤ s.log.samples.length := by
    intro a ha
    rw [takeSample_admitted] at ha
    rcases List.mem_append.mp ha with ha | ha
    · exact h.start a ha
    · exact Nat.le_of_eq (start_of_triggered ha)
  have hdue : due Admission.last (s.log.takeSample s.scope.value s.scope.lastSample).admitted
      s.log.samples.length = due Admission.last s.log.admitted s.log.samples.length := by
    rw [takeSample_admitted, due_append fun _ => not_due_of_triggered]
  -- all windows of the last sample have been queued
  have hnewly : s.scope.newlyFilled = [] := by
    rw [Oscilloscope.newlyFilled, hs]
  have hrest := fill_pending s.scope.value hstart
  have hnew := fill_due s.scope.value hstart
  rw [← h.activate] at hrest hnew
  rw [hdue, ← h.filled, hnewly, List.append_nil] at hnew
  refine ⟨fun w => ?_, ?_, ?_, ?_, ?_, ?_, fun a ha => ?_⟩ <;> dsimp only
  · rw [Oscilloscope.takeSample_triggers, Oscilloscope.activate_triggers, takeSample_waiting,
      h.triggers]
    split_ifs <;> rfl
  · rw [Oscilloscope.takeSample_requestedWindows, takeSample_samples]
    exact hrest
  · rw [Oscilloscope.takeSample_newlyFilled, Oscilloscope.takeSample_filledWindows,
      Oscilloscope.takeSample_toFlush, takeSample_called, takeSample_samples]
    exact hnew
  · rw [takeSample_issued]
    exact (admit_perm _ _ _).trans h.issued
  · rw [takeSample_issued]
    exact h.number
  · rw [takeSample_issued]
    exact h.blank
  · rw [takeSample_samples, List.length_append]
    exact Nat.le_add_right_of_le (hstart a ha)

/-- The next request has the next number. -/
theorem number_append {issued : List Request} {r : Request}
    (h : issued.map (fun r => r.req.callback) = List.range issued.length)
    (hr : r.req.callback = issued.length) :
    (issued ++ [r]).map (fun r => r.req.callback) = List.range (issued ++ [r]).length := by
  rw [List.map_append, h, List.map_singleton, hr, List.length_append, List.length_singleton,
    List.range_succ]

theorem blank_append {issued : List Request} {r : Request} (h : ∀ r ∈ issued, r.req.data = [])
    (hr : r.req.data = []) : ∀ r' ∈ issued ++ [r], r'.req.data = [] := by
  intro r' hr'
  rcases List.mem_append.mp hr' with hr' | hr'
  · exact h r' hr'
  · rw [List.mem_singleton.mp hr', hr]

/-- A request on a trigger waits for it. -/
theorem waiting_append (log : Log) (v : DigitalVal) (r : Request) :
    ((log.fillWindowOn r v).waiting .high ++ (log.fillWindowOn r v).waiting .low ++
      (log.fillWindowOn r v).admitted.map Admission.request).Perm
    (log.waiting .high ++ log.waiting .low ++ log.admitted.map Admission.request ++ [r]) := by
  rw [fillWindowOn_waiting, fillWindowOn_waiting]
  cases v with
  | high =>
      rw [if_pos rfl, if_neg (by decide), List.append_assoc, List.append_assoc, List.append_assoc,
        List.append_assoc]
      refine List.Perm.append_left _ ?_
      rw [← List.append_assoc (log.waiting .low)]
      exact List.perm_append_comm
  | low =>
      rw [if_neg (by decide), if_pos rfl, List.append_assoc, List.append_assoc, List.append_assoc,
        List.append_assoc]
      exact (List.perm_append_comm.append_left _).append_left _

theorem fillWindow (h : Tracks s) (name : String) (size : ℕ) :
    Tracks (s.fillWindow name size) := by
  -- its first sample is still to come, and so is its last
  have hlast : ∀ a ∈ [(⟨s.log.request name (s.scope.numSamples size) size none,
      s.log.samples.length⟩ : Admission)], ¬ ∃ k < s.log.samples.length, a.last = some k := by
    intro a ha
    rw [List.mem_singleton.mp ha]
    exact last_of_le (Nat.le_refl _)
  refine ⟨h.triggers, ?_, ?_, ?_, ?_, ?_, ?_⟩
  · refine Eq.trans ?_
      (congrArg (List.map (Admission.window · s.log.samples)) (pending_append hlast)).symm
    rw [List.map_append, ← h.requested, List.map_singleton, Admission.window, List.drop_length]
    rfl
  · exact h.filled.trans (congrArg (List.map _) (due_append hlast)).symm
  · have hmap : (s.fillWindow name size).log.admitted.map Admission.request =
        s.log.admitted.map Admission.request ++
          [s.log.request name (s.scope.numSamples size) size none] := List.map_append
    rw [hmap, ← List.append_assoc]
    exact h.issued.append_right _
  · exact number_append h.number rfl
  · exact blank_append h.blank rfl
  · intro a ha
    rcases List.mem_append.mp ha with ha | ha
    · exact h.start a ha
    · rw [List.mem_singleton.mp ha]
      exact Nat.le_refl _

theorem fillWindowOn (h : Tracks s) (name : String) (size : ℕ) (trigger : DigitalVal) :
    Tracks (s.fillWindowOn name size trigger) := by
  obtain ⟨hrequested, hfilled, hsampler, hflusher⟩ :=
    s.scope.fillWindowOn_frame name size trigger s.log.issued.length
  refine ⟨fun v => ?_, hrequested.trans h.requested, ?_, ?_, number_append h.number rfl, ?_,
    h.start⟩
  · refine (s.scope.fillWindowOn_triggers name size trigger s.log.issued.length).trans ?_
    rw [Logged.fillWindowOn, fillWindowOn_waiting, h.triggers]
    by_cases hv : v = trigger
    · rw [if_pos hv, if_pos hv, List.map_append]
      rfl
    · rw [if_neg hv, if_neg hv]
  · refine Eq.trans ?_ h.filled
    rw [Logged.fillWindowOn, Oscilloscope.toFlush, Oscilloscope.newlyFilled, hfilled, hsampler,
      hflusher]
    rfl
  · exact (waiting_append s.log trigger _).trans (h.issued.append_right _)
  · exact blank_append h.blank rfl

/-- The windows that are full only move along. -/
theorem move (h : Tracks s) {t : Oscilloscope ℕ} {log : Log}
    (htriggers : ∀ v, t.triggers v = s.scope.triggers v)
    (hrequested : t.requestedWindows = s.scope.requestedWindows)
    (hfilled : log.called ++ t.toFlush ++ t.filledWindows ++ t.newlyFilled =
      s.log.called ++ s.scope.toFlush ++ s.scope.filledWindows ++ s.scope.newlyFilled)
    (hlog : log = { s.log with called := log.called }) : Tracks ⟨t, log⟩ := by
  rw [hlog]
  exact ⟨fun v => (htriggers v).trans (h.triggers v), hrequested.trans h.requested,
    hfilled.trans h.filled, h.issued, h.number, h.blank, h.start⟩

theorem samplerStep (h : Tracks s) : Tracks s.samplerStep := by
  rw [Logged.samplerStep, Oscilloscope.samplerStep]
  cases hs : s.scope.sampler with
  | start => exact h.takeSample hs
  | filled newlyFilled =>
      have hnewly : s.scope.newlyFilled = newlyFilled := by rw [Oscilloscope.newlyFilled, hs]
      refine h.move (fun v => by cases v <;> rfl) rfl ?_ rfl
      rw [hnewly, List.append_assoc (s.log.called ++ s.scope.toFlush)]
      exact List.append_nil _
  | notifying =>
      have hnewly : s.scope.newlyFilled = [] := by rw [Oscilloscope.newlyFilled, hs]
      obtain ⟨-, hrequested, hfilled, hflush, hnone⟩ :=
        Oscilloscope.notifyOne_frame (s := s.scope) (w := .high)
      refine h.move (fun v => Oscilloscope.notifyOne_frame.1) hrequested ?_ rfl
      rw [hfilled, hflush, hnone, hnewly]

/-- What the flusher finds on the queue it takes. -/
theorem takeFilled (h : Tracks s) (hflush : s.scope.toFlush = []) :
    Tracks ⟨s.scope.takeFilled, s.log⟩ := by
  obtain ⟨-, hrequested, hfilled, hall, hnewly⟩ :=
    Oscilloscope.takeFilled_frame (s := s.scope) (w := .high)
  refine h.move (fun v => Oscilloscope.takeFilled_frame.1) hrequested ?_ rfl
  rw [hfilled, hall, hnewly, hflush, List.append_nil, List.append_nil]

theorem flusherStep (h : Tracks s) : Tracks s.flusherStep := by
  rw [Logged.flusherStep, Oscilloscope.flusherStep]
  cases hf : s.scope.flusher with
  | start => exact h.takeFilled (by rw [Oscilloscope.toFlush, hf])
  | waiting =>
      have hflush : s.scope.toFlush = [] := by rw [Oscilloscope.toFlush, hf]
      refine h.move (fun v => by cases v <;> rfl) rfl ?_ rfl
      rw [hflush]
      rfl
  | woken => exact h.takeFilled (by rw [Oscilloscope.toFlush, hf])
  | flushing toFlush =>
      have hflush : s.scope.toFlush = toFlush := by rw [Oscilloscope.toFlush, hf]
      cases toFlush with
      | nil =>
          refine h.move (fun v => by cases v <;> rfl) rfl ?_ rfl
          rw [hflush]
          rfl
      | cons req toFlush =>
          refine h.move (fun v => by cases v <;> rfl) rfl ?_ rfl
          rw [hflush, ← List.singleton_append, ← List.append_assoc s.log.called]
          rfl

/-- **Every step keeps track of the windows.** -/
theorem step {s' : Logged} (h : Tracks s) (hstep : Step s s') : Tracks s' := by
  cases hstep with
  | fillWindow name size => exact h.fillWindow name size
  | fillWindowOn name size trigger => exact h.fillWindowOn name size trigger
  | write newValue => exact h.move (fun v => by cases v <;> rfl) rfl rfl rfl
  | sampler => exact h.samplerStep
  | flusher => exact h.flusherStep

theorem of_run {value lastSample : DigitalVal} {sr : ℕ}
    (h : Relation.ReflTransGen Step (Logged.init value lastSample sr) s) : Tracks s :=
  reachable_invariant (init value lastSample sr) (fun _ _ _ ht hstep => ht.step hstep) h

/-! ### Numbers -/

variable {r r' : Request} {a b : Admission}

theorem request_eq (h : Tracks s) (hr : r ∈ s.log.issued) (hr' : r' ∈ s.log.issued)
    (he : r.req.callback = r'.req.callback) : r = r' := by
  have hnodup : (s.log.issued.map fun r => r.req.callback).Nodup := by
    rw [h.number]
    exact List.nodup_range
  exact List.inj_on_of_nodup_map hnodup hr hr' he

theorem admitted_issued (h : Tracks s) (ha : a ∈ s.log.admitted) : a.request ∈ s.log.issued :=
  h.issued.subset (List.mem_append_right _ (List.mem_map_of_mem ha))

/-- A request is admitted once. -/
theorem admission_eq (h : Tracks s) (ha : a ∈ s.log.admitted) (hb : b ∈ s.log.admitted)
    (he : a.request.req.callback = b.request.req.callback) : a = b := by
  have hperm := h.issued.map fun r => r.req.callback
  rw [h.number, List.map_append, List.map_map] at hperm
  have hnodup := (hperm.nodup_iff.mpr List.nodup_range).of_append_right
  exact List.inj_on_of_nodup_map hnodup ha hb he

end Tracks

end Logged

end DrivingSim
