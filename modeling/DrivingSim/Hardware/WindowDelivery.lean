import DrivingSim.Hardware.WindowLog

/-!
# Hardware — no window is lost

Whatever the order of the steps of the clients, of the sampler and of the flusher, every request
that has been issued is in one place, once: in a list of the oscilloscope, with one of its two
threads, or delivered.  Its number is its callback, so each callback is called once or not yet.
What has been delivered is full, and in order (`Logged.windows_delivered`).  That is what the log
keeps track of: the windows in the lists and with the threads are those of the requests that wait,
and of the admitted ones, and these two are all that have been issued.
-/

namespace DrivingSim

namespace Logged

variable {s : Logged}

/-- Where a window can be, one place after the other; the last has been delivered. -/
def windows (s : Logged) : List (WindowReq ℕ) :=
  s.scope.highTriggers ++ s.scope.lowTriggers ++ s.scope.requestedWindows ++
    s.scope.newlyFilled ++ s.scope.filledWindows ++ s.scope.toFlush ++ s.log.called

/-- What has been admitted is in `requested_windows`, or is full. -/
theorem Tracks.queued_perm (h : Tracks s) :
    (s.scope.requestedWindows ++ (s.log.called ++ s.scope.toFlush ++ s.scope.filledWindows ++
      s.scope.newlyFilled)).map WindowReq.callback |>.Perm
    (s.log.admitted.map fun a => a.request.req.callback) := by
  rw [h.filled, h.requested, List.map_append, List.map_map, List.map_map]
  refine List.perm_append_comm.trans ?_
  have hperm := (due_perm Admission.last s.log.admitted s.log.samples.length).map
    fun a => a.request.req.callback
  rw [List.map_append] at hperm
  exact hperm

/-- Each callback is in one place. -/
theorem Tracks.windows_perm (h : Tracks s) :
    (s.windows.map WindowReq.callback).Perm (List.range s.log.issued.length) := by
  have hwaiting : ∀ v, (s.scope.triggers v).map WindowReq.callback =
      (s.log.waiting v).map fun r => r.req.callback := by
    intro v
    rw [h.triggers, List.map_map]
    rfl
  have hhigh : s.scope.highTriggers.map WindowReq.callback = _ := hwaiting .high
  have hlow : s.scope.lowTriggers.map WindowReq.callback = _ := hwaiting .low
  have hissued := h.issued.map fun r => r.req.callback
  rw [h.number, List.map_append, List.map_append, List.map_map, ← hhigh, ← hlow] at hissued
  refine List.Perm.trans ?_ hissued
  rw [List.perm_iff_count]
  intro k
  have hqueued := List.perm_iff_count.mp h.queued_perm k
  rw [windows]
  simp only [List.map_append, List.count_append, Function.comp_def] at hqueued ⊢
  omega

/-- A window that has been filled has the samples it has asked for. -/
theorem full_length {a : Admission} {samples : List DigitalVal} {n : ℕ} (h : a.last = some n)
    (hn : n < samples.length) : (a.full samples).data.length = (a.full samples).numSamples := by
  obtain ⟨-, hsum⟩ := last_eq_some.mp h
  have hlength : (a.full samples).data.length = min a.numSamples (samples.length - a.start) := by
    rw [Admission.full, List.length_take, List.length_drop]
  rw [hlength]
  exact Nat.min_eq_left (by omega)

/-- **The oscilloscope neither loses, duplicates nor corrupts a window.**  Every request is in
one place, once, and is either in the list of its trigger or has been admitted, once.  The windows
delivered are the first of those that are full, in the order of the samples that have filled them
and, at one sample, in that of their admission; and each of them is the samples from its
admission on, as many as were requested. -/
theorem windows_delivered {value lastSample : DigitalVal} {sr : ℕ}
    (h : Relation.ReflTransGen Step (init value lastSample sr) s) :
    (s.windows.map WindowReq.callback).Perm (List.range s.log.issued.length) ∧
    (∀ v, s.scope.triggers v = (s.log.waiting v).map Request.req) ∧
    (s.log.waiting .high ++ s.log.waiting .low ++ s.log.admitted.map Admission.request).Perm
      s.log.issued ∧
    s.log.called <+: (due Admission.last s.log.admitted s.log.samples.length).map
      (Admission.full · s.log.samples) ∧
    ∀ req ∈ s.log.called, ∃ a ∈ s.log.admitted, req = a.full s.log.samples ∧
      req.data.length = req.numSamples := by
  have ht := Tracks.of_run h
  have hcalled : s.log.called <+: (due Admission.last s.log.admitted s.log.samples.length).map
      (Admission.full · s.log.samples) := by
    rw [← ht.filled, List.append_assoc, List.append_assoc]
    exact List.prefix_append _ _
  refine ⟨ht.windows_perm, ht.triggers, ht.issued, hcalled, ?_⟩
  intro req hreq
  obtain ⟨a, ha, rfl⟩ := List.mem_map.mp (hcalled.subset hreq)
  obtain ⟨hadmitted, k, hk, hlast⟩ := mem_due.mp ha
  exact ⟨a, hadmitted, rfl, full_length hlast hk⟩

/-- A window of two samples, and one of one sample that waits for the voltage to rise, when both
have been requested. -/
def edgeRequested : Logged :=
  ((init .low .low 1000000).fillWindowOn "edge" 1 .high).fillWindow "window" 2

/-- The voltage rises after the first sample, so that the second fills both. -/
def edgeSampled : Logged :=
  let s := edgeRequested.samplerStep.samplerStep.samplerStep
  samplerStep ⟨s.scope.write .high, s.log⟩

/-- Their callbacks have been called. -/
def edgeFlushed : Logged :=
  edgeSampled.samplerStep.flusherStep.flusherStep.flusherStep

theorem edgeSampled_run : Relation.ReflTransGen Step (init .low .low 1000000) edgeSampled :=
  .tail (.tail (.tail (.tail (.tail (.tail (.tail .refl (.fillWindowOn _ "edge" 1 .high))
    (.fillWindow _ "window" 2)) (.sampler _)) (.sampler _)) (.sampler _)) (.write _ .high))
    (.sampler _)

theorem edgeFlushed_run : Relation.ReflTransGen Step (init .low .low 1000000) edgeFlushed :=
  .tail (.tail (.tail (.tail edgeSampled_run (.sampler _)) (.flusher _)) (.flusher _)) (.flusher _)

theorem edgeFlushed_delivered :
    edgeFlushed.log.called = [⟨"window", [.low, .high], 2, 1⟩, ⟨"edge", [.high], 1, 0⟩] ∧
    (edgeFlushed.windows.map WindowReq.callback).Perm [0, 1] ∧
    ∀ req ∈ edgeFlushed.log.called, ∃ a ∈ edgeFlushed.log.admitted,
      req = a.full edgeFlushed.log.samples ∧ req.data.length = req.numSamples := by
  obtain ⟨hperm, -, -, -, hcalled⟩ := windows_delivered edgeFlushed_run
  exact ⟨rfl, hperm, hcalled⟩

end Logged

end DrivingSim
