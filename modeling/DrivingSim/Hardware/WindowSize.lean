import DrivingSim.Hardware.WindowLog

/-!
# Hardware — windows that are never full

The sampler compares the length of a window with the number of samples only after it has added
one.  So a window of no samples, which is any that is shorter than the time between two samples,
is never full: it stays in `requested_windows` and grows with every sample
(`Tracks.mem_requested`).  All others leave it with the sample that makes them full.  That every
window comes to its end is therefore true as long as those that have been sampled have asked for
a sample (`completes_iff`); at the default rate, a window of `10` microseconds has not
(`shortWindow_leaks`).
-/

namespace DrivingSim

namespace Logged

variable {s : Logged} {sr : ℕ}

/-- Every window comes to its end: no window in `requested_windows` is longer than requested, and
a request is there for at most as many samples as it asks for, and one at least. -/
structure Completes (s : Logged) : Prop where
  length_le : ∀ req ∈ s.scope.requestedWindows, req.data.length ≤ req.numSamples
  leaves : ∀ a ∈ s.log.admitted, a.start + max 1 a.numSamples ≤ s.log.samples.length →
    ∀ req ∈ s.scope.requestedWindows, req.callback ≠ a.request.req.callback

/-- What the requests ask for, at the rate of the oscilloscope. -/
structure Sized (sr : ℕ) (s : Logged) : Prop where
  rate : s.scope.sr = sr
  numSamples : ∀ r ∈ s.log.issued, r.req.numSamples = r.size * sr / 1000000

namespace Sized

/-- The next request asks for its size at the rate. -/
theorem issue (h : Sized sr s) (name : String) (size : ℕ) (trigger : Option DigitalVal) :
    ∀ r ∈ s.log.issued ++ [s.log.request name (s.scope.numSamples size) size trigger],
      r.req.numSamples = r.size * sr / 1000000 := by
  intro r hr
  rcases List.mem_append.mp hr with hr | hr
  · exact h.numSamples r hr
  · rw [List.mem_singleton.mp hr, ← h.rate]
    rfl

theorem step {s' : Logged} (h : Sized sr s) (hstep : Step s s') : Sized sr s' := by
  refine ⟨hstep.scope.sr.trans h.rate, ?_⟩
  cases hstep with
  | fillWindow name size => exact h.issue name size none
  | fillWindowOn name size trigger => exact h.issue name size (some trigger)
  | write newValue => exact h.numSamples
  | sampler =>
      rw [samplerStep]
      cases s.scope.sampler with
      | start =>
          dsimp only
          rw [takeSample_issued]
          exact h.numSamples
      | filled newlyFilled => exact h.numSamples
      | notifying => exact h.numSamples
  | flusher =>
      rw [flusherStep]
      split
      · exact h.numSamples
      · exact h.numSamples

theorem of_run {value lastSample : DigitalVal}
    (h : Relation.ReflTransGen Step (init value lastSample sr) s) : Sized sr s :=
  reachable_invariant ⟨rfl, fun _ hr => absurd hr List.not_mem_nil⟩
    (fun _ _ _ ht hstep => ht.step hstep) h

end Sized

/-- **A window of no samples stays**, and has all samples since its admission. -/
theorem Tracks.mem_requested (h : Tracks s) {a : Admission} (ha : a ∈ s.log.admitted)
    (hzero : a.numSamples = 0) : a.window s.log.samples ∈ s.scope.requestedWindows := by
  rw [h.requested]
  refine List.mem_map_of_mem (mem_pending.mpr ⟨ha, ?_⟩)
  rintro ⟨k, -, hlast⟩
  exact absurd (last_eq_some.mp hlast).1 (by omega)

/-- **Every window comes to its end**, if and only if each that has been sampled is at least as long
as the time between two samples. -/
theorem completes_iff {value lastSample : DigitalVal}
    (h : Relation.ReflTransGen Step (init value lastSample sr) s) :
    s.Completes ↔ ∀ a ∈ s.log.admitted, a.start < s.log.samples.length →
      1000000 ≤ a.request.size * sr := by
  have ht := Tracks.of_run h
  have hlength : ∀ a : Admission, (a.window s.log.samples).data.length =
      s.log.samples.length - a.start := fun a => List.length_drop
  have hsize : ∀ a ∈ s.log.admitted, a.numSamples = a.request.size * sr / 1000000 :=
    fun a ha => (Sized.of_run h).numSamples _ (ht.admitted_issued ha)
  refine ⟨?_, ?_⟩
  · intro hc a ha hstart
    by_contra hsmall
    have hzero : a.numSamples = 0 := by
      rw [hsize a ha]
      exact Nat.div_eq_of_lt (by omega)
    have hle := hc.length_le _ (ht.mem_requested ha hzero)
    rw [hlength] at hle
    have hnum : (a.window s.log.samples).numSamples = a.numSamples := rfl
    omega
  · intro hlong
    have hpos : ∀ a ∈ s.log.admitted, a.start < s.log.samples.length → 0 < a.numSamples := by
      intro a ha hstart
      rw [hsize a ha]
      exact Nat.div_pos (hlong a ha hstart) (by omega)
    refine ⟨?_, ?_⟩
    · intro req hreq
      rw [ht.requested] at hreq
      obtain ⟨a, ha, rfl⟩ := List.mem_map.mp hreq
      obtain ⟨hadmitted, hpending⟩ := mem_pending.mp ha
      rw [hlength]
      -- a window that is longer has had its last sample, and would not be in the list
      by_contra hlt
      have hnum : (a.window s.log.samples).numSamples = a.numSamples := rfl
      have hstart : a.start < s.log.samples.length := by omega
      have hnext := hpos a hadmitted hstart
      exact hpending ⟨a.start + a.numSamples - 1, by omega, last_eq_some.mpr ⟨hnext, by omega⟩⟩
    · intro a ha hsum req hreq he
      rw [ht.requested] at hreq
      obtain ⟨b, hb, rfl⟩ := List.mem_map.mp hreq
      obtain ⟨hadmitted, hpending⟩ := mem_pending.mp hb
      -- the callback is that of one admission only
      obtain rfl := ht.admission_eq hadmitted ha he
      have hnext := hpos b hadmitted (by omega)
      exact hpending ⟨b.start + b.numSamples - 1, by omega, last_eq_some.mpr ⟨hnext, by omega⟩⟩

/-- A request of a new oscilloscope, and its first sample. -/
def sampledOnce (sr size : ℕ) : Logged :=
  ((init .low .low sr).fillWindow "window" size).samplerStep

theorem sampledOnce_run (sr size : ℕ) :
    Relation.ReflTransGen Step (init .low .low sr) (sampledOnce sr size) :=
  .tail (.tail .refl (.fillWindow _ "window" size)) (.sampler _)

/-- The second sample, taken, queued and announced. -/
def sampledTwice (sr size : ℕ) : Logged :=
  (sampledOnce sr size).samplerStep.samplerStep.samplerStep.samplerStep.samplerStep

theorem sampledTwice_run (sr size : ℕ) :
    Relation.ReflTransGen Step (init .low .low sr) (sampledTwice sr size) :=
  .tail (.tail (.tail (.tail (.tail (sampledOnce_run sr size) (.sampler _)) (.sampler _))
    (.sampler _)) (.sampler _)) (.sampler _)

/-- A window of two samples has left with the second. -/
theorem sampledTwice_completes : (sampledTwice 44100 50).Completes ∧
    (sampledTwice 44100 50).scope.requestedWindows = [] ∧
    (sampledTwice 44100 50).scope.filledWindows = [⟨"window", [.low, .low], 2, 0⟩] := by
  refine ⟨(completes_iff (sampledTwice_run 44100 50)).2 ?_, rfl, rfl⟩
  intro a ha _
  rw [List.mem_singleton.1 ha]
  decide

/-- **A window of less than a sample** has one already, and will not be delivered. -/
theorem shortWindow_leaks :
    Relation.ReflTransGen Step (init .low .low 44100) (sampledOnce 44100 10) ∧
      ¬ (sampledOnce 44100 10).Completes := by
  refine ⟨sampledOnce_run 44100 10, ?_⟩
  intro h
  exact absurd (h.length_le ⟨"window", [.low], 0, 0⟩ (.head [])) (by decide)

end Logged

end DrivingSim
