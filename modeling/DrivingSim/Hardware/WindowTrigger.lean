import DrivingSim.Hardware.WindowLog

/-!
# Hardware — spurious triggers

A request on a trigger is to be admitted by the first sample after it that is the trigger and
comes after a sample that is not.  The sampler compares each sample with `last_sample`, which the
constructor does not set; so what it takes for an edge is one of the samples with whatever
`last_sample` held before the first of them (`Fires`).  By the invariant `Triggered` the requests
that wait have seen none, and the others were admitted by the first.  The two readings differ in
the first sample alone, so that the triggers are right if and only if no request that was there
before it has it as its trigger, or it is what `last_sample` held (`triggersOnEdge_iff`).
-/

namespace DrivingSim

/-- The sample with the number `k` is `v`, and the one before it is not. -/
def Edge (samples : List DigitalVal) (v : DigitalVal) : ℕ → Prop
  | 0 => False
  | k + 1 => samples[k + 1]? = some v ∧ ∃ u, samples[k]? = some u ∧ u ≠ v

/-- `k` is the first number with `p`, from `m` on. -/
def First (p : ℕ → Prop) (m k : ℕ) : Prop := m ≤ k ∧ p k ∧ ∀ j, m ≤ j → j < k → ¬ p j

theorem First.unique {p : ℕ → Prop} {m k k' : ℕ} (h : First p m k) (h' : First p m k') :
    k = k' := by
  obtain ⟨hm, hk, hfirst⟩ := h
  obtain ⟨hm', hk', hfirst'⟩ := h'
  rcases Nat.lt_trichotomy k k' with hlt | heq | hgt
  · exact absurd hk (hfirst' k hm hlt)
  · exact heq
  · exact absurd hk' (hfirst k' hm' hgt)

theorem First.congr {p q : ℕ → Prop} {m k : ℕ} (h : ∀ j, m ≤ j → (p j ↔ q j)) :
    First p m k ↔ First q m k := by
  refine and_congr_right fun hk => and_congr (h k hk) ?_
  exact forall_congr' fun j => forall_congr' fun hj => by rw [h j hj]

/-- The sampler takes the sample with the number `k` for an edge: before the first, it has
`last`. -/
def Fires (last : DigitalVal) (samples : List DigitalVal) (v : DigitalVal) (k : ℕ) : Prop :=
  Edge (last :: samples) v (k + 1)

section Fires

variable {last u v x : DigitalVal} {samples : List DigitalVal} {k : ℕ}

theorem Fires.lt (h : Fires last samples v k) : k < samples.length := by
  obtain ⟨h, -⟩ := h
  rw [List.getElem?_cons_succ] at h
  exact (List.getElem?_eq_some_iff.mp h).1

theorem fires_zero : Fires last samples v 0 ↔ samples.head? = some v ∧ last ≠ v := by
  rw [Fires, Edge, List.getElem?_cons_succ, ← List.head?_eq_getElem?]
  simp

/-- Only the first sample can be taken for an edge when it is none. -/
theorem fires_iff :
    Fires last samples v k ↔ Edge samples v k ∨ k = 0 ∧ samples.head? = some v ∧ last ≠ v := by
  cases k with
  | zero => simp [fires_zero, Edge]
  | succ k => simp [Fires, Edge]

/-- The next sample is an edge for those that wait for it, if it is not what it is compared with. -/
theorem fires_append (hu : (last :: samples)[samples.length]? = some u) :
    Fires last (samples ++ [x]) v k ↔
      Fires last samples v k ∨ k = samples.length ∧ x = v ∧ u ≠ v := by
  rcases Nat.lt_trichotomy k samples.length with hlt | rfl | hgt
  · -- the samples so far stay where they are
    have hnew : (last :: (samples ++ [x]))[k]? = (last :: samples)[k]? := by
      rw [← List.cons_append]
      exact List.getElem?_append_left (Nat.lt_succ_of_lt hlt)
    rw [Fires, Fires, Edge, Edge, List.getElem?_cons_succ, List.getElem?_cons_succ,
      List.getElem?_append_left hlt, hnew]
    exact (or_iff_left fun h => Nat.ne_of_lt hlt h.1).symm
  · -- the new one is compared with `u`
    have hold : ¬ Fires last samples v samples.length := fun h => Nat.lt_irrefl _ h.lt
    have hnew : (last :: (samples ++ [x]))[samples.length]? = some u := by
      rw [← List.cons_append, List.getElem?_append_left (Nat.lt_succ_self _), hu]
    rw [or_iff_right hold, Fires, Edge, List.getElem?_cons_succ, List.getElem?_concat_length, hnew]
    simp
  · have hold : ¬ Fires last samples v k := fun h => Nat.lt_asymm hgt h.lt
    have hnew : ¬ Fires last (samples ++ [x]) v k := by
      intro h
      have hlt := h.lt
      rw [List.length_append, List.length_singleton] at hlt
      omega
    exact iff_of_false hnew fun h => h.elim hold fun h => Nat.ne_of_gt hgt h.1

end Fires

namespace Logged

variable {s : Logged} {last v : DigitalVal} {r : Request} {k : ℕ}

/-- A request on a trigger is admitted by the first sample after it that is the trigger and whose
preceding sample is not; until then it waits. -/
def TriggersOnEdge (s : Logged) : Prop :=
  ∀ r ∈ s.log.issued, ∀ v, r.trigger = some v →
    (∀ k, ⟨r, k⟩ ∈ s.log.admitted ↔ First (Edge s.log.samples v) r.before k) ∧
    (r.req ∈ s.scope.triggers v ↔ ∀ k, r.before ≤ k → ¬ Edge s.log.samples v k)

/-- What the sampler has made of the triggers, when `last_sample` held `last` in the beginning. -/
structure Triggered (last : DigitalVal) (s : Logged) : Prop where
  lastSample : (last :: s.log.samples)[s.log.samples.length]? = some s.scope.lastSample
  waiting : ∀ v, ∀ r ∈ s.log.waiting v, r.trigger = some v ∧ r.before ≤ s.log.samples.length ∧
    ∀ k, r.before ≤ k → ¬ Fires last s.log.samples v k
  admitted : ∀ a ∈ s.log.admitted, ∀ v, a.request.trigger = some v →
    First (Fires last s.log.samples v) a.request.before a.start

namespace Triggered

theorem init (value : DigitalVal) (sr : ℕ) : Triggered last (Logged.init value last sr) where
  lastSample := rfl
  waiting _ _ hr := absurd hr List.not_mem_nil
  admitted _ ha := absurd ha List.not_mem_nil

theorem fillWindow (h : Triggered last s) (name : String) (size : ℕ) :
    Triggered last (s.fillWindow name size) := by
  refine ⟨h.lastSample, h.waiting, ?_⟩
  intro a ha v hv
  rcases List.mem_append.mp ha with ha | ha
  · exact h.admitted a ha v hv
  · rw [List.mem_singleton.mp ha] at hv
    cases hv

theorem fillWindowOn (h : Triggered last s) (name : String) (size : ℕ) (trigger : DigitalVal) :
    Triggered last (s.fillWindowOn name size trigger) := by
  refine ⟨?_, ?_, h.admitted⟩
  · refine h.lastSample.trans (congrArg some ?_)
    exact Oscilloscope.fillWindowOn_sameInput.lastSample.symm
  · intro v r hr
    rw [Logged.fillWindowOn, fillWindowOn_waiting] at hr
    by_cases hv : v = trigger
    · rw [if_pos hv] at hr
      rcases List.mem_append.mp hr with hr | hr
      · exact h.waiting v r hr
      · -- nothing has been sampled since the request
        rw [List.mem_singleton.mp hr, hv]
        exact ⟨rfl, Nat.le_refl _, fun k hk hfires => Nat.not_lt.mpr hk hfires.lt⟩
    · rw [if_neg hv] at hr
      exact h.waiting v r hr

/-- A sample admits those that wait for it, when it is not the last one again. -/
theorem takeSample (h : Triggered last s) :
    Triggered last ⟨s.scope.takeSample, s.log.takeSample s.scope.value s.scope.lastSample⟩ := by
  have happend : ∀ v k, Fires last (s.log.samples ++ [s.scope.value]) v k ↔
      Fires last s.log.samples v k ∨
        k = s.log.samples.length ∧ s.scope.value = v ∧ s.scope.lastSample ≠ v :=
    fun v k => fires_append h.lastSample
  refine ⟨?_, ?_, ?_⟩
  · dsimp only
    rw [takeSample_samples, List.length_append, List.length_singleton, List.getElem?_cons_succ,
      List.getElem?_concat_length, Oscilloscope.takeSample_eq]
  · intro v r hr
    dsimp only at hr ⊢
    rw [takeSample_samples]
    have hsame : r ∈ s.log.waiting v ∧ ¬ (s.scope.value = v ∧ s.scope.lastSample ≠ v) := by
      rw [takeSample_waiting] at hr
      split_ifs at hr with hvalue hv
      · exact ⟨hr, fun ⟨hv, hne⟩ => hne (hvalue.symm.trans hv)⟩
      · exact absurd hr List.not_mem_nil
      · exact ⟨hr, fun he => hv he.1.symm⟩
    obtain ⟨htrigger, hbefore, hnever⟩ := h.waiting v r hsame.1
    refine ⟨htrigger, ?_, ?_⟩
    · rw [List.length_append]
      exact Nat.le_add_right_of_le hbefore
    · intro k hk hfires
      rcases (happend v k).mp hfires with hfires | ⟨-, hedge⟩
      · exact hnever k hk hfires
      · exact hsame.2 hedge
  · intro a ha v hv
    dsimp only at ha ⊢
    rw [takeSample_samples]
    rw [takeSample_admitted] at ha
    rcases List.mem_append.mp ha with ha | ha
    · -- an old admission was at an edge already, and this sample comes after it
      obtain ⟨hbefore, hstart, hfirst⟩ := h.admitted a ha v hv
      refine ⟨hbefore, (happend v _).mpr (.inl hstart), ?_⟩
      intro j hj hlt hfires
      rcases (happend v j).mp hfires with hfires | ⟨rfl, -⟩
      · exact hfirst j hj hlt hfires
      · exact Nat.lt_asymm hlt hstart.lt
    · split_ifs at ha with hvalue
      · exact absurd ha List.not_mem_nil
      obtain ⟨r, hr, rfl⟩ := List.mem_map.mp ha
      obtain ⟨htrigger, hbefore, hnever⟩ := h.waiting _ r hr
      obtain rfl : s.scope.value = v := Option.some.inj (htrigger.symm.trans hv)
      refine ⟨hbefore, (happend _ _).mpr (.inr ⟨rfl, rfl, Ne.symm hvalue⟩), ?_⟩
      intro j hj hlt hfires
      rcases (happend _ j).mp hfires with hfires | ⟨rfl, -⟩
      · exact hnever j hj hfires
      · exact Nat.lt_irrefl _ hlt

theorem step {s' : Logged} (h : Triggered last s) (hstep : Step s s') : Triggered last s' := by
  cases hstep with
  | fillWindow name size => exact h.fillWindow name size
  | fillWindowOn name size trigger => exact h.fillWindowOn name size trigger
  | write newValue => exact ⟨h.lastSample, h.waiting, h.admitted⟩
  | sampler =>
      rw [samplerStep, Oscilloscope.samplerStep]
      cases s.scope.sampler with
      | start => exact h.takeSample
      | filled newlyFilled => exact ⟨h.lastSample, h.waiting, h.admitted⟩
      | notifying =>
          refine ⟨h.lastSample.trans (congrArg some ?_), h.waiting, h.admitted⟩
          exact Oscilloscope.notifyOne_sameInput.lastSample.symm
  | flusher =>
      have hlast : s.scope.flusherStep.lastSample = s.scope.lastSample :=
        Oscilloscope.flusherStep_sameInput.lastSample
      rw [flusherStep]
      split
      · exact ⟨h.lastSample.trans (congrArg some hlast.symm), h.waiting, h.admitted⟩
      · exact ⟨h.lastSample.trans (congrArg some hlast.symm), h.waiting, h.admitted⟩

theorem of_run {value : DigitalVal} {sr : ℕ}
    (h : Relation.ReflTransGen Logged.Step (Logged.init value last sr) s) : Triggered last s :=
  reachable_invariant (init value sr) (fun _ _ _ ht hstep => ht.step hstep) h

/-- **When the sampler admits a request**: at the first sample that it takes for an edge. -/
theorem issued_iff (h : Triggered last s) (ht : Tracks s) (hr : r ∈ s.log.issued)
    (hv : r.trigger = some v) :
    (∀ k, ⟨r, k⟩ ∈ s.log.admitted ↔ First (Fires last s.log.samples v) r.before k) ∧
    (r.req ∈ s.scope.triggers v ↔ ∀ k, r.before ≤ k → ¬ Fires last s.log.samples v k) := by
  have hnever : r ∈ s.log.waiting v → ∀ k, r.before ≤ k → ¬ Fires last s.log.samples v k :=
    fun hw => (h.waiting v r hw).2.2
  have htriggers : r.req ∈ s.scope.triggers v ↔ r ∈ s.log.waiting v := by
    rw [ht.triggers, List.mem_map]
    refine ⟨?_, fun hw => ⟨r, hw, rfl⟩⟩
    rintro ⟨r', hw, he⟩
    rwa [ht.request_eq hr (ht.mem_issued hw) (congrArg WindowReq.callback he.symm)]
  rw [htriggers]
  -- a request waits, and has seen no edge, or was admitted at the first
  rcases List.mem_append.mp (ht.issued.mem_iff.mpr hr) with hw | hmem
  · have hw : r ∈ s.log.waiting v := by
      rcases List.mem_append.mp hw with hw | hw
      · obtain rfl : DigitalVal.high = v :=
          Option.some.inj ((h.waiting _ r hw).1.symm.trans hv)
        exact hw
      · obtain rfl : DigitalVal.low = v :=
          Option.some.inj ((h.waiting _ r hw).1.symm.trans hv)
        exact hw
    refine ⟨fun k => ⟨fun ha => h.admitted _ ha v hv, ?_⟩, fun _ => hnever hw, fun _ => hw⟩
    rintro ⟨hk, hfires, -⟩
    exact absurd hfires (hnever hw k hk)
  · obtain ⟨a, ha, rfl⟩ := List.mem_map.mp hmem
    have hfirst := h.admitted a ha v hv
    refine ⟨fun k => ⟨fun hk => h.admitted _ hk v hv, ?_⟩, fun hw => hnever hw, ?_⟩
    · intro hk
      obtain rfl := hfirst.unique hk
      exact ha
    · intro hnone
      exact absurd hfirst.2.1 (hnone _ hfirst.1)

end Triggered

/-- **No spurious trigger**, if and only if the first sample is what `last_sample` held, or no
request from before it has it as its trigger. -/
theorem triggersOnEdge_iff {value : DigitalVal} {sr : ℕ}
    (h : Relation.ReflTransGen Step (init value last sr) s) :
    s.TriggersOnEdge ↔ ∀ r ∈ s.log.issued, r.before = 0 → ∀ v, r.trigger = some v →
      s.log.samples.head? = some v → last = v := by
  have ht := Tracks.of_run h
  have htriggered := Triggered.of_run h
  refine ⟨?_, ?_⟩
  · intro hedge r hr hbefore v hv hhead
    by_contra hne
    have hfirst : First (Fires last s.log.samples v) r.before 0 :=
      ⟨Nat.le_of_eq hbefore, fires_zero.mpr ⟨hhead, hne⟩, fun j _ hj => absurd hj j.not_lt_zero⟩
    have hadmitted := ((htriggered.issued_iff ht hr hv).1 0).mpr hfirst
    -- but the first sample comes after none
    exact (((hedge r hr v hv).1 0).mp hadmitted).2.1
  · intro hquiet r hr v hv
    have hsame : ∀ k, r.before ≤ k → (Fires last s.log.samples v k ↔ Edge s.log.samples v k) := by
      intro k hk
      rw [fires_iff]
      refine or_iff_left ?_
      rintro ⟨rfl, hhead, hne⟩
      exact hne (hquiet r hr (Nat.le_zero.mp hk) v hv hhead)
    obtain ⟨hadmitted, hwaiting⟩ := htriggered.issued_iff ht hr hv
    refine ⟨fun k => (hadmitted k).trans (First.congr hsame), hwaiting.trans ?_⟩
    exact forall_congr' fun k => forall_congr' fun hk => not_congr (hsame k hk)

/-- A request on the trigger `HIGH`, and a first sample. -/
def highRequested (value last : DigitalVal) : Logged :=
  ((init value last 44100).fillWindowOn "window" 100 .high).samplerStep

theorem highRequested_run (value last : DigitalVal) :
    Relation.ReflTransGen Step (init value last 44100) (highRequested value last) :=
  .tail (.tail .refl (.fillWindowOn _ "window" 100 .high)) (.sampler _)

/-- A second sample, after the voltage has risen; `last_sample` happened to hold `HIGH`. -/
def highRisen : Logged :=
  let s := (highRequested .low .high).samplerStep.samplerStep
  samplerStep ⟨s.scope.write .high, s.log⟩

theorem highRisen_run : Relation.ReflTransGen Step (init .low .high 44100) highRisen :=
  .tail (.tail (.tail (.tail (highRequested_run .low .high) (.sampler _)) (.sampler _))
    (.write _ .high)) (.sampler _)

/-- The request is admitted at the edge, the sample of number 1. -/
theorem highRisen_onEdge : highRisen.TriggersOnEdge ∧
    highRisen.log.admitted = [⟨⟨⟨"window", [], 4, 0⟩, 100, some .high, 0⟩, 1⟩] := by
  refine ⟨(triggersOnEdge_iff highRisen_run).2 ?_, rfl⟩
  intro r hr _ v hv _
  rw [List.mem_singleton.1 hr] at hv
  exact Option.some.inj hv

/-- **A spurious trigger.**  The first sample is `HIGH` and `last_sample` happens to hold `LOW`. -/
theorem highRequested_spurious :
    Relation.ReflTransGen Step (init .high .low 44100) (highRequested .high .low) ∧
      ¬ (highRequested .high .low).TriggersOnEdge := by
  refine ⟨highRequested_run .high .low, ?_⟩
  intro h
  have hr := ((h ⟨⟨"window", [], 4, 0⟩, 100, some .high, 0⟩ (.head []) .high rfl).1 0).mp (.head [])
  exact hr.2.1

end Logged

end DrivingSim
