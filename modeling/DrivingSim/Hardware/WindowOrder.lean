import DrivingSim.Hardware.WindowTrigger

/-!
# Hardware — the order of the callbacks

Requests of one kind, those on no trigger or those on the same one, are admitted in the order of
their calls, as the list of a trigger is moved as a whole (`InOrder`).  The first of two is then
full first, unless it is larger, and what is full is queued, taken off the queue and called in
that order.  So of two requests of one kind, the one that has been made first, and does not ask
for more, has its callback called first (`called_in_order`).
-/

namespace DrivingSim.Logged

/-- The requests of a kind. -/
def ofKind (t : Option DigitalVal) (requests : List Request) : List Request :=
  requests.filter fun r => r.trigger = t

/-- Those of a kind that wait. -/
def waitingOf (log : Log) : Option DigitalVal → List Request
  | some v => log.waiting v
  | none => []

/-- The requests of a kind are in the order of their calls, and the admissions in that of their
samples. -/
structure InOrder (s : Logged) : Prop where
  requests : ∀ t, ofKind t (s.log.admitted.map Admission.request) ++ waitingOf s.log t =
    ofKind t s.log.issued
  trigger : ∀ v, ∀ r ∈ s.log.waiting v, r.trigger = some v
  start : s.log.admitted.Pairwise fun a b => a.start ≤ b.start

variable {s s' : Logged} {t : Option DigitalVal} {v : DigitalVal} {l l' : List Request}
  {r : Request}

theorem ofKind_append : ofKind t (l ++ l') = ofKind t l ++ ofKind t l' := List.filter_append ..

theorem ofKind_of_all (h : ∀ r ∈ l, r.trigger = t) : ofKind t l = l :=
  List.filter_eq_self.2 fun r hr => decide_eq_true (h r hr)

theorem ofKind_of_none (h : ∀ r ∈ l, r.trigger ≠ t) : ofKind t l = [] :=
  List.filter_eq_nil_iff.2 fun r hr he => h r hr (of_decide_eq_true he)

namespace InOrder

theorem init (value lastSample : DigitalVal) (sr : ℕ) :
    InOrder (Logged.init value lastSample sr) where
  requests t := by cases t <;> rfl
  trigger v r hr := absurd hr List.not_mem_nil
  start := .nil

theorem fillWindow (h : InOrder s) (ht : Tracks s) (name : String) (size : ℕ) :
    InOrder (s.fillWindow name size) := by
  refine ⟨fun t => ?_, h.trigger, ?_⟩
  · have hrequests := h.requests t
    rw [Logged.fillWindow, Log.fillWindow]
    dsimp only
    rw [List.map_append, ofKind_append, ofKind_append, ← hrequests]
    cases t with
    | none =>
        -- nothing waits for no trigger
        have hnone : ∀ log : Log, waitingOf log none = [] := fun _ => rfl
        rw [hnone, hnone, List.append_nil, List.append_nil]
        rfl
    | some v =>
        have hnew : ofKind (some v) [s.log.request name (s.scope.numSamples size) size none] = [] :=
          ofKind_of_none fun r hr he => by
            rw [List.mem_singleton.1 hr] at he
            exact Option.some_ne_none v he.symm
        rw [List.map_singleton, hnew, List.append_nil, List.append_nil]
        rfl
  · refine List.pairwise_append.2 ⟨h.start, List.pairwise_singleton _ _, fun a ha b hb => ?_⟩
    rw [List.mem_singleton.1 hb]
    exact ht.start a ha

theorem fillWindowOn (h : InOrder s) (name : String) (size : ℕ) (trigger : DigitalVal) :
    InOrder (s.fillWindowOn name size trigger) := by
  refine ⟨fun t => ?_, fun v r hr => ?_, h.start⟩
  · have hrequests := h.requests t
    rw [Logged.fillWindowOn]
    have hissued : ∀ (log : Log) (r : Request) (v : DigitalVal),
        (log.fillWindowOn r v).issued = log.issued ++ [r] := fun _ _ _ => rfl
    have hadmitted : ∀ (log : Log) (r : Request) (v : DigitalVal),
        (log.fillWindowOn r v).admitted = log.admitted := fun _ _ _ => rfl
    dsimp only
    rw [hissued, hadmitted, ofKind_append, ← hrequests]
    cases t with
    | none =>
        rw [ofKind_of_none (l := [_]) (by simp [Log.request]), List.append_nil]
        rfl
    | some v =>
        rw [waitingOf, waitingOf, fillWindowOn_waiting, List.append_assoc]
        by_cases hv : v = trigger
        · rw [if_pos hv, ofKind_of_all (l := [_]) (by simp [Log.request, hv])]
        · rw [if_neg hv, ofKind_of_none (l := [_]) (by simpa [Log.request] using Ne.symm hv),
            List.append_nil]
  · rw [Logged.fillWindowOn, fillWindowOn_waiting] at hr
    split_ifs at hr with hv
    · rcases List.mem_append.1 hr with hr | hr
      · exact h.trigger v r hr
      · rw [List.mem_singleton.1 hr, hv]
        rfl
    · exact h.trigger v r hr

/-- A sample moves the list of a trigger behind what has been admitted, or nothing. -/
theorem takeSample (h : InOrder s) (ht : Tracks s) {scope : Oscilloscope ℕ}
    (sample before : DigitalVal) : InOrder ⟨scope, s.log.takeSample sample before⟩ := by
  refine ⟨fun t => ?_, fun v r hr => ?_, ?_⟩
  · have hrequests := h.requests t
    dsimp only
    rw [takeSample_issued, takeSample_admitted, List.map_append, ofKind_append, ← hrequests]
    by_cases hsame : sample = before
    · rw [if_pos hsame, List.map_nil, Log.takeSample, if_pos hsame]
      exact congrArg (· ++ _) (List.append_nil _)
    · have hmoved : ((s.log.waiting sample).map fun r =>
          (⟨r, s.log.samples.length⟩ : Admission)).map Admission.request =
            s.log.waiting sample := by
        rw [List.map_map]
        exact List.map_id _
      rw [if_neg hsame, hmoved]
      cases t with
      | none =>
          rw [ofKind_of_none (l := s.log.waiting sample) fun r hr => by
            rw [h.trigger sample r hr]
            exact Option.some_ne_none _]
          exact congrArg (· ++ _) (List.append_nil _)
      | some v =>
          rw [waitingOf, waitingOf, takeSample_waiting, if_neg hsame, List.append_assoc]
          by_cases hv : v = sample
          · rw [if_pos hv, ofKind_of_all (fun r hr => (h.trigger sample r hr).trans
              (congrArg some hv.symm)), hv, List.append_nil]
          · rw [if_neg hv, ofKind_of_none (l := s.log.waiting sample) fun r hr he =>
              hv (Option.some.inj ((h.trigger sample r hr).symm.trans he)).symm]
            rfl
  · dsimp only at hr
    rw [takeSample_waiting] at hr
    split_ifs at hr
    · exact h.trigger v r hr
    · exact absurd hr List.not_mem_nil
    · exact h.trigger v r hr
  · dsimp only
    rw [takeSample_admitted]
    refine List.pairwise_append.2 ⟨h.start, ?_, fun a ha b hb => ?_⟩
    · refine List.pairwise_of_forall_mem_list fun a ha b hb => Nat.le_of_eq ?_
      rw [start_of_triggered ha, start_of_triggered hb]
    · rw [start_of_triggered hb]
      exact ht.start a ha

theorem step (h : InOrder s) (ht : Tracks s) (hs : Step s s') : InOrder s' := by
  cases hs with
  | fillWindow name size => exact h.fillWindow ht name size
  | fillWindowOn name size trigger => exact h.fillWindowOn name size trigger
  | write newValue => exact ⟨h.requests, h.trigger, h.start⟩
  | sampler =>
      rw [samplerStep]
      cases s.scope.sampler with
      | start => exact h.takeSample ht _ _
      | filled newlyFilled => exact ⟨h.requests, h.trigger, h.start⟩
      | notifying => exact ⟨h.requests, h.trigger, h.start⟩
  | flusher =>
      rw [flusherStep]
      split
      · exact ⟨h.requests, h.trigger, h.start⟩
      · exact ⟨h.requests, h.trigger, h.start⟩

theorem of_run {value lastSample : DigitalVal} {sr : ℕ}
    (h : Relation.ReflTransGen Step (Logged.init value lastSample sr) s) : InOrder s :=
  reachable_invariant (init value lastSample sr)
    (fun _ _ hrun ht hstep => ht.step (Tracks.of_run hrun) hstep) h

end InOrder

/-! ### Two requests -/

namespace InOrder

variable {r' : Request} {a b : Admission}

/-- A callback that is not waiting any more comes after those of its kind that have been requested
before. -/
theorem admitted_sublist (h : InOrder s) (ht : Tracks s) (hr : r ∈ s.log.issued)
    (hr' : r' ∈ s.log.issued) (hbefore : r.req.callback < r'.req.callback)
    (htrigger : r.trigger = r'.trigger) (hadmitted : r' ∈ s.log.admitted.map Admission.request) :
    [r, r'].Sublist (s.log.admitted.map Admission.request) := by
  have hkeys : s.log.issued.Pairwise fun x y => x.req.callback < y.req.callback := by
    rw [← List.pairwise_map, ht.number]
    exact List.pairwise_lt_range
  have hkind : ofKind r'.trigger [r, r'] = [r, r'] :=
    ofKind_of_all (by simp [htrigger])
  have hsub : [r, r'].Sublist (ofKind r'.trigger s.log.issued) := by
    rw [← hkind]
    exact (pair_sublist hkeys hr hr' hbefore).filter _
  have hwaiting : r' ∉ waitingOf s.log r'.trigger := by
    have hnodup := (ht.issued.nodup_iff.2 (List.Nodup.of_map _ (ht.number ▸ List.nodup_range)))
    intro hw
    refine (List.nodup_append.1 hnodup).2.2 r' ?_ r' hadmitted rfl
    cases hv : r'.trigger with
    | none => exact absurd (hv ▸ hw) List.not_mem_nil
    | some v =>
        rw [hv] at hw
        cases v with
        | high => exact List.mem_append_left _ hw
        | low => exact List.mem_append_right _ hw
  rw [← h.requests] at hsub
  exact (sublist_of_not_mem hsub hwaiting).trans List.filter_sublist

/-- The first is full first. -/
theorem full_sublist (h : InOrder s) (hab : [a, b].Sublist s.log.admitted) (hpos : 0 < a.numSamples)
    (hle : a.numSamples ≤ b.numSamples) {n : ℕ} (hb : b ∈ due Admission.last s.log.admitted n) :
    [a, b].Sublist (due Admission.last s.log.admitted n) := by
  obtain ⟨-, k, hk, hlast⟩ := mem_due.1 hb
  obtain ⟨-, hsum⟩ := last_eq_some.1 hlast
  have hstart : a.start ≤ b.start := List.rel_of_pairwise_cons (h.start.sublist hab)
    List.mem_cons_self
  have hfirst : a.last = some (a.start + a.numSamples - 1) :=
    last_eq_some.2 ⟨hpos, by omega⟩
  exact due_sublist hab hfirst hlast (by omega) hk

end InOrder

/-- The callbacks of what is full. -/
theorem Tracks.due_nodup (h : Tracks s) (n : ℕ) :
    ((due Admission.last s.log.admitted n).map fun a => a.request.req.callback).Nodup := by
  have hissued := h.issued.map fun r => r.req.callback
  rw [h.number, List.map_append, List.map_map] at hissued
  have hadmitted := (hissued.nodup_iff.2 List.nodup_range).of_append_right
  have hperm := (due_perm Admission.last s.log.admitted n).map fun a => a.request.req.callback
  rw [List.map_append] at hperm
  exact (hperm.nodup_iff.2 hadmitted).of_append_left

/-- **The callbacks are called in the order of the requests.**  Whatever the order of the steps, of
two requests on no trigger or on the same one, the callback of the second has been called only
where that of the first has been called before it, provided that the first asks for a sample at
all and for no more than the second. -/
theorem called_in_order {value lastSample : DigitalVal} {sr : ℕ}
    (h : Relation.ReflTransGen Step (init value lastSample sr) s) {r r' : Request}
    (hr : r ∈ s.log.issued) (hr' : r' ∈ s.log.issued)
    (hbefore : r.req.callback < r'.req.callback) (htrigger : r.trigger = r'.trigger)
    (hpos : 0 < r.req.numSamples) (hle : r.req.numSamples ≤ r'.req.numSamples)
    {sofar : List (WindowReq ℕ)} (hsofar : sofar <+: s.log.called)
    (hcalled : r'.req.callback ∈ sofar.map WindowReq.callback) :
    r.req.callback ∈ sofar.map WindowReq.callback := by
  have ht := Tracks.of_run h
  have ho := InOrder.of_run h
  have hcallbacks : sofar.map WindowReq.callback <+:
      (due Admission.last s.log.admitted s.log.samples.length).map
        fun a => a.request.req.callback := by
    have hfilled : s.log.called <+: (due Admission.last s.log.admitted s.log.samples.length).map
        (Admission.full · s.log.samples) := by
      rw [← ht.filled, List.append_assoc, List.append_assoc]
      exact List.prefix_append _ _
    have hmap := (hsofar.trans hfilled).map WindowReq.callback
    rwa [List.map_map] at hmap
  -- the admission of the second
  obtain ⟨b, hb, hbcallback⟩ := List.mem_map.1 (hcallbacks.subset hcalled)
  have hbadmitted := (mem_due.1 hb).1
  obtain rfl := ht.request_eq (ht.admitted_issued hbadmitted) hr' hbcallback
  have hpair := ho.admitted_sublist ht hr hr' hbefore htrigger (List.mem_map_of_mem hbadmitted)
  obtain ⟨l, hl, hmap⟩ := List.sublist_map_iff.1 hpair
  -- that of the first comes before it
  obtain ⟨a, b', rfl⟩ : ∃ a b', l = [a, b'] := by
    have hlength := congrArg List.length hmap
    rw [List.length_map] at hlength
    exact List.length_eq_two.1 hlength.symm
  obtain ⟨rfl, hrest⟩ := List.cons.inj hmap
  obtain ⟨hrequest, -⟩ := List.cons.inj hrest
  obtain rfl := ht.admission_eq hbadmitted
    (hl.subset (List.mem_cons_of_mem _ List.mem_cons_self)) (congrArg (·.req.callback) hrequest)
  have hfull := (ho.full_sublist hl hpos hle hb).map fun a => a.request.req.callback
  exact mem_of_prefix (ht.due_nodup _) hfull hcallbacks hcalled

/-- Two windows of one sample, on their way to their callbacks. -/
def twoWindows : Logged :=
  let s := ((init .low .low 1000000).fillWindow "first" 1).fillWindow "second" 1
  s.samplerStep.samplerStep.flusherStep.flusherStep.flusherStep

theorem twoWindows_run : Relation.ReflTransGen Step (init .low .low 1000000) twoWindows :=
  .tail (.tail (.tail (.tail (.tail (.tail (.tail .refl (.fillWindow _ "first" 1))
    (.fillWindow _ "second" 1)) (.sampler _)) (.sampler _)) (.flusher _)) (.flusher _)) (.flusher _)

theorem twoWindows_in_order : twoWindows.log.called.map WindowReq.callback = [0, 1] ∧
    ∀ sofar : List (WindowReq ℕ), sofar <+: twoWindows.log.called →
      1 ∈ sofar.map WindowReq.callback → 0 ∈ sofar.map WindowReq.callback :=
  ⟨rfl, fun _ hsofar hcalled =>
    called_in_order twoWindows_run (r := ⟨⟨"first", [], 1, 0⟩, 1, none, 0⟩) List.mem_cons_self
      (show (⟨⟨"second", [], 1, 1⟩, 1, none, 0⟩ : Request) ∈ twoWindows.log.issued from
        List.mem_cons_of_mem _ List.mem_cons_self) Nat.zero_lt_one rfl Nat.zero_lt_one
      (Nat.le_refl 1) hsofar hcalled⟩

end DrivingSim.Logged
