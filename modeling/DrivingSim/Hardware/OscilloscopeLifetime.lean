import DrivingSim.Hardware.Oscilloscope
import DrivingSim.System.LoopThread
import DrivingSim.Support.Reachable

/-!
# Hardware — the end of an oscilloscope

The members of an oscilloscope are destroyed in the reverse order of their declaration: first the
flusher, then the sampler.  Each of the two destructors sets `halt` and joins its loop.  While the
flusher is joined the sampler goes on, but no client makes requests any more.

A flusher that waits in `flush` tests the queue and not `halt`.  Where the sampler still has a
window to fill, the flusher comes out of the wait, calls the callbacks and sees `halt`
(`canFlush_of_fillable`, by induction on the number of samples that are missing).  Where there is
none, all that the sampler does from then on leaves the queue empty, and the flusher waits for
ever (`Stuck.step`).  So the destructor returns exactly when it is not stuck
(`scope_destroyed_iff`).
-/

namespace DrivingSim.Oscilloscope
open LoopThread (Pc)

/-- Where the owner of the oscilloscope is. -/
inductive Owner where
  | calling
  /-- In the destructor of the flusher, at `inner.join()`. -/
  | joiningFlusher
  /-- Past it. -/
  | flusherJoined
  /-- In the destructor of the sampler, at `inner.join()`. -/
  | joiningSampler
  | destroyed
  deriving DecidableEq

/-- `halt` of the flusher. -/
def Owner.flusherHalt : Owner → Bool
  | .calling => false
  | _ => true

/-- `halt` of the sampler. -/
def Owner.samplerHalt : Owner → Bool
  | .joiningSampler => true
  | .destroyed => true
  | _ => false

/-- An oscilloscope, the loops of its two threads, and its owner. -/
structure Owned (κ : Type) where
  scope : Oscilloscope κ
  samplerLoop : Pc
  flusherLoop : Pc
  owner : Owner

variable {κ : Type}

/-- Where the loop of the sampler is after a step of `sample`, which ends with `notify_one`. -/
def afterSample (s : Oscilloscope κ) : Pc :=
  match s.sampler with
  | .notifying => .delay
  | _ => .work

/-- Where the loop of the flusher is after a step of `flush`, which ends when all is flushed. -/
def afterFlush (s : Oscilloscope κ) : Pc :=
  match s.flusher with
  | .flushing [] => .delay
  | _ => .work

/-- The requests that the next sample goes to. -/
def nextSampled (s : Oscilloscope κ) : List (WindowReq κ) :=
  s.requestedWindows ++ if s.value = s.lastSample then [] else s.triggers s.value

/-- There is and will be nothing to flush: no window is queued or about to be, and the next sample
fills none and leaves none to be filled. -/
structure Dry (s : Oscilloscope κ) : Prop where
  flusher : ∀ toFlush, s.flusher ≠ .flushing toFlush
  filledWindows : s.filledWindows = []
  newlyFilled : s.newlyFilled = []
  nextSampled : ∀ req ∈ s.nextSampled, req.numSamples ≤ req.data.length

namespace Owned

/-- A new oscilloscope, with what the fields that its constructor does not set held. -/
def init (value lastSample : DigitalVal) (sr : Nat) : Owned κ :=
  ⟨Oscilloscope.init value lastSample sr, .test, .test, .calling⟩

/-- The next step of the thread of the sampler. -/
def samplerStep (s : Owned κ) : Owned κ :=
  match s.samplerLoop with
  | .work => { s with scope := s.scope.samplerStep, samplerLoop := s.scope.afterSample }
  | pc => { s with samplerLoop := pc.next s.owner.samplerHalt }

/-- The next step of the thread of the flusher. -/
def flusherStep (s : Owned κ) : Owned κ :=
  match s.flusherLoop with
  | .work => { s with scope := s.scope.flusherStep, flusherLoop := s.scope.afterFlush }
  | pc => { s with flusherLoop := pc.next s.owner.flusherHalt }

/-- A step of a client, of a thread, or of the destructor. -/
inductive Step : Owned κ → Owned κ → Prop where
  | fillWindow (s : Oscilloscope κ) (p q : Pc) (name : String) (size : Nat) (callback : κ) :
      Step ⟨s, p, q, .calling⟩ ⟨s.fillWindow name size callback, p, q, .calling⟩
  | fillWindowOn (s : Oscilloscope κ) (p q : Pc) (name : String) (size : Nat)
      (trigger : DigitalVal) (callback : κ) :
      Step ⟨s, p, q, .calling⟩ ⟨s.fillWindowOn name size trigger callback, p, q, .calling⟩
  | write (s : Oscilloscope κ) (p q : Pc) (newValue : DigitalVal) :
      Step ⟨s, p, q, .calling⟩ ⟨s.write newValue, p, q, .calling⟩
  | sampler (s : Owned κ) : Step s s.samplerStep
  | flusher (s : Owned κ) : Step s s.flusherStep
  | haltFlusher (s : Oscilloscope κ) (p q : Pc) :
      Step ⟨s, p, q, .calling⟩ ⟨s, p, q, .joiningFlusher⟩
  | joinFlusher (s : Oscilloscope κ) (p : Pc) :
      Step ⟨s, p, .exited, .joiningFlusher⟩ ⟨s, p, .exited, .flusherJoined⟩
  | haltSampler (s : Oscilloscope κ) (p q : Pc) :
      Step ⟨s, p, q, .flusherJoined⟩ ⟨s, p, q, .joiningSampler⟩
  | joinSampler (s : Oscilloscope κ) (q : Pc) :
      Step ⟨s, .exited, q, .joiningSampler⟩ ⟨s, .exited, q, .destroyed⟩

abbrev Run : Owned κ → Owned κ → Prop := Relation.ReflTransGen Step

/-- The flusher is joined while it is in `flush`, and there is nothing to flush. -/
structure Stuck (s : Owned κ) : Prop where
  owner : s.owner = .joiningFlusher
  flusherLoop : s.flusherLoop = .work
  scope : s.scope.Dry

/-! ### The order of the destructors -/

variable {s s' : Owned κ}

/-- The loops end in the order in which they are joined, and the sampler is in the middle of
`sample` only when its loop is at work. -/
structure Ordered (s : Owned κ) : Prop where
  sampler : s.scope.sampler ≠ .start → s.samplerLoop = .work
  samplerLoop : s.samplerLoop = .exited → s.owner.samplerHalt = true
  flusherLoop : s.owner = .calling ∨ s.owner = .joiningFlusher ∨ s.flusherLoop = .exited
  destroyed : s.owner = .destroyed → s.samplerLoop = .exited

end Owned

theorem takeFilled_sampler {s : Oscilloscope κ} : s.takeFilled.sampler = s.sampler := by
  rw [takeFilled]
  cases s.filledWindows with
  | nil => rfl
  | cons req reqs => rfl

theorem flusherStep_sampler {s : Oscilloscope κ} : s.flusherStep.sampler = s.sampler := by
  rw [flusherStep]
  cases s.flusher with
  | start => exact takeFilled_sampler
  | waiting => rfl
  | woken => exact takeFilled_sampler
  | flushing toFlush =>
      cases toFlush with
      | nil => rfl
      | cons req toFlush => rfl

theorem notifyOne_sampler {s : Oscilloscope κ} : s.notifyOne.sampler = .start := by
  rw [notifyOne]
  cases s.flusher <;> rfl

/-- `sample` is over when its loop leaves it. -/
theorem samplerStep_sampler {s : Oscilloscope κ} (h : s.samplerStep.sampler ≠ .start) :
    s.afterSample = .work := by
  rw [afterSample]
  cases hs : s.sampler with
  | start => rfl
  | filled newlyFilled => rfl
  | notifying =>
      rw [samplerStep, hs] at h
      exact absurd notifyOne_sampler h

namespace Owned

variable {s s' : Owned κ}

/-- A loop that has exited does nothing any more. -/
theorem samplerStep_exited (h : s.samplerLoop = .exited) : s.samplerStep = s := by
  obtain ⟨scope, p, q, owner⟩ := s
  cases h
  rfl

theorem flusherStep_exited (h : s.flusherLoop = .exited) : s.flusherStep = s := by
  obtain ⟨scope, p, q, owner⟩ := s
  cases h
  rfl

theorem Ordered.samplerStep (h : Ordered s) : Ordered s.samplerStep := by
  have hdestroyed : s.owner = .destroyed → s.samplerStep.samplerLoop = .exited := by
    intro hd
    rw [samplerStep_exited (h.destroyed hd)]
    exact h.destroyed hd
  rw [Owned.samplerStep] at hdestroyed ⊢
  cases hp : s.samplerLoop with
  | work =>
      rw [hp] at hdestroyed
      refine ⟨samplerStep_sampler, fun hexited => ?_, h.flusherLoop, hdestroyed⟩
      dsimp only [afterSample] at hexited
      split at hexited
      · cases hexited
      · cases hexited
  | test =>
      rw [hp] at hdestroyed
      refine ⟨fun hs => ?_, fun hexited => ?_, h.flusherLoop, hdestroyed⟩
      · exact absurd (hp.symm.trans (h.sampler hs)) (by simp)
      · by_contra hhalt
        have hwork : Pc.next s.owner.samplerHalt .test = .work := by
          rw [Bool.eq_false_iff.2 hhalt]
          rfl
        exact absurd (hwork.symm.trans hexited) (by simp)
  | delay =>
      rw [hp] at hdestroyed
      refine ⟨fun hs => ?_, fun hexited => ?_, h.flusherLoop, hdestroyed⟩
      · exact absurd (hp.symm.trans (h.sampler hs)) (by simp)
      · cases hexited
  | exited =>
      refine ⟨fun hs => ?_, fun _ => h.samplerLoop hp, h.flusherLoop, fun _ => rfl⟩
      exact absurd (hp.symm.trans (h.sampler hs)) (by simp)

/-- A step of the flusher leaves the sampler and the owner where they are. -/
theorem flusherStep_frame : s.flusherStep.scope.sampler = s.scope.sampler ∧
    s.flusherStep.samplerLoop = s.samplerLoop ∧ s.flusherStep.owner = s.owner := by
  rw [flusherStep]
  cases s.flusherLoop with
  | test => exact ⟨rfl, rfl, rfl⟩
  | work => exact ⟨flusherStep_sampler, rfl, rfl⟩
  | delay => exact ⟨rfl, rfl, rfl⟩
  | exited => exact ⟨rfl, rfl, rfl⟩

theorem Ordered.flusherStep (h : Ordered s) : Ordered s.flusherStep := by
  obtain ⟨hsampler, hloop, howner⟩ := flusherStep_frame (s := s)
  refine ⟨?_, ?_, ?_, ?_⟩
  · rw [hsampler, hloop]
    exact h.sampler
  · rw [hloop, howner]
    exact h.samplerLoop
  · rw [howner]
    refine h.flusherLoop.imp_right (Or.imp_right fun hexited => ?_)
    rw [flusherStep_exited hexited]
    exact hexited
  · rw [howner, hloop]
    exact h.destroyed

/-- Past the join of the flusher. -/
theorem Ordered.flusherExited (h : Ordered s) (hcalling : s.owner ≠ .calling)
    (hjoining : s.owner ≠ .joiningFlusher) : s.flusherLoop = .exited :=
  (h.flusherLoop.resolve_left hcalling).resolve_left hjoining

theorem Ordered.step (h : Ordered s) (hstep : Step s s') : Ordered s' := by
  cases hstep with
  | fillWindow scope p q name size callback =>
      exact ⟨h.sampler, h.samplerLoop, h.flusherLoop, h.destroyed⟩
  | fillWindowOn scope p q name size trigger callback =>
      refine ⟨?_, h.samplerLoop, h.flusherLoop, h.destroyed⟩
      rw [(scope.fillWindowOn_frame name size trigger callback).2.2.1]
      exact h.sampler
  | write scope p q newValue => exact ⟨h.sampler, h.samplerLoop, h.flusherLoop, h.destroyed⟩
  | sampler => exact h.samplerStep
  | flusher => exact h.flusherStep
  | haltFlusher scope p q =>
      exact ⟨h.sampler, h.samplerLoop, .inr (.inl rfl), fun hd => by cases hd⟩
  | joinFlusher scope p =>
      exact ⟨h.sampler, h.samplerLoop, .inr (.inr rfl), fun hd => by cases hd⟩
  | haltSampler scope p q =>
      have hexited := h.flusherExited (by simp) (by simp)
      exact ⟨h.sampler, fun _ => rfl, .inr (.inr hexited), fun hd => by cases hd⟩
  | joinSampler scope q =>
      have hexited := h.flusherExited (by simp) (by simp)
      exact ⟨h.sampler, fun _ => rfl, .inr (.inr hexited), fun _ => rfl⟩

theorem Ordered.run (h : Ordered s) (hrun : Run s s') : Ordered s' :=
  reachable_invariant h (fun _ _ _ ht hstep => ht.step hstep) hrun

theorem ordered_init {value lastSample : DigitalVal} {sr : ℕ} :
    Ordered (init value lastSample sr : Owned κ) :=
  ⟨fun hs => absurd rfl hs, fun hexited => (by cases hexited), .inl rfl, fun hd => by cases hd⟩

end Owned

/-! ### Nothing to flush -/

section Dry

variable {s : Oscilloscope κ} {req : WindowReq κ}

theorem takeSample_value : s.takeSample.value = s.value ∧ s.takeSample.lastSample = s.value := by
  rw [takeSample_eq, activate]
  split_ifs <;> exact ⟨rfl, rfl⟩

/-- The next sample finds what this one has left. -/
theorem takeSample_nextSampled : s.takeSample.nextSampled =
    (s.nextSampled.map (·.push s.value)).filter fun req => ¬ req.data.length = req.numSamples := by
  obtain ⟨hvalue, hlast⟩ := takeSample_value (s := s)
  rw [nextSampled, hvalue, hlast, if_pos rfl, List.append_nil, takeSample_requestedWindows,
    activate_requestedWindows]
  rfl

theorem takeSample_full : s.takeSample.newlyFilled =
    (s.nextSampled.map (·.push s.value)).filter fun req => req.data.length = req.numSamples := by
  rw [takeSample_newlyFilled, activate_requestedWindows]
  rfl

theorem notifyOne_nextSampled : s.notifyOne.nextSampled = s.nextSampled := by
  rw [notifyOne]
  cases s.flusher <;> rfl

theorem push_length {v : DigitalVal} : (req.push v).data.length = req.data.length + 1 :=
  List.length_append

/-- A request that has its samples already is not full after one more. -/
theorem Dry.pushed (h : Dry s) {req' : WindowReq κ}
    (hmem : req' ∈ s.nextSampled.map (·.push s.value)) :
    req'.numSamples < req'.data.length := by
  obtain ⟨req, hreq, rfl⟩ := List.mem_map.1 hmem
  rw [push_length]
  exact Nat.lt_succ_of_le (h.nextSampled req hreq)

theorem Dry.samplerStep (h : Dry s) : Dry s.samplerStep := by
  rw [Oscilloscope.samplerStep]
  cases hs : s.sampler with
  | start =>
      refine ⟨?_, takeSample_filledWindows.trans h.filledWindows, ?_, fun req hreq => ?_⟩
      · rw [takeSample_flusher]
        exact h.flusher
      · rw [takeSample_full, List.filter_eq_nil_iff]
        intro req hreq hfull
        exact absurd (of_decide_eq_true hfull) (Nat.ne_of_gt (h.pushed hreq))
      · rw [takeSample_nextSampled] at hreq
        exact Nat.le_of_lt (h.pushed (List.mem_filter.1 hreq).1)
  | filled newlyFilled =>
      have hnone : newlyFilled = [] := by
        have hfilled := h.newlyFilled
        rwa [Oscilloscope.newlyFilled, hs] at hfilled
      refine ⟨h.flusher, ?_, rfl, h.nextSampled⟩
      exact List.append_eq_nil_iff.2 ⟨h.filledWindows, hnone⟩
  | notifying =>
      obtain ⟨-, -, hfilled, hflush, hnewly⟩ := notifyOne_frame (s := s) (w := .high)
      refine ⟨?_, hfilled.trans h.filledWindows, hnewly, ?_⟩
      · rw [notifyOne]
        cases hf : s.flusher with
        | start => exact fun toFlush hflushing => by cases hflushing
        | waiting => exact fun toFlush hflushing => by cases hflushing
        | woken => exact fun toFlush hflushing => by cases hflushing
        | flushing toFlush => exact absurd hf (h.flusher toFlush)
      · intro req hreq
        rw [notifyOne_nextSampled] at hreq
        exact h.nextSampled req hreq

/-- The flusher goes on waiting. -/
theorem Dry.flusherStep (h : Dry s) : Dry s.flusherStep := by
  have htake : Dry s.takeFilled := by
    rw [takeFilled, h.filledWindows]
    refine ⟨fun toFlush hflushing => (by cases hflushing), rfl, h.newlyFilled, h.nextSampled⟩
  rw [Oscilloscope.flusherStep]
  cases hs : s.flusher with
  | start => exact htake
  | waiting =>
      exact ⟨fun toFlush hflushing => (by cases hflushing), h.filledWindows, h.newlyFilled,
        h.nextSampled⟩
  | woken => exact htake
  | flushing toFlush => exact absurd hs (h.flusher toFlush)

theorem Dry.afterFlush (h : Dry s) : s.afterFlush = .work := by
  rw [Oscilloscope.afterFlush]
  cases hs : s.flusher with
  | start => rfl
  | waiting => rfl
  | woken => rfl
  | flushing toFlush => exact absurd hs (h.flusher toFlush)

end Dry

namespace Owned

variable {s s' : Owned κ}

/-- Nothing that is left to happen ends the wait. -/
theorem Stuck.step (h : Stuck s) (hstep : Step s s') : Stuck s' := by
  obtain ⟨howner, hloop, hdry⟩ := h
  cases hstep with
  | fillWindow scope p q name size callback => cases howner
  | fillWindowOn scope p q name size trigger callback => cases howner
  | write scope p q newValue => cases howner
  | sampler =>
      rw [samplerStep]
      cases s.samplerLoop with
      | test => exact ⟨howner, hloop, hdry⟩
      | work => exact ⟨howner, hloop, hdry.samplerStep⟩
      | delay => exact ⟨howner, hloop, hdry⟩
      | exited => exact ⟨howner, hloop, hdry⟩
  | flusher =>
      rw [flusherStep, hloop]
      exact ⟨howner, hdry.afterFlush, hdry.flusherStep⟩
  | haltFlusher scope p q => cases howner
  | joinFlusher scope p => cases hloop
  | haltSampler scope p q => cases howner
  | joinSampler scope q => cases howner

theorem Stuck.run (h : Stuck s) (hrun : Run s s') : Stuck s' :=
  reachable_invariant h (fun _ _ _ ht hstep => ht.step hstep) hrun

/-! ### Something to flush -/

/-- The flusher can still leave its loop. -/
abbrev CanFlush : Owned κ → Prop :=
  CanReach Step fun s => s.flusherLoop = .exited ∧ s.owner = .joiningFlusher

section Flush

variable {s : Oscilloscope κ} {p : Pc}

theorem canFlush_of_test : CanFlush ⟨s, p, .test, .joiningFlusher⟩ :=
  .of_step (.flusher _) (.here ⟨rfl, rfl⟩)

theorem canFlush_of_delay : CanFlush ⟨s, p, .delay, .joiningFlusher⟩ :=
  .of_step (.flusher _) canFlush_of_test

/-- One step of `flush` on the way. -/
theorem canFlush_of_flusherStep (hwork : s.afterFlush = .work)
    (h : CanFlush ⟨s.flusherStep, p, .work, .joiningFlusher⟩) :
    CanFlush ⟨s, p, .work, .joiningFlusher⟩ := by
  refine .of_step (.flusher _) ?_
  rw [flusherStep]
  dsimp only
  rw [hwork]
  exact h

/-- The callbacks are called, and then `flush` is over. -/
theorem canFlush_of_flushing {toFlush : List (WindowReq κ)} (hs : s.flusher = .flushing toFlush) :
    CanFlush ⟨s, p, .work, .joiningFlusher⟩ := by
  induction toFlush generalizing s with
  | nil =>
      have hover : s.afterFlush = .delay := by rw [afterFlush, hs]
      refine .of_step (.flusher _) ?_
      rw [flusherStep]
      dsimp only
      rw [hover]
      exact canFlush_of_delay
  | cons req toFlush ih =>
      refine canFlush_of_flusherStep (by rw [afterFlush, hs]) (ih ?_)
      rw [Oscilloscope.flusherStep, hs]

/-- With a window on the queue the flusher leaves the wait. -/
theorem canFlush_of_queued (h : s.filledWindows ≠ []) :
    CanFlush ⟨s, p, .work, .joiningFlusher⟩ := by
  have htake : ∀ s : Oscilloscope κ, s.filledWindows ≠ [] →
      s.takeFilled.flusher = .flushing s.filledWindows := by
    intro s h
    rw [takeFilled]
    cases hq : s.filledWindows with
    | nil => exact absurd hq h
    | cons req reqs => rfl
  have hwoken : ∀ s : Oscilloscope κ, s.filledWindows ≠ [] → s.flusher = .woken →
      CanFlush ⟨s, p, .work, .joiningFlusher⟩ := by
    intro s h hs
    refine canFlush_of_flusherStep (by rw [afterFlush, hs]) ?_
    rw [Oscilloscope.flusherStep, hs]
    exact canFlush_of_flushing (htake s h)
  cases hs : s.flusher with
  | start =>
      refine canFlush_of_flusherStep (by rw [afterFlush, hs]) ?_
      rw [Oscilloscope.flusherStep, hs]
      exact canFlush_of_flushing (htake s h)
  | waiting =>
      refine canFlush_of_flusherStep (by rw [afterFlush, hs]) ?_
      rw [Oscilloscope.flusherStep, hs]
      exact hwoken _ h rfl
  | woken => exact hwoken s h hs
  | flushing toFlush => exact canFlush_of_flushing hs

/-- One step of `sample` on the way. -/
theorem canFlush_of_samplerStep {q : Pc}
    (h : CanFlush ⟨s.samplerStep, s.afterSample, q, .joiningFlusher⟩) :
    CanFlush ⟨s, .work, q, .joiningFlusher⟩ := .of_step (.sampler _) h

/-- The sampler is about to queue a window. -/
theorem canFlush_of_newlyFilled (h : s.newlyFilled ≠ []) :
    CanFlush ⟨s, .work, .work, .joiningFlusher⟩ := by
  refine canFlush_of_samplerStep (canFlush_of_queued ?_)
  rw [newlyFilled] at h
  rw [Oscilloscope.samplerStep]
  cases hs : s.sampler with
  | start =>
      rw [hs] at h
      exact absurd rfl h
  | filled newlyFilled =>
      rw [hs] at h
      exact fun hnil => h (List.append_eq_nil_iff.1 hnil).2
  | notifying =>
      rw [hs] at h
      exact absurd rfl h

/-- The sampler comes round to the start of `sample`, and the next sample goes to the same
requests. -/
theorem canFlush_of_start {reqs : List (WindowReq κ)}
    (hgo : ∀ s : Oscilloscope κ, s.sampler = .start → s.nextSampled = reqs →
      CanFlush ⟨s, .work, .work, .joiningFlusher⟩)
    (hs : s.nextSampled = reqs) (hwork : s.sampler ≠ .start → p = .work) (hp : p ≠ .exited) :
    CanFlush ⟨s, p, .work, .joiningFlusher⟩ := by
  have htest : ∀ s : Oscilloscope κ, s.sampler = .start → s.nextSampled = reqs →
      CanFlush ⟨s, .test, .work, .joiningFlusher⟩ :=
    fun s hstart hs => .of_step (.sampler _) (hgo s hstart hs)
  have hdelay : ∀ s : Oscilloscope κ, s.sampler = .start → s.nextSampled = reqs →
      CanFlush ⟨s, .delay, .work, .joiningFlusher⟩ :=
    fun s hstart hs => .of_step (.sampler _) (htest s hstart hs)
  have hnotifying : ∀ s : Oscilloscope κ, s.sampler = .notifying → s.nextSampled = reqs →
      CanFlush ⟨s, .work, .work, .joiningFlusher⟩ := by
    intro s hnotify hs
    refine canFlush_of_samplerStep ?_
    rw [afterSample, Oscilloscope.samplerStep, hnotify]
    exact hdelay _ notifyOne_sampler (notifyOne_nextSampled.trans hs)
  cases p with
  | test => exact htest s (by_contra fun hn => absurd (hwork hn) (by simp)) hs
  | delay => exact hdelay s (by_contra fun hn => absurd (hwork hn) (by simp)) hs
  | exited => exact absurd rfl hp
  | work =>
      cases hsampler : s.sampler with
      | start => exact hgo s hsampler hs
      | filled newlyFilled =>
          refine canFlush_of_samplerStep ?_
          rw [afterSample, Oscilloscope.samplerStep, hsampler]
          exact hnotifying _ rfl hs
      | notifying => exact hnotifying s hsampler hs

/-- A window that the samples to come will fill, after so many more, will be flushed. -/
theorem canFlush_of_fillable (n : ℕ) {req : WindowReq κ} (hreq : req ∈ s.nextSampled)
    (hlen : req.numSamples = req.data.length + 1 + n)
    (hwork : s.sampler ≠ .start → p = .work) (hp : p ≠ .exited) :
    CanFlush ⟨s, p, .work, .joiningFlusher⟩ := by
  induction n generalizing s p req with
  | zero =>
      refine canFlush_of_start (fun t hstart ht => ?_) rfl hwork hp
      refine canFlush_of_samplerStep ?_
      rw [afterSample, Oscilloscope.samplerStep, hstart]
      refine canFlush_of_newlyFilled (List.ne_nil_of_mem (a := req.push t.value) ?_)
      rw [takeSample_full, ht, List.mem_filter]
      exact ⟨List.mem_map_of_mem hreq, decide_eq_true (push_length.trans hlen.symm)⟩
  | succ n ih =>
      refine canFlush_of_start (fun t hstart ht => ?_) rfl hwork hp
      refine canFlush_of_samplerStep ?_
      rw [afterSample, Oscilloscope.samplerStep, hstart]
      -- the window has one sample more, and is not full yet
      have hpushed : (req.push t.value).numSamples =
          (req.push t.value).data.length + 1 + n := by
        rw [push_length]
        exact hlen.trans (by omega)
      refine ih ?_ hpushed (fun _ => rfl) (by simp)
      rw [takeSample_nextSampled, ht, List.mem_filter]
      refine ⟨List.mem_map_of_mem hreq, decide_eq_true fun hfull => ?_⟩
      omega

end Flush

/-- The destructor of the flusher returns where it is not stuck. -/
theorem canFlush_of_not_stuck (h : Ordered s) (howner : s.owner = .joiningFlusher)
    (hstuck : ¬ Stuck s) : CanFlush s := by
  obtain ⟨scope, p, q, owner⟩ := s
  cases howner
  cases q with
  | test => exact canFlush_of_test
  | delay => exact canFlush_of_delay
  | exited => exact .here ⟨rfl, rfl⟩
  | work =>
      have hp : p ≠ .exited := by
        intro hexited
        have hhalt := h.samplerLoop hexited
        cases hhalt
      by_contra hno
      refine hstuck ⟨rfl, rfl, fun toFlush hs => ?_, ?_, ?_, fun req hreq => ?_⟩
      · exact hno (canFlush_of_flushing hs)
      · by_contra hqueued
        exact hno (canFlush_of_queued hqueued)
      · by_contra hfilled
        have hwork : p = .work := by
          refine h.sampler fun hstart => hfilled ?_
          dsimp only at hstart
          rw [newlyFilled, hstart]
        cases hwork
        exact hno (canFlush_of_newlyFilled hfilled)
      · by_contra hlt
        obtain ⟨n, hn⟩ := Nat.exists_eq_add_of_lt (Nat.not_le.1 hlt)
        exact hno (canFlush_of_fillable n hreq (by omega) h.sampler hp)

/-! ### The destructor of the sampler -/

/-- Both threads have left their loops and the destructor has returned. -/
abbrev CanReturn : Owned κ → Prop :=
  CanReach Step fun s => s.samplerLoop = .exited ∧ s.flusherLoop = .exited ∧ s.owner = .destroyed

section Sample

variable {scope : Oscilloscope κ} {p : Pc}

/-- `sample` does not wait, so its loop comes to the test of `halt`. -/
theorem canReturn_of_joiningSampler : CanReturn ⟨scope, p, .exited, .joiningSampler⟩ := by
  have hexited : ∀ s : Oscilloscope κ, CanReturn ⟨s, .exited, .exited, .joiningSampler⟩ :=
    fun s => .of_step (.joinSampler s .exited) (.here ⟨rfl, rfl, rfl⟩)
  have htest : ∀ s : Oscilloscope κ, CanReturn ⟨s, .test, .exited, .joiningSampler⟩ :=
    fun s => .of_step (.sampler _) (hexited s)
  have hdelay : ∀ s : Oscilloscope κ, CanReturn ⟨s, .delay, .exited, .joiningSampler⟩ :=
    fun s => .of_step (.sampler _) (htest s)
  have hstep : ∀ s : Oscilloscope κ,
      CanReturn ⟨s.samplerStep, s.afterSample, .exited, .joiningSampler⟩ →
      CanReturn ⟨s, .work, .exited, .joiningSampler⟩ := fun s => .of_step (.sampler _)
  have hnotifying : ∀ s : Oscilloscope κ, s.sampler = .notifying →
      CanReturn ⟨s, .work, .exited, .joiningSampler⟩ := by
    intro s hs
    refine hstep s ?_
    rw [afterSample, hs]
    exact hdelay _
  have hfilled : ∀ (s : Oscilloscope κ) newlyFilled, s.sampler = .filled newlyFilled →
      CanReturn ⟨s, .work, .exited, .joiningSampler⟩ := by
    intro s newlyFilled hs
    refine hstep s ?_
    rw [afterSample, Oscilloscope.samplerStep, hs]
    exact hnotifying _ rfl
  cases p with
  | test => exact htest scope
  | delay => exact hdelay scope
  | exited => exact hexited scope
  | work =>
      cases hs : scope.sampler with
      | start =>
          refine hstep scope ?_
          rw [afterSample, Oscilloscope.samplerStep, hs]
          exact hfilled _ _ rfl
      | filled newlyFilled => exact hfilled scope newlyFilled hs
      | notifying => exact hnotifying scope hs

theorem canReturn_of_flusherJoined : CanReturn ⟨scope, p, .exited, .flusherJoined⟩ :=
  .of_step (.haltSampler scope p .exited) canReturn_of_joiningSampler

end Sample

/-- **When the destructor returns.**  In a state that a run has come to and in which the
destruction has begun, some continuation leads both threads out of their loops and the destructor
to its end, unless the flusher is joined in the wait of `flush` and there is nothing to flush: its
queue is empty, no window is about to be queued, and the next sample goes to no request that is
short of samples. -/
theorem scope_destroyed_iff {value lastSample : DigitalVal} {sr : ℕ}
    (h : Run (init value lastSample sr) s) (howner : s.owner ≠ .calling) :
    (∃ s', Run s s' ∧ s'.samplerLoop = .exited ∧ s'.flusherLoop = .exited ∧
      s'.owner = .destroyed) ↔ ¬ Stuck s := by
  have hordered := ordered_init.run h
  refine ⟨?_, fun hstuck => ?_⟩
  · rintro ⟨s', hrun, -, -, hdestroyed⟩ hstuck
    rw [(hstuck.run hrun).owner] at hdestroyed
    cases hdestroyed
  · obtain ⟨scope, p, q, owner⟩ := s
    cases owner with
    | calling => exact absurd rfl howner
    | joiningFlusher =>
        refine (canFlush_of_not_stuck hordered rfl hstuck).trans ?_
        rintro ⟨scope', p', q', owner'⟩ - ⟨hexited, hjoining⟩
        cases hexited
        cases hjoining
        exact .of_step (.joinFlusher scope' p') canReturn_of_flusherJoined
    | flusherJoined =>
        cases hordered.flusherExited (by simp) (by simp)
        exact canReturn_of_flusherJoined
    | joiningSampler =>
        cases hordered.flusherExited (by simp) (by simp)
        exact canReturn_of_joiningSampler
    | destroyed =>
        have hexited := hordered.flusherExited (by simp) (by simp)
        exact CanReach.here ⟨hordered.destroyed rfl, hexited, rfl⟩

/-- A new oscilloscope whose flusher has come to its wait, in the destructor. -/
def unusedScope : Owned ℕ :=
  ⟨(Oscilloscope.init .low .low 1000000).flusherStep, .test, .work, .joiningFlusher⟩

theorem unusedScope_run : Run (init .low .low 1000000) unusedScope :=
  .tail (.tail (.tail .refl (.flusher _)) (.flusher _)) (.haltFlusher _ _ _)

theorem unusedScope_stuck : Stuck unusedScope :=
  ⟨rfl, rfl, fun toFlush hflushing => (by cases hflushing), rfl, rfl,
    fun req hreq => absurd hreq List.not_mem_nil⟩

/-- The same, with a window requested that the sampler has not filled. -/
def requestedScope : Owned ℕ :=
  ⟨((Oscilloscope.init .low .low 1000000).fillWindow "window" 1 0).flusherStep, .test, .work,
    .joiningFlusher⟩

theorem requestedScope_run : Run (init .low .low 1000000) requestedScope :=
  .tail (.tail (.tail (.tail .refl (.fillWindow _ _ _ "window" 1 0)) (.flusher _)) (.flusher _))
    (.haltFlusher _ _ _)

/-- The flusher waits, and the window that is outstanding frees it. -/
theorem requestedScope_destroyed : requestedScope.scope.flusher = .waiting ∧
    ∃ s' : Owned ℕ, Run requestedScope s' ∧ s'.samplerLoop = .exited ∧
      s'.flusherLoop = .exited ∧ s'.owner = .destroyed := by
  refine ⟨rfl, (scope_destroyed_iff requestedScope_run fun h => by cases h).2 fun hstuck => ?_⟩
  have hfull := hstuck.scope.nextSampled ⟨"window", [], 1, 0⟩ (.head [])
  exact absurd hfull (Nat.not_succ_le_zero 0)

/-- **A destructor that does not return.**  No window has ever been requested. -/
theorem unusedScope_blocks : ¬ ∀ s : Owned ℕ, Run (init .low .low 1000000) s →
    s.owner ≠ .calling → ∃ s', Run s s' ∧ s'.samplerLoop = .exited ∧ s'.flusherLoop = .exited ∧
      s'.owner = .destroyed := by
  intro h
  have hbegun : unusedScope.owner ≠ .calling := fun howner => by cases howner
  obtain ⟨s', hrun, -, -, hdestroyed⟩ := h unusedScope unusedScope_run hbegun
  rw [(unusedScope_stuck.run hrun).owner] at hdestroyed
  cases hdestroyed

end Owned

end DrivingSim.Oscilloscope
