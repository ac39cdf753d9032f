import DrivingSim.Hardware.Oscilloscope
import DrivingSim.Support.Reachable

/-!
# Hardware — no wake-up is lost

The sampler notifies the flusher after it has released the lock of the queue.  In between, the
flusher may block with windows on the queue, but then the notification is still to come; at all
other times a flusher that blocks has an empty queue (`Awake`).  It has found the queue empty in
the step in which it has blocked, and what the sampler has put there since comes before a
notification.  The flusher leaves the wait only with all that is on the queue (`leaves_wait`).
-/

namespace DrivingSim.Oscilloscope

variable {κ : Type} {s s' : Oscilloscope κ}

/-- A flusher that blocks has nothing to flush, or a notification is to come. -/
def Awake (s : Oscilloscope κ) : Prop :=
  s.flusher = .waiting → s.filledWindows = [] ∨ s.sampler = .notifying

/-- After a notification the flusher is not blocked. -/
theorem notifyOne_awake : s.notifyOne.flusher ≠ .waiting := by
  rw [notifyOne]
  cases h : s.flusher with
  | start => simp
  | waiting => simp
  | woken => simp
  | flushing toFlush => simp

namespace Awake

theorem samplerStep (h : Awake s) : Awake s.samplerStep := by
  rw [Oscilloscope.samplerStep]
  cases hs : s.sampler with
  | start =>
      intro hwaiting
      rw [takeSample_flusher] at hwaiting
      -- the sampler has notified since it has last queued a window
      rcases h hwaiting with hempty | hnotifying
      · exact .inl (takeSample_filledWindows.trans hempty)
      · rw [hs] at hnotifying
        cases hnotifying
  | filled newlyFilled => exact fun _ => .inr rfl
  | notifying => exact fun hwaiting => absurd hwaiting notifyOne_awake

theorem flusherStep : Awake s.flusherStep := by
  rw [Oscilloscope.flusherStep]
  have htake : Awake s.takeFilled := fun _ => .inl (takeFilled_frame (w := .high)).2.2.1
  cases s.flusher with
  | start => exact htake
  | waiting =>
      intro hwaiting
      cases hwaiting
  | woken => exact htake
  | flushing toFlush =>
      cases toFlush with
      | nil =>
          intro hwaiting
          cases hwaiting
      | cons req toFlush =>
          intro hwaiting
          cases hwaiting

theorem step (h : Awake s) (hstep : Step s s') : Awake s' := by
  cases hstep with
  | fillWindow name size callback => exact h
  | fillWindowOn name size trigger callback =>
      obtain ⟨-, hfilled, hsampler, hflusher⟩ := s.fillWindowOn_frame name size trigger callback
      rw [Awake, hfilled, hsampler, hflusher]
      exact h
  | write newValue => exact h
  | sampler => exact h.samplerStep
  | flusher => exact flusherStep

theorem of_run {value lastSample : DigitalVal} {sr : ℕ}
    (h : Relation.ReflTransGen Step (init value lastSample sr) s) : Awake s :=
  reachable_invariant (fun _ => .inl rfl) (fun _ _ _ ht hstep => ht.step hstep) h

end Awake

/-- The sampler does not take the flusher out of the wait: it wakes it up at most. -/
theorem samplerStep_flusher :
    s.samplerStep.flusher = s.flusher ∨ s.samplerStep.flusher = .woken := by
  rw [samplerStep]
  cases s.sampler with
  | start => exact .inl takeSample_flusher
  | filled newlyFilled => exact .inl rfl
  | notifying =>
      dsimp only
      rw [notifyOne]
      cases s.flusher with
      | start => exact .inl rfl
      | waiting => exact .inr rfl
      | woken => exact .inl rfl
      | flushing toFlush => exact .inl rfl

theorem takeFilled_flushing {q : List (WindowReq κ)} (h : s.takeFilled.flusher = .flushing q) :
    q = s.filledWindows ∧ s.takeFilled.filledWindows = [] := by
  obtain ⟨-, -, hfilled, hall, -⟩ := takeFilled_frame (s := s) (w := .high)
  rw [toFlush, h] at hall
  exact ⟨hall, hfilled⟩

/-- Who comes out of the wait is the flusher, with all that is on the queue. -/
theorem leaves_wait {q : List (WindowReq κ)} (hstep : Step s s')
    (hin : ∀ q, s.flusher ≠ .flushing q) (hout : s'.flusher = .flushing q) :
    q = s.filledWindows ∧ s'.filledWindows = [] := by
  cases hstep with
  | fillWindow name size callback => exact absurd hout (hin q)
  | fillWindowOn name size trigger callback =>
      rw [(s.fillWindowOn_frame name size trigger callback).2.2.2] at hout
      exact absurd hout (hin q)
  | write newValue => exact absurd hout (hin q)
  | sampler =>
      rcases samplerStep_flusher (s := s) with hsame | hwoken
      · exact absurd (hsame.symm.trans hout) (hin q)
      · rw [hwoken] at hout
        cases hout
  | flusher =>
      rw [flusherStep] at hout ⊢
      cases hs : s.flusher with
      | start => exact takeFilled_flushing (by rwa [hs] at hout)
      | waiting =>
          rw [hs] at hout
          cases hout
      | woken => exact takeFilled_flushing (by rwa [hs] at hout)
      | flushing toFlush => exact absurd hs (hin toFlush)

/-- **No wake-up is lost.**  A flusher that blocks, with no wake-up pending, has an empty queue or
the sampler has yet to notify it; and it leaves the wait with all windows of the queue, in their
order, and the queue is empty. -/
theorem no_lost_wakeup {value lastSample : DigitalVal} {sr : ℕ}
    (h : Relation.ReflTransGen Step (init value lastSample sr) s) :
    (s.flusher = .waiting → s.filledWindows = [] ∨ s.sampler = .notifying) ∧
    ∀ s' q, Step s s' → (∀ q, s.flusher ≠ .flushing q) → s'.flusher = .flushing q →
      q = s.filledWindows ∧ s'.filledWindows = [] :=
  ⟨Awake.of_run h, fun _ _ => leaves_wait⟩

/-- A window has been queued, and the flusher has blocked before it and has not been notified. -/
def queuedUnnotified : Oscilloscope ℕ :=
  ((init .low .low 1000000).flusherStep.fillWindow "window" 1 0).samplerStep.samplerStep

theorem queuedUnnotified_run :
    Relation.ReflTransGen Step (init .low .low 1000000) queuedUnnotified :=
  .tail (.tail (.tail (.tail .refl (.flusher _)) (.fillWindow _ "window" 1 0)) (.sampler _))
    (.sampler _)

theorem queuedUnnotified_notifying : queuedUnnotified.flusher = .waiting ∧
    queuedUnnotified.filledWindows ≠ [] ∧ queuedUnnotified.sampler = .notifying := by
  have hqueued : queuedUnnotified.filledWindows ≠ [] := List.cons_ne_nil _ _
  exact ⟨rfl, hqueued, ((no_lost_wakeup queuedUnnotified_run).1 rfl).resolve_left hqueued⟩

end DrivingSim.Oscilloscope
