import DrivingSim.System.LoopThread
import DrivingSim.Support.Reachable

/-!
# System — the life cycle of a thread

An owner starts a thread, then joins it or detaches it or does neither, and then destroys it.

Once `join` or the destructor has returned, the loop has come to its end and `work` is not called
any more (`Owned.quiet`): `std::thread::join` returns only after the loop, and nobody starts the
thread again.  But the destructor calls `join` whatever has been called before.  A thread that
has been joined or detached is not joinable, so its destructor throws: the life cycles that are
safe are those without either call (`Owned.lifeCycle_safe_iff`).
-/

namespace DrivingSim.LoopThread

/-- The calls of an owner: `start`, at most one of `join` and `detach`, and the destruction. -/
inductive LifeCycle : List Call → Prop where
  | plain : LifeCycle [.start, .destroy]
  | joined : LifeCycle [.start, .join, .destroy]
  | detached : LifeCycle [.start, .detach, .destroy]

/-- The thread is started first and only once. -/
theorem LifeCycle.start_first {calls : List Call} (h : LifeCycle calls) :
    ∃ rest, calls = .start :: rest ∧ .start ∉ rest := by
  cases h with
  | plain => exact ⟨_, rfl, by simp⟩
  | joined => exact ⟨_, rfl, by simp⟩
  | detached => exact ⟨_, rfl, by simp⟩

namespace Owned

variable {s s' : Owned}

/-- `std::thread::join` is called only while the thread is joinable. -/
def Safe (s : Owned) : Prop := ∀ call, s.owner = .joining call → s.thread.joinable = true

/-- Once `join` or the destructor has returned on a thread that was not detached, `work` is never
called again. -/
def Quiet (s : Owned) : Prop :=
  (.join ∈ s.done ∨ .destroy ∈ s.done) → .detach ∉ s.done →
    ∀ s', Run s s' → s'.thread.calls = s.thread.calls

/-! ### After a join -/

/-- The thread will not be started again, and after a join its loop has exited. -/
structure Ended (s : Owned) : Prop where
  todo : .start ∉ s.todo
  main : .join ∈ s.done ∨ .destroy ∈ s.done → s.thread.main = some .exited

/-- Which calls have joined, after one more. -/
theorem joins_append {call : Call} {done : List Call} (h : call ≠ .join ∧ call ≠ .destroy) :
    (.join ∈ done ++ [call] ∨ .destroy ∈ done ++ [call]) ↔ (.join ∈ done ∨ .destroy ∈ done) := by
  simp only [List.mem_append, List.mem_singleton, h.1.symm, h.2.symm, or_false]

theorem Ended.step (h : Ended s) (hstep : Step s s') : Ended s' := by
  cases hstep with
  | start t todo done hj => exact absurd List.mem_cons_self h.todo
  | detach t todo done hj =>
      refine ⟨fun hmem => h.todo (List.mem_cons_of_mem _ hmem), fun hjoins => ?_⟩
      exact h.main ((joins_append (by simp)).1 hjoins)
  | requestHalt t call todo done hcall =>
      exact ⟨fun hmem => h.todo (List.mem_cons_of_mem _ hmem), h.main⟩
  | join t call todo done hj hmain => exact ⟨h.todo, fun _ => hmain⟩
  | throw t call todo done hj => exact ⟨h.todo, h.main⟩
  | main t owner todo done ho =>
      refine ⟨h.todo, fun hjoins => ?_⟩
      have hexited := h.main hjoins
      rw [mainStep_of_exited hexited]
      exact hexited

/-- The thread has not been started yet, or it will not be started again. -/
theorem start_or_ended {rest : List Call} (hrest : .start ∉ rest)
    (h : Run (init (.start :: rest)) s) : s = init (.start :: rest) ∨ Ended s := by
  refine reachable_invariant (P := fun s => s = init (.start :: rest) ∨ Ended s)
    (.inl rfl) (fun t t' _ ht hstep => ?_) h
  rcases ht with rfl | hended
  · refine Or.symm ?_
    cases hstep with
    | start t todo done hj => exact .inl ⟨hrest, fun hjoins => by simp at hjoins⟩
    | requestHalt t call todo done hcall => exact absurd hcall (by simp)
    | main t owner todo done ho => exact .inr rfl
  · exact .inr (hended.step hstep)

/-- A loop that has exited calls `work` no more. -/
theorem calls_of_ended (h : Ended s) (hjoins : .join ∈ s.done ∨ .destroy ∈ s.done)
    (hrun : Run s s') : s'.thread.calls = s.thread.calls := by
  suffices hall : Ended s' ∧ (.join ∈ s'.done ∨ .destroy ∈ s'.done) ∧
      s'.thread.calls = s.thread.calls from hall.2.2
  refine reachable_invariant (P := fun u => Ended u ∧ (.join ∈ u.done ∨ .destroy ∈ u.done) ∧
    u.thread.calls = s.thread.calls) ⟨h, hjoins, rfl⟩ (fun u u' _ hu hstep => ?_) hrun
  obtain ⟨hended, hj, hcalls⟩ := hu
  refine ⟨hended.step hstep, ?_⟩
  have hmore : ∀ {done : List Call} {call : Call}, .join ∈ done ∨ .destroy ∈ done →
      .join ∈ done ++ [call] ∨ .destroy ∈ done ++ [call] :=
    fun hdone => hdone.imp (List.mem_append_left _) (List.mem_append_left _)
  cases hstep with
  | start t todo done hj => exact absurd List.mem_cons_self hended.todo
  | detach t todo done hj' => exact ⟨hmore hj, hcalls⟩
  | requestHalt t call todo done hcall => exact ⟨hj, hcalls⟩
  | join t call todo done hj' hmain => exact ⟨hmore hj, hcalls⟩
  | throw t call todo done hj' => exact ⟨hj, hcalls⟩
  | main t owner todo done ho =>
      refine ⟨hj, ?_⟩
      rw [mainStep_of_exited (hended.main hj)]
      exact hcalls

/-- After `join` and after the destructor, `work` is not called. -/
theorem quiet {calls : List Call} (hcalls : LifeCycle calls) (h : Run (init calls) s) :
    s.Quiet := by
  obtain ⟨rest, rfl, hrest⟩ := hcalls.start_first
  intro hjoins _ s' hrun
  rcases start_or_ended hrest h with rfl | hended
  · simp [init] at hjoins
  · exact calls_of_ended hended hjoins hrun

/-! ### The destructor -/

/-- Where the life of a thread is that is neither joined nor detached by its owner. -/
inductive Plain : Owned → Prop where
  | new (t : LoopThread) : Plain ⟨t, .calling, [.start, .destroy], []⟩
  | started (t : LoopThread) (h : t.joinable = true) : Plain ⟨t, .calling, [.destroy], [.start]⟩
  | destroying (t : LoopThread) (h : t.joinable = true) :
      Plain ⟨t, .joining .destroy, [], [.start]⟩
  | destroyed (t : LoopThread) : Plain ⟨t, .calling, [], [.start, .destroy]⟩

theorem Plain.step (h : Plain s) (hstep : Step s s') : Plain s' := by
  cases h with
  | new t =>
      cases hstep with
      | start t todo done hj => exact .started _ rfl
      | requestHalt t call todo done hcall => exact absurd hcall (by simp)
      | main t owner todo done ho => exact .new _
  | started t h =>
      cases hstep with
      | requestHalt t call todo done hcall => exact .destroying _ h
      | main t owner todo done ho => exact .started _ (mainStep_joinable.trans h)
  | destroying t h =>
      cases hstep with
      | join t call todo done hj hmain => exact .destroyed _
      | throw t call todo done hj =>
          rw [h] at hj
          cases hj
      | main t owner todo done ho => exact .destroying _ (mainStep_joinable.trans h)
  | destroyed t =>
      cases hstep with
      | main t owner todo done ho => exact .destroyed _

theorem Plain.safe (h : Plain s) : s.Safe := by
  intro call hjoining
  cases h with
  | new t => cases hjoining
  | started t h => cases hjoining
  | destroying t h => exact h
  | destroyed t => cases hjoining

/-- The destructor of a thread that has been joined. -/
def joinedTwice : Owned :=
  ⟨⟨true, false, some .exited, 0⟩, .joining .destroy, [], [.start, .join]⟩

theorem joinedTwice_run : Run (init [.start, .join, .destroy]) joinedTwice :=
  .tail (.tail (.tail (.tail (.tail .refl
    (.start new [.join, .destroy] [] rfl))
    (.requestHalt _ .join [.destroy] [.start] (.inl rfl)))
    (.main _ _ _ _ (fun h => by cases h)))
    (.join _ _ _ _ rfl rfl))
    (.requestHalt _ .destroy [] [.start, .join] (.inr rfl))

/-- The destructor of a thread that has been detached. -/
def joinedDetached : Owned :=
  ⟨⟨true, false, some .test, 0⟩, .joining .destroy, [], [.start, .detach]⟩

theorem joinedDetached_run : Run (init [.start, .detach, .destroy]) joinedDetached :=
  .tail (.tail (.tail .refl
    (.start new [.detach, .destroy] [] rfl))
    (.detach _ [.destroy] [.start] rfl))
    (.requestHalt _ .destroy [] [.start, .detach] (.inr rfl))

/-- In the destructor of a thread that is not joinable. -/
theorem not_safe_of_not_joinable (howner : s.owner = .joining .destroy)
    (h : s.thread.joinable = false) : ¬ s.Safe := by
  intro hsafe
  rw [hsafe _ howner] at h
  cases h

/-- **Which life cycles are safe.**  Throughout a life cycle, `std::thread::join` is called only on
a joinable thread, and `work` is not called after a join, exactly where the owner calls neither
`join` nor `detach`. -/
theorem lifeCycle_safe_iff {calls : List Call} (hcalls : LifeCycle calls) :
    (∀ s, Run (init calls) s → s.Safe ∧ s.Quiet) ↔ .join ∉ calls ∧ .detach ∉ calls := by
  refine ⟨fun hsafe => ?_, fun hnone s hrun => ⟨?_, quiet hcalls hrun⟩⟩
  · cases hcalls with
    | plain => simp
    | joined =>
        exact absurd (hsafe _ joinedTwice_run).1 (not_safe_of_not_joinable rfl rfl)
    | detached =>
        exact absurd (hsafe _ joinedDetached_run).1 (not_safe_of_not_joinable rfl rfl)
  · cases hcalls with
    | plain =>
        exact Plain.safe (reachable_invariant (.new new) (fun _ _ _ ht => ht.step) hrun)
    | joined => exact absurd hnone (by simp)
    | detached => exact absurd hnone (by simp)

/-- A thread may be started and destroyed, but not joined in between. -/
theorem plain_lifeCycle_safe :
    (∀ s, Run (init [.start, .destroy]) s → s.Safe ∧ s.Quiet) ∧
      ¬ ∀ s, Run (init [.start, .join, .destroy]) s → s.Safe ∧ s.Quiet := by
  refine ⟨(lifeCycle_safe_iff .plain).2 (by simp), fun hsafe => ?_⟩
  exact ((lifeCycle_safe_iff .joined).1 hsafe).1 (by simp)

/-- A thread that has been joined is joined again by its destructor. -/
theorem joined_lifeCycle_throws :
    ¬ ∀ calls, LifeCycle calls → ∀ s, Run (init calls) s → s.Safe ∧ s.Quiet :=
  fun h => not_safe_of_not_joinable rfl rfl (h _ .joined _ joinedTwice_run).1

end Owned

end DrivingSim.LoopThread
