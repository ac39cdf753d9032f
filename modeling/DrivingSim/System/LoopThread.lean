import Mathlib.Logic.Relation

/-!
# System — the thread that loops

`loop_thread` of `threading.cpp`: an object that owns a `std::thread`, whose `main` calls `work`
again and again until `halt` is set.  Its owner starts it and then joins it, detaches it or
destroys it, while the loop goes on.

Each access to `halt` is a step, as is each call of `work` and each delay after one; how long they
take does not matter here.  `join` and the destructor both set `halt` and then call
`std::thread::join`, which throws where the thread is not joinable.
-/

namespace DrivingSim

/-- Where the loop of `main` is. -/
inductive LoopThread.Pc where
  /-- At the test of `halt`. -/
  | test
  /-- In `work`. -/
  | work
  /-- In the destructor of `enforce_delay`. -/
  | delay
  /-- Out of the loop. -/
  | exited
  deriving DecidableEq

/-- Where a loop goes next. -/
def LoopThread.Pc.next (halt : Bool) : LoopThread.Pc → LoopThread.Pc
  | .test => if halt then .exited else .work
  | .work => .delay
  | .delay => .test
  | .exited => .exited

structure LoopThread where
  halt : Bool
  /-- `inner.joinable()`. -/
  joinable : Bool
  /-- The thread of execution, once there is one. -/
  main : Option LoopThread.Pc
  /-- How many times `work` has been called. -/
  calls : Nat

namespace LoopThread

/-- The constructor. -/
def new : LoopThread where
  halt := false
  joinable := false
  main := none
  calls := 0

variable (t : LoopThread)

def start : LoopThread := { t with joinable := true, main := some .test }

/-- The first half of `join`. -/
def requestHalt : LoopThread := { t with halt := true }

/-- The second: `inner.join()` has returned. -/
def joined : LoopThread := { t with joinable := false }

def detach : LoopThread := { t with joinable := false }

/-- The next step of `main`. -/
def mainStep : LoopThread :=
  match t.main with
  | none => t
  | some pc =>
    { t with
      main := some (pc.next t.halt)
      calls := if pc.next t.halt = .work then t.calls + 1 else t.calls }

/-! ### The owner -/

/-- What the owner of the thread may call. -/
inductive Call where
  | start
  | join
  | detach
  | destroy
  deriving DecidableEq

/-- Where the owner is. -/
inductive Owner where
  /-- Between two calls. -/
  | calling
  /-- At the `inner.join()` of a call of `join` or of the destructor. -/
  | joining (call : Call)
  /-- An exception has ended the program. -/
  | terminated

/-- A thread and its owner, with the calls that are still to come and those that have returned. -/
structure Owned where
  thread : LoopThread
  owner : Owner
  todo : List Call
  done : List Call

namespace Owned

/-- A new thread, whose owner will make these calls. -/
def init (calls : List Call) : Owned := ⟨new, .calling, calls, []⟩

/-- A step of the owner or of the loop. -/
inductive Step : Owned → Owned → Prop where
  | start (t : LoopThread) (todo done : List Call) (h : t.joinable = false) :
      Step ⟨t, .calling, .start :: todo, done⟩ ⟨t.start, .calling, todo, done ++ [.start]⟩
  | detach (t : LoopThread) (todo done : List Call) (h : t.joinable = true) :
      Step ⟨t, .calling, .detach :: todo, done⟩ ⟨t.detach, .calling, todo, done ++ [.detach]⟩
  | requestHalt (t : LoopThread) (call : Call) (todo done : List Call)
      (h : call = .join ∨ call = .destroy) :
      Step ⟨t, .calling, call :: todo, done⟩ ⟨t.requestHalt, .joining call, todo, done⟩
  | join (t : LoopThread) (call : Call) (todo done : List Call)
      (h : t.joinable = true) (hmain : t.main = some .exited) :
      Step ⟨t, .joining call, todo, done⟩ ⟨t.joined, .calling, todo, done ++ [call]⟩
  -- `inner.join()` throws, and the destructor lets no exception out
  | throw (t : LoopThread) (call : Call) (todo done : List Call) (h : t.joinable = false) :
      Step ⟨t, .joining call, todo, done⟩ ⟨t, .terminated, todo, done⟩
  | main (t : LoopThread) (owner : Owner) (todo done : List Call) (h : owner ≠ .terminated) :
      Step ⟨t, owner, todo, done⟩ ⟨t.mainStep, owner, todo, done⟩

abbrev Run : Owned → Owned → Prop := Relation.ReflTransGen Step

end Owned

/-! ### What the loop does to the object -/

variable {t}

theorem mainStep_joinable : t.mainStep.joinable = t.joinable := by
  rw [mainStep]
  cases t.main with
  | none => rfl
  | some pc => rfl

/-- A loop that has exited does nothing any more. -/
theorem mainStep_of_exited (h : t.main = some .exited) : t.mainStep = t := by
  obtain ⟨halt, joinable, main, calls⟩ := t
  cases h
  rfl

end LoopThread

end DrivingSim
