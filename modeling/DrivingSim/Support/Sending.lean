import Mathlib.Control.Monad.Writer

/-!
# Support — programs that write a log

A program of `Sending E` computes a value and sends messages of type `E` on the way, which are
kept in the order in which they are sent.  The messages of two programs one after the other are
those of the one and then those of the other; so a loop sends only what its turns send
(`only_foldlM`).
-/

namespace DrivingSim

abbrev Sending (E : Type) := Writer (List E)

namespace Sending

variable {E α β : Type}

def value (x : Sending E α) : α := (Id.run x.run).1

def messages (x : Sending E α) : List E := (Id.run x.run).2

def send (e : E) : Sending E Unit := tell [e]

@[simp] theorem value_pure (a : α) : value (pure a : Sending E α) = a := rfl
@[simp] theorem messages_pure (a : α) : messages (pure a : Sending E α) = [] := rfl
@[simp] theorem value_send (e : E) : value (send e) = () := rfl
@[simp] theorem messages_send (e : E) : messages (send e) = [e] := rfl

@[simp] theorem value_bind (x : Sending E α) (f : α → Sending E β) :
    value (x >>= f) = value (f (value x)) := rfl

@[simp] theorem messages_bind (x : Sending E α) (f : α → Sending E β) :
    messages (x >>= f) = messages x ++ messages (f (value x)) := rfl

/-! ### Loops -/

/-- The value of a loop is that of the loop without the log. -/
theorem value_foldlM {f : β → α → Sending E β} (l : List α) (b : β) :
    value (l.foldlM f b) = l.foldl (fun b a => value (f b a)) b := by
  induction l generalizing b with
  | nil => rfl
  | cons a l ih => exact ih _

/-! ### What may be sent -/

/-- The program sends messages of `P` only. -/
def Only (P : E → Prop) (x : Sending E α) : Prop := ∀ e ∈ messages x, P e

variable {P Q : E → Prop}

theorem Only.imp {x : Sending E α} (h : Only P x) (hPQ : ∀ e, P e → Q e) : Only Q x :=
  fun e he => hPQ e (h e he)

theorem only_of_silent {x : Sending E α} (h : messages x = []) : Only P x := by
  rw [Only, h]
  exact fun _ he => absurd he List.not_mem_nil

@[simp] theorem only_pure (a : α) : Only P (pure a : Sending E α) := by simp [Only]

@[simp] theorem only_send {e : E} : Only P (send e) ↔ P e := by simp [Only]

theorem only_bind {x : Sending E α} {f : α → Sending E β} :
    Only P (x >>= f) ↔ Only P x ∧ Only P (f (value x)) := by
  rw [Only, messages_bind]
  exact List.forall_mem_append

/-- A loop sends what its turns send. -/
theorem only_foldlM {f : β → α → Sending E β} {l : List α} (h : ∀ a ∈ l, ∀ b, Only P (f b a))
    (b : β) : Only P (l.foldlM f b) := by
  induction l generalizing b with
  | nil => exact only_pure b
  | cons a l ih =>
      rw [List.foldlM_cons, only_bind]
      exact ⟨h a List.mem_cons_self b, ih (fun a' ha' => h a' (List.mem_cons_of_mem a ha')) _⟩

end Sending

end DrivingSim
