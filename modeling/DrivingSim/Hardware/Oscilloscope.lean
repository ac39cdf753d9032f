import Mathlib.Data.List.Basic

/-!
# Hardware — the oscilloscope

The `oscilloscope` of the emulator of the board, `raspi.cpp`.  Requests for windows of samples
are held in two lists until a change of the voltage triggers them, and in `requested_windows`
until they are full; the sampler then queues them for the flusher, which calls their callbacks.

Three threads and any number of clients take part.  A critical section of `requests_lock` or of
`filled_lock` is one step, as is `notify_one`, which comes after the lock has been released, and
each call of a callback.  Where a thread is, and what it then holds in a local variable, is its
program counter.  A flusher that waits for `filled_signal` releases the lock in the same step in
which it has found the queue empty, and may wake up at any time.

The constructor sets neither `value` nor `last_sample`.  Sizes and rates are natural numbers,
and the number of samples is the size times the rate, rounded down.
-/

namespace DrivingSim

/-- `raspi::digital_val_t`. -/
inductive DigitalVal where
  | low
  | high
  deriving DecidableEq

/-- A request for a window; what is known of its callback is which one it is. -/
structure WindowReq (κ : Type) where
  name : String
  data : List DigitalVal
  numSamples : Nat
  callback : κ

/-- A request with one more sample. -/
def WindowReq.push {κ : Type} (req : WindowReq κ) (sample : DigitalVal) : WindowReq κ :=
  { req with data := req.data ++ [sample] }

/-- Where the sampler is. -/
inductive Oscilloscope.Sampler (κ : Type) where
  /-- At the first lock of `sample`. -/
  | start
  /-- At the second, with `newly_filled_windows`. -/
  | filled (newlyFilled : List (WindowReq κ))
  /-- At `notify_one`. -/
  | notifying

/-- Where the flusher is. -/
inductive Oscilloscope.Flusher (κ : Type) where
  /-- At the lock of `flush`. -/
  | start
  /-- Blocked in the wait, with no wake-up pending. -/
  | waiting
  /-- In the wait, with a wake-up pending. -/
  | woken
  /-- Out of the wait, with `to_flush`. -/
  | flushing (toFlush : List (WindowReq κ))

structure Oscilloscope (κ : Type) where
  highTriggers : List (WindowReq κ)
  lowTriggers : List (WindowReq κ)
  requestedWindows : List (WindowReq κ)
  filledWindows : List (WindowReq κ)
  value : DigitalVal
  lastSample : DigitalVal
  sr : Nat
  sampler : Oscilloscope.Sampler κ
  flusher : Oscilloscope.Flusher κ

namespace Oscilloscope

variable {κ : Type}

/-- The constructor, with what the two fields it does not set held. -/
def init (value lastSample : DigitalVal) (sr : Nat) : Oscilloscope κ where
  highTriggers := []
  lowTriggers := []
  requestedWindows := []
  filledWindows := []
  value := value
  lastSample := lastSample
  sr := sr
  sampler := .start
  flusher := .start

variable (s : Oscilloscope κ)

/-! ### The interface -/

def numSamples (size : Nat) : Nat := size * s.sr / 1000000

def fillWindow (name : String) (size : Nat) (callback : κ) : Oscilloscope κ :=
  { s with
    requestedWindows := s.requestedWindows ++ [⟨name, [], s.numSamples size, callback⟩] }

/-- The other overload of `fill_window`. -/
def fillWindowOn (name : String) (size : Nat) (trigger : DigitalVal) (callback : κ) :
    Oscilloscope κ :=
  if trigger = .high then
    { s with highTriggers := s.highTriggers ++ [⟨name, [], s.numSamples size, callback⟩] }
  else
    { s with lowTriggers := s.lowTriggers ++ [⟨name, [], s.numSamples size, callback⟩] }

def write (newValue : DigitalVal) : Oscilloscope κ := { s with value := newValue }

/-! ### The sampler -/

/-- Request any applicable triggers. -/
def activate (sample : DigitalVal) : Oscilloscope κ :=
  -- `splice` leaves the list that it moves empty
  if sample = .high ∧ s.lastSample = .low then
    { s with requestedWindows := s.requestedWindows ++ s.highTriggers, highTriggers := [] }
  else if sample = .low ∧ s.lastSample = .high then
    { s with requestedWindows := s.requestedWindows ++ s.lowTriggers, lowTriggers := [] }
  else s

/-- Update the requested windows: those that are full now, and those that are left. -/
def fill (sample : DigitalVal) : List (WindowReq κ) → List (WindowReq κ) × List (WindowReq κ)
  | [] => ([], [])
  | req :: reqs =>
    let req := { req with data := req.data ++ [sample] }
    let (newlyFilled, rest) := fill sample reqs
    -- the length is compared after the sample has been added
    if req.data.length = req.numSamples then (req :: newlyFilled, rest)
    else (newlyFilled, req :: rest)

/-- The first section of `sample`. -/
def takeSample : Oscilloscope κ :=
  let sample := s.value
  let s := s.activate sample
  let s := { s with lastSample := sample }
  let (newlyFilled, rest) := fill sample s.requestedWindows
  { s with requestedWindows := rest, sampler := .filled newlyFilled }

/-- The second. -/
def queueFilled (newlyFilled : List (WindowReq κ)) : Oscilloscope κ :=
  { s with filledWindows := s.filledWindows ++ newlyFilled, sampler := .notifying }

def notifyOne : Oscilloscope κ :=
  match s.flusher with
  | .waiting => { s with flusher := .woken, sampler := .start }
  -- nobody to wake up
  | _ => { s with sampler := .start }

/-- The next step of the sampler, which calls `sample` again and again. -/
def samplerStep : Oscilloscope κ :=
  match s.sampler with
  | .start => s.takeSample
  | .filled newlyFilled => s.queueFilled newlyFilled
  | .notifying => s.notifyOne

/-! ### The flusher -/

/-- The predicate of the wait, which takes the windows off the queue: `to_flush` is empty before it
and, where it is empty after it too, the flusher waits. -/
def takeFilled : Oscilloscope κ :=
  match s.filledWindows with
  | [] => { s with flusher := .waiting }
  | req :: reqs => { s with filledWindows := [], flusher := .flushing (req :: reqs) }

/-- The next step of the flusher, which calls `flush` again and again.  In the wait, it wakes up. -/
def flusherStep : Oscilloscope κ :=
  match s.flusher with
  | .start => s.takeFilled
  -- nobody has notified it
  | .waiting => { s with flusher := .woken }
  | .woken => s.takeFilled
  -- the callback of the first window is called
  | .flushing (_ :: toFlush) => { s with flusher := .flushing toFlush }
  | .flushing [] => { s with flusher := .start }

/-- A step of a client or of a thread. -/
inductive Step : Oscilloscope κ → Oscilloscope κ → Prop where
  | fillWindow (s : Oscilloscope κ) (name : String) (size : Nat) (callback : κ) :
      Step s (s.fillWindow name size callback)
  | fillWindowOn (s : Oscilloscope κ) (name : String) (size : Nat) (trigger : DigitalVal)
      (callback : κ) : Step s (s.fillWindowOn name size trigger callback)
  | write (s : Oscilloscope κ) (newValue : DigitalVal) : Step s (s.write newValue)
  | sampler (s : Oscilloscope κ) : Step s s.samplerStep
  | flusher (s : Oscilloscope κ) : Step s s.flusherStep

/-! ### The places of a request -/

/-- What the sampler has filled and not queued yet. -/
def newlyFilled : List (WindowReq κ) :=
  match s.sampler with
  | .filled newlyFilled => newlyFilled
  | _ => []

/-- What the flusher has taken off the queue. -/
def toFlush : List (WindowReq κ) :=
  match s.flusher with
  | .flushing toFlush => toFlush
  | _ => []

/-- The list for a trigger. -/
def triggers : DigitalVal → List (WindowReq κ)
  | .high => s.highTriggers
  | .low => s.lowTriggers

/-! ### What a request does -/

section Request

variable (name : String) (size : ℕ) (v : DigitalVal) {w : DigitalVal} (callback : κ)

theorem fillWindowOn_triggers : (s.fillWindowOn name size v callback).triggers w =
    if w = v then s.triggers w ++ [⟨name, [], s.numSamples size, callback⟩] else s.triggers w := by
  rw [fillWindowOn]
  cases v with
  | high => cases w <;> rfl
  | low => cases w <;> rfl

/-- A request on a trigger changes no list but that of the trigger. -/
theorem fillWindowOn_frame :
    (s.fillWindowOn name size v callback).requestedWindows = s.requestedWindows ∧
    (s.fillWindowOn name size v callback).filledWindows = s.filledWindows ∧
    (s.fillWindowOn name size v callback).sampler = s.sampler ∧
    (s.fillWindowOn name size v callback).flusher = s.flusher := by
  rw [fillWindowOn]
  split_ifs
  · exact ⟨rfl, rfl, rfl, rfl⟩
  · exact ⟨rfl, rfl, rfl, rfl⟩

end Request

/-! ### What the threads do with the queue -/

section Queue

variable {s} {w : DigitalVal}

/-- A notification changes no list. -/
theorem notifyOne_frame :
    s.notifyOne.triggers w = s.triggers w ∧
    s.notifyOne.requestedWindows = s.requestedWindows ∧
    s.notifyOne.filledWindows = s.filledWindows ∧
    s.notifyOne.toFlush = s.toFlush ∧ s.notifyOne.newlyFilled = [] := by
  rw [notifyOne]
  cases h : s.flusher with
  | start => cases w <;> simp [triggers, toFlush, newlyFilled, h]
  | waiting => cases w <;> simp [triggers, toFlush, newlyFilled, h]
  | woken => cases w <;> simp [triggers, toFlush, newlyFilled, h]
  | flushing toFlush => cases w <;> simp [triggers, Oscilloscope.toFlush, newlyFilled, h]

/-- The predicate of the wait takes all that is on the queue. -/
theorem takeFilled_frame :
    s.takeFilled.triggers w = s.triggers w ∧
    s.takeFilled.requestedWindows = s.requestedWindows ∧
    s.takeFilled.filledWindows = [] ∧
    s.takeFilled.toFlush = s.filledWindows ∧ s.takeFilled.newlyFilled = s.newlyFilled := by
  rw [takeFilled]
  cases h : s.filledWindows with
  | nil => cases w <;> simp [triggers, toFlush, newlyFilled]
  | cons req reqs => cases w <;> simp [triggers, toFlush, newlyFilled]

end Queue

/-! ### What a sample does -/

variable {s} {v w : DigitalVal}

theorem fill_eq (v : DigitalVal) (reqs : List (WindowReq κ)) :
    fill v reqs =
      ((reqs.map (·.push v)).filter fun req => req.data.length = req.numSamples,
        (reqs.map (·.push v)).filter fun req => ¬ req.data.length = req.numSamples) := by
  induction reqs with
  | nil => rfl
  | cons req reqs ih =>
      rw [fill, ih, List.map_cons, List.filter_cons, List.filter_cons]
      by_cases h : (req.push v).data.length = (req.push v).numSamples
      · simp only [h, decide_true, not_true_eq_false, decide_false, if_true]
        exact if_pos h
      · simp only [h, decide_false, not_false_eq_true, decide_true, if_true]
        exact if_neg h

theorem activate_requestedWindows : (s.activate v).requestedWindows =
    s.requestedWindows ++ if v = s.lastSample then [] else s.triggers v := by
  rw [activate]
  cases v with
  | high => cases h : s.lastSample <;> simp [triggers]
  | low => cases h : s.lastSample <;> simp [triggers]

theorem activate_triggers : (s.activate v).triggers w =
    if v = s.lastSample then s.triggers w else if w = v then [] else s.triggers w := by
  rw [activate]
  cases v with
  | high => cases h : s.lastSample <;> cases w <;> simp [triggers]
  | low => cases h : s.lastSample <;> cases w <;> simp [triggers]

/-- The sample changes no other list. -/
theorem activate_frame : (s.activate v).filledWindows = s.filledWindows ∧
    (s.activate v).flusher = s.flusher := by
  rw [activate]
  split_ifs
  · exact ⟨rfl, rfl⟩
  · exact ⟨rfl, rfl⟩
  · exact ⟨rfl, rfl⟩

variable (s) in
theorem takeSample_eq : s.takeSample =
    { s.activate s.value with
      lastSample := s.value
      requestedWindows := ((s.activate s.value).requestedWindows.map (·.push s.value)).filter
        fun req => ¬ req.data.length = req.numSamples
      sampler := .filled <| ((s.activate s.value).requestedWindows.map (·.push s.value)).filter
        fun req => req.data.length = req.numSamples } := by
  rw [takeSample]
  dsimp only
  rw [fill_eq]

theorem takeSample_triggers : s.takeSample.triggers w = (s.activate s.value).triggers w := by
  rw [takeSample_eq]
  rfl

theorem takeSample_requestedWindows : s.takeSample.requestedWindows =
    ((s.activate s.value).requestedWindows.map (·.push s.value)).filter
      fun req => ¬ req.data.length = req.numSamples := by
  rw [takeSample_eq]

theorem takeSample_newlyFilled : s.takeSample.newlyFilled =
    ((s.activate s.value).requestedWindows.map (·.push s.value)).filter
      fun req => req.data.length = req.numSamples := by
  rw [takeSample_eq]
  rfl

theorem takeSample_filledWindows : s.takeSample.filledWindows = s.filledWindows := by
  rw [takeSample_eq]
  exact activate_frame.1

theorem takeSample_flusher : s.takeSample.flusher = s.flusher := by
  rw [takeSample_eq]
  exact activate_frame.2

theorem takeSample_toFlush : s.takeSample.toFlush = s.toFlush := by
  rw [toFlush, takeSample_flusher, toFlush]

/-! ### What only a sample changes -/

/-- Neither the sampling rate nor what the next sample is compared with. -/
structure SameInput (s s' : Oscilloscope κ) : Prop where
  sr : s'.sr = s.sr
  lastSample : s'.lastSample = s.lastSample

theorem fillWindowOn_sameInput {name : String} {size : ℕ} {callback : κ} :
    SameInput s (s.fillWindowOn name size v callback) := by
  rw [fillWindowOn]
  split_ifs
  · exact ⟨rfl, rfl⟩
  · exact ⟨rfl, rfl⟩

theorem notifyOne_sameInput : SameInput s s.notifyOne := by
  rw [notifyOne]
  cases s.flusher with
  | start => exact ⟨rfl, rfl⟩
  | waiting => exact ⟨rfl, rfl⟩
  | woken => exact ⟨rfl, rfl⟩
  | flushing toFlush => exact ⟨rfl, rfl⟩

theorem takeFilled_sameInput : SameInput s s.takeFilled := by
  rw [takeFilled]
  cases s.filledWindows with
  | nil => exact ⟨rfl, rfl⟩
  | cons req reqs => exact ⟨rfl, rfl⟩

theorem flusherStep_sameInput : SameInput s s.flusherStep := by
  rw [flusherStep]
  cases s.flusher with
  | start => exact takeFilled_sameInput
  | waiting => exact ⟨rfl, rfl⟩
  | woken => exact takeFilled_sameInput
  | flushing toFlush =>
      cases toFlush with
      | nil => exact ⟨rfl, rfl⟩
      | cons req toFlush => exact ⟨rfl, rfl⟩

theorem takeSample_sr : s.takeSample.sr = s.sr := by
  rw [takeSample_eq, activate]
  split_ifs <;> rfl

/-- The sampling rate is fixed. -/
theorem Step.sr {s' : Oscilloscope κ} (h : Step s s') : s'.sr = s.sr := by
  cases h with
  | fillWindow name size callback => rfl
  | fillWindowOn name size trigger callback => exact fillWindowOn_sameInput.sr
  | write newValue => rfl
  | sampler =>
      rw [samplerStep]
      cases s.sampler with
      | start => exact takeSample_sr
      | filled newlyFilled => rfl
      | notifying => exact notifyOne_sameInput.sr
  | flusher => exact flusherStep_sameInput.sr

end Oscilloscope

end DrivingSim
