import Mathlib.Logic.Function.Basic

/-!
# Diagnostics — scoped log levels

`level_setter` of `logging.h`, which sets the global log level when it is constructed and is to
restore it when it is destroyed.

A setter takes the address of `base_log_level` as its `previous`, and then assigns itself to
`base_log_level`.  So what the address holds when the setter is destroyed is the setter itself, or
one that has been constructed since: all the setters are aliases of one level, the last one set
(`Aliased`), and a destruction changes nothing (`destroy_of_aliased`).  The level from before is
there again only where the last setter constructed has set that very level (`restored_iff`).

The levels themselves are those of `spdlog`, and may be of any type.
-/

namespace DrivingSim

/-- `level_setter`; a pointer is an address. -/
structure LevelSetter (L : Type) where
  lvl : L
  previous : Nat

/-- The state of the log. -/
structure Logging (L : Type) where
  /-- What `spdlog::set_level` has stored. -/
  level : L
  /-- The setter at each address. -/
  setters : Nat → LevelSetter L
  /-- How many setters are live beside `base_log_level`; they are at the addresses from 1 on, the
  last one constructed at the last. -/
  depth : Nat

namespace Logging

variable {L : Type}

/-- The address of `base_log_level`. -/
def baseLogLevel : Nat := 0

/-- After `base_log_level` has been initialised. -/
def init (logLevel : L) : Logging L where
  level := logLevel
  setters := fun _ => ⟨logLevel, baseLogLevel⟩
  depth := 0

variable (s : Logging L)

/-- The constructor of `level_setter`. -/
def construct (level : L) : Logging L :=
  let this := s.depth + 1
  let setters := Function.update s.setters this ⟨level, baseLogLevel⟩
  -- `base_log_level = *this`
  ⟨level, Function.update setters baseLogLevel (setters this), this⟩

/-- The destructor of the setter that was constructed last, if there is one. -/
def destroy : Option (Logging L) :=
  match s.depth with
  | 0 => none
  | depth + 1 =>
    let previous := (s.setters (depth + 1)).previous
    -- `base_log_level = *previous`
    some ⟨(s.setters previous).lvl,
      Function.update s.setters baseLogLevel (s.setters previous), depth⟩

inductive Event (L : Type) where
  | construct (level : L)
  | destroy

def step (s : Logging L) : Event L → Option (Logging L)
  | .construct level => some (s.construct level)
  | .destroy => s.destroy

def exec : Logging L → List (Event L) → Option (Logging L)
  | s, [] => some s
  | s, e :: es => (s.step e).bind fun s => exec s es

/-- Each setter that is constructed is destroyed, and those constructed meanwhile before it. -/
inductive WellNested : List (Event L) → Prop where
  | nil : WellNested []
  | scope {inner rest : List (Event L)} (level : L) (hinner : WellNested inner)
      (hrest : WellNested rest) : WellNested (.construct level :: (inner ++ .destroy :: rest))

/-- The level of the last setter constructed, or this one where there is none. -/
def lastLevel (level : L) : List (Event L) → L
  | [] => level
  | .construct level' :: es => lastLevel level' es
  | .destroy :: es => lastLevel level es

/-! ### Aliases -/

/-- All setters point to `base_log_level`, which holds the global level. -/
structure Aliased (s : Logging L) : Prop where
  previous : ∀ a, (s.setters a).previous = baseLogLevel
  level : (s.setters baseLogLevel).lvl = s.level

variable {s} {s' : Logging L} {es fs : List (Event L)}

theorem aliased_init {logLevel : L} : Aliased (init logLevel) := ⟨fun _ => rfl, rfl⟩

theorem construct_aliased (h : Aliased s) (level : L) : Aliased (s.construct level) := by
  have hset : ∀ a, (Function.update s.setters (s.depth + 1) ⟨level, baseLogLevel⟩ a).previous =
      baseLogLevel := by
    intro a
    rcases eq_or_ne a (s.depth + 1) with rfl | hne
    · rw [Function.update_self]
    · rw [Function.update_of_ne hne]
      exact h.previous a
  refine ⟨fun a => ?_, ?_⟩
  · rw [construct]
    dsimp only
    rcases eq_or_ne a baseLogLevel with rfl | hne
    · rw [Function.update_self]
      exact hset _
    · rw [Function.update_of_ne hne]
      exact hset a
  · rw [construct]
    dsimp only
    rw [Function.update_self, Function.update_self]

/-- A destruction only ends the life of the setter. -/
theorem destroy_of_aliased (h : Aliased s) {depth : Nat} (hdepth : s.depth = depth + 1) :
    s.destroy = some { s with depth := depth } := by
  rw [destroy, hdepth]
  dsimp only
  rw [h.previous, Function.update_eq_self, h.level]

theorem destroy_eq_some (h : Aliased s) (hs : s.destroy = some s') :
    s'.level = s.level ∧ s'.setters = s.setters := by
  cases hdepth : s.depth with
  | zero =>
      rw [destroy, hdepth] at hs
      cases hs
  | succ depth =>
      rw [destroy_of_aliased h hdepth] at hs
      cases hs
      exact ⟨rfl, rfl⟩

/-- The level in force is the last one set, whatever has been destroyed. -/
theorem exec_aliased (h : Aliased s) (hs : exec s es = some s') :
    Aliased s' ∧ s'.level = lastLevel s.level es := by
  induction es generalizing s with
  | nil =>
      cases hs
      exact ⟨h, rfl⟩
  | cons e es ih =>
      obtain ⟨t, ht, hrest⟩ := Option.bind_eq_some_iff.1 hs
      cases e with
      | construct level =>
          cases ht
          exact ih (construct_aliased h level) hrest
      | destroy =>
          obtain ⟨hlevel, hsetters⟩ := destroy_eq_some h ht
          rw [lastLevel, ← hlevel]
          refine ih ⟨fun a => ?_, ?_⟩ hrest
          · rw [hsetters]
            exact h.previous a
          · rw [hsetters, hlevel]
            exact h.level

theorem Aliased.baseLogLevel_eq (h : Aliased s) :
    s.setters baseLogLevel = ⟨s.level, baseLogLevel⟩ := by
  have hprevious := h.previous baseLogLevel
  have hlevel := h.level
  cases hbase : s.setters baseLogLevel with
  | mk lvl previous =>
      rw [hbase] at hprevious hlevel
      exact congrArg₂ LevelSetter.mk hlevel hprevious

/-! ### Nesting -/

theorem exec_append : exec s (es ++ fs) = (exec s es).bind fun t => exec t fs := by
  induction es generalizing s with
  | nil => rfl
  | cons e es ih =>
      rw [List.cons_append, exec, exec, Option.bind_assoc]
      exact congrArg _ (funext fun t => ih)

theorem destroy_isSome {depth : Nat} (h : s.depth = depth + 1) :
    ∃ s', s.destroy = some s' ∧ s'.depth = depth := by
  rw [destroy, h]
  exact ⟨_, rfl, rfl⟩

/-- A scope, from the construction of its setter to the destruction. -/
theorem exec_scope {level : L} (fs : List (Event L))
    (hinner : ∃ t, exec (s.construct level) es = some t ∧ t.depth = s.depth + 1) :
    ∃ s', exec s (.construct level :: (es ++ .destroy :: fs)) = exec s' fs ∧
      s'.depth = s.depth := by
  obtain ⟨t, ht, hdepth⟩ := hinner
  obtain ⟨s', hs', hdepth'⟩ := destroy_isSome hdepth
  refine ⟨s', ?_, hdepth'⟩
  rw [exec, step, Option.bind_some, exec_append, ht, Option.bind_some, exec, step, hs',
    Option.bind_some]

/-- A well-nested sequence leaves the setters live that were so before. -/
theorem WellNested.exec (h : WellNested es) :
    ∀ s : Logging L, ∃ s', exec s es = some s' ∧ s'.depth = s.depth := by
  induction h with
  | nil => exact fun s => ⟨s, rfl, rfl⟩
  | scope level hinner hrest ihinner ihrest =>
      intro s
      obtain ⟨t, ht, hdepth⟩ := exec_scope _ (ihinner (s.construct level))
      obtain ⟨s', hs', hdepth'⟩ := ihrest t
      exact ⟨s', ht.trans hs', hdepth'.trans hdepth⟩

/-! ### What is restored -/

theorem lastLevel_append {level : L} :
    lastLevel level (es ++ fs) = lastLevel (lastLevel level es) fs := by
  induction es generalizing level with
  | nil => rfl
  | cons e es ih =>
      cases e with
      | construct level' => exact ih
      | destroy => exact ih

/-- **What a scope restores.**  A setter is constructed after any events, and destroyed when those
constructed meanwhile have been destroyed.  The level and `base_log_level` are then as they were
before it was constructed exactly where the last setter constructed, it or one within its scope,
has set the level that was in force. -/
theorem restored_iff {logLevel level : L} {past inner : List (Event L)}
    (hpast : exec (init logLevel) past = some s) (hinner : WellNested inner) :
    ∃ s', exec s (.construct level :: (inner ++ [.destroy])) = some s' ∧ s'.depth = s.depth ∧
      ((s'.level = s.level ∧ s'.setters baseLogLevel = s.setters baseLogLevel) ↔
        lastLevel level inner = lastLevel logLevel past) := by
  obtain ⟨s', hs', hdepth⟩ := exec_scope [] (hinner.exec (s.construct level))
  obtain ⟨hs, hlevel⟩ := exec_aliased aliased_init hpast
  obtain ⟨ht, hlevel'⟩ := exec_aliased hs hs'
  refine ⟨s', hs', hdepth, ?_⟩
  rw [hs.baseLogLevel_eq, ht.baseLogLevel_eq, hlevel', hlevel, lastLevel, lastLevel_append]
  refine ⟨fun h => h.1, fun h => ⟨h, ?_⟩⟩
  exact congrArg (LevelSetter.mk · baseLogLevel) h

/-- In the scope of an earlier setter of `1`, a setter of `2`, in its scope one of `3`, and in the
scope of that one another of `1`, which is the last one constructed. -/
theorem nestedScope_restored : ∃ s', exec ((init 0).construct 1)
    [.construct 2, .construct 3, .construct 1, .destroy, .destroy, .destroy] = some s' ∧
      s'.depth = 1 ∧ s'.level = 1 ∧ s'.setters baseLogLevel = ⟨1, baseLogLevel⟩ := by
  have hpast : exec (init 0) [.construct 1] = some ((init 0).construct 1) := rfl
  have hinner : WellNested [.construct 3, .construct 1, .destroy, .destroy] :=
    .scope 3 (.scope 1 .nil .nil) .nil
  obtain ⟨s', hs', hdepth, hiff⟩ := @restored_iff Nat _ 0 2 _ _ hpast hinner
  obtain ⟨hlevel, hbase⟩ := hiff.2 rfl
  exact ⟨s', hs', hdepth, hlevel, hbase⟩

/-- **A level that is not restored.**  The configured level is `2`; a setter of `0` is constructed
and destroyed. -/
theorem otherLevel_not_restored : ¬ ∀ (logLevel level : Nat) (past inner : List (Event Nat))
    (s s' : Logging Nat), exec (init logLevel) past = some s → WellNested inner →
    exec s (.construct level :: (inner ++ [.destroy])) = some s' →
    s'.level = s.level ∧ s'.setters baseLogLevel = s.setters baseLogLevel := by
  intro h
  have hlevel := (h 2 0 [] [] (init 2) _ rfl .nil rfl).1
  cases hlevel

end Logging

end DrivingSim
