import FleetCommand.Lib.Runs
import Mathlib.Data.List.Destutter

/-!
# The changes of an observed value

An observer remembers the last value it saw and records a value when it differs from that one. Seen
again, a value changes nothing (`observe_observe`): so values that are reported more than once in a
row leave the same record.
-/

set_option autoImplicit false

namespace Observation

universe u

variable {α : Type u} [DecidableEq α]

/-- The value seen last, and the changes recorded. -/
structure Observed (α : Type u) where
  current : α
  changes : List α

/-- A value that differs from the current one is a change. -/
def observe (o : Observed α) (value : α) : Observed α :=
  if value = o.current then o else ⟨value, o.changes ++ [value]⟩

/-- What an observer has recorded of some values, the value before them given. -/
def observeAll (initial : α) (values : List α) : Observed α :=
  Runs.run observe ⟨initial, []⟩ values

theorem observe_observe (o : Observed α) (value : α) :
    observe (observe o value) value = observe o value := by
  by_cases h : value = o.current
  · have hsame : observe o value = o := if_pos h
    rw [hsame, hsame]
  · have hnew : observe o value = ⟨value, o.changes ++ [value]⟩ := if_neg h
    rw [hnew]
    exact if_pos rfl

theorem observeAll_concat (initial : α) (values : List α) (value : α) :
    observeAll initial (values ++ [value]) = observe (observeAll initial values) value :=
  Runs.run_concat ..

/-- What was recorded before stays in front. -/
theorem run_observe (current : α) (before values : List α) :
    Runs.run observe ⟨current, before⟩ values =
      ⟨(observeAll current values).current, before ++ (observeAll current values).changes⟩ := by
  induction values using List.reverseRecOn with
  | nil => rw [observeAll, Runs.run_nil, Runs.run_nil, List.append_nil]
  | append_singleton values value ih =>
    rw [Runs.run_concat, ih, observeAll_concat, observe, observe]
    split
    · rfl
    · rw [List.append_assoc]

/-- A value seen first is a change when it differs from the one before. -/
theorem observeAll_cons (initial value : α) (values : List α) :
    observeAll initial (value :: values) =
      ⟨(observeAll value values).current,
        (if value = initial then [] else [value]) ++ (observeAll value values).changes⟩ := by
  have hfirst : observe ⟨initial, []⟩ value =
      ⟨value, if value = initial then [] else [value]⟩ := by
    rw [observe]
    split
    next h => rw [h]
    next => rfl
  rw [observeAll, Runs.run_cons, hfirst, run_observe]

/-- The changes, after the value before them, are the values without their repeats in a row. -/
theorem cons_changes (initial : α) (values : List α) :
    initial :: (observeAll initial values).changes = values.destutter' (· ≠ ·) initial := by
  induction values generalizing initial with
  | nil => rfl
  | cons value values ih =>
    rw [observeAll_cons]
    by_cases h : value = initial
    · rw [if_pos h, List.destutter'_cons_neg _ (not_not.2 h.symm), ← ih, h]
      rfl
    · rw [if_neg h, List.destutter'_cons_pos _ (Ne.symm h), ← ih]
      rfl

/-- No change is to the value before it. -/
theorem isChain_changes (initial : α) (values : List α) :
    (initial :: (observeAll initial values).changes).IsChain (· ≠ ·) := by
  rw [cons_changes]
  exact List.isChain_destutter' _ values initial

/-- The value held is the last change. -/
theorem current_eq_last_change (initial : α) (values : List α) :
    (observeAll initial values).current =
      (observeAll initial values).changes.getLast?.getD initial := by
  induction values using List.reverseRecOn with
  | nil => rfl
  | append_singleton values value ih =>
    rw [observeAll_concat, observe]
    split
    · exact ih
    · rw [List.getLast?_concat, Option.getD_some]

theorem current_observeAll (initial : α) (values : List α) :
    (observeAll initial values).current = values.getLast?.getD initial := by
  induction values using List.reverseRecOn with
  | nil => rfl
  | append_singleton values value ih =>
    rw [observeAll_concat, List.getLast?_concat, Option.getD_some, observe]
    split
    next h => exact h.symm
    next => rfl

end Observation
