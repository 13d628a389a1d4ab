import Mathlib.Data.List.Nodup

/-!
# Insertion-ordered maps

A JavaScript `Map`: keys are distinct and iterate in the order of their first insertion; setting a
key that is present replaces its value in place.
-/

set_option autoImplicit false

universe u v

/-- A JavaScript `Map`. -/
structure InsertionMap (κ : Type u) (ν : Type v) where
  entries : List (κ × ν)
  nodup : (entries.map Prod.fst).Nodup

namespace InsertionMap

variable {κ : Type u} {ν : Type v} [DecidableEq κ]

/-- The entries after setting a key. -/
def setEntries (k : κ) (v : ν) : List (κ × ν) → List (κ × ν)
  | [] => [(k, v)]
  | e :: es => if e.1 = k then (k, v) :: es else e :: setEntries k v es

theorem map_fst_setEntries (k : κ) (v : ν) (es : List (κ × ν)) :
    (setEntries k v es).map Prod.fst =
      if k ∈ es.map Prod.fst then es.map Prod.fst else es.map Prod.fst ++ [k] := by
  induction es with
  | nil => simp [setEntries]
  | cons e es ih =>
    rw [setEntries]
    rcases eq_or_ne e.1 k with rfl | he
    · simp
    · have hk : k ∈ (e :: es).map Prod.fst ↔ k ∈ es.map Prod.fst := by
        rw [List.map_cons, List.mem_cons]
        exact or_iff_right fun h => he h.symm
      rw [if_neg he, List.map_cons, ih]
      simp only [hk]
      split <;> rfl

/-- `new Map()`. -/
def empty : InsertionMap κ ν := ⟨[], List.nodup_nil⟩

/-- `m.set(k, v)`. -/
def set (m : InsertionMap κ ν) (k : κ) (v : ν) : InsertionMap κ ν where
  entries := setEntries k v m.entries
  nodup := by
    rw [map_fst_setEntries]
    split
    · exact m.nodup
    next hk => exact List.nodup_append.2 ⟨m.nodup, List.nodup_singleton k, by
        rintro a ha b hb rfl
        exact hk (List.mem_singleton.1 hb ▸ ha)⟩

/-- `m.get(k)`. -/
def get? (m : InsertionMap κ ν) (k : κ) : Option ν :=
  (m.entries.find? fun e => e.1 = k).map Prod.snd

/-- `[...m.values()]`. -/
def values (m : InsertionMap κ ν) : List ν := m.entries.map Prod.snd

@[simp] theorem get?_empty (k : κ) : (empty : InsertionMap κ ν).get? k = none := rfl

omit [DecidableEq κ] in
@[simp] theorem values_empty : (empty : InsertionMap κ ν).values = [] := rfl

theorem get?_set (m : InsertionMap κ ν) (k k' : κ) (v : ν) :
    (m.set k v).get? k' = if k' = k then some v else m.get? k' := by
  have hfind : ∀ es : List (κ × ν), ((setEntries k v es).find? fun e => e.1 = k').map Prod.snd =
      if k' = k then some v else (es.find? fun e => e.1 = k').map Prod.snd := by
    intro es
    induction es with
    | nil =>
      rcases eq_or_ne k' k with rfl | hk
      · simp [setEntries]
      · simp [setEntries, hk, hk.symm]
    | cons e es ih =>
      rw [setEntries]
      rcases eq_or_ne e.1 k with he | he
      · rw [if_pos he, List.find?_cons, List.find?_cons]
        rcases eq_or_ne k' k with rfl | hk
        · simp
        · simp [hk, hk.symm, he]
      · rw [if_neg he, List.find?_cons, List.find?_cons]
        rcases eq_or_ne e.1 k' with rfl | hk
        · simp [he]
        · simpa [hk] using ih
  exact hfind m.entries

@[simp] theorem get?_set_self (m : InsertionMap κ ν) (k : κ) (v : ν) :
    (m.set k v).get? k = some v := by
  rw [get?_set, if_pos rfl]

theorem get?_set_of_ne (m : InsertionMap κ ν) {k k' : κ} (h : k' ≠ k) (v : ν) :
    (m.set k v).get? k' = m.get? k' := by
  rw [get?_set, if_neg h]

/-- Several records stored one after the other, each under its own key. -/
theorem get?_foldl_set {β : Type*} (key : β → κ) (f : β → ν) (l : List β) (m : InsertionMap κ ν)
    (k : κ) :
    (l.foldl (fun m b => m.set (key b) (f b)) m).get? k =
      ((l.reverse.find? fun b => key b = k).map f).or (m.get? k) := by
  induction l generalizing m with
  | nil => rfl
  | cons b l ih =>
    rw [List.foldl_cons, ih, get?_set, List.reverse_cons, List.find?_append, Option.map_or,
      Option.or_assoc]
    congr 1
    rcases eq_or_ne k (key b) with rfl | hk
    · simp
    · simp [hk, hk.symm]

/-- `m.delete(k)`. -/
def delete (m : InsertionMap κ ν) (k : κ) : InsertionMap κ ν where
  entries := m.entries.filter fun e => e.1 ≠ k
  nodup := m.nodup.sublist (List.filter_sublist.map Prod.fst)

theorem get?_eq_some_iff (m : InsertionMap κ ν) {k : κ} {v : ν} :
    m.get? k = some v ↔ (k, v) ∈ m.entries := by
  have hfind : ∀ es : List (κ × ν), (es.map Prod.fst).Nodup →
      ((es.find? fun e => e.1 = k).map Prod.snd = some v ↔ (k, v) ∈ es) := by
    intro es
    induction es with
    | nil => simp
    | cons e es ih =>
      intro hes
      rw [List.map_cons, List.nodup_cons] at hes
      rw [List.find?_cons, List.mem_cons]
      rcases eq_or_ne e.1 k with rfl | he
      · -- the key is that of the first entry, so no other entry has it
        have hother : (e.1, v) ∉ es := fun hmem => hes.1 (List.mem_map.2 ⟨(e.1, v), hmem, rfl⟩)
        simp only [decide_true, Option.map_some, Option.some.injEq, hother, or_false]
        exact ⟨fun hv => Prod.ext rfl hv.symm, fun hv => congrArg Prod.snd hv.symm⟩
      · have hne : (k, v) ≠ e := fun h => he (congrArg Prod.fst h.symm)
        simpa [he, hne] using ih hes.2
  exact hfind m.entries m.nodup

theorem get?_delete (m : InsertionMap κ ν) (k k' : κ) :
    (m.delete k).get? k' = if k' = k then none else m.get? k' := by
  refine Option.ext fun v => ?_
  rw [get?_eq_some_iff, delete, List.mem_filter, ← get?_eq_some_iff]
  rcases eq_or_ne k' k with rfl | hk
  · simp
  · simp [hk]

theorem mem_values_iff (m : InsertionMap κ ν) (v : ν) : v ∈ m.values ↔ ∃ k, m.get? k = some v := by
  simp only [values, List.mem_map, get?_eq_some_iff, Prod.exists, exists_eq_right]

end InsertionMap
