import Mathlib.Data.Finmap
import Mathlib.Data.List.Sort

/-!
# Finite maps with an unspecified iteration order

A Go map is a finite map (`Finmap`). A `range` over it visits every key once, in an order the
language leaves open and that may differ from one `range` to the next; `RangeOrder` is one choice of
that order for every set of keys, and a program that ranges over a map takes the choice as an
argument, so what is proved for every `RangeOrder` holds whatever the runtime picks.
-/

set_option autoImplicit false

universe u v

/-- A Go `map[κ]ν`. -/
abbrev GoMap (κ : Type u) (ν : Type v) := Finmap fun _ : κ => ν

namespace GoMap

variable {κ : Type u} {ν : Type v} [DecidableEq κ]

/-- `m[k] = v`. -/
def set (m : GoMap κ ν) (k : κ) (v : ν) : GoMap κ ν := m.insert k v

/-- `delete(m, k)`. -/
def delete (m : GoMap κ ν) (k : κ) : GoMap κ ν := m.erase k

theorem lookup_set (m : GoMap κ ν) (k k' : κ) (v : ν) :
    (m.set k v).lookup k' = if k' = k then some v else m.lookup k' := by
  by_cases h : k' = k
  · subst h
    simp [set, Finmap.lookup_insert]
  · simp [set, h, Finmap.lookup_insert_of_ne m h]

theorem lookup_delete (m : GoMap κ ν) (k k' : κ) :
    (m.delete k).lookup k' = if k' = k then none else m.lookup k' := by
  by_cases h : k' = k
  · subst h
    simp [delete, Finmap.lookup_erase]
  · simp [delete, h, Finmap.lookup_erase_ne h]

theorem mem_keys_iff (m : GoMap κ ν) (k : κ) : k ∈ m.keys ↔ ∃ v, m.lookup k = some v := by
  rw [Finmap.mem_keys, Finmap.mem_iff]

theorem set_eq_self {m : GoMap κ ν} {k : κ} {v : ν} (h : m.lookup k = some v) : m.set k v = m := by
  refine Finmap.ext_lookup fun k' => ?_
  rw [lookup_set]
  split
  next hk => rw [hk, h]
  next => rfl

theorem delete_eq_self {m : GoMap κ ν} {k : κ} (h : m.lookup k = none) : m.delete k = m := by
  refine Finmap.ext_lookup fun k' => ?_
  rw [lookup_delete]
  split
  next hk => rw [hk, h]
  next => rfl

end GoMap

/-- A choice, for every set of keys, of the order in which a `range` visits them. -/
structure RangeOrder (κ : Type u) where
  list : Finset κ → List κ
  nodup : ∀ s, (list s).Nodup
  mem_list : ∀ s a, a ∈ list s ↔ a ∈ s

namespace RangeOrder

/-- The increasing order, by insertion, which evaluates in the kernel. -/
def sorted (κ : Type u) [LinearOrder κ] : RangeOrder κ where
  list s := Quot.liftOn s.val (List.insertionSort (· ≤ ·)) fun _ _ h =>
    ((List.perm_insertionSort _ _).trans (h.trans (List.perm_insertionSort _ _).symm)).eq_of_pairwise'
      (r := (· ≤ ·)) (List.pairwise_insertionSort _ _) (List.pairwise_insertionSort _ _)
  nodup s := by
    obtain ⟨⟨l⟩, hl⟩ := s
    exact (List.perm_insertionSort _ l).nodup_iff.2 hl
  mem_list s a := by
    obtain ⟨⟨l⟩, -⟩ := s
    exact List.mem_insertionSort _

end RangeOrder
