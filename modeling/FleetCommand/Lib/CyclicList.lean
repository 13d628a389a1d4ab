import Mathlib.Data.List.Rotate
import Mathlib.Data.List.Zip
import Mathlib.Algebra.Ring.Parity

/-!
# Lists read around a ring

The edges of a list read cyclically: every element with the one after it, the last with the first.
Starting elsewhere permutes them (`edges_rotate`); reading backwards permutes them with their ends
exchanged (`edges_reverse_perm`); and a property changes an even number of times around the ring
(`even_countP_changes`).
-/

set_option autoImplicit false

namespace CyclicList

universe u

variable {α : Type u}

/-- Every element with the next one, the last with the first. -/
def edges (l : List α) : List (α × α) := l.zip (l.rotate 1)

@[simp] theorem length_edges (l : List α) : (edges l).length = l.length := by
  rw [edges, List.length_zip, List.length_rotate, Nat.min_self]

theorem mem_of_mem_edges {l : List α} {e : α × α} (h : e ∈ edges l) : e.1 ∈ l ∧ e.2 ∈ l := by
  obtain ⟨hfst, hsnd⟩ := List.of_mem_zip h
  exact ⟨hfst, List.mem_rotate.1 hsnd⟩

theorem edges_rotate (l : List α) (n : Nat) : edges (l.rotate n) = (edges l).rotate n := by
  have hdistrib : (edges l).rotate n = (l.rotate n).zip ((l.rotate 1).rotate n) :=
    List.zipWith_rotate_distrib _ _ _ _ (by simp)
  rw [hdistrib, edges, List.rotate_rotate, List.rotate_rotate, Nat.add_comm]

theorem edges_rotate_perm (l : List α) (n : Nat) : (edges (l.rotate n)).Perm (edges l) := by
  rw [edges_rotate]
  exact List.rotate_perm _ n

/-- The edges read against the list: every element with the one before it. -/
theorem zip_rotate_pred_perm (l : List α) :
    (l.zip (l.rotate (l.length - 1))).Perm ((edges l).map Prod.swap) := by
  have hfull : l.rotate (l.length - 1 + 1) = l := by
    cases l with
    | nil => rfl
    | cons a l => exact List.rotate_length _
  have hrotate : (l.zip (l.rotate (l.length - 1))).rotate 1 = (l.rotate 1).zip l := by
    rw [List.zip, List.zipWith_rotate_distrib _ _ _ _ (by simp), List.rotate_rotate, hfull]
  rw [edges, List.zip_swap, ← hrotate]
  exact (List.rotate_perm _ 1).symm

theorem edges_reverse_perm (l : List α) : (edges l.reverse).Perm ((edges l).map Prod.swap) := by
  refine List.Perm.trans ?_ (zip_rotate_pred_perm l)
  rcases Nat.lt_or_ge 1 l.length with h | h
  · rw [edges, List.rotate_reverse, Nat.mod_eq_of_lt h, List.zip,
      ← List.reverse_zipWith (by simp)]
    exact List.reverse_perm _
  · -- a list of one element or none is its own reverse
    rcases l with - | ⟨a, - | ⟨b, l⟩⟩
    · exact .refl []
    · exact .of_eq (by simp [edges])
    · simp at h

/-! ## Changes around the ring -/

/-- Along a list an odd number of changes leads from one value to the other. -/
theorem odd_countP_changes_path (f : α → Bool) (a b : α) (l : List α) :
    Odd (((a :: l).zip (l ++ [b])).countP fun e => f e.1 != f e.2) ↔ f a ≠ f b := by
  induction l generalizing a with
  | nil => by_cases h : f a = f b <;> simp [h]
  | cons c l ih =>
    rw [List.cons_append, List.zip_cons_cons, List.countP_cons]
    by_cases hac : f a = f c
    · simp [hac, ih c]
    · have hstep : (f a != f c) = true := by simpa using hac
      rw [if_pos hstep, Nat.odd_add_one, ih c]
      revert hac
      cases f a <;> cases f b <;> cases f c <;> decide

/-- Around the ring it leads back. -/
theorem even_countP_changes (f : α → Bool) (l : List α) :
    Even ((edges l).countP fun e => f e.1 != f e.2) := by
  rw [← Nat.not_odd_iff_even]
  cases l with
  | nil => simp [edges]
  | cons a l =>
    rw [edges, List.rotate_cons_succ, List.rotate_zero, odd_countP_changes_path]
    exact not_not.2 rfl

end CyclicList
