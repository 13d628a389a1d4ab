import Mathlib.Algebra.Order.BigOperators.Group.List
import Mathlib.Algebra.Order.Field.Basic
import Mathlib.Algebra.Order.Group.Unbundled.Abs
import Mathlib.Tactic.Linarith
import Mathlib.Tactic.Ring

/-!
# Costs of walks and tours

The cost of a walk is the sum of the costs of its steps. A tour goes back to where it started; when
the way back is free its cost is that of the walk, so tours are compared as open walks are. Costs
that are close step by step are close over a walk (`abs_walkCost_sub_le`).
-/

set_option autoImplicit false

namespace WalkCost

variable {α β M : Type*}

/-- The cost of a walk from `a` through the points of a list in turn. -/
def walkCost [Zero M] [Add M] (w : α → α → M) : α → List α → M
  | _, [] => 0
  | a, b :: rest => w a b + walkCost w b rest

/-- The cost of a walk that goes back to its start. -/
def tourCost [Zero M] [Add M] (w : α → α → M) (start : α) (visits : List α) : M :=
  walkCost w start (visits ++ [start])

section Monoid

variable [AddMonoid M]

theorem walkCost_append_free {w : α → α → M} {home : α} (hfree : ∀ a, w a home = 0) (a : α)
    (l : List α) : walkCost w a (l ++ [home]) = walkCost w a l := by
  induction l generalizing a with
  | nil => exact (add_zero _).trans (hfree a)
  | cons b rest ih => exact congrArg (w a b + ·) (ih b)

/-- With a free way back a tour costs what its walk does. -/
theorem tourCost_eq {w : α → α → M} {start : α} (hfree : ∀ a, w a start = 0) (visits : List α) :
    tourCost w start visits = walkCost w start visits :=
  walkCost_append_free hfree start visits

theorem walkCost_map (w : β → β → M) (f : α → β) (a : α) (l : List α) :
    walkCost w (f a) (l.map f) = walkCost (fun x y => w (f x) (f y)) a l := by
  induction l generalizing a with
  | nil => rfl
  | cons b rest ih => exact congrArg (w (f a) (f b) + ·) (ih b)

theorem map_walkCost {N : Type*} [AddMonoid N] (f : M →+ N) (w : α → α → M) (a : α) (l : List α) :
    f (walkCost w a l) = walkCost (fun x y => f (w x y)) a l := by
  induction l generalizing a with
  | nil => exact f.map_zero
  | cons b rest ih => exact (f.map_add _ _).trans (congrArg (f (w a b) + ·) (ih b))

/-- Only the costs of steps to the points of the walk matter. -/
theorem walkCost_congr {w w' : α → α → M} {l : List α} (h : ∀ x, ∀ y ∈ l, w x y = w' x y) (a : α) :
    walkCost w a l = walkCost w' a l := by
  induction l generalizing a with
  | nil => rfl
  | cons b rest ih =>
    rw [walkCost, walkCost, h a b List.mem_cons_self,
      ih (fun x y hy => h x y (List.mem_cons_of_mem _ hy)) b]

end Monoid

section Ordered

variable [Field M] [LinearOrder M] [IsStrictOrderedRing M]

/-- Costs that differ by at most `ε` in each step, after scaling, do so by at most `ε` a point over
a walk. -/
theorem abs_walkCost_sub_le {w w' : α → α → M} {scale ε : M}
    (h : ∀ x y, |w x y - scale * w' x y| ≤ ε) (a : α) (l : List α) :
    |walkCost w a l - scale * walkCost w' a l| ≤ l.length * ε := by
  induction l generalizing a with
  | nil => simp [walkCost]
  | cons b rest ih =>
    have hsplit : walkCost w a (b :: rest) - scale * walkCost w' a (b :: rest) =
        (w a b - scale * w' a b) + (walkCost w b rest - scale * walkCost w' b rest) := by
      rw [walkCost, walkCost]
      ring
    calc |walkCost w a (b :: rest) - scale * walkCost w' a (b :: rest)|
        ≤ |w a b - scale * w' a b| + |walkCost w b rest - scale * walkCost w' b rest| := by
          rw [hsplit]
          exact abs_add_le _ _
      _ ≤ ε + rest.length * ε := add_le_add (h a b) (ih b)
      _ = (b :: rest).length * ε := by
          rw [List.length_cons, Nat.cast_succ]
          ring

/-- A walk that is cheap by the rounded costs is nearly so by the scaled ones. -/
theorem walkCost_le_of_rounded {w w' : α → α → M} {scale slack : M} (hscale : 0 < scale)
    (h : ∀ x y, |w x y - scale * w' x y| ≤ 1 / 2) (a : α) {l l' : List α}
    (hlength : l.length = l'.length) (hle : walkCost w a l ≤ walkCost w a l' + slack) :
    walkCost w' a l ≤ walkCost w' a l' + (l.length + slack) / scale := by
  have hl := (abs_le.1 (abs_walkCost_sub_le h a l)).1
  have hl' := (abs_le.1 (abs_walkCost_sub_le h a l')).2
  rw [← hlength] at hl'
  rw [← sub_le_iff_le_add', le_div_iff₀ hscale]
  linarith

end Ordered

end WalkCost
