import Mathlib.Data.List.DropRight

/-!
# The last elements of a list

A buffer of bounded size that gives up its first element when it is full holds the last `n` of what
has been put into it (`List.rtake`) and has given up the rest (`List.rdrop`). Putting more into it
composes: what it holds and gives up next depends only on what it holds (`rtake_rtake_append`,
`rdrop_append_rdrop`).
-/

set_option autoImplicit false

namespace Window

universe u

variable {α : Type u} (n : ℕ) (l m : List α)

theorem rdrop_append_rtake : l.rdrop n ++ l.rtake n = l :=
  List.take_append_drop (l.length - n) l

theorem length_rtake : (l.rtake n).length = min n l.length := by
  rw [List.rtake, List.length_drop]
  omega

variable {n l m}

theorem rtake_of_length_le (h : l.length ≤ n) : l.rtake n = l := by
  rw [List.rtake, Nat.sub_eq_zero_of_le h, List.drop_zero]

theorem rdrop_of_length_le (h : l.length ≤ n) : l.rdrop n = [] := by
  rw [List.rdrop, Nat.sub_eq_zero_of_le h, List.take_zero]

/-- A list that is split into an end of `n` elements and what stands before it. -/
theorem rdrop_rtake_append (h : m.length = n) : (l ++ m).rdrop n = l ∧ (l ++ m).rtake n = m := by
  subst h
  rw [List.rdrop, List.rtake, List.length_append, Nat.add_sub_cancel]
  exact ⟨List.take_left, List.drop_left⟩

/-- One element too many: the first goes. -/
theorem rdrop_rtake_cons {a : α} (h : l.length = n) :
    (a :: l).rdrop n = [a] ∧ (a :: l).rtake n = l :=
  rdrop_rtake_append (l := [a]) h

variable (n l m)

theorem rtake_rtake_append : (l.rtake n ++ m).rtake n = (l ++ m).rtake n := by
  rcases Nat.le_total l.length n with h | h
  · rw [rtake_of_length_le h]
  · -- the last `n` elements of both are an end of `l.rtake n ++ m`
    have hlen : (l.rtake n ++ m).length = n + m.length := by
      rw [List.length_append, length_rtake, Nat.min_eq_left h]
    have hsplit : l ++ m = (l.rdrop n ++ (l.rtake n ++ m).rdrop n) ++ (l.rtake n ++ m).rtake n := by
      rw [List.append_assoc, rdrop_append_rtake, ← List.append_assoc, rdrop_append_rtake]
    have hn : ((l.rtake n ++ m).rtake n).length = n := by
      rw [length_rtake, hlen]
      omega
    conv_rhs => rw [hsplit]
    exact (rdrop_rtake_append hn).2.symm

theorem rdrop_append_rdrop : l.rdrop n ++ (l.rtake n ++ m).rdrop n = (l ++ m).rdrop n := by
  have hall : l.rdrop n ++ (l.rtake n ++ m).rdrop n ++ (l ++ m).rtake n =
      (l ++ m).rdrop n ++ (l ++ m).rtake n := by
    rw [← rtake_rtake_append, List.append_assoc, rdrop_append_rtake, ← List.append_assoc,
      rdrop_append_rtake, rtake_rtake_append, rdrop_append_rtake]
  exact List.append_cancel_right hall

variable {n l m}

/-- What is put in last stays, when it fits. -/
theorem mem_rtake_append_of_mem (h : m.length ≤ n) {x : α} (hx : x ∈ m) :
    x ∈ (l ++ m).rtake n := by
  rw [List.rtake, List.length_append, List.drop_append_of_le_length (by omega)]
  exact List.mem_append_right _ hx

/-- What a property that stays true along the list keeps of the last `n` elements are the last `n`
of what it keeps. -/
theorem filter_rtake {q : α → Bool} (hq : l.Pairwise fun a b => q a = true → q b = true) :
    (l.rtake n).filter q = (l.filter q).rtake n := by
  induction l with
  | nil => simp [List.rtake]
  | cons a l ih =>
    rw [List.pairwise_cons] at hq
    by_cases hn : (a :: l).length ≤ n
    · rw [rtake_of_length_le hn, rtake_of_length_le ((List.length_filter_le _ _).trans hn)]
    · -- the first element is not among the last `n`
      have hdrop : (a :: l).rtake n = l.rtake n := by
        rw [List.length_cons] at hn
        rw [List.rtake, List.rtake, List.length_cons,
          show l.length + 1 - n = l.length - n + 1 by omega, List.drop_succ_cons]
      rw [hdrop, ih hq.2]
      cases ha : q a with
      | false => rw [List.filter_cons_of_neg (by simp [ha])]
      | true =>
        -- then all the rest is kept
        have hall : l.filter q = l := List.filter_eq_self.2 fun b hb => hq.1 b hb ha
        rw [List.filter_cons_of_pos ha, hall, hdrop]

end Window
