import Mathlib.Data.List.Sort

/-!
# Stable sorting

A list is the stable sort of another by a key when it has the same elements, its keys do not
decrease, and the elements of each key stand in the order they had. There is only one such list
(`IsStableSort.unique`), and a sort by a comparator that agrees with the key on every element and
the ones after it returns it (`sortBy_isStableSort`).
-/

set_option autoImplicit false

namespace StableSort

universe u v w

variable {α : Type u} {κ : Type v} [LinearOrder κ]

/-- `l'` is the stable sort of `l` by `key`. -/
structure IsStableSort (key : α → κ) (l l' : List α) : Prop where
  perm : l'.Perm l
  sorted : l'.Pairwise fun a b => key a ≤ key b
  ties : ∀ k, (l'.filter fun a => key a = k) = l.filter fun a => key a = k

/-- Of a sorted list and the elements of its first key, the head is determined. -/
theorem key_le_of_ties {key : α → κ} {a b : α} {l l' : List α}
    (hsorted : (b :: l').Pairwise fun a b => key a ≤ key b)
    (hties : ((a :: l).filter fun x => key x = key a) = (b :: l').filter fun x => key x = key a) :
    key b ≤ key a := by
  have ha : a ∈ (b :: l').filter fun x => key x = key a := hties ▸ by simp
  rcases List.mem_cons.1 (List.mem_filter.1 ha).1 with rfl | hmem
  · exact le_refl _
  · exact (List.pairwise_cons.1 hsorted).1 a hmem

/-- Two sorted lists with the same elements of each key, in the same order, are equal. -/
theorem eq_of_ties {key : α → κ} {l l' : List α} (hl : l.Pairwise fun a b => key a ≤ key b)
    (hl' : l'.Pairwise fun a b => key a ≤ key b)
    (hties : ∀ k, (l.filter fun a => key a = k) = l'.filter fun a => key a = k) : l = l' := by
  induction l generalizing l' with
  | nil =>
    symm
    rw [List.eq_nil_iff_forall_not_mem]
    intro b hb
    have hb : b ∈ l'.filter fun a => key a = key b := List.mem_filter.2 ⟨hb, by simp⟩
    rw [← hties] at hb
    exact List.not_mem_nil hb
  | cons a l ih =>
    cases l' with
    | nil => exact absurd (hties (key a)) (by simp)
    | cons b l' =>
      -- the heads have the same key, so they are the first elements of that key
      have hkey : key a = key b :=
        le_antisymm (key_le_of_ties hl (hties (key b)).symm) (key_le_of_ties hl' (hties (key a)))
      have hheads := hties (key a)
      rw [List.filter_cons_of_pos (by simp), List.filter_cons_of_pos (by simp [hkey])] at hheads
      obtain ⟨rfl, -⟩ := List.cons.inj hheads
      congr 1
      refine ih (List.pairwise_cons.1 hl).2 (List.pairwise_cons.1 hl').2 fun k => ?_
      have hk := hties k
      rw [List.filter_cons, List.filter_cons] at hk
      split at hk
      · exact (List.cons.inj hk).2
      · exact hk

theorem IsStableSort.unique {key : α → κ} {l l₁ l₂ : List α} (h₁ : IsStableSort key l l₁)
    (h₂ : IsStableSort key l l₂) : l₁ = l₂ :=
  eq_of_ties h₁.sorted h₂.sorted fun k => (h₁.ties k).trans (h₂.ties k).symm

theorem IsStableSort.map {β : Type w} {key : α → κ} (f : β → α) {l l' : List β}
    (h : IsStableSort (fun b => key (f b)) l l') : IsStableSort key (l.map f) (l'.map f) where
  perm := h.perm.map f
  sorted := List.pairwise_map.2 h.sorted
  ties k := by
    rw [List.filter_map, List.filter_map]
    exact congrArg (List.map f) (h.ties k)

/-- A key in another order that agrees with the first. -/
theorem IsStableSort.strictMono {μ : Type w} [LinearOrder μ] {key : α → κ} {f : κ → μ}
    (hf : StrictMono f) {l l' : List α} (h : IsStableSort key l l') :
    IsStableSort (fun a => f (key a)) l l' where
  perm := h.perm
  sorted := h.sorted.imp fun hab => hf.monotone hab
  ties m := by
    by_cases hm : ∃ k, f k = m
    · obtain ⟨k, rfl⟩ := hm
      simp only [hf.injective.eq_iff]
      exact h.ties k
    · have hnone : ∀ a, f (key a) ≠ m := fun a ha => hm ⟨key a, ha⟩
      simp [hnone]

/-! ## Sorting by insertion -/

section Insertion

variable (r s : α → α → Prop) [DecidableRel r] [DecidableRel s]

theorem orderedInsert_congr {a : α} {l : List α} (h : ∀ b ∈ l, r a b ↔ s a b) :
    l.orderedInsert r a = l.orderedInsert s a := by
  induction l with
  | nil => rfl
  | cons b l ih =>
    simp only [List.orderedInsert_cons, h b List.mem_cons_self,
      ih fun c hc => h c (List.mem_cons_of_mem b hc)]

/-- Only comparisons of an element with one after it matter. -/
theorem insertionSort_congr {l : List α} (h : l.Pairwise fun a b => r a b ↔ s a b) :
    l.insertionSort r = l.insertionSort s := by
  induction l with
  | nil => rfl
  | cons a l ih =>
    obtain ⟨ha, hl⟩ := List.pairwise_cons.1 h
    rw [List.insertionSort_cons, List.insertionSort_cons, ih hl]
    exact orderedInsert_congr r s fun b hb => ha b ((List.mem_insertionSort s).1 hb)

end Insertion

/-- An element goes before those of its own key. -/
theorem filter_orderedInsert (key : α → κ) (a : α) (l : List α) (k : κ) :
    ((l.orderedInsert (fun a b => key a ≤ key b) a).filter fun b => key b = k) =
      (a :: l).filter fun b => key b = k := by
  induction l with
  | nil => rfl
  | cons b l ih =>
    rw [List.orderedInsert_cons]
    split
    · rfl
    next hlt =>
      have hne : key b ≠ key a := (not_le.1 hlt).ne
      rw [List.filter_cons, ih, List.filter_cons, List.filter_cons, List.filter_cons]
      rcases eq_or_ne (key a) k with rfl | ha
      · simp [hne]
      · simp [ha]

theorem insertionSort_isStableSort (key : α → κ) (l : List α) :
    IsStableSort key l (l.insertionSort fun a b => key a ≤ key b) where
  perm := List.perm_insertionSort _ l
  sorted :=
    have : Std.Total fun a b : α => key a ≤ key b := ⟨fun _ _ => le_total _ _⟩
    have : IsTrans α fun a b : α => key a ≤ key b := ⟨fun _ _ _ => le_trans⟩
    List.pairwise_insertionSort _ l
  ties k := by
    induction l with
    | nil => rfl
    | cons a l ih =>
      rw [List.insertionSort_cons, filter_orderedInsert, List.filter_cons, List.filter_cons, ih]

/-! ## Sorting by a comparator -/

section Comparator

variable {V : Type w} [Zero V] [LE V] [DecidableLE V]

/-- The stable sort by a comparator, which answers at most zero when its first argument may stand
before its second. -/
def sortBy (compare : α → α → V) (l : List α) : List α :=
  l.insertionSort fun a b => compare a b ≤ 0

/-- The comparator need agree with the key only on an element and one after it. -/
theorem sortBy_isStableSort {compare : α → α → V} {key : α → κ} {l : List α}
    (h : l.Pairwise fun a b => compare a b ≤ 0 ↔ key a ≤ key b) :
    IsStableSort key l (sortBy compare l) := by
  rw [sortBy, insertionSort_congr _ (fun a b => key a ≤ key b) h]
  exact insertionSort_isStableSort key l

end Comparator

end StableSort
