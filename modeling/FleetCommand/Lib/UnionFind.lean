import Mathlib.Order.Bounds.Defs
import Mathlib.Order.Fin.Basic
import Mathlib.Logic.Relation

/-!
# Union-find

A forest on `Fin n` in which no parent lies above its child, with path compression; of two roots the
smaller stays a root. Compression changes no root, and after a list of operations two elements have
the same root exactly when the unions among them connect them.
-/

set_option autoImplicit false

/-- A forest on `Fin n`; a root is its own parent. -/
structure UnionFind (n : Nat) where
  parents : Vector (Fin n) n
  parent_le : ∀ x : Fin n, parents[x] ≤ x

namespace UnionFind

variable {n : Nat}

/-- Every element is a root. -/
def new (n : Nat) : UnionFind n where
  parents := Vector.ofFn id
  parent_le x := by simp

/-- The parent of an element. -/
def parent (uf : UnionFind n) (x : Fin n) : Fin n := uf.parents[x]

/-- `x` hangs below `p`. -/
def setParent (uf : UnionFind n) (x p : Fin n) (h : p ≤ x) : UnionFind n where
  parents := uf.parents.set x p
  parent_le y := by
    rw [Fin.getElem_fin, Vector.getElem_set]
    split
    next hxy => exact Fin.eq_of_val_eq hxy ▸ h
    next => exact uf.parent_le y

@[simp] theorem parent_new (x : Fin n) : (new n).parent x = x := by
  simp [parent, new]

theorem parent_setParent (uf : UnionFind n) (x p : Fin n) (h : p ≤ x) (y : Fin n) :
    (uf.setParent x p h).parent y = if y = x then p else uf.parent y := by
  rw [parent, setParent, Fin.getElem_fin, Vector.getElem_set, parent, Fin.getElem_fin]
  simp only [Fin.ext_iff, eq_comm]

theorem parent_lt (uf : UnionFind n) {x : Fin n} (h : uf.parent x ≠ x) : uf.parent x < x :=
  lt_of_le_of_ne (uf.parent_le x) h

/-! ## Roots -/

/-- The root above `x`. -/
def root (uf : UnionFind n) (x : Fin n) : Fin n :=
  if uf.parent x = x then x else uf.root (uf.parent x)
termination_by x.val
decreasing_by exact uf.parent_lt ‹_›

theorem root_of_parent_eq (uf : UnionFind n) {x : Fin n} (h : uf.parent x = x) : uf.root x = x := by
  rw [root, if_pos h]

@[simp] theorem root_parent (uf : UnionFind n) (x : Fin n) : uf.root (uf.parent x) = uf.root x := by
  rw [root.eq_1 uf x]
  split
  next h => rw [h, root_of_parent_eq uf h]
  next => rfl

@[simp] theorem parent_root (uf : UnionFind n) (x : Fin n) : uf.parent (uf.root x) = uf.root x := by
  fun_induction root uf x with
  | case1 x h => exact h
  | case2 x h ih => exact ih

@[simp] theorem root_root (uf : UnionFind n) (x : Fin n) : uf.root (uf.root x) = uf.root x :=
  root_of_parent_eq uf (uf.parent_root x)

theorem root_le (uf : UnionFind n) (x : Fin n) : uf.root x ≤ x := by
  fun_induction root uf x with
  | case1 x h => exact le_refl x
  | case2 x h ih => exact ih.trans (uf.parent_le x)

/-- The root is the only function that does not change along a parent and is the identity on the
roots. -/
theorem root_unique (uf : UnionFind n) {f : Fin n → Fin n} (hparent : ∀ x, f (uf.parent x) = f x)
    (hroot : ∀ x, uf.parent x = x → f x = x) (x : Fin n) : uf.root x = f x := by
  fun_induction root uf x with
  | case1 x h => exact (hroot x h).symm
  | case2 x h ih => rw [ih, hparent]

@[simp] theorem root_new (x : Fin n) : (new n).root x = x :=
  root_of_parent_eq _ (parent_new x)

/-- An element may hang below its root directly. -/
theorem root_setParent_root (uf : UnionFind n) (x : Fin n) (y : Fin n) :
    (uf.setParent x (uf.root x) (uf.root_le x)).root y = uf.root y := by
  apply root_unique
  · intro z
    rw [parent_setParent]
    split
    next h => rw [h, root_root]
    next => exact uf.root_parent z
  · intro z hz
    rw [parent_setParent] at hz
    split at hz
    next h => rw [h] at hz ⊢; exact hz
    next => exact uf.root_of_parent_eq hz

/-- A root that hangs below a smaller root hands its elements over. -/
theorem root_setParent_of_root (uf : UnionFind n) {a b : Fin n} (ha : uf.parent a = a)
    (hb : uf.parent b = b) (hlt : b < a) (y : Fin n) :
    (uf.setParent a b hlt.le).root y = if uf.root y = a then b else uf.root y := by
  have hroota : uf.root a = a := uf.root_of_parent_eq ha
  have hrootb : uf.root b = b := uf.root_of_parent_eq hb
  apply root_unique _ (f := fun y => if uf.root y = a then b else uf.root y)
  · intro z
    rw [parent_setParent]
    split
    next h => rw [h, hrootb, if_neg hlt.ne, hroota, if_pos rfl]
    next => rw [root_parent]
  · intro z hz
    rw [parent_setParent] at hz
    split at hz
    next h => exact absurd (hz.trans h) hlt.ne
    next h => rw [uf.root_of_parent_eq hz, if_neg h]

/-! ## Find and union -/

/-- Every element on the way from `x` to its root gets the root as its parent. -/
def compress (uf : UnionFind n) (root x : Fin n) (h : uf.root x = root) : UnionFind n :=
  if hx : uf.parent x = root then uf
  else (uf.setParent x (uf.root x) (uf.root_le x)).compress root (uf.parent x) (by
    rw [root_setParent_root, root_parent, h])
termination_by x.val
decreasing_by
  apply uf.parent_lt
  intro hself
  exact hx (hself.trans ((uf.root_of_parent_eq hself).symm.trans h))

theorem root_compress (uf : UnionFind n) (root x : Fin n) (h : uf.root x = root) (y : Fin n) :
    (uf.compress root x h).root y = uf.root y := by
  fun_induction compress uf root x h with
  | case1 uf x h hx => rfl
  | case2 uf x h hx ih => rw [ih, root_setParent_root]

/-- The root of `x`, with the way to it compressed. -/
def find (uf : UnionFind n) (x : Fin n) : Fin n × UnionFind n :=
  (uf.root x, uf.compress (uf.root x) x rfl)

@[simp] theorem find_fst (uf : UnionFind n) (x : Fin n) : (uf.find x).1 = uf.root x := rfl

@[simp] theorem root_find (uf : UnionFind n) (x y : Fin n) : (uf.find x).2.root y = uf.root y :=
  root_compress uf (uf.root x) x rfl y

/-- The larger of the two roots is hung below the smaller one. -/
def union (uf : UnionFind n) (a b : Fin n) : UnionFind n :=
  let (ra, uf) := uf.find a
  let (rb, uf) := uf.find b
  if ra ≠ rb then
    uf.setParent (max ra rb) (min ra rb) ((min_le_left ra rb).trans (le_max_left ra rb))
  else uf

theorem root_union (uf : UnionFind n) (a b y : Fin n) :
    (uf.union a b).root y =
      if uf.root y = max (uf.root a) (uf.root b) then min (uf.root a) (uf.root b)
      else uf.root y := by
  -- the forest the link is made in: both ways compressed
  let found := ((uf.find a).2.find b).2
  have hroot : ∀ z, found.root z = uf.root z := fun z => by
    rw [root_find, root_find]
  have hparent : ∀ z, found.parent (uf.root z) = uf.root z := fun z => by
    rw [← hroot z, parent_root]
  rw [union]
  dsimp only
  simp only [find_fst, root_find]
  split
  next hne =>
    rcases lt_or_gt_of_ne hne with hlt | hlt
    · simp only [max_eq_right hlt.le, min_eq_left hlt.le]
      rw [root_setParent_of_root _ (hparent b) (hparent a) hlt, hroot]
    · simp only [max_eq_left hlt.le, min_eq_right hlt.le]
      rw [root_setParent_of_root _ (hparent a) (hparent b) hlt, hroot]
  next heq =>
    have heq : uf.root a = uf.root b := not_not.1 heq
    rw [heq, max_self, min_self]
    split
    next h => exact (hroot y).trans h
    next => exact hroot y

/-! ## Classes -/

/-- Two elements have the same root. -/
def Same (uf : UnionFind n) (x y : Fin n) : Prop := uf.root x = uf.root y

theorem same_union_iff (uf : UnionFind n) (a b x y : Fin n) :
    (uf.union a b).Same x y ↔ uf.Same x y ∨
      (uf.Same x a ∧ uf.Same b y) ∨ (uf.Same x b ∧ uf.Same a y) := by
  simp only [Same, root_union]
  rcases le_total (uf.root a) (uf.root b) with h | h
  · simp only [max_eq_right h, min_eq_left h]
    grind
  · simp only [max_eq_left h, min_eq_right h]
    grind

/-- A root is the least of its class. -/
theorem isLeast_root (uf : UnionFind n) (x : Fin n) : IsLeast {y | uf.Same x y} (uf.root x) :=
  ⟨(uf.root_root x).symm, fun y hy => hy.trans_le (uf.root_le y)⟩

/-! ## Sequences of operations -/

/-- A call of `find` or of `union`. -/
inductive Op (n : Nat) where
  | find (x : Fin n)
  | union (a b : Fin n)

/-- One operation; the answer of a find is dropped. -/
def apply (uf : UnionFind n) : Op n → UnionFind n
  | .find x => (uf.find x).2
  | .union a b => uf.union a b

/-- After some operations two elements are in one class exactly when the unions among them and the
classes before connect them. -/
theorem same_foldl_apply_iff (ops : List (Op n)) (uf : UnionFind n) (x y : Fin n) :
    (ops.foldl apply uf).Same x y ↔
      Relation.EqvGen (fun a b => uf.Same a b ∨ Op.union a b ∈ ops) x y := by
  induction ops generalizing uf x y with
  | nil =>
    simp only [List.foldl_nil, List.not_mem_nil, or_false]
    constructor
    · exact fun h => .rel x y h
    · intro h
      induction h with
      | rel a b h => exact h
      | refl a => rfl
      | symm a b h ih => exact ih.symm
      | trans a b c h h' ih ih' => exact ih.trans ih'
  | cons op ops ih =>
    rw [List.foldl_cons, ih]
    cases op with
    | find z => simp [apply, Same]
    | union p q =>
      simp only [apply, same_union_iff, List.mem_cons, Op.union.injEq]
      constructor
      · intro h
        induction h with
        | rel a b h =>
          rcases h with (h | ⟨h, h'⟩ | ⟨h, h'⟩) | h
          · exact .rel a b (.inl h)
          · exact .trans a p b (.rel a p (.inl h))
              (.trans p q b (.rel p q (.inr (.inl ⟨rfl, rfl⟩))) (.rel q b (.inl h')))
          · exact .trans a q b (.rel a q (.inl h))
              (.trans q p b (.symm p q (.rel p q (.inr (.inl ⟨rfl, rfl⟩)))) (.rel p b (.inl h')))
          · exact .rel a b (.inr (.inr h))
        | refl a => exact .refl a
        | symm a b h ih => exact .symm a b ih
        | trans a b c h h' ih ih' => exact .trans a b c ih ih'
      · apply Relation.EqvGen.mono
        rintro a b (h | ⟨rfl, rfl⟩ | h)
        · exact .inl (.inl h)
        · -- the pair itself
          exact .inl (.inr (.inl ⟨rfl, rfl⟩))
        · exact .inr h

/-- After the unions of some pairs two elements are in one class exactly when the pairs and the
classes before connect them. -/
theorem same_foldl_union_iff (pairs : List (Fin n × Fin n)) (uf : UnionFind n) (x y : Fin n) :
    (pairs.foldl (fun uf p => uf.union p.1 p.2) uf).Same x y ↔
      Relation.EqvGen (fun a b => uf.Same a b ∨ (a, b) ∈ pairs) x y := by
  have hops := same_foldl_apply_iff (pairs.map fun p => .union p.1 p.2) uf x y
  rw [List.foldl_map] at hops
  simpa [apply] using hops

end UnionFind
