import FleetCommand.Lib.UnionFind
import FleetCommand.Lib.WhileLoop
import Mathlib.Data.List.GetD

/-!
# The parent list

`_UnionFind` as it is written: a list of parents, `find` with one loop that climbs to the root and
one that compresses the path, `union` on top of it. Any sequence of calls ends, with the list of the
forest that the same operations make of `UnionFind` (`Represents.run`); so the parents are never
above their children, `find` returns the least index of the class that the unions connect, and
compression keeps the classes (`unionFind_sound`).
-/

set_option autoImplicit false

namespace FleetCommand.Optimizer

open WhileLoop

/-- `_UnionFind`. -/
structure ParentList where
  parent : List Nat

namespace ParentList

/-- `list(range(n))`. -/
def new (n : Nat) : ParentList := ⟨List.range n⟩

/-- `self._parent[x]`; no call reads outside the list. -/
def parentOf (uf : ParentList) (x : Nat) : Nat := uf.parent.getD x 0

/-- `self._parent[x] = p`. -/
def setParent (uf : ParentList) (x p : Nat) : ParentList := ⟨uf.parent.set x p⟩

/-- One turn of the loop to the root. -/
def climb (uf : ParentList) (root : Nat) : Option Nat :=
  if uf.parentOf root ≠ root then some (uf.parentOf root) else none

/-- One turn of path compression. -/
def compress (root : Nat) : ParentList × Nat → Option (ParentList × Nat)
  | (uf, x) => if uf.parentOf x ≠ root then some (uf.setParent x root, uf.parentOf x) else none

/-- `find`, when each of its loops makes at most `fuel` turns. -/
def find (fuel : Nat) (uf : ParentList) (x : Nat) : Option (Nat × ParentList) := do
  let root ← exec uf.climb fuel x
  let (uf, _) ← exec (compress root) fuel (uf, x)
  return (root, uf)

/-- The sets of two elements are joined under the smaller root. -/
def union (fuel : Nat) (uf : ParentList) (a b : Nat) : Option ParentList := do
  let (ra, uf) ← find fuel uf a
  let (rb, uf) ← find fuel uf b
  if ra ≠ rb then return uf.setParent (max ra rb) (min ra rb)
  else return uf

variable {n : Nat}

/-- One call; what `find` returns is not kept. -/
def call (fuel : Nat) (uf : ParentList) : UnionFind.Op n → Option ParentList
  | .find x => (uf.find fuel x).map Prod.snd
  | .union a b => uf.union fuel a b

/-- The calls in order. -/
def run (fuel : Nat) (uf : ParentList) : List (UnionFind.Op n) → Option ParentList
  | [] => some uf
  | op :: ops => (uf.call fuel op).bind fun uf => uf.run fuel ops

/-! ## The list of a forest -/

/-- The list holds the parents of the forest. -/
structure Represents (uf : ParentList) (forest : UnionFind n) : Prop where
  length : uf.parent.length = n
  parent : ∀ x : Fin n, uf.parentOf x = forest.parent x

variable {uf : ParentList} {forest : UnionFind n}

theorem represents_new (n : Nat) : Represents (new n) (UnionFind.new n) where
  length := List.length_range
  parent x := by
    rw [parentOf, new, List.getD_eq_getElem _ _ (by simp), List.getElem_range, UnionFind.parent_new]

theorem Represents.setParent (h : Represents uf forest) (x p : Fin n) (hle : p ≤ x) :
    Represents (uf.setParent x p) (forest.setParent x p hle) where
  length := by
    rw [ParentList.setParent, List.length_set, h.length]
  parent y := by
    have hy : y.val < (uf.parent.set x p).length := by
      rw [List.length_set, h.length]
      exact y.isLt
    have hparent := h.parent y
    rw [parentOf, List.getD_eq_getElem _ _ (h.length ▸ y.isLt)] at hparent
    rw [parentOf, ParentList.setParent, List.getD_eq_getElem _ _ hy, List.getElem_set,
      UnionFind.parent_setParent]
    simp only [Fin.ext_iff, eq_comm, hparent]
    split <;> rfl

/-! ## The loops of `find` -/

/-- The loop to the root ends after at most as many turns as the index is large. -/
theorem Represents.exec_climb (h : Represents uf forest) (x : Fin n) {fuel : Nat}
    (hfuel : x ≤ fuel) : exec uf.climb fuel x = some (forest.root x : Nat) := by
  fun_induction UnionFind.root forest x generalizing fuel with
  | case1 x hself =>
    have hstop : uf.climb x = none := by
      rw [climb, h.parent, hself, if_neg (not_not_intro rfl)]
    exact exec_of_none hstop fuel
  | case2 x hparent ih =>
    have hlt : forest.parent x < x := forest.parent_lt hparent
    have hturn : uf.climb x = some (forest.parent x : Nat) := by
      rw [climb, h.parent, if_pos fun heq => hparent (Fin.ext heq)]
    obtain ⟨fuel, rfl⟩ : ∃ rest, fuel = rest + 1 := ⟨fuel - 1, by omega⟩
    rw [exec_of_some hturn]
    exact ih (by omega)

/-- The same of path compression, which leaves the compressed forest. -/
theorem Represents.exec_compress (h : Represents uf forest) (root x : Fin n)
    (hroot : forest.root x = root) {fuel : Nat} (hfuel : x ≤ fuel) :
    ∃ uf' x', exec (ParentList.compress root) fuel (uf, x.val) = some (uf', x') ∧
      Represents uf' (forest.compress root x hroot) := by
  fun_induction UnionFind.compress forest root x hroot generalizing uf fuel with
  | case1 forest x hroot hparent =>
    have hstop : ParentList.compress root (uf, x.val) = none := by
      rw [ParentList.compress, h.parent, hparent, if_neg (not_not_intro rfl)]
    exact ⟨uf, x, exec_of_none hstop fuel, h⟩
  | case2 forest x hroot hparent ih =>
    have hturn : ParentList.compress root (uf, x.val) =
        some (uf.setParent x (forest.root x), (forest.parent x : Nat)) := by
      rw [ParentList.compress, h.parent, hroot, if_pos fun heq => hparent (Fin.ext heq)]
    have hlt : forest.parent x < x := by
      apply forest.parent_lt
      intro hself
      exact hparent (hself.trans ((forest.root_of_parent_eq hself).symm.trans hroot))
    obtain ⟨fuel, rfl⟩ : ∃ rest, fuel = rest + 1 := ⟨fuel - 1, by omega⟩
    rw [exec_of_some hturn]
    exact ih (h.setParent x (forest.root x) (forest.root_le x)) (by omega)

/-- `find` ends, with the root and the list of the compressed forest. -/
theorem Represents.find (h : Represents uf forest) (x : Fin n) :
    ∃ uf', (∀ fuel, n ≤ fuel → uf.find fuel x = some ((forest.root x : Nat), uf')) ∧
      Represents uf' (forest.find x).2 := by
  obtain ⟨uf', x', hcompress, huf'⟩ := h.exec_compress (forest.root x) x rfl (le_refl _)
  refine ⟨uf', fun fuel hfuel => ?_, huf'⟩
  have hx : x.val ≤ fuel := x.isLt.le.trans hfuel
  rw [ParentList.find, h.exec_climb x hx, Option.bind_eq_bind, Option.bind_some,
    exec_mono hcompress hx]
  rfl

theorem union_eq {fuel a b ra rb : Nat} {uf uf₁ uf₂ : ParentList}
    (ha : uf.find fuel a = some (ra, uf₁)) (hb : uf₁.find fuel b = some (rb, uf₂)) :
    uf.union fuel a b =
      some (if ra ≠ rb then uf₂.setParent (max ra rb) (min ra rb) else uf₂) := by
  rw [union, ha, Option.bind_eq_bind, Option.bind_some]
  dsimp only
  rw [hb, Option.bind_some]
  dsimp only
  split <;> rfl

theorem Represents.union (h : Represents uf forest) (a b : Fin n) :
    ∃ uf', (∀ fuel, n ≤ fuel → uf.union fuel a b = some uf') ∧
      Represents uf' (forest.union a b) := by
  obtain ⟨uf₁, hfind₁, h₁⟩ := h.find a
  obtain ⟨uf₂, hfind₂, h₂⟩ := h₁.find b
  refine ⟨_, fun fuel hfuel => union_eq (hfind₁ fuel hfuel) (hfind₂ fuel hfuel), ?_⟩
  rw [UnionFind.union]
  dsimp only
  split
  next hne =>
    split
    next =>
      have hlink := h₂.setParent (max (forest.root a) ((forest.find a).2.root b))
        (min (forest.root a) ((forest.find a).2.root b)) ((min_le_left _ _).trans (le_max_left _ _))
      rw [Fin.coe_max, Fin.coe_min] at hlink
      exact hlink
    next heq => exact absurd (congrArg Fin.val (not_not.1 heq)) hne
  next heq =>
    split
    next hne => exact absurd (Fin.ext (not_not.1 heq)) hne
    next => exact h₂

theorem Represents.call (h : Represents uf forest) (op : UnionFind.Op n) :
    ∃ uf', (∀ fuel, n ≤ fuel → uf.call fuel op = some uf') ∧
      Represents uf' (forest.apply op) := by
  cases op with
  | find x =>
    obtain ⟨uf', hfind, huf'⟩ := h.find x
    refine ⟨uf', fun fuel hfuel => ?_, huf'⟩
    rw [ParentList.call, hfind fuel hfuel, Option.map_some]
  | union a b => exact h.union a b

/-- Any sequence of calls ends, with the list of the forest. -/
theorem Represents.run (h : Represents uf forest) (ops : List (UnionFind.Op n)) :
    ∃ uf', (∀ fuel, n ≤ fuel → uf.run fuel ops = some uf') ∧
      Represents uf' (ops.foldl UnionFind.apply forest) := by
  induction ops generalizing uf forest with
  | nil => exact ⟨uf, fun _ _ => rfl, h⟩
  | cons op ops ih =>
    obtain ⟨uf₁, hcall, h₁⟩ := h.call op
    obtain ⟨uf', hrun, h'⟩ := ih h₁
    refine ⟨uf', fun fuel hfuel => ?_, h'⟩
    rw [ParentList.run, hcall fuel hfuel, Option.bind_some, hrun fuel hfuel]

/-! ## Classes -/

/-- The unions among the calls connect two indices. -/
def Connected (ops : List (UnionFind.Op n)) : Fin n → Fin n → Prop :=
  Relation.EqvGen fun a b => UnionFind.Op.union a b ∈ ops

/-- What `find` returns. -/
def rootOf (fuel : Nat) (uf : ParentList) (x : Nat) : Option Nat := (uf.find fuel x).map Prod.fst

/-- A list of `n` parents whose classes are those that the unions connect. -/
structure Sound (ops : List (UnionFind.Op n)) (uf : ParentList) : Prop where
  length : uf.parent.length = n
  /-- No parent is above its child. -/
  parent_le : ∀ (i : Nat) (p : Nat), uf.parent[i]? = some p → p ≤ i
  /-- `find` ends and returns the least index of the class. -/
  least : ∀ x : Fin n, ∃ r : Fin n, (∀ fuel, n ≤ fuel → uf.rootOf fuel x = some r.val) ∧
    IsLeast {y | Connected ops x y} r
  /-- `find` tells the classes apart. -/
  same_iff : ∀ x y : Fin n, ∀ fuel, n ≤ fuel →
    (uf.rootOf fuel x = uf.rootOf fuel y ↔ Connected ops x y)
  /-- The compression of `find` changes nothing that `find` returns. -/
  compression : ∀ x y : Fin n, ∀ fuel, n ≤ fuel → ∀ r uf', uf.find fuel x = some (r, uf') →
    uf'.rootOf fuel y = uf.rootOf fuel y

theorem Represents.rootOf (h : Represents uf forest) (x : Fin n) {fuel : Nat} (hfuel : n ≤ fuel) :
    uf.rootOf fuel x = some (forest.root x : Nat) := by
  obtain ⟨uf', hfind, -⟩ := h.find x
  rw [ParentList.rootOf, hfind fuel hfuel, Option.map_some]

theorem Represents.parent_le (h : Represents uf forest) {i p : Nat} (hp : uf.parent[i]? = some p) :
    p ≤ i := by
  obtain ⟨hi, rfl⟩ := List.getElem?_eq_some_iff.1 hp
  have hparent := h.parent ⟨i, h.length ▸ hi⟩
  rw [parentOf, List.getD_eq_getElem _ _ hi] at hparent
  rw [hparent]
  exact forest.parent_le ⟨i, h.length ▸ hi⟩

theorem same_run_iff (ops : List (UnionFind.Op n)) (x y : Fin n) :
    (ops.foldl UnionFind.apply (UnionFind.new n)).Same x y ↔ Connected ops x y := by
  rw [UnionFind.same_foldl_apply_iff, Connected]
  simp only [UnionFind.Same, UnionFind.root_new]
  constructor
  · intro h
    induction h with
    | rel a b h =>
      rcases h with rfl | h
      · exact .refl a
      · exact .rel a b h
    | refl a => exact .refl a
    | symm a b h ih => exact .symm a b ih
    | trans a b c h h' ih ih' => exact .trans a b c ih ih'
  · apply Relation.EqvGen.mono
    intro a b h
    exact Or.inr h

/-- For every size and every sequence of calls: the calls end, with a sound list. -/
theorem unionFind_sound (n : Nat) (ops : List (UnionFind.Op n)) :
    ∃ uf : ParentList, (∀ fuel, n ≤ fuel → (new n).run fuel ops = some uf) ∧ Sound ops uf := by
  obtain ⟨uf, hrun, h⟩ := (represents_new n).run ops
  refine ⟨uf, hrun, h.length, fun i p hp => h.parent_le hp, fun x => ?_, fun x y fuel hfuel => ?_,
    fun x y fuel hfuel r uf' hfind => ?_⟩
  · refine ⟨_, fun fuel hfuel => h.rootOf x hfuel, ?_⟩
    have hleast := UnionFind.isLeast_root (ops.foldl UnionFind.apply (UnionFind.new n)) x
    simpa only [same_run_iff] using hleast
  · rw [h.rootOf x hfuel, h.rootOf y hfuel, ← same_run_iff, UnionFind.Same, Option.some.injEq,
      Fin.val_inj]
  · obtain ⟨uf'', hfind', h'⟩ := h.find x
    obtain ⟨-, rfl⟩ := Prod.mk.inj (Option.some.inj ((hfind' fuel hfuel).symm.trans hfind))
    rw [h.rootOf y hfuel, h'.rootOf y hfuel, UnionFind.root_find]

-- the path from 4 is compressed by `find`
example : ((new 5).run (n := 5) 5 [.union 4 3, .union 3 1, .find 4]).map ParentList.parent =
    some [0, 1, 2, 1, 1] := by
  decide

end ParentList

end FleetCommand.Optimizer
