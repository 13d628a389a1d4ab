import FleetCommand.Lib.PlaneSegments
import Mathlib.Data.Nat.Periodic
import Mathlib.Algebra.Ring.Parity

/-!
# Ray crossing in a strictly convex ring

A ring of `n` points is a periodic sequence `v`, whose edges go from `v k` to `v (k + 1)`. It is
strictly convex when every other vertex is strictly on one side of every edge; the factor `σ` says
on which. A horizontal ray that starts at `p` crosses the edges that pass the level of `p` to the
right of it (`Crosses`). Of the edges that pass a level at most one goes up and at most one goes
down (`up_unique`, `down_unique`), and `p` is between the two points where they pass its level
exactly when one of the two is crossed; so a point off the boundary is inside exactly when the
number of crossings is odd (`odd_crossings_iff`).
-/

set_option autoImplicit false

namespace ConvexRing

open PlaneSegments AffineMap

variable {K : Type} [Field K] [LinearOrder K] [IsStrictOrderedRing K]

/-! ## Passing a level -/

section Level

variable {a b p : K × K} {y : K}

/-- The edge comes from a point at or below the level and ends above it. -/
def GoesUp (y : K) (a b : K × K) : Prop := a.2 ≤ y ∧ y < b.2

/-- The edge comes from above the level and ends at or below it. -/
def GoesDown (y : K) (a b : K × K) : Prop := y < a.2 ∧ b.2 ≤ y

/-- Where the line through two points has the height `y`. -/
def passing (y : K) (a b : K × K) : K := (a.1 - b.1) * (y - b.2) / (a.2 - b.2) + b.1

/-- A horizontal ray to the right from `p` crosses the edge. -/
def Crosses (p a b : K × K) : Prop :=
  (GoesUp p.2 a b ∨ GoesDown p.2 a b) ∧ p.1 < passing p.2 a b

omit [LinearOrder K] [IsStrictOrderedRing K] in
/-- At its own level, a point's side of an edge is its side of the passing point. -/
theorem cross_eq_mul (hab : a.2 ≠ b.2) (x y : K) :
    cross a b (x, y) = (b.2 - a.2) * (passing y a b - x) := by
  have hne : a.2 - b.2 ≠ 0 := sub_ne_zero.2 hab
  rw [cross, passing]
  field_simp
  ring

omit [LinearOrder K] [IsStrictOrderedRing K] in
/-- The passing point as a point of the edge's line. -/
theorem lineMap_passing (hab : a.2 ≠ b.2) :
    lineMap a b ((y - a.2) / (b.2 - a.2)) = (passing y a b, y) := by
  have hne : b.2 - a.2 ≠ 0 := sub_ne_zero.2 hab.symm
  have hneg : a.2 - b.2 = -(b.2 - a.2) := by ring
  refine Prod.ext ?_ ?_
  · rw [lineMap_fst, passing, hneg, div_neg]
    field_simp
    ring
  · rw [lineMap_snd, div_mul_cancel₀ _ hne]
    ring

/-- An edge that goes up passes the level before its end. -/
theorem GoesUp.exists_passing (h : GoesUp y a b) :
    ∃ t : K, 0 ≤ t ∧ t < 1 ∧ lineMap a b t = (passing y a b, y) := by
  have hpos : 0 < b.2 - a.2 := sub_pos.2 (h.1.trans_lt h.2)
  refine ⟨_, div_nonneg (sub_nonneg.2 h.1) hpos.le, (div_lt_one hpos).2 ?_,
    lineMap_passing (h.1.trans_lt h.2).ne⟩
  exact sub_lt_sub_right h.2 _

/-- An edge that goes down passes the level after its start. -/
theorem GoesDown.exists_passing (h : GoesDown y a b) :
    ∃ t : K, 0 < t ∧ t ≤ 1 ∧ lineMap a b t = (passing y a b, y) := by
  have hneg : b.2 - a.2 < 0 := sub_neg.2 (h.2.trans_lt h.1)
  refine ⟨_, div_pos_of_neg_of_neg (sub_neg.2 h.1) hneg, (div_le_one_of_neg hneg).2 ?_,
    lineMap_passing (h.2.trans_lt h.1).ne'⟩
  exact sub_le_sub_right h.2 _

/-- Where the edge passes a level, it is on the edge. -/
theorem passing_mem_segment (h : GoesUp y a b ∨ GoesDown y a b) :
    (passing y a b, y) ∈ segment K a b := by
  rcases h with hup | hdown
  · obtain ⟨t, ht0, ht1, hpoint⟩ := hup.exists_passing
    exact hpoint ▸ lineMap_mem_segment K a b ⟨ht0, ht1.le⟩
  · obtain ⟨t, ht0, ht1, hpoint⟩ := hdown.exists_passing
    exact hpoint ▸ lineMap_mem_segment K a b ⟨ht0.le, ht1⟩

end Level

instance (y : K) (a b : K × K) : Decidable (GoesUp y a b) := inferInstanceAs (Decidable (_ ∧ _))

instance (y : K) (a b : K × K) : Decidable (GoesDown y a b) := inferInstanceAs (Decidable (_ ∧ _))

instance (p a b : K × K) : Decidable (Crosses p a b) := inferInstanceAs (Decidable (_ ∧ _))

/-! ## Strictly convex rings -/

/-- Every vertex that is not an endpoint of an edge is strictly on the same side of it. -/
structure StrictlyConvex (σ : K) (n : ℕ) (v : ℕ → K × K) : Prop where
  three : 3 ≤ n
  periodic : ∀ k, v (k + n) = v k
  convex : ∀ k j, ¬ j ≡ k [MOD n] → ¬ j ≡ k + 1 [MOD n] → 0 < σ * cross (v k) (v (k + 1)) (v j)

/-- Inside or on the boundary: on the right side of every edge. -/
def Within (σ : K) (v : ℕ → K × K) (p : K × K) : Prop :=
  ∀ k, 0 ≤ σ * cross (v k) (v (k + 1)) p

namespace StrictlyConvex

variable {σ : K} {n : ℕ} {v : ℕ → K × K} {p : K × K}

omit [IsStrictOrderedRing K] in
theorem pos (h : StrictlyConvex σ n v) : 0 < n :=
  Nat.zero_lt_of_lt h.three

omit [IsStrictOrderedRing K] in
theorem vertex_eq (h : StrictlyConvex σ n v) {j k : ℕ} (hjk : j ≡ k [MOD n]) : v j = v k := by
  have hmod := Function.Periodic.map_mod_nat h.periodic
  rw [← hmod j, ← hmod k, hjk]

omit [IsStrictOrderedRing K] in
/-- One vertex and the next two are distinct positions of the ring. -/
theorem not_modEq_add (h : StrictlyConvex σ n v) (k : ℕ) {d : ℕ} (hd : 0 < d) (hlt : d < 3) :
    ¬ k + d ≡ k [MOD n] := by
  intro hmod
  have hdvd : n ∣ d := Nat.modEq_zero_iff_dvd.1 (Nat.ModEq.add_left_cancel' k hmod)
  exact absurd (h.three.trans (Nat.le_of_dvd hd hdvd)) hlt.not_ge

omit [IsStrictOrderedRing K] in
/-- No vertex is outside. -/
theorem within_vertex (h : StrictlyConvex σ n v) (j : ℕ) : Within σ v (v j) := by
  intro k
  by_cases hk : j ≡ k [MOD n]
  · rw [h.vertex_eq hk, cross_self_left, mul_zero]
  by_cases hk' : j ≡ k + 1 [MOD n]
  · rw [h.vertex_eq hk', cross_self_right, mul_zero]
  exact (h.convex k j hk hk').le

end StrictlyConvex

section Sides

variable {σ : K} {n : ℕ} {v : ℕ → K × K} {p q : K × K} {y : K} {k l : ℕ}

/-- What lies between two points inside is inside. -/
theorem Within.lineMap (hp : Within σ v p) (hq : Within σ v q) {t : K} (ht0 : 0 ≤ t) (ht1 : t ≤ 1) :
    Within σ v (lineMap p q t) := by
  intro k
  have hcombo : σ * cross (v k) (v (k + 1)) (AffineMap.lineMap p q t) =
      (1 - t) * (σ * cross (v k) (v (k + 1)) p) + t * (σ * cross (v k) (v (k + 1)) q) := by
    rw [cross_lineMap]
    ring
  rw [hcombo]
  exact add_nonneg (mul_nonneg (sub_nonneg.2 ht1) (hp k)) (mul_nonneg ht0 (hq k))

theorem Within.of_mem_segment (hp : Within σ v p) (hq : Within σ v q) {r : K × K}
    (hr : r ∈ segment K p q) : Within σ v r := by
  rw [segment_eq_image_lineMap] at hr
  obtain ⟨t, ⟨ht0, ht1⟩, hpoint⟩ := hr
  exact hpoint ▸ hp.lineMap hq ht0 ht1

/-- Where an edge passes a level, it is inside. -/
theorem StrictlyConvex.within_passing (h : StrictlyConvex σ n v)
    (hk : GoesUp y (v k) (v (k + 1)) ∨ GoesDown y (v k) (v (k + 1))) :
    Within σ v (passing y (v k) (v (k + 1)), y) :=
  (h.within_vertex k).of_mem_segment (h.within_vertex (k + 1)) (passing_mem_segment hk)

/-! ## The two edges that pass a level -/

/-- Two edges that pass a level in the same direction pass it in the same point. -/
theorem side_passing_eq_zero (hk : (v k).2 ≠ (v (k + 1)).2) (hl : (v l).2 ≠ (v (l + 1)).2)
    (hdir : 0 < ((v (k + 1)).2 - (v k).2) * ((v (l + 1)).2 - (v l).2))
    (hwk : Within σ v (passing y (v k) (v (k + 1)), y))
    (hwl : Within σ v (passing y (v l) (v (l + 1)), y)) :
    σ * cross (v k) (v (k + 1)) (passing y (v l) (v (l + 1)), y) = 0 := by
  have hkl := hwl k
  have hlk := hwk l
  rw [cross_eq_mul hk] at hkl ⊢
  rw [cross_eq_mul hl] at hlk
  refine le_antisymm ?_ hkl
  -- the two sides have opposite signs
  by_contra hpos
  rw [not_le] at hpos
  have hopposite : (σ * (((v (k + 1)).2 - (v k).2) *
        (passing y (v k) (v (k + 1)) - passing y (v l) (v (l + 1))))) *
      (((v (k + 1)).2 - (v k).2) * ((v (l + 1)).2 - (v l).2)) =
      -((σ * (((v (l + 1)).2 - (v l).2) *
        (passing y (v l) (v (l + 1)) - passing y (v k) (v (k + 1))))) *
      (((v (k + 1)).2 - (v k).2) * ((v (k + 1)).2 - (v k).2))) := by
    ring
  have hleft := mul_pos hpos hdir
  have hright := mul_nonneg hlk (mul_self_nonneg ((v (k + 1)).2 - (v k).2))
  rw [hopposite] at hleft
  linarith

theorem StrictlyConvex.up_unique (h : StrictlyConvex σ n v) (hk : GoesUp y (v k) (v (k + 1)))
    (hl : GoesUp y (v l) (v (l + 1))) : l ≡ k [MOD n] := by
  have hzero := side_passing_eq_zero (hk.1.trans_lt hk.2).ne (hl.1.trans_lt hl.2).ne
    (mul_pos (sub_pos.2 (hk.1.trans_lt hk.2)) (sub_pos.2 (hl.1.trans_lt hl.2)))
    (h.within_passing (Or.inl hk)) (h.within_passing (Or.inl hl))
  obtain ⟨t, ht0, ht1, hpoint⟩ := hl.exists_passing
  rw [← hpoint, cross_lineMap] at hzero
  by_contra hne
  have hne' : ¬ l ≡ k + 1 [MOD n] := fun hmod => absurd hk.2 (h.vertex_eq hmod ▸ hl.1).not_gt
  -- the start of the one edge would be strictly on one side of the other
  have hstart := mul_pos (sub_pos.2 ht1) (h.convex k l hne hne')
  have hend := mul_nonneg ht0 (h.within_vertex (l + 1) k)
  linarith

theorem StrictlyConvex.down_unique (h : StrictlyConvex σ n v) (hk : GoesDown y (v k) (v (k + 1)))
    (hl : GoesDown y (v l) (v (l + 1))) : l ≡ k [MOD n] := by
  have hzero := side_passing_eq_zero (hk.2.trans_lt hk.1).ne' (hl.2.trans_lt hl.1).ne'
    (mul_pos_of_neg_of_neg (sub_neg.2 (hk.2.trans_lt hk.1)) (sub_neg.2 (hl.2.trans_lt hl.1)))
    (h.within_passing (Or.inr hk)) (h.within_passing (Or.inr hl))
  obtain ⟨t, ht0, ht1, hpoint⟩ := hl.exists_passing
  rw [← hpoint, cross_lineMap] at hzero
  by_contra hne
  have hsucc : ¬ l + 1 ≡ k + 1 [MOD n] := fun hmod => hne (Nat.ModEq.add_right_cancel' 1 hmod)
  have hsucc' : ¬ l + 1 ≡ k [MOD n] := fun hmod => absurd hk.1 (h.vertex_eq hmod ▸ hl.2).not_gt
  have hend := mul_pos ht0 (h.convex k (l + 1) hsucc' hsucc)
  have hstart := mul_nonneg (sub_nonneg.2 ht1) (h.within_vertex l k)
  linarith

/-! ## Off the boundary -/

omit [IsStrictOrderedRing K] in
/-- The vertex before an edge is strictly on the same side of it. -/
theorem StrictlyConvex.turn (h : StrictlyConvex σ n v) (k : ℕ) :
    0 < σ * cross (v (k + 1)) (v (k + 2)) (v k) :=
  h.convex (k + 1) k (fun hmod => h.not_modEq_add k one_pos (by decide) hmod.symm) fun hmod =>
    h.not_modEq_add k two_pos (by decide) hmod.symm

omit [IsStrictOrderedRing K] in
/-- The vertex after an edge is strictly on the same side of it. -/
theorem StrictlyConvex.turn' (h : StrictlyConvex σ n v) (k : ℕ) :
    0 < σ * cross (v k) (v (k + 1)) (v (k + 2)) :=
  h.convex k (k + 2) (h.not_modEq_add k two_pos (by decide))
    (h.not_modEq_add (k + 1) one_pos (by decide))

omit [IsStrictOrderedRing K] in
/-- Every edge follows another one. -/
theorem StrictlyConvex.exists_before (h : StrictlyConvex σ n v) (k : ℕ) :
    ∃ m, v (m + 1) = v k ∧ v (m + 2) = v (k + 1) := by
  obtain ⟨m, hm⟩ : ∃ m, m + 1 = k + n := ⟨k + n - 1, by have := h.pos; omega⟩
  refine ⟨m, by rw [hm, h.periodic], ?_⟩
  rw [← Nat.add_assoc m 1 1, hm, Nat.add_right_comm, h.periodic]

/-- A point inside that is on no edge is strictly inside. -/
theorem StrictlyConvex.pos_of_within (h : StrictlyConvex σ n v) (hp : Within σ v p)
    (hboundary : ∀ k, p ∉ segment K (v k) (v (k + 1))) (k : ℕ) :
    0 < σ * cross (v k) (v (k + 1)) p := by
  refine lt_of_le_of_ne (hp k) fun hzero => hboundary k ?_
  have hturn := h.turn' k
  have hσ : σ ≠ 0 := left_ne_zero_of_mul hturn.ne'
  have hne : v k ≠ v (k + 1) := by
    intro heq
    rw [heq] at hturn
    simp [cross] at hturn
  obtain ⟨t, rfl⟩ :=
    exists_lineMap_of_cross_eq_zero hne ((mul_eq_zero.1 hzero.symm).resolve_left hσ)
  -- the edges before and after bound the position on the line
  refine lineMap_mem_segment K _ _ ⟨?_, ?_⟩
  · obtain ⟨m, hstart, hend⟩ := h.exists_before k
    have hbefore := hp m
    have hturn := h.turn' m
    rw [hstart, hend] at hturn
    rw [hstart, cross_lineMap, cross_self_right, mul_zero, zero_add, mul_left_comm] at hbefore
    exact nonneg_of_mul_nonneg_left hbefore hturn
  · have hafter := hp (k + 1)
    rw [cross_lineMap, cross_self_left, mul_zero, add_zero, mul_left_comm] at hafter
    exact sub_nonneg.1 (nonneg_of_mul_nonneg_left hafter (h.turn k))

omit [LinearOrder K] [IsStrictOrderedRing K] in
/-- Two consecutive edges and their common vertex. -/
theorem cross_vertex_combo (a m c p : K × K) :
    (a.2 - m.2) * cross m c p + (c.2 - m.2) * cross a m p = (p.2 - m.2) * cross m c a := by
  simp only [cross]
  ring

omit [IsStrictOrderedRing K] in
/-- Some vertex is extreme in a direction, and it ends an edge. -/
theorem StrictlyConvex.exists_extreme (h : StrictlyConvex σ n v) (f : K × K → K) :
    ∃ k, ∀ j, f (v j) ≤ f (v (k + 1)) := by
  obtain ⟨i, -, hi⟩ := Finset.exists_max_image (Finset.range n) (fun i => f (v i))
    ⟨0, Finset.mem_range.2 h.pos⟩
  obtain ⟨k, hk, -⟩ := h.exists_before i
  refine ⟨k, fun j => ?_⟩
  rw [hk, ← Function.Periodic.map_mod_nat h.periodic j]
  exact hi _ (Finset.mem_range.2 (Nat.mod_lt j h.pos))

/-- Some vertex is above a point strictly inside, and some is not. -/
theorem StrictlyConvex.exists_above_below (h : StrictlyConvex σ n v)
    (hp : ∀ k, 0 < σ * cross (v k) (v (k + 1)) p) :
    (∃ i, p.2 < (v i).2) ∧ ∃ j, (v j).2 ≤ p.2 := by
  have hcombo : ∀ k, ((v k).2 - (v (k + 1)).2) * (σ * cross (v (k + 1)) (v (k + 2)) p) +
      ((v (k + 2)).2 - (v (k + 1)).2) * (σ * cross (v k) (v (k + 1)) p) =
      (p.2 - (v (k + 1)).2) * (σ * cross (v (k + 1)) (v (k + 2)) (v k)) := by
    intro k
    have hvertex := cross_vertex_combo (v k) (v (k + 1)) (v (k + 2)) p
    linear_combination σ * hvertex
  constructor
  · obtain ⟨k, hk⟩ := h.exists_extreme Prod.snd
    refine ⟨k + 1, lt_of_not_ge fun hle => ?_⟩
    have hturn := h.turn k
    have hbefore : (v k).2 - (v (k + 1)).2 ≤ 0 := sub_nonpos.2 (hk k)
    have hafter : (v (k + 2)).2 - (v (k + 1)).2 ≤ 0 := sub_nonpos.2 (hk (k + 2))
    have hleft := mul_nonpos_of_nonpos_of_nonneg hbefore (hp (k + 1)).le
    have hleft' := mul_nonpos_of_nonpos_of_nonneg hafter (hp k).le
    have hright := mul_nonneg (sub_nonneg.2 hle) hturn.le
    rw [← hcombo] at hright
    -- otherwise the three highest vertices would be level
    have hlevel : (v k).2 - (v (k + 1)).2 = 0 :=
      (mul_eq_zero.1 (by linarith)).resolve_right (hp (k + 1)).ne'
    have hlevel' : (v (k + 2)).2 - (v (k + 1)).2 = 0 :=
      (mul_eq_zero.1 (by linarith)).resolve_right (hp k).ne'
    rw [cross, hlevel, hlevel', mul_zero, zero_mul, sub_zero, mul_zero] at hturn
    exact lt_irrefl 0 hturn
  · obtain ⟨k, hk⟩ := h.exists_extreme fun q => -q.2
    refine ⟨k + 1, ?_⟩
    have hbefore : 0 ≤ (v k).2 - (v (k + 1)).2 := sub_nonneg.2 (neg_le_neg_iff.1 (hk k))
    have hafter : 0 ≤ (v (k + 2)).2 - (v (k + 1)).2 := sub_nonneg.2 (neg_le_neg_iff.1 (hk (k + 2)))
    have hleft := add_nonneg (mul_nonneg hbefore (hp (k + 1)).le) (mul_nonneg hafter (hp k).le)
    rw [hcombo] at hleft
    exact sub_nonneg.1 (nonneg_of_mul_nonneg_left hleft (h.turn k))

/-! ## Counting crossings -/

omit [IsStrictOrderedRing K] in
/-- A property of the vertices that some vertex has and some has not begins to hold along
an edge. -/
theorem StrictlyConvex.exists_begins (h : StrictlyConvex σ n v) {P : K × K → Prop} {i j : ℕ}
    (hi : P (v i)) (hj : ¬ P (v j)) : ∃ k < n, ¬ P (v k) ∧ P (v (k + 1)) := by
  by_contra hnone
  push Not at hnone
  have hstep : ∀ k, ¬ P (v k) → ¬ P (v (k + 1)) := by
    intro k hk
    have hmod := hnone (k % n) (Nat.mod_lt k h.pos)
    rw [h.vertex_eq (Nat.mod_modEq k n),
      h.vertex_eq (Nat.ModEq.add_right 1 (Nat.mod_modEq k n))] at hmod
    exact hmod hk
  -- so it would never begin after `j`
  have hnever : ∀ k, j ≤ k → ¬ P (v k) := by
    intro k hk
    induction k, hk using Nat.le_induction with
    | base => exact hj
    | succ k _ ih => exact hstep k ih
  have hlater := hnever (i + j * n) ((Nat.le_mul_of_pos_right j h.pos).trans (Nat.le_add_left _ _))
  rw [h.vertex_eq (Nat.add_mul_mod_self_right i j n)] at hlater
  exact hlater hi

omit [IsStrictOrderedRing K] in
theorem StrictlyConvex.exists_goesUp (h : StrictlyConvex σ n v) {i j : ℕ} (hi : y < (v i).2)
    (hj : (v j).2 ≤ y) : ∃ k < n, GoesUp y (v k) (v (k + 1)) := by
  obtain ⟨k, hkn, hk, hk'⟩ := h.exists_begins (P := fun q => y < q.2) hi hj.not_gt
  exact ⟨k, hkn, not_lt.1 hk, hk'⟩

omit [IsStrictOrderedRing K] in
theorem StrictlyConvex.exists_goesDown (h : StrictlyConvex σ n v) {i j : ℕ} (hi : y < (v i).2)
    (hj : (v j).2 ≤ y) : ∃ k < n, GoesDown y (v k) (v (k + 1)) := by
  obtain ⟨k, hkn, hk, hk'⟩ := h.exists_begins (P := fun q => q.2 ≤ y) hj hi.not_ge
  exact ⟨k, hkn, not_le.1 hk, hk'⟩

/-- The edges a horizontal ray from `p` crosses. -/
def crossings (n : ℕ) (v : ℕ → K × K) (p : K × K) : Finset ℕ :=
  (Finset.range n).filter fun k => Crosses p (v k) (v (k + 1))

/-- The number of crossings is odd when one of the two edges that pass the level of `p` is crossed
and the other is not. -/
theorem StrictlyConvex.odd_crossings_iff_xor (h : StrictlyConvex σ n v) (hkn : k < n) (hln : l < n)
    (hk : GoesUp p.2 (v k) (v (k + 1))) (hl : GoesDown p.2 (v l) (v (l + 1))) :
    Odd (crossings n v p).card ↔
      (p.1 < passing p.2 (v k) (v (k + 1)) ↔ ¬ p.1 < passing p.2 (v l) (v (l + 1))) := by
  have hne : k ≠ l := by
    rintro rfl
    exact absurd hl.1 hk.1.not_gt
  have honly :
      crossings n v p = ({k, l} : Finset ℕ).filter fun i => Crosses p (v i) (v (i + 1)) := by
    ext i
    simp only [crossings, Finset.mem_filter, Finset.mem_range, Finset.mem_insert,
      Finset.mem_singleton]
    refine and_congr_left fun hi => ⟨fun hin => ?_, ?_⟩
    · rcases hi.1 with hup | hdown
      · exact Or.inl ((h.up_unique hk hup).eq_of_lt_of_lt hin hkn)
      · exact Or.inr ((h.down_unique hl hdown).eq_of_lt_of_lt hin hln)
    · rintro (rfl | rfl)
      · exact hkn
      · exact hln
  have hcross : Crosses p (v k) (v (k + 1)) ↔ p.1 < passing p.2 (v k) (v (k + 1)) :=
    and_iff_right (Or.inl hk)
  have hcross' : Crosses p (v l) (v (l + 1)) ↔ p.1 < passing p.2 (v l) (v (l + 1)) :=
    and_iff_right (Or.inr hl)
  rw [honly, Finset.filter_insert, Finset.filter_singleton, ← hcross, ← hcross']
  by_cases hck : Crosses p (v k) (v (k + 1)) <;> by_cases hcl : Crosses p (v l) (v (l + 1)) <;>
    simp [hck, hcl, hne]

/-- A point strictly inside has an odd number of crossings. -/
theorem StrictlyConvex.odd_crossings_of_pos (h : StrictlyConvex σ n v)
    (hp : ∀ k, 0 < σ * cross (v k) (v (k + 1)) p) : Odd (crossings n v p).card := by
  obtain ⟨⟨i, hi⟩, j, hj⟩ := h.exists_above_below hp
  obtain ⟨k, hkn, hk⟩ := h.exists_goesUp hi hj
  obtain ⟨l, hln, hl⟩ := h.exists_goesDown hi hj
  rw [h.odd_crossings_iff_xor hkn hln hk hl]
  have hup := hp k
  have hdown := hp l
  rw [← Prod.mk.eta (p := p), cross_eq_mul (hk.1.trans_lt hk.2).ne] at hup
  rw [← Prod.mk.eta (p := p), cross_eq_mul (hl.2.trans_lt hl.1).ne'] at hdown
  rw [mul_left_comm] at hup hdown
  have hright := pos_of_mul_pos_right hup (sub_nonneg.2 (hk.1.trans_lt hk.2).le)
  have hleft := neg_of_mul_pos_right hdown (sub_nonpos.2 (hl.2.trans_lt hl.1).le)
  -- `p` is to the left of the one passing point and to the right of the other
  rcases mul_pos_iff.1 hright with ⟨hσ, hpk⟩ | ⟨hσ, hpk⟩
  · have hpl := neg_of_mul_neg_right hleft hσ.le
    exact iff_of_true (sub_pos.1 hpk) (sub_neg.1 hpl).not_gt
  · have hpl := pos_of_mul_neg_right hleft hσ.le
    exact iff_of_false (sub_neg.1 hpk).not_gt (not_not.2 (sub_pos.1 hpl))

/-- A point with an odd number of crossings is inside. -/
theorem StrictlyConvex.within_of_odd_crossings (h : StrictlyConvex σ n v)
    (hodd : Odd (crossings n v p).card) : Within σ v p := by
  obtain ⟨i, hi⟩ := Finset.card_pos.1 hodd.pos
  obtain ⟨⟨a, ha⟩, b, hb⟩ : (∃ a, p.2 < (v a).2) ∧ ∃ b, (v b).2 ≤ p.2 := by
    rcases (Finset.mem_filter.1 hi).2.1 with hup | hdown
    · exact ⟨⟨i + 1, hup.2⟩, i, hup.1⟩
    · exact ⟨⟨i, hdown.1⟩, i + 1, hdown.2⟩
  obtain ⟨k, hkn, hk⟩ := h.exists_goesUp ha hb
  obtain ⟨l, hln, hl⟩ := h.exists_goesDown ha hb
  rw [h.odd_crossings_iff_xor hkn hln hk hl] at hodd
  have hwk := h.within_passing (Or.inl hk)
  have hwl := h.within_passing (Or.inr hl)
  generalize passing p.2 (v k) (v (k + 1)) = x at hodd hwk
  generalize passing p.2 (v l) (v (l + 1)) = x' at hodd hwl
  -- one of the two is crossed, so `p` lies between them
  have hbetween : p ∈ segment K (x, p.2) (x', p.2) := by
    refine mem_segment_iff.2 ⟨by simp [cross], ?_, ?_, by simp, by simp⟩
    · by_cases hx : p.1 < x
      · exact (min_le_right _ _).trans (not_lt.1 (hodd.1 hx))
      · exact (min_le_left _ _).trans (not_lt.1 hx)
    · by_cases hx : p.1 < x
      · exact hx.le.trans (le_max_left _ _)
      · exact (not_not.1 (mt hodd.2 hx)).le.trans (le_max_right _ _)
  exact hwk.of_mem_segment hwl hbetween

/-- A point on no edge is inside exactly when the number of crossings is odd. -/
theorem StrictlyConvex.odd_crossings_iff (h : StrictlyConvex σ n v)
    (hboundary : ∀ k, p ∉ segment K (v k) (v (k + 1))) :
    Odd (crossings n v p).card ↔ Within σ v p :=
  ⟨h.within_of_odd_crossings, fun hp => h.odd_crossings_of_pos (h.pos_of_within hp hboundary)⟩

end Sides

end ConvexRing
