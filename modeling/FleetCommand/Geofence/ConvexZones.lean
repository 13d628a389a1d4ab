import FleetCommand.Geofence.Geometry
import FleetCommand.Lib.ConvexRing
import FleetCommand.Lib.CyclicList
import Mathlib.Data.List.GetD
import Mathlib.Algebra.Order.Field.Basic

/-!
# Containment in strictly convex zones

`Polygon.containsInclusive` over exact coordinates. The toggling loop is the parity of the crossed
edges (`insideRing_iff_odd`), and the edge test accepts every point of an edge
(`onSegment_of_mem_segment`). For a strictly convex ring the answer is therefore that of the half
planes of its edges, or of the edge test.
-/

set_option autoImplicit false

namespace FleetCommand.Geofence

variable {K : Type} [Field K] [LinearOrder K]

/-- The point of the plane, longitude first. -/
def Point.pair (q : Point K) : K × K := (q.lng, q.lat)

/-- The vertex at an index, counted around the ring. -/
def vertexAt (ring : List (Point K)) (i : Nat) : Point K := ring.getD (i % ring.length) ⟨0, 0⟩

/-- Positive on the left of the directed line from `a` to `b`, negative on its right. -/
def side (a b q : Point K) : K :=
  (b.lng - a.lng) * (q.lat - a.lat) - (b.lat - a.lat) * (q.lng - a.lng)

/-! ## The loops over the edges -/

theorem foldl_toggle {α : Type} (c : α → Bool) (l : List α) (b : Bool) :
    l.foldl (fun inside e => if c e then !inside else inside) b =
      (b ^^ decide (Odd (l.countP c))) := by
  induction l generalizing b with
  | nil => simp
  | cons e l ih =>
    rw [List.foldl_cons, ih, List.countP_cons]
    by_cases he : c e = true
    · have hodd : decide (Odd (l.countP c + 1)) = !decide (Odd (l.countP c)) := by
        rw [← decide_not, decide_eq_decide, Nat.odd_add_one]
      rw [if_pos he, if_pos he, hodd]
      cases b <;> simp
    · rw [if_neg he, if_neg he, Nat.add_zero]

omit [LinearOrder K] in
theorem vertexAt_of_lt {ring : List (Point K)} {i : Nat} (h : i < ring.length) :
    vertexAt ring i = ring[i] := by
  rw [vertexAt, Nat.mod_eq_of_lt h, List.getD_eq_getElem _ _ h]

omit [LinearOrder K] in
/-- The edges of a ring in order, each with its start and its end. -/
theorem zip_rotate_one (ring : List (Point K)) :
    ring.zip (ring.rotate 1) =
      (List.range ring.length).map fun i => (vertexAt ring i, vertexAt ring (i + 1)) := by
  refine List.ext_getElem (by simp) fun i hi hi' => ?_
  have hlt : i < ring.length := by simpa using hi'
  have hnext : (i + 1) % ring.length < ring.length := Nat.mod_lt _ (Nat.zero_lt_of_lt hlt)
  rw [List.getElem_zip, List.getElem_map, List.getElem_range, List.getElem_rotate,
    vertexAt_of_lt hlt, vertexAt, List.getD_eq_getElem _ _ hnext]

theorem crosses_iff (p i j : Point K) :
    crosses p i j = true ↔ ConvexRing.Crosses p.pair j.pair i.pair := by
  rw [crosses, ConvexRing.Crosses, ConvexRing.GoesUp, ConvexRing.GoesDown, ConvexRing.passing]
  simp only [Point.pair]
  by_cases hi : p.lat < i.lat <;> by_cases hj : p.lat < j.lat
  · simp [hi, hj, hi.not_ge, hj.not_ge]
  · simp [hi, hj, not_lt.1 hj]
  · simp [hi, hj, not_lt.1 hi]
  · simp [hi, hj]

/-- The toggling loop is the parity of the crossed edges. -/
theorem insideRing_iff_odd (ring : List (Point K)) (p : Point K) :
    insideRing ring p = true ↔
      Odd (ConvexRing.crossings ring.length (fun i => (vertexAt ring i).pair) p.pair).card := by
  have hcount : (ring.zip (ring.rotate (ring.length - 1))).countP (fun e => crosses p e.1 e.2) =
      (ConvexRing.crossings ring.length (fun i => (vertexAt ring i).pair) p.pair).card := by
    -- the loop runs over the same edges, each with its end and its start
    rw [(CyclicList.zip_rotate_pred_perm ring).countP_eq, CyclicList.edges, zip_rotate_one,
      List.map_map, List.countP_map, List.countP_eq_length_filter]
    refine congrArg List.length (List.filter_congr fun i _ => ?_)
    exact Bool.eq_iff_iff.2 ((crosses_iff _ _ _).trans decide_eq_true_iff.symm)
  rw [insideRing, foldl_toggle, hcount, Bool.false_xor, decide_eq_true_eq]

/-! ## The edge test -/

theorem boundaryEpsilon_pos [IsStrictOrderedRing K] : (0 : K) < boundaryEpsilon := by
  rw [boundaryEpsilon]
  positivity

theorem boundaryEpsilon_nonneg [IsStrictOrderedRing K] : (0 : K) ≤ boundaryEpsilon :=
  boundaryEpsilon_pos.le

/-- The edge test: close to collinear, and in the bounding box up to the tolerance. -/
theorem onSegment_iff {a b p : Point K} :
    onSegment a b p = true ↔
      (-boundaryEpsilon ≤ side a b p ∧ side a b p ≤ boundaryEpsilon) ∧
      (min a.lng b.lng - boundaryEpsilon ≤ p.lng ∧ p.lng ≤ max a.lng b.lng + boundaryEpsilon) ∧
      min a.lat b.lat - boundaryEpsilon ≤ p.lat ∧ p.lat ≤ max a.lat b.lat + boundaryEpsilon := by
  rw [onSegment, side]
  simp only [Bool.if_false_left, Bool.and_eq_true, Bool.not_eq_true', decide_eq_false_iff_not,
    not_or, not_lt, and_true]
  rw [and_comm (a := _ ≤ boundaryEpsilon)]

/-- The edge test accepts every point of the edge. -/
theorem onSegment_of_mem_segment [IsStrictOrderedRing K] {a b p : Point K}
    (h : p.pair ∈ segment K a.pair b.pair) : onSegment a b p = true := by
  obtain ⟨hcross, hlng, hlng', hlat, hlat'⟩ := PlaneSegments.mem_segment_iff.1 h
  have hε : (0 : K) ≤ boundaryEpsilon := boundaryEpsilon_nonneg
  have hzero : side a b p = 0 := hcross
  refine onSegment_iff.2 ⟨?_, ⟨?_, ?_⟩, ?_, ?_⟩
  · rw [hzero]
    exact ⟨neg_nonpos.2 hε, hε⟩
  · exact (sub_le_self _ hε).trans hlng
  · exact hlng'.trans (le_add_of_nonneg_right hε)
  · exact (sub_le_self _ hε).trans hlat
  · exact hlat'.trans (le_add_of_nonneg_right hε)

/-- Some edge of the ring accepts the point. -/
def OnSomeEdge (ring : List (Point K)) (p : Point K) : Prop :=
  ∃ i < ring.length, onSegment (vertexAt ring i) (vertexAt ring (i + 1)) p = true

theorem any_onSegment_iff (ring : List (Point K)) (p : Point K) :
    ((ring.zip (ring.rotate 1)).any fun e => onSegment e.1 e.2 p) = true ↔ OnSomeEdge ring p := by
  rw [zip_rotate_one, List.any_map, List.any_eq_true]
  simp only [List.mem_range, Function.comp_apply, OnSomeEdge]

/-! ## Strictly convex zones -/

/-- Every vertex that is not an endpoint of an edge is strictly to the left of it. -/
def ConvexLeft (ring : List (Point K)) : Prop :=
  ∀ i < ring.length, ∀ j < ring.length, j ≠ i → j ≠ (i + 1) % ring.length →
    0 < side (vertexAt ring i) (vertexAt ring (i + 1)) (vertexAt ring j)

/-- Every vertex that is not an endpoint of an edge is strictly to the right of it. -/
def ConvexRight (ring : List (Point K)) : Prop :=
  ∀ i < ring.length, ∀ j < ring.length, j ≠ i → j ≠ (i + 1) % ring.length →
    side (vertexAt ring i) (vertexAt ring (i + 1)) (vertexAt ring j) < 0

/-- On the left of every edge or on its line. -/
def WithinLeft (ring : List (Point K)) (p : Point K) : Prop :=
  ∀ i < ring.length, 0 ≤ side (vertexAt ring i) (vertexAt ring (i + 1)) p

/-- On the right of every edge or on its line. -/
def WithinRight (ring : List (Point K)) (p : Point K) : Prop :=
  ∀ i < ring.length, side (vertexAt ring i) (vertexAt ring (i + 1)) p ≤ 0

section Convex

variable {ring : List (Point K)} {σ : K}

omit [LinearOrder K] in
theorem vertexAt_mod (ring : List (Point K)) (i : Nat) :
    vertexAt ring (i % ring.length) = vertexAt ring i := by
  rw [vertexAt, vertexAt, Nat.mod_mod]

omit [LinearOrder K] in
theorem vertexAt_mod_succ (ring : List (Point K)) (i : Nat) :
    vertexAt ring (i % ring.length + 1) = vertexAt ring (i + 1) := by
  rw [vertexAt, vertexAt, Nat.mod_add_mod]

/-- The convexity of the ring, for every index. -/
theorem strictlyConvex (hn : 3 ≤ ring.length)
    (hconvex : ∀ i < ring.length, ∀ j < ring.length, j ≠ i → j ≠ (i + 1) % ring.length →
      0 < σ * side (vertexAt ring i) (vertexAt ring (i + 1)) (vertexAt ring j)) :
    ConvexRing.StrictlyConvex σ ring.length fun i => (vertexAt ring i).pair := by
  have hpos : 0 < ring.length := by omega
  refine ⟨hn, fun k => by simp only [vertexAt, Nat.add_mod_right], fun k j hk hk' => ?_⟩
  have h := hconvex (k % ring.length) (Nat.mod_lt k hpos) (j % ring.length) (Nat.mod_lt j hpos) hk
    (by rw [Nat.mod_add_mod]; exact hk')
  rwa [vertexAt_mod, vertexAt_mod, vertexAt_mod_succ] at h

theorem within_iff (hpos : 0 < ring.length) (p : Point K) :
    ConvexRing.Within σ (fun i => (vertexAt ring i).pair) p.pair ↔
      ∀ i < ring.length, 0 ≤ σ * side (vertexAt ring i) (vertexAt ring (i + 1)) p := by
  refine ⟨fun h i _ => h i, fun h k => ?_⟩
  have hk := h (k % ring.length) (Nat.mod_lt k hpos)
  rwa [vertexAt_mod, vertexAt_mod_succ] at hk

/-- What the loops make of a strictly convex ring. -/
theorem loops_iff [IsStrictOrderedRing K] (hn : 3 ≤ ring.length)
    (hconvex : ConvexRing.StrictlyConvex σ ring.length fun i => (vertexAt ring i).pair)
    (p : Point K) (hoff : ¬ OnSomeEdge ring p) :
    insideRing ring p = true ↔
      ConvexRing.Within σ (fun i => (vertexAt ring i).pair) p.pair := by
  rw [insideRing_iff_odd]
  refine hconvex.odd_crossings_iff fun k hk => hoff ?_
  have hpos : 0 < ring.length := by omega
  refine ⟨k % ring.length, Nat.mod_lt k hpos, ?_⟩
  rw [vertexAt_mod, vertexAt_mod_succ]
  exact onSegment_of_mem_segment hk

end Convex

/-! ## Open and closed rings -/

omit [Field K] in
theorem beq_iff (a b : Point K) : (a == b) = true ↔ a = b := by
  obtain ⟨lat, lng⟩ := a
  obtain ⟨lat', lng'⟩ := b
  have hbeq : ((⟨lat, lng⟩ : Point K) == ⟨lat', lng'⟩) = (lat == lat' && lng == lng') := rfl
  rw [hbeq, Bool.and_eq_true, beq_iff_eq, beq_iff_eq, Point.mk.injEq]

omit [LinearOrder K] in
theorem head?_eq_vertexAt {ring : List (Point K)} (h : 0 < ring.length) :
    ring.head? = some (vertexAt ring 0) := by
  rw [vertexAt_of_lt h, List.head?_eq_getElem?, List.getElem?_eq_getElem]

omit [LinearOrder K] in
theorem getLast?_eq_vertexAt {ring : List (Point K)} (h : 0 < ring.length) :
    ring.getLast? = some (vertexAt ring (ring.length - 1)) := by
  rw [vertexAt_of_lt (by omega), List.getLast?_eq_getElem?, List.getElem?_eq_getElem]

omit [Field K] in
/-- A list whose ends differ is taken as it is. -/
theorem ring_eq_vertices {poly : Polygon K}
    (h : 2 ≤ poly.vertices.length → poly.vertices.head? ≠ poly.vertices.getLast?) :
    poly.ring = poly.vertices := by
  rw [Polygon.ring]
  split
  next a b ha hb =>
    refine if_neg fun hand => h hand.1 ?_
    rw [ha, hb, (beq_iff a b).1 hand.2]
  next => rfl

/-- A ring that does not end where it starts is taken as it is. -/
theorem ring_open {poly : Polygon K} {ring : List (Point K)} (hvertices : poly.vertices = ring)
    (hn : 3 ≤ ring.length) (hends : vertexAt ring (ring.length - 1) ≠ vertexAt ring 0) :
    poly.ring = ring := by
  refine (ring_eq_vertices fun _ => ?_).trans hvertices
  rw [hvertices, head?_eq_vertexAt (by omega), getLast?_eq_vertexAt (by omega), ne_eq,
    Option.some.injEq]
  exact hends.symm

/-- A closing vertex is dropped. -/
theorem ring_closed {poly : Polygon K} {ring : List (Point K)}
    (hvertices : poly.vertices = ring ++ [vertexAt ring 0]) (hn : 3 ≤ ring.length) :
    poly.ring = ring := by
  have hfirst : poly.vertices.head? = some (vertexAt ring 0) := by
    rw [hvertices, List.head?_append_of_ne_nil _ (by rintro rfl; simp at hn),
      head?_eq_vertexAt (by omega)]
  have hlast : poly.vertices.getLast? = some (vertexAt ring 0) := by
    rw [hvertices, List.getLast?_append, List.getLast?_singleton, Option.some_or]
  have hlength : 2 ≤ poly.vertices.length := by
    rw [hvertices, List.length_append]
    omega
  simp only [Polygon.ring, hfirst, hlast, beq_iff, and_true]
  rw [if_pos hlength, hvertices, List.dropLast_concat]

section Contains

variable {poly : Polygon K} {ring : List (Point K)}

/-- Either way of writing a strictly convex ring is taken as the open one. -/
theorem ring_eq {σ : K}
    (hvertices : poly.vertices = ring ∨ poly.vertices = ring ++ [vertexAt ring 0])
    (hn : 3 ≤ ring.length)
    (hconvex : ∀ i < ring.length, ∀ j < ring.length, j ≠ i → j ≠ (i + 1) % ring.length →
      0 < σ * side (vertexAt ring i) (vertexAt ring (i + 1)) (vertexAt ring j)) :
    poly.ring = ring := by
  rcases hvertices with hopen | hclosed
  · refine ring_open hopen hn fun hends => ?_
    have hone : (0 + 1) % ring.length = 1 := Nat.mod_eq_of_lt (by omega)
    have hside := hconvex 0 (by omega) (ring.length - 1) (by omega) (by omega)
      (by rw [hone]; omega)
    rw [hends] at hside
    simp [side] at hside
  · exact ring_closed hclosed hn

theorem containsInclusive_iff_within [IsStrictOrderedRing K] {σ : K}
    (hvertices : poly.vertices = ring ∨ poly.vertices = ring ++ [vertexAt ring 0])
    (hn : 3 ≤ ring.length)
    (hconvex : ∀ i < ring.length, ∀ j < ring.length, j ≠ i → j ≠ (i + 1) % ring.length →
      0 < σ * side (vertexAt ring i) (vertexAt ring (i + 1)) (vertexAt ring j)) (p : Point K) :
    poly.containsInclusive p = true ↔
      (∀ i < ring.length, 0 ≤ σ * side (vertexAt ring i) (vertexAt ring (i + 1)) p) ∨
        OnSomeEdge ring p := by
  rw [Polygon.containsInclusive, ring_eq hvertices hn hconvex, if_neg (by omega)]
  by_cases hedge : OnSomeEdge ring p
  · rw [if_pos ((any_onSegment_iff ring p).2 hedge)]
    exact iff_of_true rfl (Or.inr hedge)
  · rw [if_neg (mt (any_onSegment_iff ring p).1 hedge), or_iff_left hedge,
      loops_iff hn (strictlyConvex hn hconvex) p hedge, within_iff (by omega)]

end Contains

/-- Containment in a strictly convex zone of either orientation, its ring open or closed: a point is
contained when it is inside or on the boundary, or when the edge test accepts it. -/
theorem containsInclusive_convex_iff [IsStrictOrderedRing K] (poly : Polygon K)
    (ring : List (Point K))
    (hvertices : poly.vertices = ring ∨ poly.vertices = ring ++ [vertexAt ring 0])
    (hn : 3 ≤ ring.length) (p : Point K) :
    (ConvexLeft ring →
      (poly.containsInclusive p = true ↔ WithinLeft ring p ∨ OnSomeEdge ring p)) ∧
    (ConvexRight ring →
      (poly.containsInclusive p = true ↔ WithinRight ring p ∨ OnSomeEdge ring p)) := by
  constructor
  · intro hleft
    have h := containsInclusive_iff_within (σ := 1) hvertices hn
      (by simpa only [one_mul, ConvexLeft] using hleft) p
    simpa only [one_mul, WithinLeft] using h
  · intro hright
    have h := containsInclusive_iff_within (σ := -1) hvertices hn
      (by simpa only [neg_one_mul, Left.neg_pos_iff, ConvexRight] using hright) p
    simpa only [neg_one_mul, Left.nonneg_neg_iff, WithinRight] using h

/-- A triangle that turns left. -/
def triangle : List (Point ℚ) := [⟨0, 0⟩, ⟨0, 4⟩, ⟨4, 0⟩]

theorem triangle_convexLeft : ConvexLeft triangle := by
  unfold ConvexLeft
  decide +kernel

/-- Its ring given closed, and a point inside. -/
theorem containsInclusive_triangle :
    (Polygon.mk (triangle ++ [vertexAt triangle 0])).containsInclusive ⟨1, 1⟩ = true ↔
      WithinLeft triangle ⟨1, 1⟩ ∨ OnSomeEdge triangle ⟨1, 1⟩ :=
  (containsInclusive_convex_iff _ triangle (Or.inr rfl) (by decide) ⟨1, 1⟩).1 triangle_convexLeft

end FleetCommand.Geofence
