import FleetCommand.Lib.PlaneSegments
import FleetCommand.Management.Zones
import Mathlib.Data.List.GetD

/-!
# The management service: polygon validation

`PurePolygonValidator.checkSync` over exact coordinates. Of two consecutive edges the code only asks
whether the far end of the second lies on the first (`collinearOverlap_consecutive`); that it never
misses an overlap the other way round is because the far end of the first is then on the edge before
it too, which the check of non-adjacent edges sees, or, in a triangle, is the far end of the third
edge (`simplePolygon_iff`).
-/

set_option autoImplicit false

namespace FleetCommand.Management

open PlaneSegments

variable {K : Type} [Field K] [LinearOrder K] [IsStrictOrderedRing K]

/-! ## The code -/

/-- The same position. -/
def pointsEqual (a b : K × K) : Bool := a.1 = b.1 && a.2 = b.2

/-- Orientation of the ordered triplet: 0 collinear, 1 clockwise, 2 counterclockwise. -/
def orientation (p q r : K × K) : Nat :=
  let val := (q.2 - p.2) * (r.1 - q.1) - (q.1 - p.1) * (r.2 - q.2)
  if val = 0 then 0 else if 0 < val then 1 else 2

/-- The bounding box of the outer two holds the middle one. -/
def onSegment (p q r : K × K) : Bool :=
  min p.1 r.1 ≤ q.1 && q.1 ≤ max p.1 r.1 && min p.2 r.2 ≤ q.2 && q.2 ≤ max p.2 r.2

/-- Whether the closed segments `p1`–`p2` and `p3`–`p4` intersect. -/
def segmentsIntersect (p1 p2 p3 p4 : K × K) : Bool :=
  let o1 := orientation p1 p2 p3
  let o2 := orientation p1 p2 p4
  let o3 := orientation p3 p4 p1
  let o4 := orientation p3 p4 p2
  if o1 ≠ o2 ∧ o3 ≠ o4 then true
  else if o1 = 0 ∧ onSegment p1 p3 p2 then true
  else if o2 = 0 ∧ onSegment p1 p4 p2 then true
  else if o3 = 0 ∧ onSegment p3 p1 p4 then true
  else if o4 = 0 ∧ onSegment p3 p2 p4 then true
  else false

/-- Detects a degenerate collinear overlap between adjacent edges. -/
def collinearOverlap (a1 a2 b1 b2 : K × K) : Bool :=
  if orientation a1 a2 b1 = 0 ∧ orientation a1 a2 b2 = 0 then
    let sharedAtEnd := pointsEqual a2 b1
    let sharedAtStart := pointsEqual a1 b2
    if sharedAtEnd && onSegment a1 b2 a2 then true
    else if sharedAtStart && onSegment b1 a2 b2 then true
    else false
  else false

/-- One turn of the loop over pairs of edges: whether edges `i` and `j` leave the polygon simple. -/
def edgePairOk (pts : List (K × K)) (i j : Nat) : Bool :=
  let n := pts.length
  let a1 := pts.getD i 0
  let a2 := pts.getD ((i + 1) % n) 0
  let b1 := pts.getD j 0
  let b2 := pts.getD ((j + 1) % n) 0
  let adjacent := j = i + 1 ∨ (i = 0 ∧ j = n - 1)
  if adjacent then !collinearOverlap a1 a2 b1 b2 else !segmentsIntersect a1 a2 b1 b2

/-- No two edges of a closed ring meet but neighbours at their common end. -/
def isSimplePolygon (ring : List (K × K)) (isClosed : Bool) : Bool :=
  if isClosed = false then false
  else
    -- the closing position is dropped
    let pts := ring.take (ring.length - 1)
    let n := pts.length
    if n < 3 then false
    else (List.range n).all fun i => (List.range' (i + 1) (n - (i + 1))).all (edgePairOk pts i)

/-- Whether the ring is closed, and simple. -/
def checkSync (ring : List (K × K)) : GeometryCheck :=
  let isClosed := 4 ≤ ring.length && pointsEqual (ring.getD 0 0) (ring.getD (ring.length - 1) 0)
  ⟨isClosed, isSimplePolygon ring isClosed⟩

/-! ## The predicates on segments -/

omit [Field K] [IsStrictOrderedRing K] in
theorem pointsEqual_iff {a b : K × K} : pointsEqual a b = true ↔ a = b := by
  rw [pointsEqual, Bool.and_eq_true, decide_eq_true_eq, decide_eq_true_eq, Prod.ext_iff]

omit [Field K] [IsStrictOrderedRing K] in
theorem onSegment_iff {p q r : K × K} : onSegment p q r = true ↔ InBox p r q := by
  simp only [onSegment, InBox, Bool.and_eq_true, decide_eq_true_eq, and_assoc]

/-- The orientation is the sign of the area. -/
theorem orientation_eq (p q r : K × K) :
    orientation p q r =
      match SignType.sign (cross p q r) with
      | .zero => 0
      | .neg => 1
      | .pos => 2 := by
  have hval : (q.2 - p.2) * (r.1 - q.1) - (q.1 - p.1) * (r.2 - q.2) = -cross p q r := by
    simp only [cross]
    ring
  rw [orientation, hval]
  rcases lt_trichotomy (cross p q r) 0 with h | h | h
  · rw [sign_neg h]
    simp [h, h.ne]
  · rw [h, sign_zero]
    simp
  · rw [sign_pos h]
    simp [h.le, h.ne']

theorem orientation_eq_zero_iff {p q r : K × K} : orientation p q r = 0 ↔ cross p q r = 0 := by
  refine Iff.trans ?_ sign_eq_zero_iff
  rw [orientation_eq]
  cases SignType.sign (cross p q r) <;> decide

theorem orientation_eq_iff {p q r p' q' r' : K × K} :
    orientation p q r = orientation p' q' r' ↔
      SignType.sign (cross p q r) = SignType.sign (cross p' q' r') := by
  rw [orientation_eq, orientation_eq]
  cases SignType.sign (cross p q r) <;> cases SignType.sign (cross p' q' r') <;> decide

/-- The test of a collinear point. -/
theorem mem_segment_iff_onSegment {p q r : K × K} :
    q ∈ segment K p r ↔ orientation p r q = 0 ∧ onSegment p q r = true := by
  rw [mem_segment_iff, orientation_eq_zero_iff, onSegment_iff]

/-- The code asks whether each segment separates the endpoints of the other, and then whether one of
them holds an endpoint of the other. -/
theorem segmentsIntersect_iff_sign {p1 p2 p3 p4 : K × K} :
    segmentsIntersect p1 p2 p3 p4 = true ↔
      (SignType.sign (cross p1 p2 p3) ≠ SignType.sign (cross p1 p2 p4) ∧
        SignType.sign (cross p3 p4 p1) ≠ SignType.sign (cross p3 p4 p2)) ∨
      p3 ∈ segment K p1 p2 ∨ p4 ∈ segment K p1 p2 ∨ p1 ∈ segment K p3 p4 ∨
        p2 ∈ segment K p3 p4 := by
  simp only [segmentsIntersect, mem_segment_iff_onSegment, ne_eq, orientation_eq_iff,
    Bool.if_true_left, Bool.if_false_right, Bool.or_eq_true, decide_eq_true_eq, Bool.and_true]

/-- Closed segments intersect exactly when they have a common point. -/
theorem segmentsIntersect_iff (p1 p2 p3 p4 : K × K) :
    segmentsIntersect p1 p2 p3 p4 = true ↔ ∃ x, x ∈ segment K p1 p2 ∧ x ∈ segment K p3 p4 := by
  rw [segments_meet_iff]
  exact segmentsIntersect_iff_sign

/-- A segment and one that is a point of it. -/
theorem segmentsIntersect_iff_point :
    segmentsIntersect ((0, 0) : ℚ × ℚ) (2, 2) (1, 1) (1, 1) = true ↔
      ∃ x, x ∈ segment ℚ ((0, 0) : ℚ × ℚ) (2, 2) ∧ x ∈ segment ℚ ((1, 1) : ℚ × ℚ) (1, 1) :=
  segmentsIntersect_iff (0, 0) (2, 2) (1, 1) (1, 1)

/-- Of an edge and the one after it, the code asks whether the second turns back onto the first. -/
theorem collinearOverlap_consecutive {a b c : K × K} :
    collinearOverlap a b b c = true ↔ c ∈ segment K a b := by
  have hb : orientation a b b = 0 := orientation_eq_zero_iff.2 (cross_self_right a b)
  simp only [collinearOverlap, hb, mem_segment_iff_onSegment, true_and,
    pointsEqual_iff.2 (Eq.refl b), Bool.true_and, Bool.if_true_left, Bool.if_false_right,
    Bool.and_eq_true, Bool.or_eq_true, decide_eq_true_eq, Bool.and_true, pointsEqual_iff]
  refine and_congr_right fun _ => or_iff_left_of_imp ?_
  -- an edge that returns to its start holds it
  rintro ⟨rfl, -⟩
  exact (mem_segment_iff_onSegment.1 (left_mem_segment K a b)).2

/-- The same of the last edge and the first, which the loop meets the other way round. -/
theorem collinearOverlap_wrap {a b c : K × K} :
    collinearOverlap a b c a = true ↔ b ∈ segment K c a := by
  have ha : orientation a b a = 0 := orientation_eq_zero_iff.2 (cross_self_left a b)
  have hturn : orientation a b c = 0 ↔ orientation c a b = 0 := by
    rw [orientation_eq_zero_iff, orientation_eq_zero_iff, cross_rotate]
  simp only [collinearOverlap, ha, mem_segment_iff_onSegment, and_true, hturn,
    pointsEqual_iff.2 (Eq.refl a), Bool.true_and, Bool.if_true_left, Bool.if_false_right,
    Bool.and_eq_true, Bool.or_eq_true, decide_eq_true_eq, Bool.and_true, pointsEqual_iff]
  refine and_congr_right fun _ => or_iff_right_of_imp ?_
  rintro ⟨rfl, -⟩
  exact (mem_segment_iff_onSegment.1 (left_mem_segment K b a)).2

/-! ## Simple polygons -/

/-- The vertex at an index, counted around the ring. -/
def vertex (pts : List (K × K)) (i : Nat) : K × K := pts.getD (i % pts.length) 0

/-- The edge that starts at an index, as a closed segment. -/
def edge (pts : List (K × K)) (i : Nat) : Set (K × K) :=
  segment K (vertex pts i) (vertex pts (i + 1))

/-- Of `n` edges around a ring, one follows the other. -/
def Neighbours (n i j : Nat) : Prop := j = (i + 1) % n ∨ i = (j + 1) % n

/-- A simple polygon: no edge is a point, consecutive edges meet in their common vertex only, and no
other two edges meet. -/
structure SimplePolygon (pts : List (K × K)) : Prop where
  distinct : ∀ i < pts.length, vertex pts i ≠ vertex pts (i + 1)
  consecutive : ∀ i < pts.length, edge pts i ∩ edge pts (i + 1) = {vertex pts (i + 1)}
  disjoint : ∀ i < pts.length, ∀ j < pts.length, i ≠ j → ¬ Neighbours pts.length i j →
    edge pts i ∩ edge pts j = ∅

/-- An edge does not turn back onto the edge before it. -/
def TurnsAway (pts : List (K × K)) (i : Nat) : Prop := vertex pts (i + 2) ∉ edge pts i

/-- Edges that are not neighbours do not meet. -/
def ApartDisjoint (pts : List (K × K)) : Prop :=
  ∀ i j, i < j → j < pts.length → ¬ Neighbours pts.length i j → edge pts i ∩ edge pts j = ∅

theorem neighbours_iff {n i j : Nat} (hij : i < j) (hj : j < n) :
    Neighbours n i j ↔ j = i + 1 ∨ (i = 0 ∧ j = n - 1) := by
  have hi : (i + 1) % n = i + 1 := Nat.mod_eq_of_lt (by omega)
  rw [Neighbours, hi]
  refine or_congr_right ?_
  rcases Nat.lt_or_ge (j + 1) n with hlt | hge
  · rw [Nat.mod_eq_of_lt hlt]
    omega
  · have hn : j + 1 = n := by omega
    rw [hn, Nat.mod_self]
    omega

section Ring

variable {pts : List (K × K)}

omit [LinearOrder K] [IsStrictOrderedRing K] in
theorem vertex_mod_add (i k : Nat) : vertex pts (i % pts.length + k) = vertex pts (i + k) := by
  rw [vertex, vertex, Nat.mod_add_mod]

omit [LinearOrder K] [IsStrictOrderedRing K] in
theorem vertex_add_length (i : Nat) : vertex pts (i + pts.length) = vertex pts i := by
  rw [vertex, vertex, Nat.add_mod_right]

omit [LinearOrder K] [IsStrictOrderedRing K] in
theorem vertex_mod (i : Nat) : vertex pts (i % pts.length) = vertex pts i := by
  rw [vertex, vertex, Nat.mod_mod]

omit [LinearOrder K] [IsStrictOrderedRing K] in
theorem vertex_of_lt {i : Nat} (h : i < pts.length) : vertex pts i = pts.getD i 0 := by
  rw [vertex, Nat.mod_eq_of_lt h]

omit [LinearOrder K] [IsStrictOrderedRing K] in
/-- Every vertex follows another one. -/
theorem exists_before (hn : 0 < pts.length) (i : Nat) :
    ∃ k, ∀ j, vertex pts (k + 1 + j) = vertex pts (i + j) := by
  obtain ⟨k, hk⟩ : ∃ k, k + 1 = i + pts.length := ⟨i + pts.length - 1, by omega⟩
  refine ⟨k, fun j => ?_⟩
  rw [hk, Nat.add_right_comm, vertex_add_length]

omit [IsStrictOrderedRing K] in
theorem edge_add_length (i : Nat) : edge pts (i + pts.length) = edge pts i := by
  rw [edge, edge, vertex_add_length, Nat.add_right_comm, vertex_add_length]

omit [IsStrictOrderedRing K] in
theorem turnsAway_all (h : ∀ i < pts.length, TurnsAway pts i) (hn : 0 < pts.length) (i : Nat) :
    TurnsAway pts i := by
  have hi := h (i % pts.length) (Nat.mod_lt i hn)
  rwa [TurnsAway, edge, vertex_mod_add, vertex_mod_add, vertex_mod] at hi

omit [IsStrictOrderedRing K] in
theorem ApartDisjoint.symm_apply (h : ApartDisjoint pts) {i j : Nat} (hi : i < pts.length)
    (hj : j < pts.length) (hne : i ≠ j) (hapart : ¬ Neighbours pts.length i j) :
    edge pts i ∩ edge pts j = ∅ := by
  rcases Nat.lt_or_gt_of_ne hne with hlt | hgt
  · exact h i j hlt hj hapart
  · rw [Set.inter_comm]
    exact h j i hgt hi fun hn => hapart hn.symm

omit [IsStrictOrderedRing K] in
/-- In a ring of four edges or more an edge does not meet the one after the next. -/
theorem ApartDisjoint.two_apart (h : ApartDisjoint pts) (hn : 4 ≤ pts.length) (i : Nat) :
    edge pts i ∩ edge pts (i + 2) = ∅ := by
  have hbelow : ∀ r < pts.length, edge pts r ∩ edge pts (r + 2) = ∅ := by
    intro r hr
    rcases Nat.lt_trichotomy (r + 2) pts.length with hlt | heq | hgt
    · exact h r (r + 2) (by omega) hlt (by rw [neighbours_iff (by omega) hlt]; omega)
    · rw [heq, ← Nat.zero_add pts.length, edge_add_length, Set.inter_comm]
      exact h 0 r (by omega) hr (by rw [neighbours_iff (by omega) hr]; omega)
    · have hwrap : r + 2 = 1 + pts.length := by omega
      rw [hwrap, edge_add_length, Set.inter_comm]
      exact h 1 r (by omega) hr (by rw [neighbours_iff (by omega) hr]; omega)
  have hmod := hbelow (i % pts.length) (Nat.mod_lt i (by omega))
  rwa [edge, edge, Nat.add_assoc, vertex_mod, vertex_mod_add, vertex_mod_add,
    vertex_mod_add] at hmod

/-- Where no edge turns back and edges apart are disjoint, consecutive edges share their vertex
only. -/
theorem consecutive_of_turnsAway (hn : 3 ≤ pts.length) (hturns : ∀ i, TurnsAway pts i)
    (hapart : ApartDisjoint pts) (i : Nat) :
    edge pts i ∩ edge pts (i + 1) = {vertex pts (i + 1)} := by
  refine Set.Subset.antisymm (consecutive_inter_iff.2 ⟨fun hc => absurd hc (hturns i), ?_⟩) ?_
  · intro ha
    rcases Nat.eq_or_lt_of_le hn with hthree | hfour
    · -- in a triangle the start of the edge is the far end of the third one
      have hstart : vertex pts (i + 1 + 2) = vertex pts i := by
        rw [← vertex_add_length i, ← hthree]
      exact absurd (hstart ▸ ha) (hturns (i + 1))
    · -- otherwise it is on the edge before as well
      obtain ⟨k, hk⟩ := exists_before (by omega : 0 < pts.length) i
      have hapart' := hapart.two_apart hfour k
      have hnext : edge pts (k + 2) = edge pts (i + 1) := by
        rw [edge, edge, hk 1, Nat.add_right_comm k 2 1, hk 2]
      have hbefore : vertex pts i ∈ edge pts k := by
        rw [edge, hk 0]
        exact right_mem_segment K _ _
      rw [hnext] at hapart'
      exact absurd ⟨hbefore, ha⟩ (Set.eq_empty_iff_forall_notMem.1 hapart' _)
  · rw [Set.singleton_subset_iff]
    exact ⟨right_mem_segment K _ _, left_mem_segment K _ _⟩

/-- What the loop checks is that the polygon is simple. -/
theorem simplePolygon_iff (hn : 3 ≤ pts.length) :
    SimplePolygon pts ↔ (∀ i < pts.length, TurnsAway pts i) ∧ ApartDisjoint pts := by
  constructor
  · intro h
    refine ⟨fun i hi hback => ?_, fun i j hij hj =>
      h.disjoint i (hij.trans hj) j hj (Nat.ne_of_lt hij)⟩
    have hcommon : vertex pts (i + 2) ∈ edge pts i ∩ edge pts (i + 1) :=
      ⟨hback, right_mem_segment K _ _⟩
    rw [h.consecutive i hi, Set.mem_singleton_iff] at hcommon
    have hdistinct := h.distinct ((i + 1) % pts.length) (Nat.mod_lt _ (by omega))
    rw [vertex_mod, vertex_mod_add] at hdistinct
    exact hdistinct hcommon.symm
  · rintro ⟨hturns, hapart⟩
    have hall := turnsAway_all hturns (by omega)
    refine ⟨fun i _ heq => ?_, fun i _ => consecutive_of_turnsAway hn hall hapart i,
      fun i hi j hj => hapart.symm_apply hi hj⟩
    -- an edge that is a point lies on the edge before it
    obtain ⟨k, hk⟩ := exists_before (by omega : 0 < pts.length) i
    refine hall k ?_
    have hfar : vertex pts (k + 2) = vertex pts (k + 1) := by
      rw [hk 0, hk 1]
      exact heq.symm
    rw [hfar]
    exact right_mem_segment K _ _

/-! ## The loop -/

theorem edgePairOk_consecutive {i : Nat} (hi : i + 1 < pts.length) :
    edgePairOk pts i (i + 1) = true ↔ TurnsAway pts i := by
  have hmod : (i + 1) % pts.length = i + 1 := Nat.mod_eq_of_lt hi
  rw [edgePairOk, if_pos (Or.inl rfl), hmod, Bool.not_eq_true', ← Bool.not_eq_true,
    collinearOverlap_consecutive, TurnsAway, edge, vertex_of_lt hi, vertex_of_lt (by omega), vertex]

theorem edgePairOk_wrap (hn : 3 ≤ pts.length) :
    edgePairOk pts 0 (pts.length - 1) = true ↔ TurnsAway pts (pts.length - 1) := by
  have hend : (pts.length - 1 + 1) % pts.length = 0 := by
    rw [Nat.sub_add_cancel (by omega), Nat.mod_self]
  have hnext : (pts.length - 1 + 2) % pts.length = (0 + 1) % pts.length := by
    rw [← Nat.add_mod_right (0 + 1)]
    congr 1
    omega
  rw [edgePairOk, if_pos (Or.inr ⟨rfl, rfl⟩), hend, Bool.not_eq_true', ← Bool.not_eq_true,
    collinearOverlap_wrap, TurnsAway, edge, vertex, vertex, vertex, hnext, hend,
    Nat.mod_eq_of_lt (by omega : pts.length - 1 < pts.length)]

theorem edgePairOk_apart {i j : Nat} (hij : i < j) (hj : j < pts.length)
    (hapart : ¬ Neighbours pts.length i j) :
    edgePairOk pts i j = true ↔ edge pts i ∩ edge pts j = ∅ := by
  rw [neighbours_iff hij hj] at hapart
  rw [edgePairOk, if_neg hapart, Bool.not_eq_true', ← Bool.not_eq_true,
    segmentsIntersect_iff_sign, ← segments_meet_iff, Set.eq_empty_iff_forall_notMem, edge, edge,
    vertex_of_lt hj, vertex_of_lt (hij.trans hj), vertex, vertex]
  simp only [not_exists, Set.mem_inter_iff]

/-- The loop finds nothing wrong exactly with the simple polygons. -/
theorem edgePairs_ok_iff (hn : 3 ≤ pts.length) :
    (∀ i j, i < j → j < pts.length → edgePairOk pts i j = true) ↔ SimplePolygon pts := by
  rw [simplePolygon_iff hn]
  constructor
  · intro h
    refine ⟨fun i hi => ?_, fun i j hij hj hapart =>
      (edgePairOk_apart hij hj hapart).1 (h i j hij hj)⟩
    rcases Nat.lt_or_ge (i + 1) pts.length with hlt | hge
    · exact (edgePairOk_consecutive hlt).1 (h i (i + 1) (Nat.lt_succ_self i) hlt)
    · obtain rfl : i = pts.length - 1 := by omega
      exact (edgePairOk_wrap hn).1 (h 0 (pts.length - 1) (by omega) hi)
  · rintro ⟨hturns, hapart⟩ i j hij hj
    by_cases hneighbours : Neighbours pts.length i j
    · obtain rfl | ⟨rfl, rfl⟩ := (neighbours_iff hij hj).1 hneighbours
      · exact (edgePairOk_consecutive hj).2 (hturns i (by omega))
      · exact (edgePairOk_wrap hn).2 (hturns (pts.length - 1) (by omega))
    · exact (edgePairOk_apart hij hj hneighbours).2 (hapart i j hij hj hneighbours)

end Ring

/-- A ring of at least four positions whose first and last coincide. -/
def IsClosedRing (ring : List (K × K)) : Prop := 4 ≤ ring.length ∧ ring.head? = ring.getLast?

omit [IsStrictOrderedRing K] in
theorem checkSync_closed_iff {ring : List (K × K)} :
    (checkSync ring).isClosed = true ↔ IsClosedRing ring := by
  rw [checkSync, IsClosedRing, Bool.and_eq_true, decide_eq_true_eq, pointsEqual_iff]
  refine and_congr_right fun hlength => ?_
  have hfirst : 0 < ring.length := by omega
  have hlast : ring.length - 1 < ring.length := by omega
  rw [List.head?_eq_getElem?, List.getLast?_eq_getElem?, List.getD_eq_getElem _ _ hfirst,
    List.getD_eq_getElem _ _ hlast, List.getElem?_eq_getElem hfirst, List.getElem?_eq_getElem hlast,
    Option.some.injEq]

/-- The validator accepts exactly the closed rings whose positions, the closing one not counted,
form a simple polygon. -/
theorem checkSync_valid_iff (ring : List (K × K)) :
    (checkSync ring).isValid = true ↔ IsClosedRing ring ∧ SimplePolygon ring.dropLast := by
  have hvalid : (checkSync ring).isValid = isSimplePolygon ring (checkSync ring).isClosed := rfl
  by_cases hclosed : (checkSync ring).isClosed = true
  · have hring := checkSync_closed_iff.1 hclosed
    have hn : 3 ≤ ring.dropLast.length := by
      rw [List.length_dropLast]
      have := hring.1
      omega
    rw [and_iff_right hring, ← edgePairs_ok_iff hn, hvalid, hclosed, isSimplePolygon, if_neg nofun,
      ← List.dropLast_eq_take, if_neg (by omega)]
    simp only [List.all_eq_true, List.mem_range, List.mem_range'_1]
    constructor
    · intro h i j hij hj
      exact h i (hij.trans hj) j ⟨hij, by omega⟩
    · rintro h i - j ⟨hij, hj⟩
      exact h i j hij (by omega)
  · rw [hvalid, isSimplePolygon, if_pos (Bool.eq_false_iff.2 hclosed)]
    exact iff_of_false nofun fun h => hclosed (checkSync_closed_iff.2 h.1)

/-- The unit square, closed. -/
def unitSquare : List (ℚ × ℚ) := [(0, 0), (1, 0), (1, 1), (0, 1), (0, 0)]

theorem unitSquare_simple : IsClosedRing unitSquare ∧ SimplePolygon unitSquare.dropLast :=
  (checkSync_valid_iff unitSquare).1 (by decide +kernel)

end FleetCommand.Management
