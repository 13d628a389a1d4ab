import FleetCommand.Geofence.Rings

/-!
# The boundary tolerance

The edge test compares the cross product of an edge and a point with `boundaryEpsilon`. The cross
product is the distance from the line times the length of the edge, so for a short edge the test
accepts points whose distance is far beyond the tolerance. A point is within the tolerance of an
edge in both coordinates when the cross product is at most `boundaryEpsilon` times the extent of the
edge (`nearEdge_iff`). The test keeps the tolerance at every point only for edges of an extent of at
least one degree and for those parallel to an axis (`Scaled`); a point accepted by the boundary
alone is away from the boundary exactly when it is `BeyondTolerance` (`tolerance_kept_iff`).
-/

set_option autoImplicit false

namespace FleetCommand.Geofence

variable {K : Type} [Field K] [LinearOrder K] [IsStrictOrderedRing K]

/-- Some point of the edge differs from `p` by at most the tolerance in each coordinate. -/
def WithinTolerance (e : Point K × Point K) (p : Point K) : Prop :=
  ∃ q : Point K, q.pair ∈ segment K e.1.pair e.2.pair ∧
    |q.lng - p.lng| ≤ boundaryEpsilon ∧ |q.lat - p.lat| ≤ boundaryEpsilon

/-- The cross product compared with the tolerance times the extent of the edge, and the bounding box
widened by the tolerance. -/
def NearEdge (e : Point K × Point K) (p : Point K) : Prop :=
  |side e.1 e.2 p| ≤ boundaryEpsilon * (|e.2.lng - e.1.lng| + |e.2.lat - e.1.lat|) ∧
    PlaneSegments.NearBox boundaryEpsilon e.1.pair e.2.pair p.pair

instance (e : Point K × Point K) (p : Point K) : Decidable (NearEdge e p) :=
  inferInstanceAs (Decidable (_ ∧ _))

theorem nearEdge_iff {e : Point K × Point K} {p : Point K} :
    WithinTolerance e p ↔ NearEdge e p := by
  have hnear := PlaneSegments.exists_near_iff (a := e.1.pair) (b := e.2.pair) (p := p.pair)
    (boundaryEpsilon_nonneg (K := K))
  constructor
  · rintro ⟨q, hq, hlng, hlat⟩
    exact hnear.1 ⟨q.pair, hq, hlng, hlat⟩
  · intro h
    obtain ⟨⟨lng, lat⟩, hq, hlng, hlat⟩ := hnear.2 h
    exact ⟨⟨lat, lng⟩, hq, hlng, hlat⟩

/-- The edges around the polygon. -/
def Polygon.edges (poly : Polygon K) : List (Point K × Point K) := CyclicList.edges poly.ring

/-- The even-odd rule leaves the point outside. -/
def EvenCrossings (poly : Polygon K) (p : Point K) : Prop :=
  Even (poly.edges.countP fun e => crosses p e.1 e.2)

instance (poly : Polygon K) (p : Point K) : Decidable (EvenCrossings poly p) :=
  inferInstanceAs (Decidable (Even _))

/-- A point that is contained although its crossings are even is near the boundary. -/
def ToleranceKept (poly : Polygon K) (p : Point K) : Prop :=
  poly.containsInclusive p = true → EvenCrossings poly p → ∃ e ∈ poly.edges, WithinTolerance e p

omit [IsStrictOrderedRing K] in
/-- With even crossings a polygon contains a point when some edge accepts it. -/
theorem contains_iff_of_even {poly : Polygon K} {p : Point K} (heven : EvenCrossings poly p) :
    poly.containsInclusive p = true ↔
      3 ≤ poly.ring.length ∧ ∃ e ∈ poly.edges, onSegment e.1 e.2 p = true := by
  have hodd : decide (Odd (poly.edges.countP fun e => crosses p e.1 e.2)) = false :=
    decide_eq_false (Nat.not_odd_iff_even.2 heven)
  rw [containsInclusive_eq, ← Polygon.edges, edgesContain, hodd, Bool.or_false, Polygon.edges,
    CyclicList.length_edges]
  by_cases hn : poly.ring.length < 3
  · rw [if_pos hn]
    exact iff_of_false Bool.false_ne_true fun h => absurd h.1 (Nat.not_le.2 hn)
  · rw [if_neg hn, List.any_eq_true]
    exact (and_iff_right (Nat.not_lt.1 hn)).symm

/-- Beyond the tolerance: the cross product with some edge whose widened box holds the point is at
most `boundaryEpsilon`, and with every such edge it exceeds `boundaryEpsilon` times the extent of
the edge. -/
def BeyondTolerance (poly : Polygon K) (p : Point K) : Prop :=
  (∃ e ∈ poly.edges, PlaneSegments.NearBox boundaryEpsilon e.1.pair e.2.pair p.pair ∧
    |side e.1 e.2 p| ≤ boundaryEpsilon) ∧
  ∀ e ∈ poly.edges, PlaneSegments.NearBox boundaryEpsilon e.1.pair e.2.pair p.pair →
    boundaryEpsilon * (|e.2.lng - e.1.lng| + |e.2.lat - e.1.lat|) < |side e.1 e.2 p|

instance (poly : Polygon K) (p : Point K) : Decidable (BeyondTolerance poly p) :=
  inferInstanceAs (Decidable (_ ∧ _))

/-- An edge at least one degree long, or parallel to an axis. -/
def Scaled (e : Point K × Point K) : Prop :=
  1 ≤ |e.2.lng - e.1.lng| + |e.2.lat - e.1.lat| ∨ e.2.lng = e.1.lng ∨ e.2.lat = e.1.lat

instance (e : Point K × Point K) : Decidable (Scaled e) :=
  inferInstanceAs (Decidable (_ ∨ _))

theorem onSegment_iff_nearBox {a b p : Point K} :
    onSegment a b p = true ↔
      PlaneSegments.NearBox boundaryEpsilon a.pair b.pair p.pair ∧
        |side a b p| ≤ boundaryEpsilon := by
  rw [onSegment_iff, abs_le]
  exact and_comm

/-- A point that some edge accepts is near none exactly when it is beyond the tolerance. -/
theorem beyondTolerance_iff {poly : Polygon K} {p : Point K} :
    BeyondTolerance poly p ↔
      (∃ e ∈ poly.edges, onSegment e.1 e.2 p = true) ∧ ∀ e ∈ poly.edges, ¬ WithinTolerance e p := by
  simp only [BeyondTolerance, onSegment_iff_nearBox, nearEdge_iff, NearEdge, not_and', not_le]

theorem toleranceKept_iff (poly : Polygon K) (p : Point K) :
    ToleranceKept poly p ↔
      (EvenCrossings poly p → 3 ≤ poly.ring.length → ¬ BeyondTolerance poly p) := by
  rw [beyondTolerance_iff]
  constructor
  · rintro h heven hn ⟨haccepted, hfar⟩
    obtain ⟨e, he, hnear⟩ := h ((contains_iff_of_even heven).2 ⟨hn, haccepted⟩) heven
    exact hfar e he hnear
  · intro h hcontains heven
    obtain ⟨hn, haccepted⟩ := (contains_iff_of_even heven).1 hcontains
    by_contra hnone
    exact h heven hn ⟨haccepted, fun e he hnear => hnone ⟨e, he, hnear⟩⟩

/-! ## The scale of an edge -/

/-- On a vertical edge the cross product is the distance times the extent. -/
theorem side_le_of_lng_eq {a b p : Point K} (h : b.lng = a.lng)
    (hbox : PlaneSegments.NearBox boundaryEpsilon a.pair b.pair p.pair) :
    |side a b p| ≤ boundaryEpsilon * |b.lat - a.lat| := by
  obtain ⟨⟨hlow, hup⟩, -⟩ := hbox
  have hnear : |p.lng - a.lng| ≤ boundaryEpsilon := by
    simp only [Point.pair, h, min_self, max_self] at hlow hup
    exact abs_le.2 ⟨by linarith, by linarith⟩
  rw [side, h, sub_self, zero_mul, zero_sub, abs_neg, abs_mul, mul_comm]
  gcongr

theorem side_le_of_lat_eq {a b p : Point K} (h : b.lat = a.lat)
    (hbox : PlaneSegments.NearBox boundaryEpsilon a.pair b.pair p.pair) :
    |side a b p| ≤ boundaryEpsilon * |b.lng - a.lng| := by
  obtain ⟨-, hlow, hup⟩ := hbox
  have hnear : |p.lat - a.lat| ≤ boundaryEpsilon := by
    simp only [Point.pair, h, min_self, max_self] at hlow hup
    exact abs_le.2 ⟨by linarith, by linarith⟩
  rw [side, h, sub_self, zero_mul, sub_zero, abs_mul, mul_comm]
  gcongr

/-- What the test of a scaled edge accepts is near the edge. -/
theorem Scaled.withinTolerance {a b p : Point K} (h : Scaled (a, b))
    (haccepted : onSegment a b p = true) : WithinTolerance (a, b) p := by
  obtain ⟨hbox, hside⟩ := onSegment_iff_nearBox.1 haccepted
  refine nearEdge_iff.2 ⟨?_, hbox⟩
  rcases h with hextent | hlng | hlat
  · exact hside.trans (le_mul_of_one_le_right boundaryEpsilon_nonneg hextent)
  · refine (side_le_of_lng_eq hlng hbox).trans ?_
    have hle : |b.lat - a.lat| ≤ |b.lng - a.lng| + |b.lat - a.lat| :=
      le_add_of_nonneg_left (abs_nonneg _)
    exact mul_le_mul_of_nonneg_left hle boundaryEpsilon_nonneg
  · refine (side_le_of_lat_eq hlat hbox).trans ?_
    have hle : |b.lng - a.lng| ≤ |b.lng - a.lng| + |b.lat - a.lat| :=
      le_add_of_nonneg_right (abs_nonneg _)
    exact mul_le_mul_of_nonneg_left hle boundaryEpsilon_nonneg

/-- Of an edge that is not scaled the test accepts a point that is not near it. -/
theorem exists_exceeds_of_not_scaled {a b : Point K} (h : ¬ Scaled (a, b)) :
    ∃ p, onSegment a b p = true ∧ ¬ WithinTolerance (a, b) p := by
  obtain ⟨hextent, hlng, hlat⟩ : ¬ 1 ≤ |b.lng - a.lng| + |b.lat - a.lat| ∧
      b.lng ≠ a.lng ∧ b.lat ≠ a.lat := by simpa only [Scaled, not_or] using h
  obtain ⟨⟨lng, lat⟩, hbox, hfar, hcross⟩ := PlaneSegments.exists_nearBox_cross_between
    (a := a.pair) (b := b.pair) (boundaryEpsilon_pos (K := K)) hlng hlat (not_le.1 hextent)
  have hnonneg : 0 ≤ side a b ⟨lat, lng⟩ :=
    le_trans (mul_nonneg boundaryEpsilon_nonneg (by positivity)) hfar.le
  refine ⟨⟨lat, lng⟩, onSegment_iff_nearBox.2 ⟨hbox, ?_⟩, fun hnear => ?_⟩
  · rw [abs_of_nonneg hnonneg]
    exact hcross
  · have hle := (nearEdge_iff.1 hnear).1
    rw [abs_of_nonneg hnonneg] at hle
    exact absurd hle (not_le.2 hfar)

theorem scaled_iff (a b : Point K) :
    (∀ p, onSegment a b p = true → WithinTolerance (a, b) p) ↔ Scaled (a, b) := by
  constructor
  · intro h
    by_contra hscaled
    obtain ⟨p, haccepted, hfar⟩ := exists_exceeds_of_not_scaled hscaled
    exact hfar (h p haccepted)
  · exact fun h p haccepted => h.withinTolerance haccepted

theorem toleranceKept_of_scaled {poly : Polygon K} (h : ∀ e ∈ poly.edges, Scaled e) (p : Point K) :
    ToleranceKept poly p := by
  intro hcontains heven
  obtain ⟨-, e, he, haccepted⟩ := (contains_iff_of_even heven).1 hcontains
  exact ⟨e, he, (h e he).withinTolerance haccepted⟩

/-- The boundary tolerance is kept at a point exactly when its crossings are odd, the ring is short
or the point is not beyond the tolerance; the test of one edge keeps it at every point exactly when
the edge is scaled; and a polygon of scaled edges keeps it at every point. -/
theorem tolerance_kept_iff :
    (∀ (poly : Polygon K) (p : Point K), ToleranceKept poly p ↔
      (EvenCrossings poly p → 3 ≤ poly.ring.length → ¬ BeyondTolerance poly p)) ∧
    (∀ a b : Point K, (∀ p, onSegment a b p = true → WithinTolerance (a, b) p) ↔ Scaled (a, b)) ∧
    ∀ poly : Polygon K, (∀ e ∈ poly.edges, Scaled e) → ∀ p, ToleranceKept poly p :=
  ⟨toleranceKept_iff, scaled_iff, fun _ h p => toleranceKept_of_scaled h p⟩

/-- A triangle whose edges are about a hundred metres long. -/
def smallTriangle : Polygon ℚ := ⟨[⟨0, 0⟩, ⟨1 / 1000, 1 / 1000⟩, ⟨1 / 1000, 0⟩]⟩

/-- A point beside the long edge, four hundred tolerances away from it. -/
def besideSmallTriangle : Point ℚ := ⟨1 / 2000 - 4 / 10000000, 1 / 2000 + 4 / 10000000⟩

/-- A point beside an upright edge, half a tolerance away from it; the long edge accepts it from
farther away. -/
def besideUprightEdge : Point ℚ := ⟨2 / 10000000, -5 / 10000000000⟩

/-- A triangle a degree high and wide. -/
def degreeTriangle : Polygon ℚ := ⟨[⟨0, 0⟩, ⟨1, 1⟩, ⟨1, 0⟩]⟩

/-- The point beside the upright edge is contained as a boundary point and is near the edge,
although the long edge alone would not keep the tolerance; the triangle of a degree keeps it
everywhere. -/
theorem besideUprightEdge_kept :
    (smallTriangle.containsInclusive besideUprightEdge = true ∧
      EvenCrossings smallTriangle besideUprightEdge ∧
      ToleranceKept smallTriangle besideUprightEdge) ∧
    (¬ ∀ p : Point ℚ, onSegment ⟨0, 0⟩ ⟨1 / 1000, 1 / 1000⟩ p = true →
      WithinTolerance (⟨0, 0⟩, ⟨1 / 1000, 1 / 1000⟩) p) ∧
    ∀ p, ToleranceKept degreeTriangle p := by
  obtain ⟨hkept, hscaled, hpolygon⟩ := tolerance_kept_iff (K := ℚ)
  refine ⟨⟨by decide +kernel, by decide +kernel, ?_⟩, ?_, ?_⟩
  · have hnotBeyond : ¬ BeyondTolerance smallTriangle besideUprightEdge := by decide +kernel
    exact (hkept _ _).2 fun _ _ => hnotBeyond
  · rw [hscaled]
    decide +kernel
  · exact hpolygon degreeTriangle (by decide +kernel)

/-- The small triangle contains the point beside the long edge, which is near none of its edges. -/
theorem smallTriangle_exceeds : ¬ ToleranceKept smallTriangle besideSmallTriangle := by
  intro h
  obtain ⟨e, he, hwithin⟩ := h (by decide +kernel) (by decide +kernel)
  have hnone : ∀ e ∈ smallTriangle.edges, ¬ NearEdge e besideSmallTriangle := by decide +kernel
  exact hnone e he (nearEdge_iff.1 hwithin)

end FleetCommand.Geofence
