import FleetCommand.Geofence.ConvexZones

/-!
# Containment in arbitrary rings

`Polygon.containsInclusive` over exact coordinates, of rings of any shape. The answer is read off
the edges, whatever their order and direction (`containsInclusive_eq`), so it does not depend on the
vertex a ring starts with, on its orientation, or on whether it is closed
(`containsInclusive_writing`). Of a point to the left of the ring every edge that passes its level
is crossed, and around a ring these are even in number; so nothing outside the bounding box is
contained (`not_contains_outside_box`).
-/

set_option autoImplicit false

namespace FleetCommand.Geofence

variable {K : Type} [Field K] [LinearOrder K] [IsStrictOrderedRing K]

/-! ## Edges without a direction -/

theorem onSegment_comm (a b p : Point K) : onSegment a b p = onSegment b a p := by
  have hcross : (a.lng - b.lng) * (p.lat - b.lat) - (a.lat - b.lat) * (p.lng - b.lng) =
      -((b.lng - a.lng) * (p.lat - a.lat) - (b.lat - a.lat) * (p.lng - a.lng)) := by
    ring
  rw [onSegment, onSegment, hcross, min_comm a.lng, max_comm a.lng, min_comm a.lat, max_comm a.lat]
  generalize (b.lng - a.lng) * (p.lat - a.lat) - (b.lat - a.lat) * (p.lng - a.lng) = c
  have hband : boundaryEpsilon < -c ∨ -c < -boundaryEpsilon ↔
      boundaryEpsilon < c ∨ c < -boundaryEpsilon := by
    rw [neg_lt_neg_iff, lt_neg, or_comm]
  simp only [hband]

omit [IsStrictOrderedRing K] in
theorem crosses_comm (p i j : Point K) : crosses p i j = crosses p j i := by
  rw [crosses, crosses]
  by_cases h : decide (p.lat < i.lat) = decide (p.lat < j.lat)
  · rw [if_neg (not_not_intro h), if_neg (not_not_intro h.symm)]
  · have hne : i.lat ≠ j.lat := fun heq => h (by rw [heq])
    have hij : j.lat - i.lat ≠ 0 := sub_ne_zero.2 hne.symm
    have hji : i.lat - j.lat ≠ 0 := sub_ne_zero.2 hne
    have hpassing : (j.lng - i.lng) * (p.lat - i.lat) / (j.lat - i.lat) + i.lng =
        (i.lng - j.lng) * (p.lat - j.lat) / (i.lat - j.lat) + j.lng := by
      field_simp
      ring
    rw [if_pos h, if_pos (Ne.symm h), hpassing]

/-- What the loops make of the edges. -/
def edgesContain (es : List (Point K × Point K)) (p : Point K) : Bool :=
  if es.length < 3 then false
  else (es.any fun e => onSegment e.1 e.2 p) ||
    decide (Odd (es.countP fun e => crosses p e.1 e.2))

omit [IsStrictOrderedRing K] in
theorem insideRing_eq (ring : List (Point K)) (p : Point K) :
    insideRing ring p =
      decide (Odd ((CyclicList.edges ring).countP fun e => crosses p e.1 e.2)) := by
  rw [insideRing, foldl_toggle, Bool.false_xor, (CyclicList.zip_rotate_pred_perm ring).countP_eq,
    List.countP_map]
  simp only [Function.comp_def, Prod.fst_swap, Prod.snd_swap, crosses_comm p (Prod.snd _)]

omit [IsStrictOrderedRing K] in
theorem containsInclusive_eq (poly : Polygon K) (p : Point K) :
    poly.containsInclusive p = edgesContain (CyclicList.edges poly.ring) p := by
  rw [Polygon.containsInclusive, edgesContain, CyclicList.length_edges, ← insideRing_eq]
  refine if_congr Iff.rfl rfl ?_
  rw [Bool.if_true_left, Bool.decide_eq_true]
  rfl

omit [IsStrictOrderedRing K] in
theorem edgesContain_perm {es es' : List (Point K × Point K)} (h : es.Perm es') (p : Point K) :
    edgesContain es p = edgesContain es' p := by
  rw [edgesContain, edgesContain, h.length_eq, h.any_eq, h.countP_eq]

theorem edgesContain_swap (es : List (Point K × Point K)) (p : Point K) :
    edgesContain (es.map Prod.swap) p = edgesContain es p := by
  rw [edgesContain, edgesContain, List.length_map, List.any_map, List.countP_map]
  simp only [Function.comp_def, Prod.fst_swap, Prod.snd_swap, onSegment_comm (Prod.snd _),
    crosses_comm p (Prod.snd _)]

/-! ## The ways to write a ring -/

/-- No two vertices that follow each other around the ring are equal. -/
def NoRepeat (ring : List (Point K)) : Prop :=
  2 ≤ ring.length → ∀ i < ring.length, vertexAt ring i ≠ vertexAt ring (i + 1)

/-- The ring given closed, with its first vertex repeated at the end. -/
def closeRing (ring : List (Point K)) : List (Point K) := ring ++ ring.take 1

omit [Field K] [IsStrictOrderedRing K] in
theorem ring_closeRing (ring : List (Point K)) : (Polygon.mk (closeRing ring)).ring = ring := by
  cases ring with
  | nil => rfl
  | cons a ring =>
    have hlast : (closeRing (a :: ring)).getLast? = some a := List.getLast?_concat
    have hhead : (closeRing (a :: ring)).head? = some a := rfl
    have hlength : 2 ≤ (closeRing (a :: ring)).length := by simp [closeRing]
    simp only [Polygon.ring, hhead, hlast]
    rw [if_pos ⟨hlength, (beq_iff a a).2 rfl⟩]
    exact List.dropLast_concat

omit [LinearOrder K] [IsStrictOrderedRing K] in
theorem vertexAt_rotate (ring : List (Point K)) (k i : Nat) :
    vertexAt (ring.rotate k) i = vertexAt ring (i + k) := by
  rcases Nat.eq_zero_or_pos ring.length with h | h
  · rw [List.length_eq_zero_iff.1 h]
    rfl
  · rw [vertexAt, vertexAt, List.length_rotate, List.getD_eq_getElem?_getD,
      List.getD_eq_getElem?_getD, List.getElem?_rotate (Nat.mod_lt i h), Nat.mod_add_mod]

omit [LinearOrder K] [IsStrictOrderedRing K] in
theorem NoRepeat.ends_ne {ring : List (Point K)} (h : NoRepeat ring) (hn : 2 ≤ ring.length) :
    ring.head? ≠ ring.getLast? := by
  rw [head?_eq_vertexAt (by omega), getLast?_eq_vertexAt (by omega), ne_eq, Option.some.injEq]
  have hwrap := h hn (ring.length - 1) (by omega)
  rw [Nat.sub_add_cancel (by omega)] at hwrap
  intro heq
  refine hwrap (heq.symm.trans ?_)
  rw [vertexAt, vertexAt, Nat.mod_self, Nat.zero_mod]

omit [LinearOrder K] [IsStrictOrderedRing K] in
theorem NoRepeat.rotate {ring : List (Point K)} (h : NoRepeat ring) (k : Nat) :
    NoRepeat (ring.rotate k) := by
  intro hn i _
  rw [List.length_rotate] at hn
  have hi := h hn ((i + k) % ring.length) (Nat.mod_lt _ (by omega))
  rwa [vertexAt_mod, vertexAt_mod_succ, ← vertexAt_rotate, Nat.add_right_comm,
    ← vertexAt_rotate] at hi

/-- The answer for a ring does not depend on the vertex it starts with, on its orientation, or on
whether it is given closed. -/
theorem containsInclusive_writing (ring : List (Point K)) (hring : NoRepeat ring) (p : Point K) :
    (∀ k, (Polygon.mk (ring.rotate k)).containsInclusive p =
      (Polygon.mk ring).containsInclusive p) ∧
    (Polygon.mk ring.reverse).containsInclusive p = (Polygon.mk ring).containsInclusive p ∧
    (Polygon.mk (closeRing ring)).containsInclusive p =
      (Polygon.mk ring).containsInclusive p := by
  have hopen : (Polygon.mk ring).ring = ring := ring_eq_vertices fun hn => hring.ends_ne hn
  refine ⟨fun k => ?_, ?_, ?_⟩
  · have hrotated : (Polygon.mk (ring.rotate k)).ring = ring.rotate k :=
      ring_eq_vertices fun hn => (hring.rotate k).ends_ne hn
    rw [containsInclusive_eq, containsInclusive_eq, hrotated, hopen]
    exact edgesContain_perm (CyclicList.edges_rotate_perm ring k) p
  · have hreversed : (Polygon.mk ring.reverse).ring = ring.reverse := by
      refine ring_eq_vertices fun hn => ?_
      rw [List.length_reverse] at hn
      rw [List.head?_reverse, List.getLast?_reverse]
      exact (hring.ends_ne hn).symm
    rw [containsInclusive_eq, containsInclusive_eq, hreversed, hopen,
      edgesContain_perm (CyclicList.edges_reverse_perm ring) p, edgesContain_swap]
  · rw [containsInclusive_eq, containsInclusive_eq, ring_closeRing, hopen]

/-- A figure of eight. -/
def figureEight : List (Point ℚ) := [⟨0, 0⟩, ⟨2, 2⟩, ⟨2, 0⟩, ⟨0, 2⟩]

theorem containsInclusive_writing_figureEight :
    (∀ k, (Polygon.mk (figureEight.rotate k)).containsInclusive ⟨1, 2⟩ =
      (Polygon.mk figureEight).containsInclusive ⟨1, 2⟩) ∧
    (Polygon.mk figureEight.reverse).containsInclusive ⟨1, 2⟩ =
      (Polygon.mk figureEight).containsInclusive ⟨1, 2⟩ ∧
    (Polygon.mk (closeRing figureEight)).containsInclusive ⟨1, 2⟩ =
      (Polygon.mk figureEight).containsInclusive ⟨1, 2⟩ :=
  containsInclusive_writing figureEight (fun _ => by decide) ⟨1, 2⟩

/-! ## Outside the bounding box -/

omit [Field K] [IsStrictOrderedRing K] in
theorem ring_subset (poly : Polygon K) : ∀ q ∈ poly.ring, q ∈ poly.vertices := by
  intro q hq
  rw [Polygon.ring] at hq
  split at hq
  · split at hq
    · exact List.mem_of_mem_dropLast hq
    · exact hq
  · exact hq

omit [IsStrictOrderedRing K] in
/-- The ends of the edge are on one side of the level. -/
theorem crosses_of_level {p i j : Point K} (h : p.lat < i.lat ↔ p.lat < j.lat) :
    crosses p i j = false := by
  rw [crosses, if_neg (not_not_intro (decide_eq_decide.2 h))]

/-- To the right of both ends no edge is crossed. -/
theorem crosses_of_right {p i j : Point K} (hi : i.lng < p.lng) (hj : j.lng < p.lng) :
    crosses p i j = false := by
  rw [← Bool.not_eq_true, crosses_iff]
  rintro ⟨hpasses, hleft⟩
  have hmax := (PlaneSegments.mem_segment_iff.1 (ConvexRing.passing_mem_segment hpasses)).2.2.1
  exact absurd (hleft.trans_le hmax) (max_lt hj hi).not_gt

/-- To the left of both ends an edge is crossed when it passes the level. -/
theorem crosses_of_left {p i j : Point K} (hi : p.lng < i.lng) (hj : p.lng < j.lng) :
    crosses p i j = (decide (p.lat < i.lat) != decide (p.lat < j.lat)) := by
  by_cases h : p.lat < i.lat ↔ p.lat < j.lat
  · rw [crosses_of_level h, decide_eq_decide.2 h, bne_self_eq_false]
  · have hpasses : ConvexRing.GoesUp p.lat j.pair i.pair ∨
        ConvexRing.GoesDown p.lat j.pair i.pair := by
      rw [ConvexRing.GoesUp, ConvexRing.GoesDown, ← not_lt, ← not_lt]
      tauto
    have hmin := (PlaneSegments.mem_segment_iff.1 (ConvexRing.passing_mem_segment hpasses)).2.1
    have hcrosses : crosses p i j = true :=
      (crosses_iff p i j).2 ⟨hpasses, (lt_min hj hi).trans_le hmin⟩
    rw [hcrosses, eq_comm, bne_iff_ne, ne_eq, decide_eq_decide]
    exact h

/-- More than the tolerance below, above, to the left or to the right of every vertex. -/
def OutsideBox (vertices : List (Point K)) (p : Point K) : Prop :=
  (∀ v ∈ vertices, p.lat < v.lat - boundaryEpsilon) ∨
  (∀ v ∈ vertices, v.lat + boundaryEpsilon < p.lat) ∨
  (∀ v ∈ vertices, p.lng < v.lng - boundaryEpsilon) ∨
  ∀ v ∈ vertices, v.lng + boundaryEpsilon < p.lng

theorem OutsideBox.onSegment_eq {vertices : List (Point K)} {p : Point K}
    (h : OutsideBox vertices p) {a b : Point K} (ha : a ∈ vertices) (hb : b ∈ vertices) :
    onSegment a b p = false := by
  rw [← Bool.not_eq_true, onSegment_iff]
  rintro ⟨-, ⟨hleft, hright⟩, hbelow, habove⟩
  rcases h with h | h | h | h
  · exact absurd (lt_min (lt_sub_iff_add_lt.1 (h a ha)) (lt_sub_iff_add_lt.1 (h b hb)))
      (sub_le_iff_le_add.1 hbelow).not_gt
  · exact absurd (max_lt (lt_sub_iff_add_lt.2 (h a ha)) (lt_sub_iff_add_lt.2 (h b hb)))
      (sub_le_iff_le_add.2 habove).not_gt
  · exact absurd (lt_min (lt_sub_iff_add_lt.1 (h a ha)) (lt_sub_iff_add_lt.1 (h b hb)))
      (sub_le_iff_le_add.1 hleft).not_gt
  · exact absurd (max_lt (lt_sub_iff_add_lt.2 (h a ha)) (lt_sub_iff_add_lt.2 (h b hb)))
      (sub_le_iff_le_add.2 hright).not_gt

/-- An even number of edges is crossed. -/
theorem OutsideBox.even_crosses {ring : List (Point K)} {p : Point K} (h : OutsideBox ring p) :
    Even ((CyclicList.edges ring).countP fun e => crosses p e.1 e.2) := by
  have hε : (0 : K) ≤ boundaryEpsilon := boundaryEpsilon_nonneg
  have hnone (hfalse : ∀ e ∈ CyclicList.edges ring, crosses p e.1 e.2 = false) :
      Even ((CyclicList.edges ring).countP fun e => crosses p e.1 e.2) := by
    rw [List.countP_eq_zero.2 fun e he => by simp [hfalse e he]]
    exact Even.zero
  rcases h with h | h | h | h
  · refine hnone fun e he => crosses_of_level (iff_of_true ?_ ?_)
    · exact (h _ (CyclicList.mem_of_mem_edges he).1).trans_le (sub_le_self _ hε)
    · exact (h _ (CyclicList.mem_of_mem_edges he).2).trans_le (sub_le_self _ hε)
  · refine hnone fun e he => crosses_of_level (iff_of_false ?_ ?_)
    · exact ((le_add_of_nonneg_right hε).trans_lt (h _ (CyclicList.mem_of_mem_edges he).1)).not_gt
    · exact ((le_add_of_nonneg_right hε).trans_lt (h _ (CyclicList.mem_of_mem_edges he).2)).not_gt
  · -- every change of side is crossed
    have hchanges := CyclicList.even_countP_changes (fun v : Point K => decide (p.lat < v.lat)) ring
    rwa [List.countP_congr fun e he => ?_] at hchanges
    rw [crosses_of_left ((h _ (CyclicList.mem_of_mem_edges he).1).trans_le (sub_le_self _ hε))
      ((h _ (CyclicList.mem_of_mem_edges he).2).trans_le (sub_le_self _ hε))]
  · refine hnone fun e he => crosses_of_right ?_ ?_
    · exact (le_add_of_nonneg_right hε).trans_lt (h _ (CyclicList.mem_of_mem_edges he).1)
    · exact (le_add_of_nonneg_right hε).trans_lt (h _ (CyclicList.mem_of_mem_edges he).2)

/-- No polygon contains a point outside its bounding box. -/
theorem not_contains_outside_box (poly : Polygon K) (p : Point K)
    (houtside : OutsideBox poly.vertices p) : poly.containsInclusive p = false := by
  have hring : OutsideBox poly.ring p := by
    refine houtside.imp ?_ (Or.imp ?_ (Or.imp ?_ ?_)) <;>
      exact fun h v hv => h v (ring_subset poly v hv)
  have hany : ((CyclicList.edges poly.ring).any fun e => onSegment e.1 e.2 p) = false := by
    rw [List.any_eq_false]
    intro e he
    have hfalse := hring.onSegment_eq (CyclicList.mem_of_mem_edges he).1
      (CyclicList.mem_of_mem_edges he).2
    rw [hfalse]
    exact Bool.false_ne_true
  rw [containsInclusive_eq, edgesContain, hany, Bool.false_or,
    decide_eq_false (Nat.not_odd_iff_even.2 hring.even_crosses), ite_self]

theorem not_contains_outside_box_figureEight :
    (Polygon.mk figureEight).containsInclusive ⟨1, -1⟩ = false :=
  not_contains_outside_box _ _ (Or.inr (Or.inr (Or.inl (by decide +kernel))))

end FleetCommand.Geofence
