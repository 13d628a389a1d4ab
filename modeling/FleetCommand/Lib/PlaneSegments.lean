import Mathlib.Analysis.Convex.Between
import Mathlib.Data.Sign.Basic
import Mathlib.Tactic.FieldSimp
import Mathlib.Tactic.LinearCombination

/-!
# Segments of the plane

Closed segments of `K × K` over an ordered field, decided by signs. A point lies on a segment when
it is collinear with the endpoints and inside their bounding box (`mem_segment_iff`); two segments
meet when each separates the endpoints of the other or one of them holds an endpoint of the other
(`segments_meet_iff`); and the points near a segment in both coordinates are a band around its line
inside the widened box (`exists_near_iff`), which for a short segment is narrower than the points
whose cross product is at most `ε` (`exists_nearBox_cross_between`).
-/

set_option autoImplicit false

namespace PlaneSegments

open SignType AffineMap

variable {K : Type} [Field K] [LinearOrder K] [IsStrictOrderedRing K] {a b c d p x : K × K}

/-- Twice the signed area of a triangle: positive when `p` is to the left of the line from `a` to
`b`. -/
def cross (a b p : K × K) : K := (b.1 - a.1) * (p.2 - a.2) - (b.2 - a.2) * (p.1 - a.1)

/-- A point of the bounding box of two points. -/
def InBox (a b p : K × K) : Prop :=
  min a.1 b.1 ≤ p.1 ∧ p.1 ≤ max a.1 b.1 ∧ min a.2 b.2 ≤ p.2 ∧ p.2 ≤ max a.2 b.2

omit [LinearOrder K] [IsStrictOrderedRing K] in
theorem lineMap_fst (a b : K × K) (t : K) : (lineMap a b t).1 = a.1 + t * (b.1 - a.1) := by
  simp [lineMap_apply, add_comm]

omit [LinearOrder K] [IsStrictOrderedRing K] in
theorem lineMap_snd (a b : K × K) (t : K) : (lineMap a b t).2 = a.2 + t * (b.2 - a.2) := by
  simp [lineMap_apply, add_comm]

omit [LinearOrder K] [IsStrictOrderedRing K] in
/-- The area is affine in the third point. -/
theorem cross_lineMap (a b p q : K × K) (t : K) :
    cross a b (lineMap p q t) = (1 - t) * cross a b p + t * cross a b q := by
  simp only [cross, lineMap_fst, lineMap_snd]
  ring

omit [LinearOrder K] [IsStrictOrderedRing K] in
@[simp] theorem cross_self_left (a b : K × K) : cross a b a = 0 := by
  simp only [cross]
  ring

omit [LinearOrder K] [IsStrictOrderedRing K] in
@[simp] theorem cross_self_right (a b : K × K) : cross a b b = 0 := by
  simp only [cross]
  ring

omit [LinearOrder K] [IsStrictOrderedRing K] in
theorem cross_rotate (a b p : K × K) : cross a b p = cross p a b := by
  simp only [cross]
  ring

omit [LinearOrder K] [IsStrictOrderedRing K] in
/-- A point collinear with two distinct points is on their line. -/
theorem exists_lineMap_of_cross_eq_zero (hab : a ≠ b) (h : cross a b p = 0) :
    ∃ t : K, lineMap a b t = p := by
  rw [cross, sub_eq_zero] at h
  by_cases h1 : b.1 - a.1 = 0
  · have h2 : b.2 - a.2 ≠ 0 := by
      intro h2
      exact hab (Prod.ext (sub_eq_zero.1 h1).symm (sub_eq_zero.1 h2).symm)
    have hp : p.1 - a.1 = 0 := by
      rw [h1, zero_mul, eq_comm, mul_eq_zero] at h
      exact h.resolve_left h2
    refine ⟨(p.2 - a.2) / (b.2 - a.2), Prod.ext ?_ ?_⟩
    · rw [lineMap_fst, h1]
      linear_combination -hp
    · rw [lineMap_snd, div_mul_cancel₀ _ h2]
      ring
  · refine ⟨(p.1 - a.1) / (b.1 - a.1), Prod.ext ?_ ?_⟩
    · rw [lineMap_fst, div_mul_cancel₀ _ h1]
      ring
    · rw [lineMap_snd]
      field_simp
      linear_combination -h

theorem cross_eq_zero_of_mem_segment (h : x ∈ segment K a b) : cross a b x = 0 := by
  rw [segment_eq_image_lineMap] at h
  obtain ⟨t, -, rfl⟩ := h
  rw [cross_lineMap, cross_self_left, cross_self_right]
  ring

theorem mem_Icc_of_between {u v t : K} (huv : u ≠ v) (hmin : min u v ≤ u + t * (v - u))
    (hmax : u + t * (v - u) ≤ max u v) : t ∈ Set.Icc (0 : K) 1 := by
  rcases lt_or_gt_of_ne huv with hlt | hgt
  · rw [min_eq_left hlt.le] at hmin
    rw [max_eq_right hlt.le] at hmax
    have hpos : 0 < v - u := sub_pos.2 hlt
    exact ⟨by nlinarith only [hmin, hpos], by nlinarith only [hmax, hpos]⟩
  · rw [min_eq_right hgt.le] at hmin
    rw [max_eq_left hgt.le] at hmax
    have hpos : 0 < u - v := sub_pos.2 hgt
    exact ⟨by nlinarith only [hmax, hpos], by nlinarith only [hmin, hpos]⟩

/-- A point lies on a segment when it is collinear with the endpoints and inside their box. -/
theorem mem_segment_iff : p ∈ segment K a b ↔ cross a b p = 0 ∧ InBox a b p := by
  constructor
  · intro h
    refine ⟨cross_eq_zero_of_mem_segment h, ?_⟩
    obtain ⟨s, t, hs, ht, hst, rfl⟩ := h
    exact ⟨Convex.min_le_combo _ _ hs ht hst, Convex.combo_le_max _ _ hs ht hst,
      Convex.min_le_combo _ _ hs ht hst, Convex.combo_le_max _ _ hs ht hst⟩
  · rintro ⟨hcross, h1, h1', h2, h2'⟩
    by_cases hab : a = b
    · subst hab
      rw [min_self] at h1 h2
      rw [max_self] at h1' h2'
      rw [segment_same]
      exact Prod.ext (le_antisymm h1' h1) (le_antisymm h2' h2)
    · obtain ⟨t, rfl⟩ := exists_lineMap_of_cross_eq_zero hab hcross
      refine lineMap_mem_segment K a b ?_
      rw [lineMap_fst] at h1 h1'
      rw [lineMap_snd] at h2 h2'
      by_cases hfst : a.1 = b.1
      · exact mem_Icc_of_between (fun hsnd => hab (Prod.ext hfst hsnd)) h2 h2'
      · exact mem_Icc_of_between hfst h1 h1'

/-! ## Two segments that separate each other's endpoints -/

theorem ratio_mem_Icc {u v : K} (h : sign u ≠ sign v) : u / (u - v) ∈ Set.Icc (0 : K) 1 := by
  rcases lt_trichotomy u 0 with hu | rfl | hu
  · have hv : 0 ≤ v := by
      by_contra hneg
      exact h (by rw [sign_neg hu, sign_neg (not_le.1 hneg)])
    have hpos : 0 < v - u := by linarith
    rw [← neg_div_neg_eq, neg_sub]
    exact ⟨div_nonneg (neg_nonneg.2 hu.le) hpos.le, (div_le_one hpos).2 (by linarith)⟩
  · rw [zero_div]
    exact ⟨le_rfl, zero_le_one⟩
  · have hv : v ≤ 0 := by
      by_contra hneg
      exact h (by rw [sign_pos hu, sign_pos (not_le.1 hneg)])
    have hpos : 0 < u - v := by linarith
    exact ⟨div_nonneg hu.le hpos.le, (div_le_one hpos).2 (by linarith)⟩

theorem exists_meet_of_separated (hab : sign (cross a b c) ≠ sign (cross a b d))
    (hcd : sign (cross c d a) ≠ sign (cross c d b)) :
    ∃ x, x ∈ segment K a b ∧ x ∈ segment K c d := by
  have hne : cross c d a - cross c d b ≠ 0 := sub_ne_zero.2 fun h => hcd (by rw [h])
  have hsame : cross a b c - cross a b d = -(cross c d a - cross c d b) := by
    simp only [cross]
    ring
  refine ⟨lineMap a b (cross c d a / (cross c d a - cross c d b)),
    lineMap_mem_segment K a b (ratio_mem_Icc hcd), ?_⟩
  -- the same point, seen from the other segment
  have hpoint : lineMap a b (cross c d a / (cross c d a - cross c d b)) =
      lineMap c d (cross a b c / (cross a b c - cross a b d)) := by
    rw [hsame]
    refine Prod.ext ?_ ?_
    · rw [lineMap_fst, lineMap_fst]
      field_simp
      simp only [cross]
      ring
    · rw [lineMap_snd, lineMap_snd]
      field_simp
      simp only [cross]
      ring
  rw [hpoint]
  exact lineMap_mem_segment K c d (ratio_mem_Icc hab)

/-! ## Two segments of one line -/

/-- Of two collinear segments that meet, one holds an endpoint of the other. -/
theorem endpoint_mem_of_collinear (hc : cross a b c = 0) (hd : cross a b d = 0)
    (hab : x ∈ segment K a b) (hcd : x ∈ segment K c d) :
    c ∈ segment K a b ∨ d ∈ segment K a b ∨ a ∈ segment K c d := by
  by_cases hne : a = b
  · subst hne
    rw [segment_same] at hab
    rw [Set.mem_singleton_iff.1 hab] at hcd
    exact Or.inr (Or.inr hcd)
  · -- positions along the line from `a` to `b`
    obtain ⟨u, rfl⟩ := exists_lineMap_of_cross_eq_zero hne hc
    obtain ⟨v, rfl⟩ := exists_lineMap_of_cross_eq_zero hne hd
    have hinj : Function.Injective (lineMap a b : K →ᵃ[K] K × K) := lineMap_injective K hne
    rw [segment_eq_image_lineMap] at hab
    obtain ⟨t, ht, rfl⟩ := hab
    rw [← image_segment, hinj.mem_set_image, segment_eq_uIcc, Set.mem_uIcc] at hcd
    have hstart : a ∈ segment K (lineMap a b u : K × K) (lineMap a b v) ↔ 0 ∈ Set.uIcc u v := by
      rw [← image_segment, ← segment_eq_uIcc, ← hinj.mem_set_image, lineMap_apply_zero]
    rw [hstart, Set.mem_uIcc]
    by_cases hu : u ∈ Set.Icc (0 : K) 1
    · exact Or.inl (lineMap_mem_segment K a b hu)
    by_cases hv : v ∈ Set.Icc (0 : K) 1
    · exact Or.inr (Or.inl (lineMap_mem_segment K a b hv))
    refine Or.inr (Or.inr ?_)
    obtain ⟨ht0, ht1⟩ := ht
    rw [Set.mem_Icc, not_and_or, not_le, not_le] at hu hv
    -- both ends are outside, so they are on either side of the whole segment
    rcases hcd with ⟨hut, htv⟩ | ⟨hvt, htu⟩
    · have hu0 : u < 0 := hu.resolve_right fun h => absurd (h.trans_le hut) ht1.not_gt
      exact Or.inl ⟨hu0.le, ht0.trans htv⟩
    · have hv0 : v < 0 := hv.resolve_right fun h => absurd (h.trans_le hvt) ht1.not_gt
      exact Or.inr ⟨hv0.le, ht0.trans htu⟩

theorem eq_zero_of_combo {u v t : K} (ht : t ∈ Set.Icc (0 : K) 1) (hsign : sign u = sign v)
    (h : (1 - t) * u + t * v = 0) : u = 0 ∧ v = 0 := by
  have hmin : min u v ≤ (1 - t) * u + t * v :=
    Convex.min_le_combo u v (sub_nonneg.2 ht.2) ht.1 (sub_add_cancel 1 t)
  have hmax : (1 - t) * u + t * v ≤ max u v :=
    Convex.combo_le_max u v (sub_nonneg.2 ht.2) ht.1 (sub_add_cancel 1 t)
  rw [h] at hmin hmax
  rcases lt_trichotomy u 0 with hu | rfl | hu
  · have hv : v < 0 := sign_eq_neg_one_iff.1 (hsign ▸ sign_neg hu)
    exact absurd hmax (max_lt hu hv).not_ge
  · exact ⟨rfl, sign_eq_zero_iff.1 (hsign ▸ sign_zero)⟩
  · have hv : 0 < v := sign_eq_one_iff.1 (hsign ▸ sign_pos hu)
    exact absurd hmin (lt_min hu hv).not_ge

/-- Where one segment does not separate the endpoints of the other, they meet only on one line. -/
theorem collinear_of_not_separated (hsign : sign (cross a b c) = sign (cross a b d))
    (hab : x ∈ segment K a b) (hcd : x ∈ segment K c d) :
    (cross a b c = 0 ∧ cross a b d = 0) ∧ cross c d a = 0 ∧ cross c d b = 0 := by
  have hzero := cross_eq_zero_of_mem_segment hab
  have hzero' := cross_eq_zero_of_mem_segment hcd
  rw [segment_eq_image_lineMap] at hab hcd
  obtain ⟨s, hs, hsx⟩ := hab
  obtain ⟨t, ht, htx⟩ := hcd
  rw [← htx, cross_lineMap] at hzero
  rw [← hsx, cross_lineMap] at hzero'
  have hboth := eq_zero_of_combo ht hsign hzero
  -- the two segments are then parallel
  have hparallel : cross c d a = cross c d b := by
    have hdiff : cross c d a - cross c d b = cross a b d - cross a b c := by
      simp only [cross]
      ring
    rw [hboth.1, hboth.2, sub_zero] at hdiff
    exact sub_eq_zero.1 hdiff
  exact ⟨hboth, eq_zero_of_combo hs (congrArg sign hparallel) hzero'⟩

/-- Two segments meet when each separates the endpoints of the other or one of them holds an
endpoint of the other. -/
theorem segments_meet_iff :
    (∃ x, x ∈ segment K a b ∧ x ∈ segment K c d) ↔
      (sign (cross a b c) ≠ sign (cross a b d) ∧ sign (cross c d a) ≠ sign (cross c d b)) ∨
      c ∈ segment K a b ∨ d ∈ segment K a b ∨ a ∈ segment K c d ∨ b ∈ segment K c d := by
  constructor
  · rintro ⟨x, hab, hcd⟩
    by_cases hsign : sign (cross a b c) = sign (cross a b d)
    · obtain ⟨⟨hc, hd⟩, -⟩ := collinear_of_not_separated hsign hab hcd
      have hend := endpoint_mem_of_collinear hc hd hab hcd
      tauto
    by_cases hsign' : sign (cross c d a) = sign (cross c d b)
    · obtain ⟨-, hc, hd⟩ := collinear_of_not_separated hsign' hcd hab
      have hend := endpoint_mem_of_collinear hc hd hab hcd
      tauto
    exact Or.inl ⟨hsign, hsign'⟩
  · rintro (⟨hab, hcd⟩ | hc | hd | ha | hb)
    · exact exists_meet_of_separated hab hcd
    · exact ⟨c, hc, left_mem_segment K c d⟩
    · exact ⟨d, hd, right_mem_segment K c d⟩
    · exact ⟨a, left_mem_segment K a b, ha⟩
    · exact ⟨b, right_mem_segment K a b, hb⟩

/-! ## Two segments with a common endpoint -/

/-- Two consecutive segments share no more than their common endpoint exactly when neither far end
lies on the other segment, but for being that endpoint. -/
theorem consecutive_inter_iff :
    segment K a b ∩ segment K b c ⊆ {b} ↔
      (c ∈ segment K a b → c = b) ∧ (a ∈ segment K b c → a = b) := by
  constructor
  · intro h
    exact ⟨fun hc => h ⟨hc, right_mem_segment K b c⟩, fun ha => h ⟨left_mem_segment K a b, ha⟩⟩
  · rintro ⟨hc, ha⟩ x ⟨hab, hbc⟩
    by_cases hne : a = b
    · subst hne
      rwa [segment_same] at hab
    by_cases hcross : cross a b c = 0
    · -- positions along the line from `a` to `b`, which is at 1
      obtain ⟨v, rfl⟩ := exists_lineMap_of_cross_eq_zero hne hcross
      have hinj : Function.Injective (lineMap a b : K →ᵃ[K] K × K) := lineMap_injective K hne
      have hline : segment K b (lineMap a b v) = lineMap a b '' Set.uIcc 1 v := by
        rw [← segment_eq_uIcc, image_segment, lineMap_apply_one]
      rw [segment_eq_image_lineMap] at hab
      obtain ⟨t, ⟨ht0, ht1⟩, rfl⟩ := hab
      rw [hline, hinj.mem_set_image, Set.mem_uIcc] at hbc
      have ht : t = 1 := by
        rcases hbc with ⟨h1t, -⟩ | ⟨hvt, -⟩
        · exact le_antisymm ht1 h1t
        · by_cases hv0 : 0 ≤ v
          · -- the far end is on the first segment, so it is the common endpoint
            have hv : lineMap a b v = b := hc (lineMap_mem_segment K a b ⟨hv0, hvt.trans ht1⟩)
            have hv1 : v = 1 := hinj (hv.trans (lineMap_apply_one a b).symm)
            exact le_antisymm ht1 (hv1 ▸ hvt)
          · refine absurd (ha ?_) hne
            rw [hline]
            exact ⟨0, Set.mem_uIcc.2 (Or.inr ⟨(not_le.1 hv0).le, zero_le_one⟩),
              lineMap_apply_zero a b⟩
      rw [ht, lineMap_apply_one]
      exact Set.mem_singleton b
    · have hzero := cross_eq_zero_of_mem_segment hab
      rw [segment_eq_image_lineMap] at hbc
      obtain ⟨t, -, rfl⟩ := hbc
      rw [cross_lineMap, cross_self_right, mul_zero, zero_add, mul_eq_zero] at hzero
      rw [hzero.resolve_right hcross, lineMap_apply_zero]
      exact Set.mem_singleton b

/-! ## Points near a segment -/

/-- A point of the bounding box widened by `ε`. -/
def NearBox (ε : K) (a b p : K × K) : Prop :=
  (min a.1 b.1 - ε ≤ p.1 ∧ p.1 ≤ max a.1 b.1 + ε) ∧ min a.2 b.2 - ε ≤ p.2 ∧ p.2 ≤ max a.2 b.2 + ε

instance (ε : K) (a b p : K × K) : Decidable (NearBox ε a b p) :=
  inferInstanceAs (Decidable (_ ∧ _))

omit [Field K] [IsStrictOrderedRing K] in
/-- Three intervals that meet pairwise have a common point. -/
theorem exists_mem_of_meet {l₁ u₁ l₂ u₂ l₃ u₃ : K} (h₁ : l₁ ≤ u₁) (h₂ : l₂ ≤ u₂) (h₃ : l₃ ≤ u₃)
    (h₁₂ : l₁ ≤ u₂ ∧ l₂ ≤ u₁) (h₁₃ : l₁ ≤ u₃ ∧ l₃ ≤ u₁) (h₂₃ : l₂ ≤ u₃ ∧ l₃ ≤ u₂) :
    ∃ t, (l₁ ≤ t ∧ t ≤ u₁) ∧ (l₂ ≤ t ∧ t ≤ u₂) ∧ l₃ ≤ t ∧ t ≤ u₃ := by
  refine ⟨max l₁ (max l₂ l₃), ⟨le_max_left _ _, ?_⟩, ⟨?_, ?_⟩, ?_, ?_⟩
  · exact max_le h₁ (max_le h₁₂.2 h₁₃.2)
  · exact (le_max_left _ _).trans (le_max_right _ _)
  · exact max_le h₁₂.1 (max_le h₂ h₂₃.2)
  · exact (le_max_right _ _).trans (le_max_right _ _)
  · exact max_le h₁₃.1 (max_le h₂₃.1 h₃)

/-- In one coordinate: a point of the widened interval is near a point of the interval. -/
theorem exists_near_of_interval {u v y ε : K} (hε : 0 ≤ ε) (hmin : min u v - ε ≤ y)
    (hmax : y ≤ max u v + ε) : ∃ t : K, 0 ≤ t ∧ t ≤ 1 ∧ |u + t * (v - u) - y| ≤ ε := by
  -- the point of the interval closest to `y`
  have hclosest : max (min u v) (min y (max u v)) ∈ segment K u v := by
    rw [segment_eq_uIcc]
    exact ⟨le_max_left _ _, max_le min_le_max (min_le_right _ _)⟩
  rw [segment_eq_image_lineMap] at hclosest
  obtain ⟨t, ⟨ht0, ht1⟩, ht⟩ := hclosest
  have ht' : u + t * (v - u) = max (min u v) (min y (max u v)) := by
    rw [← ht, lineMap_apply, smul_eq_mul, vsub_eq_sub, vadd_eq_add, add_comm]
  refine ⟨t, ht0, ht1, ?_⟩
  rw [ht', abs_le]
  constructor
  · have hlow : y - ε ≤ max (min u v) (min y (max u v)) :=
      (le_min (by linarith) (by linarith)).trans (le_max_right _ _)
    linarith
  · rw [sub_le_iff_le_add]
    exact max_le (by linarith) ((min_le_left _ _).trans (by linarith))

/-- Along a line whose coordinate moves, being near a value is an interval of positions. -/
theorem near_iff_of_ne {u d y t ε : K} (hd : d ≠ 0) :
    |u + t * d - y| ≤ ε ↔ (y - u) / d - ε / |d| ≤ t ∧ t ≤ (y - u) / d + ε / |d| := by
  have hpos : 0 < |d| := abs_pos.2 hd
  have hfactor : u + t * d - y = (t - (y - u) / d) * d := by
    field_simp
    ring
  rw [hfactor, abs_mul, ← le_div_iff₀ hpos, abs_le]
  constructor
  · rintro ⟨hl, hu⟩
    exact ⟨by linarith, by linarith⟩
  · rintro ⟨hl, hu⟩
    exact ⟨by linarith, by linarith⟩

/-- The points within `ε` of a segment in both coordinates: in the widened box, and no further from
the line than `ε` in both coordinates allows. -/
theorem exists_near_iff {ε : K} (hε : 0 ≤ ε) :
    (∃ q ∈ segment K a b, |q.1 - p.1| ≤ ε ∧ |q.2 - p.2| ≤ ε) ↔
      |cross a b p| ≤ ε * (|b.1 - a.1| + |b.2 - a.2|) ∧ NearBox ε a b p := by
  constructor
  · rintro ⟨q, hq, h1, h2⟩
    obtain ⟨hcross, hbox1, hbox1', hbox2, hbox2'⟩ := mem_segment_iff.1 hq
    have hsplit : cross a b p = (b.1 - a.1) * (p.2 - q.2) - (b.2 - a.2) * (p.1 - q.1) := by
      rw [← sub_zero (cross a b p), ← hcross]
      simp only [cross]
      ring
    constructor
    · rw [abs_sub_comm] at h1 h2
      calc |cross a b p| ≤ |(b.1 - a.1) * (p.2 - q.2)| + |(b.2 - a.2) * (p.1 - q.1)| := by
            rw [hsplit]
            exact abs_sub _ _
        _ ≤ |b.1 - a.1| * ε + |b.2 - a.2| * ε := by
            rw [abs_mul, abs_mul]
            gcongr
        _ = ε * (|b.1 - a.1| + |b.2 - a.2|) := by ring
    · rw [abs_le] at h1 h2
      exact ⟨⟨by linarith, by linarith⟩, by linarith, by linarith⟩
  · rintro ⟨hcross, ⟨hbox1, hbox1'⟩, hbox2, hbox2'⟩
    obtain ⟨t₁, ht₁0, ht₁1, hnear₁⟩ := exists_near_of_interval hε hbox1 hbox1'
    obtain ⟨t₂, ht₂0, ht₂1, hnear₂⟩ := exists_near_of_interval hε hbox2 hbox2'
    suffices h : ∃ t : K, (0 ≤ t ∧ t ≤ 1) ∧ |a.1 + t * (b.1 - a.1) - p.1| ≤ ε ∧
        |a.2 + t * (b.2 - a.2) - p.2| ≤ ε by
      obtain ⟨t, ht, h1, h2⟩ := h
      refine ⟨lineMap a b t, lineMap_mem_segment K a b ht, ?_, ?_⟩
      · rwa [lineMap_fst]
      · rwa [lineMap_snd]
    by_cases h1 : b.1 - a.1 = 0
    · exact ⟨t₂, ⟨ht₂0, ht₂1⟩, by simpa [h1] using hnear₁, hnear₂⟩
    by_cases h2 : b.2 - a.2 = 0
    · exact ⟨t₁, ⟨ht₁0, ht₁1⟩, hnear₁, by simpa [h2] using hnear₂⟩
    -- the two coordinates and the segment are three intervals of positions on the line
    simp only [near_iff_of_ne h1] at hnear₁ ⊢
    simp only [near_iff_of_ne h2] at hnear₂ ⊢
    have hpos1 : 0 < |b.1 - a.1| := abs_pos.2 h1
    have hpos2 : 0 < |b.2 - a.2| := abs_pos.2 h2
    have hapart : |(p.1 - a.1) / (b.1 - a.1) - (p.2 - a.2) / (b.2 - a.2)| ≤
        ε / |b.1 - a.1| + ε / |b.2 - a.2| := by
      have hquotient : (p.1 - a.1) / (b.1 - a.1) - (p.2 - a.2) / (b.2 - a.2) =
          -cross a b p / ((b.1 - a.1) * (b.2 - a.2)) := by
        simp only [cross]
        field_simp
        ring
      rw [hquotient, abs_div, abs_neg, abs_mul, div_le_iff₀ (mul_pos hpos1 hpos2)]
      refine hcross.trans (le_of_eq ?_)
      field_simp
      ring
    rw [abs_le] at hapart
    exact exists_mem_of_meet zero_le_one (by linarith) (by linarith)
      ⟨by linarith, by linarith⟩ ⟨by linarith, by linarith⟩ ⟨by linarith, by linarith⟩

/-! ## The cross products of the widened box -/

/-- In one coordinate: within half the length and `ε` of the middle. -/
theorem near_of_middle {u v y ε : K} (h : |y - (u + v) / 2| ≤ |v - u| / 2 + ε) :
    min u v - ε ≤ y ∧ y ≤ max u v + ε := by
  obtain ⟨hlow, hup⟩ := abs_le.1 h
  rcases le_total u v with huv | huv
  · rw [abs_of_nonneg (sub_nonneg.2 huv)] at hlow hup
    rw [min_eq_left huv, max_eq_right huv]
    exact ⟨by linarith, by linarith⟩
  · rw [abs_of_nonpos (sub_nonpos.2 huv)] at hlow hup
    rw [min_eq_right huv, max_eq_left huv]
    exact ⟨by linarith, by linarith⟩

theorem abs_sign_mul_le (d : K) {x y : K} (h : |x| ≤ y) : |(sign d : K) * x| ≤ y := by
  have hsign : |(sign d : K)| ≤ 1 := by cases sign d <;> simp
  rw [abs_mul]
  exact (mul_le_of_le_one_left (abs_nonneg x) hsign).trans h

/-- The corner of the widened box opposite the line has the greatest cross product, and every value
up to it is the cross product of a point of the box. -/
theorem exists_nearBox_cross_eq {ε v : K} (hε : 0 ≤ ε) (hv : 0 ≤ v)
    (hcorner : v ≤ |b.1 - a.1| * |b.2 - a.2| + ε * (|b.1 - a.1| + |b.2 - a.2|)) :
    ∃ p, NearBox ε a b p ∧ cross a b p = v := by
  rcases (hv.trans hcorner).eq_or_lt with hzero | hpos
  · -- a corner on the line: the start is a point of cross product zero
    refine ⟨a, ⟨near_of_middle ?_, near_of_middle ?_⟩, ?_⟩
    · rw [show a.1 - (a.1 + b.1) / 2 = -((b.1 - a.1) / 2) by ring, abs_neg, abs_div, abs_two]
      exact le_add_of_nonneg_right hε
    · rw [show a.2 - (a.2 + b.2) / 2 = -((b.2 - a.2) / 2) by ring, abs_neg, abs_div, abs_two]
      exact le_add_of_nonneg_right hε
    · rw [cross_self_left]
      exact le_antisymm hv (hcorner.trans hzero.ge)
  · -- on the way from the middle of the segment to the corner, by proportion
    have hthere : |v / (|b.1 - a.1| * |b.2 - a.2| + ε * (|b.1 - a.1| + |b.2 - a.2|))| ≤ 1 := by
      rw [abs_div, abs_of_nonneg hv, abs_of_pos hpos]
      exact (div_le_one hpos).2 hcorner
    have hθ : v / (|b.1 - a.1| * |b.2 - a.2| + ε * (|b.1 - a.1| + |b.2 - a.2|)) *
        (|b.1 - a.1| * |b.2 - a.2| + ε * (|b.1 - a.1| + |b.2 - a.2|)) = v :=
      div_mul_cancel₀ v hpos.ne'
    generalize v / (|b.1 - a.1| * |b.2 - a.2| + ε * (|b.1 - a.1| + |b.2 - a.2|)) = θ at hthere hθ
    have hreach : ∀ w : K, |θ * (|w| / 2 + ε)| ≤ |w| / 2 + ε := by
      intro w
      have hnonneg : 0 ≤ |w| / 2 + ε := by positivity
      rw [abs_mul, abs_of_nonneg hnonneg]
      exact mul_le_of_le_one_left hnonneg hthere
    refine ⟨((a.1 + b.1) / 2 - sign (b.2 - a.2) * (θ * (|b.1 - a.1| / 2 + ε)),
      (a.2 + b.2) / 2 + sign (b.1 - a.1) * (θ * (|b.2 - a.2| / 2 + ε))),
      ⟨near_of_middle ?_, near_of_middle ?_⟩, ?_⟩
    · rw [sub_sub_cancel_left, abs_neg]
      exact abs_sign_mul_le _ (hreach _)
    · rw [add_sub_cancel_left]
      exact abs_sign_mul_le _ (hreach _)
    · calc cross a b _ =
            θ * (sign (b.1 - a.1) * (b.1 - a.1) * (|b.2 - a.2| / 2 + ε) +
              sign (b.2 - a.2) * (b.2 - a.2) * (|b.1 - a.1| / 2 + ε)) := by
            simp only [cross]
            ring
        _ = θ * (|b.1 - a.1| * |b.2 - a.2| + ε * (|b.1 - a.1| + |b.2 - a.2|)) := by
            rw [sign_mul_self, sign_mul_self]
            ring
        _ = v := hθ

/-- A segment of extent less than one, parallel to no axis: some point of its widened box has
a cross product of at most `ε` that exceeds `ε` times the extent. -/
theorem exists_nearBox_cross_between {ε : K} (hε : 0 < ε) (h1 : b.1 ≠ a.1) (h2 : b.2 ≠ a.2)
    (hextent : |b.1 - a.1| + |b.2 - a.2| < 1) :
    ∃ p, NearBox ε a b p ∧ ε * (|b.1 - a.1| + |b.2 - a.2|) < cross a b p ∧ cross a b p ≤ ε := by
  have harea : 0 < |b.1 - a.1| * |b.2 - a.2| :=
    mul_pos (abs_pos.2 (sub_ne_zero.2 h1)) (abs_pos.2 (sub_ne_zero.2 h2))
  have hband : 0 ≤ ε * (|b.1 - a.1| + |b.2 - a.2|) := by positivity
  obtain ⟨p, hp, hcross⟩ := exists_nearBox_cross_eq hε.le
    (le_min hε.le (add_nonneg harea.le hband)) (min_le_right ε _)
  refine ⟨p, hp, ?_, hcross.trans_le (min_le_left _ _)⟩
  rw [hcross]
  exact lt_min (mul_lt_of_lt_one_right hε hextent) (lt_add_of_pos_left _ harea)

end PlaneSegments
