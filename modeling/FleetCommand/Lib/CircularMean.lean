import FleetCommand.Lib.TruncatedRemainder
import Mathlib.Algebra.Order.BigOperators.Group.List

/-!
# Means on a circle

Numbers modulo a period, given by representatives in the half period about zero. The plain mean of
representatives that are close to each other on the circle is close to all of them where they do not
straddle the half period. Where they do it is a share of the period away from the mean of the
representatives moved to one side, and close to them all only where that share is small enough
(`mean_near_iff`).
-/

set_option autoImplicit false

namespace CircularMean

open TruncatedRemainder

variable {K : Type} [Field K] [LinearOrder K] [IsStrictOrderedRing K]

/-! ## The mean of a list -/

/-- The arithmetic mean. -/
def mean (xs : List K) : K := xs.sum / xs.length

section Mean

variable {xs : List K} {c δ : K}

theorem length_pos (h : xs ≠ []) : 0 < (xs.length : K) :=
  Nat.cast_pos.2 (List.length_pos_iff.2 h)

theorem mean_le (hne : xs ≠ []) (h : ∀ x ∈ xs, x ≤ c) : mean xs ≤ c := by
  rw [mean, div_le_iff₀ (length_pos hne), mul_comm, ← nsmul_eq_mul]
  exact List.sum_le_card_nsmul xs c h

theorem le_mean (hne : xs ≠ []) (h : ∀ x ∈ xs, c ≤ x) : c ≤ mean xs := by
  rw [mean, le_div_iff₀ (length_pos hne), mul_comm, ← nsmul_eq_mul]
  exact List.card_nsmul_le_sum xs c h

theorem sum_eq_sum_mean (hne : xs ≠ []) : (xs.map fun _ => mean xs).sum = (xs.map id).sum := by
  rw [List.map_const', List.sum_replicate, nsmul_eq_mul, List.map_id, mean,
    mul_div_cancel₀ _ (length_pos hne).ne']

theorem exists_le_mean (hne : xs ≠ []) : ∃ x ∈ xs, x ≤ mean xs :=
  List.exists_le_of_sum_le hne id _ (sum_eq_sum_mean hne).ge

theorem exists_mean_le (hne : xs ≠ []) : ∃ x ∈ xs, mean xs ≤ x :=
  List.exists_le_of_sum_le hne _ id (sum_eq_sum_mean hne).le

/-- What is close to every element is close to the mean. -/
theorem abs_mean_sub_le (hne : xs ≠ []) (h : ∀ x ∈ xs, |x - c| ≤ δ) : |mean xs - c| ≤ δ := by
  have hle : mean xs ≤ c + δ := mean_le hne fun x hx => sub_le_iff_le_add'.1 (abs_le.1 (h x hx)).2
  have hge : c - δ ≤ mean xs := le_mean hne fun x hx => by linarith [(abs_le.1 (h x hx)).1]
  exact abs_le.2 ⟨by linarith, by linarith⟩

end Mean

/-! ## Distances on the circle -/

section Distance

variable [FloorRing K]

/-- The distance on the circle: to the nearest representative. -/
def circularDist (p a b : K) : K := |a - b - p * round ((a - b) / p)|

variable {p a b δ : K}

theorem circularDist_le_iff (hp : 0 < p) : circularDist p a b ≤ δ ↔ ∃ k : ℤ, |a - b + p * k| ≤ δ := by
  obtain ⟨⟨k, hk⟩, hleast⟩ := isLeastResidue_sub_round hp (a - b)
  constructor
  · exact fun h => ⟨k, hk ▸ h⟩
  · rintro ⟨m, hm⟩
    exact (hleast m).trans hm

/-- Between one period below and one above, only the representative itself and the next one count. -/
theorem circularDist_le_iff_or (hp : 0 < p) (hlow : -(2 * p - δ) < a - b) (hhigh : a - b < p - δ) :
    circularDist p a b ≤ δ ↔ |a - b| ≤ δ ∨ |a - b + p| ≤ δ := by
  rw [circularDist_le_iff hp]
  constructor
  · rintro ⟨k, hk⟩
    obtain ⟨hl, hu⟩ := abs_le.1 hk
    rcases lt_trichotomy k 0 with hneg | rfl | hpos
    · have hle : (k : K) ≤ -1 := by exact_mod_cast Int.le_sub_one_of_lt hneg
      nlinarith
    · left
      simpa using hk
    · rcases (Int.add_one_le_of_lt hpos).eq_or_lt with hone | htwo
      · right
        have hk' : k = 1 := by omega
        simpa [hk'] using hk
      · have hle : (2 : K) ≤ k := by exact_mod_cast (by omega : (2 : ℤ) ≤ k)
        nlinarith
  · rintro (h | h)
    · exact ⟨0, by simpa using h⟩
    · exact ⟨1, by simpa using h⟩

/-- Representatives less than a period apart, by the distance on the circle, are as far apart. -/
theorem abs_sub_le_of_circularDist_le (hp : 0 < p) (h : circularDist p a b ≤ δ)
    (hlt : |a - b| < p - δ) : |a - b| ≤ δ := by
  obtain ⟨hl, hu⟩ := abs_lt.1 hlt
  rcases (circularDist_le_iff_or hp (by linarith) hu).1 h with h | h
  · exact h
  · exact absurd (abs_le.1 h).2 (by linarith)

theorem circularDist_le_of_abs_le (hp : 0 < p) (h : |a - b| ≤ δ) : circularDist p a b ≤ δ :=
  (circularDist_le_iff hp).2 ⟨0, by simpa using h⟩

/-- Other representatives are at the same distance. -/
theorem circularDist_le_iff_of_shift (hp : 0 < p) {a' b' : K} {k : ℤ}
    (h : a' - b' = a - b + p * k) : circularDist p a' b' ≤ δ ↔ circularDist p a b ≤ δ := by
  rw [circularDist_le_iff hp, circularDist_le_iff hp, h]
  constructor
  · rintro ⟨m, hm⟩
    refine ⟨k + m, ?_⟩
    push_cast
    rwa [mul_add, ← add_assoc]
  · rintro ⟨m, hm⟩
    refine ⟨m - k, ?_⟩
    push_cast
    rwa [mul_sub, add_assoc, add_sub_cancel]

end Distance

/-! ## Representatives moved to one side -/

section Unwrapped

variable (p : K)

/-- The representative that is not negative. -/
def unwrapped (x : K) : K := if x < 0 then x + p else x

/-- How many representatives are moved. -/
def wraps (xs : List K) : Nat := xs.countP (· < 0)

omit [IsStrictOrderedRing K] in
theorem unwrapped_eq (x : K) : ∃ k : ℤ, unwrapped p x = x + p * k := by
  rw [unwrapped]
  split
  · exact ⟨1, by simp⟩
  · exact ⟨0, by simp⟩

omit [IsStrictOrderedRing K] in
theorem sum_map_unwrapped (xs : List K) :
    (xs.map (unwrapped p)).sum = xs.sum + p * wraps xs := by
  induction xs with
  | nil => simp [wraps]
  | cons x xs ih =>
    rw [wraps, List.countP_cons, ← wraps, List.map_cons, List.sum_cons, List.sum_cons, ih, unwrapped]
    by_cases hx : x < 0 <;> simp [hx] <;> ring

/-- The share of the period that is moved. -/
def drift (xs : List K) : K := p * wraps xs / xs.length

omit [IsStrictOrderedRing K] in
/-- The plain mean is that share off. -/
theorem mean_eq (xs : List K) : mean xs = mean (xs.map (unwrapped p)) - drift p xs := by
  rw [mean, mean, sum_map_unwrapped, List.length_map, drift, ← sub_div, add_sub_cancel_right]

end Unwrapped

/-! ## Close representatives -/

/-- Representatives in the half period about zero, at most `δ` apart on the circle. -/
structure Close [FloorRing K] (p δ : K) (xs : List K) : Prop where
  range : ∀ x ∈ xs, -(p / 2) ≤ x ∧ x ≤ p / 2
  near : ∀ x ∈ xs, ∀ y ∈ xs, circularDist p x y ≤ δ

/-- Two representatives are on either side of zero, nearer to each other around the half period. -/
def Straddles (p : K) (xs : List K) : Prop := ∃ x ∈ xs, ∃ y ∈ xs, p / 2 < x - y

/-- The drift, one way round the circle or the other, leaves the mean close to every
representative. -/
def Absorbs (p δ : K) (xs : List K) : Prop :=
  (∀ x ∈ xs, unwrapped p x - mean (xs.map (unwrapped p)) + drift p xs ≤ δ) ∨
  ∀ x ∈ xs, mean (xs.map (unwrapped p)) - unwrapped p x + (p - drift p xs) ≤ δ

section Close

variable [FloorRing K] {p δ : K} {xs : List K}

theorem Close.abs_sub_le (h : Close p δ xs) (hp : 0 < p) (hδ : δ < p / 4)
    (hside : ¬ Straddles p xs) {x y : K} (hx : x ∈ xs) (hy : y ∈ xs) : |x - y| ≤ δ := by
  refine abs_sub_le_of_circularDist_le hp (h.near x hx y hy) ?_
  have hxy : x - y ≤ p / 2 := not_lt.1 fun hlt => hside ⟨x, hx, y, hy, hlt⟩
  have hyx : y - x ≤ p / 2 := not_lt.1 fun hlt => hside ⟨y, hy, x, hx, hlt⟩
  exact abs_lt.2 ⟨by linarith, by linarith⟩

/-- Representatives that do not straddle have their plain mean among them. -/
theorem Close.mean_near (h : Close p δ xs) (hp : 0 < p) (hδ : δ < p / 4)
    (hside : ¬ Straddles p xs) {x : K} (hx : x ∈ xs) : circularDist p (mean xs) x ≤ δ := by
  apply circularDist_le_of_abs_le hp
  exact abs_mean_sub_le (List.ne_nil_of_mem hx) fun y hy => h.abs_sub_le hp hδ hside hy hx

/-- Moved to one side, representatives that straddle are about the half period. -/
theorem Close.unwrapped_near_straddler (h : Close p δ xs) (hp : 0 < p) (hδ : δ < p / 4) {a b x : K}
    (ha : a ∈ xs) (hb : b ∈ xs) (hab : p / 2 < a - b) (hx : x ∈ xs) :
    |unwrapped p x - a| ≤ δ := by
  obtain ⟨hal, hau⟩ := h.range a ha
  obtain ⟨hbl, hbu⟩ := h.range b hb
  obtain ⟨hxl, hxu⟩ := h.range x hx
  -- the two that straddle are close around the half period
  have hapart : p - δ ≤ a - b := by
    rcases (circularDist_le_iff_or hp (by linarith) (by linarith)).1 (h.near b hb a ha) with hba | hba
    · linarith [(abs_le.1 hba).1]
    · linarith [(abs_le.1 hba).2]
  rcases (circularDist_le_iff_or hp (by linarith) (by linarith)).1 (h.near x hx a ha) with hxa | hxa
  · have hpos : 0 ≤ x := by linarith [(abs_le.1 hxa).1]
    rw [unwrapped, if_neg hpos.not_gt]
    exact hxa
  · have hneg : x < 0 := by linarith [(abs_le.1 hxa).2]
    rw [unwrapped, if_pos hneg, add_sub_right_comm]
    exact hxa

theorem Close.abs_unwrapped_sub_le (h : Close p δ xs) (hp : 0 < p) (hδ : δ < p / 4)
    (hside : Straddles p xs) {x y : K} (hx : x ∈ xs) (hy : y ∈ xs) :
    |unwrapped p x - unwrapped p y| ≤ δ := by
  obtain ⟨a, ha, b, hb, hab⟩ := hside
  have hxa := abs_le.1 (h.unwrapped_near_straddler hp hδ ha hb hab hx)
  have hya := abs_le.1 (h.unwrapped_near_straddler hp hδ ha hb hab hy)
  refine abs_sub_le_of_circularDist_le hp ?_ (abs_lt.2 ⟨by linarith, by linarith⟩)
  obtain ⟨k, hk⟩ := unwrapped_eq p x
  obtain ⟨m, hm⟩ := unwrapped_eq p y
  have hshift : unwrapped p x - unwrapped p y = x - y + p * ((k - m : ℤ) : K) := by
    rw [hk, hm]
    push_cast
    ring
  exact (circularDist_le_iff_of_shift hp hshift).2 (h.near x hx y hy)

/-- Some of the representatives that straddle are moved, and some are not. -/
theorem Close.wraps_mem (h : Close p δ xs) (hside : Straddles p xs) :
    0 < wraps xs ∧ wraps xs < xs.length := by
  obtain ⟨a, ha, b, hb, hab⟩ := hside
  have hneg : b < 0 := by linarith [(h.range a ha).2]
  have hpos : ¬ a < 0 := by linarith [(h.range b hb).1]
  refine ⟨List.countP_pos_iff.2 ⟨b, hb, decide_eq_true hneg⟩,
    lt_of_le_of_ne List.countP_le_length fun hall => ?_⟩
  exact hpos (of_decide_eq_true (List.countP_eq_length.1 hall a ha))

/-- The drift is at least one share of the period, and leaves at least one. -/
theorem Close.drift_mem (h : Close p δ xs) (hp : 0 < p) (hside : Straddles p xs) :
    p / xs.length ≤ drift p xs ∧ drift p xs ≤ p - p / xs.length := by
  obtain ⟨hmoved, hkept⟩ := h.wraps_mem hside
  have hlength : 0 < (xs.length : K) := Nat.cast_pos.2 (hmoved.trans hkept)
  have hone : (1 : K) ≤ wraps xs := by exact_mod_cast hmoved
  have hrest : (wraps xs : K) + 1 ≤ xs.length := by exact_mod_cast hkept
  constructor
  · exact div_le_div_of_nonneg_right (le_mul_of_one_le_right hp.le hone) hlength.le
  · rw [le_sub_iff_add_le, drift, ← add_div, div_le_iff₀ hlength]
    calc p * wraps xs + p = p * (wraps xs + 1) := by ring
      _ ≤ p * xs.length := mul_le_mul_of_nonneg_left hrest hp.le

/-- Moved to one side, the representatives have their mean among them. -/
theorem Close.mean_unwrapped_near (h : Close p δ xs) (hp : 0 < p) (hδ : δ < p / 4)
    (hside : Straddles p xs) {x : K} (hx : x ∈ xs) :
    |mean (xs.map (unwrapped p)) - unwrapped p x| ≤ δ := by
  refine abs_mean_sub_le (List.ne_nil_of_mem (List.mem_map_of_mem hx)) fun y hy => ?_
  obtain ⟨z, hz, rfl⟩ := List.mem_map.1 hy
  exact h.abs_unwrapped_sub_le hp hδ hside hz hx

/-- A representative has the plain mean close to it one way round the circle or the other. -/
theorem Close.circularDist_mean_le_iff (h : Close p δ xs) (hp : 0 < p) (hδ : δ < p / 4)
    (hside : Straddles p xs) {x : K} (hx : x ∈ xs) :
    circularDist p (mean xs) x ≤ δ ↔
      unwrapped p x - mean (xs.map (unwrapped p)) + drift p xs ≤ δ ∨
      mean (xs.map (unwrapped p)) - unwrapped p x + (p - drift p xs) ≤ δ := by
  obtain ⟨hdrift, hdrift'⟩ := h.drift_mem hp hside
  have hshare : 0 ≤ p / xs.length := div_nonneg hp.le (Nat.cast_nonneg _)
  obtain ⟨hl, hu⟩ := abs_le.1 (h.mean_unwrapped_near hp hδ hside hx)
  obtain ⟨k, hk⟩ := unwrapped_eq p x
  have hshift : mean xs - unwrapped p x = mean xs - x + p * ((-k : ℤ) : K) := by
    rw [hk]
    push_cast
    ring
  rw [← circularDist_le_iff_of_shift hp hshift, mean_eq p xs,
    circularDist_le_iff_or hp (by linarith) (by linarith), abs_le, abs_le]
  apply or_congr
  · constructor
    · intro hx
      linarith [hx.1]
    · intro hx
      exact ⟨by linarith, by linarith⟩
  · constructor
    · intro hx
      linarith [hx.2]
    · intro hx
      exact ⟨by linarith, by linarith⟩

/-- Where the representatives straddle, the mean is close to all of them exactly when the drift is
absorbed. -/
theorem Close.mean_near_iff (h : Close p δ xs) (hp : 0 < p) (hδ : δ < p / 4)
    (hside : Straddles p xs) :
    (∀ x ∈ xs, circularDist p (mean xs) x ≤ δ) ↔ Absorbs p δ xs := by
  constructor
  · intro hnear
    by_contra hneither
    obtain ⟨hfar, hfar'⟩ := not_or.1 hneither
    push Not at hfar hfar'
    obtain ⟨x, hx, hxfar⟩ := hfar
    obtain ⟨y, hy, hyfar⟩ := hfar'
    -- two representatives on different ways round are too far apart
    have hxway :=
      ((h.circularDist_mean_le_iff hp hδ hside hx).1 (hnear x hx)).resolve_left hxfar.not_ge
    have hyway :=
      ((h.circularDist_mean_le_iff hp hδ hside hy).1 (hnear y hy)).resolve_right hyfar.not_ge
    have hxy := abs_le.1 (h.abs_unwrapped_sub_le hp hδ hside hx hy)
    linarith
  · rintro (habsorbed | habsorbed) x hx
    · exact (h.circularDist_mean_le_iff hp hδ hside hx).2 (Or.inl (habsorbed x hx))
    · exact (h.circularDist_mean_le_iff hp hδ hside hx).2 (Or.inr (habsorbed x hx))

/-- Few representatives that straddle do not absorb their drift. -/
theorem Close.not_absorbs (h : Close p δ xs) (hp : 0 < p) (hside : Straddles p xs)
    (hfew : δ * xs.length < p) : ¬ Absorbs p δ xs := by
  obtain ⟨hdrift, hdrift'⟩ := h.drift_mem hp hside
  obtain ⟨a, ha, -⟩ := hside
  have hne : xs.map (unwrapped p) ≠ [] := List.ne_nil_of_mem (List.mem_map_of_mem ha)
  have hshare : δ < p / xs.length := (lt_div_iff₀ (length_pos (List.ne_nil_of_mem ha))).2 hfew
  rintro (habsorbed | habsorbed)
  · obtain ⟨u, hu, hle⟩ := exists_mean_le hne
    obtain ⟨x, hx, rfl⟩ := List.mem_map.1 hu
    linarith [habsorbed x hx]
  · obtain ⟨u, hu, hle⟩ := exists_le_mean hne
    obtain ⟨x, hx, rfl⟩ := List.mem_map.1 hu
    linarith [habsorbed x hx]

end Close

end CircularMean
