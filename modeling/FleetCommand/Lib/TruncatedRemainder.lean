import Mathlib.Algebra.Order.Field.Basic
import Mathlib.Algebra.Order.Floor.Ring
import Mathlib.Algebra.Order.Round
import Mathlib.Tactic.FieldSimp
import Mathlib.Tactic.Linarith
import Mathlib.Tactic.Ring

/-!
# The truncated remainder

The remainder of a division whose quotient is rounded toward zero, which has the sign of the
dividend; and the residues of a number that are least in absolute value. A remainder less half the
modulus is such a residue only where the dividend is not negative or divided without remainder
(`abs_rem_sub_half_le_iff`).
-/

set_option autoImplicit false

namespace TruncatedRemainder

variable {K : Type} [Field K] [LinearOrder K] [IsStrictOrderedRing K] [FloorRing K]

/-- The number without its fraction. -/
def trunc (x : K) : ℤ := if 0 ≤ x then ⌊x⌋ else ⌈x⌉

/-- The remainder of dividing `x` by `n`. -/
def rem (x n : K) : K := x - n * trunc (x / n)

theorem trunc_intCast (k : ℤ) : trunc (k : K) = k := by
  rw [trunc, Int.floor_intCast, Int.ceil_intCast, ite_self]

theorem trunc_neg (x : K) : trunc (-x) = -trunc x := by
  rcases lt_trichotomy x 0 with h | rfl | h
  · rw [trunc, trunc, if_pos (neg_nonneg.2 h.le), if_neg (not_le.2 h), Int.floor_neg]
  · simp [trunc]
  · rw [trunc, trunc, if_neg (not_le.2 (neg_lt_zero.2 h)), if_pos h.le, Int.ceil_neg]

/-! ## The range of the remainder -/

omit [IsStrictOrderedRing K] in
theorem rem_congr (x n : K) : ∃ k : ℤ, rem x n = x + n * k := by
  refine ⟨-trunc (x / n), ?_⟩
  rw [rem]
  push_cast
  ring

theorem rem_neg (x n : K) : rem (-x) n = -rem x n := by
  rw [rem, rem, neg_div, trunc_neg]
  push_cast
  ring

variable {x n : K}

theorem rem_eq_zero_iff (hn : n ≠ 0) : rem x n = 0 ↔ ∃ k : ℤ, x = n * k := by
  constructor
  · exact fun h => ⟨trunc (x / n), sub_eq_zero.1 h⟩
  · rintro ⟨k, rfl⟩
    rw [rem, mul_div_cancel_left₀ _ hn, trunc_intCast, sub_self]

theorem rem_of_nonneg (hn : 0 < n) (hx : 0 ≤ x) : 0 ≤ rem x n ∧ rem x n < n := by
  have hrem : rem x n = n * Int.fract (x / n) := by
    rw [rem, trunc, if_pos (div_nonneg hx hn.le), Int.fract]
    field_simp
  rw [hrem]
  exact ⟨mul_nonneg hn.le (Int.fract_nonneg _), mul_lt_of_lt_one_right hn (Int.fract_lt_one _)⟩

theorem rem_of_nonpos (hn : 0 < n) (hx : x ≤ 0) : -n < rem x n ∧ rem x n ≤ 0 := by
  obtain ⟨hl, hu⟩ := rem_of_nonneg hn (neg_nonneg.2 hx)
  rw [rem_neg] at hl hu
  exact ⟨neg_lt.1 hu, neg_nonneg.1 hl⟩

/-! ## Least residues -/

/-- `d` is congruent to `x` modulo `n`, and nothing congruent to `x` is smaller in absolute
value. -/
def IsLeastResidue (n x d : K) : Prop :=
  (∃ k : ℤ, d = x + n * k) ∧ ∀ k : ℤ, |d| ≤ |x + n * k|

theorem isLeastResidue_iff (hn : 0 < n) {d : K} :
    IsLeastResidue n x d ↔ (∃ k : ℤ, d = x + n * k) ∧ |d| ≤ n / 2 := by
  refine and_congr_right ?_
  rintro ⟨k, rfl⟩
  constructor
  · intro h
    -- the two residues next to it are no smaller
    have hup := h (k + 1)
    have hdown := h (k - 1)
    push_cast at hup hdown
    rw [show x + n * ((k : K) + 1) = x + n * k + n by ring] at hup
    rw [show x + n * ((k : K) - 1) = x + n * k - n by ring] at hdown
    generalize x + n * (k : K) = d at hup hdown
    rcases le_total 0 d with hd | hd
    · rw [abs_of_nonneg hd] at hdown ⊢
      rcases le_total n d with hnd | hnd
      · rw [abs_of_nonneg (sub_nonneg.2 hnd)] at hdown
        linarith
      · rw [abs_of_nonpos (sub_nonpos.2 hnd)] at hdown
        linarith
    · rw [abs_of_nonpos hd] at hup ⊢
      rcases le_total 0 (d + n) with hnd | hnd
      · rw [abs_of_nonneg hnd] at hup
        linarith
      · rw [abs_of_nonpos hnd] at hup
        linarith
  · intro h m
    rcases eq_or_ne m k with rfl | hm
    · exact le_refl _
    · -- two different residues are at least the modulus apart
      have hapart : n ≤ |n * ((m : K) - k)| := by
        have hone : (1 : K) ≤ |(m : K) - k| := by
          rw [← Int.cast_sub, ← Int.cast_abs]
          exact_mod_cast Int.one_le_abs (sub_ne_zero.2 hm)
        rw [abs_mul, abs_of_pos hn]
        exact le_mul_of_one_le_right hn.le hone
      have hsplit : n * ((m : K) - k) = (x + n * m) - (x + n * k) := by ring
      rw [hsplit] at hapart
      have htriangle := abs_sub (x + n * (m : K)) (x + n * k)
      linarith

theorem isLeastResidue_sub_round (hn : 0 < n) (x : K) :
    IsLeastResidue n x (x - n * round (x / n)) := by
  refine ⟨⟨-round (x / n), by push_cast; ring⟩, fun k => ?_⟩
  have hround : |x / n - round (x / n)| ≤ |x / n + k| := by
    have hle := round_le (x / n) (-k)
    rwa [Int.cast_neg, sub_neg_eq_add] at hle
  calc |x - n * round (x / n)| = n * |x / n - round (x / n)| := by
        rw [← abs_of_pos hn, ← abs_mul, abs_of_pos hn, mul_sub, mul_div_cancel₀ _ hn.ne']
    _ ≤ n * |x / n + k| := mul_le_mul_of_nonneg_left hround hn.le
    _ = |x + n * k| := by
        rw [← abs_of_pos hn, ← abs_mul, abs_of_pos hn, mul_add, mul_div_cancel₀ _ hn.ne']

theorem exists_isLeastResidue (hn : 0 < n) (x : K) : ∃ d, IsLeastResidue n x d :=
  ⟨_, isLeastResidue_sub_round hn x⟩

/-- The remainder less half the modulus is at most half the modulus where the dividend is not
negative, or is a multiple of the modulus. -/
theorem abs_rem_sub_half_le_iff (hn : 0 < n) :
    |rem x n - n / 2| ≤ n / 2 ↔ 0 ≤ x ∨ ∃ k : ℤ, x = n * k := by
  rw [← rem_eq_zero_iff hn.ne']
  rcases le_total 0 x with hx | hx
  · obtain ⟨hl, hu⟩ := rem_of_nonneg hn hx
    exact iff_of_true (abs_le.2 ⟨by linarith, by linarith⟩) (Or.inl hx)
  · obtain ⟨hl, hu⟩ := rem_of_nonpos hn hx
    constructor
    · intro h
      exact Or.inr (le_antisymm hu (by linarith [(abs_le.1 h).1]))
    · rintro (hx' | h)
      · rw [le_antisymm hx hx', (rem_eq_zero_iff hn.ne').2 ⟨0, by simp⟩]
        exact abs_le.2 ⟨by linarith, by linarith⟩
      · rw [h]
        exact abs_le.2 ⟨by linarith, by linarith⟩

end TruncatedRemainder
