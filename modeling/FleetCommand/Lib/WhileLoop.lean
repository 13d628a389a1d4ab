import Mathlib.Logic.Basic

/-!
# While loops

A loop by its turn: the state after the body, or `none` where the guard fails. `exec` makes at most
a number of turns, so a loop that does not end has no result whatever the number; `Ends` is the
result of a loop that does. Along an invariant that the turns keep, a loop whose turns decrease a
measure ends, with the invariant and the guard failed (`exec_of_measure`).
-/

set_option autoImplicit false

namespace WhileLoop

universe u

variable {σ : Type u} (turn : σ → Option σ)

/-- The state the loop ends in, when it makes at most `fuel` turns. -/
def exec : Nat → σ → Option σ
  | 0, s =>
    match turn s with
    | none => some s
    | some _ => none
  | fuel + 1, s =>
    match turn s with
    | none => some s
    | some s' => exec fuel s'

/-- The loop ends in `t`. -/
def Ends (s t : σ) : Prop := ∃ fuel, exec turn fuel s = some t

variable {turn} {s s' t : σ} {fuel fuel' : Nat}

theorem exec_of_none (h : turn s = none) (fuel : Nat) : exec turn fuel s = some s := by
  cases fuel <;> rw [exec, h]

theorem exec_of_some (h : turn s = some s') (fuel : Nat) :
    exec turn (fuel + 1) s = exec turn fuel s' := by
  rw [exec, h]

/-- More turns change no result. -/
theorem exec_mono (h : exec turn fuel s = some t) (hle : fuel ≤ fuel') :
    exec turn fuel' s = some t := by
  induction fuel generalizing s fuel' with
  | zero =>
    cases hturn : turn s with
    | none =>
      rw [exec_of_none hturn] at h ⊢
      exact h
    | some s' =>
      rw [exec, hturn] at h
      exact absurd h (by simp)
  | succ fuel ih =>
    obtain ⟨fuel', rfl⟩ := Nat.exists_eq_add_of_le' (Nat.one_le_of_lt hle)
    cases hturn : turn s with
    | none =>
      rw [exec_of_none hturn] at h ⊢
      exact h
    | some s' =>
      rw [exec_of_some hturn] at h ⊢
      exact ih h (Nat.le_of_succ_le_succ hle)

/-- The rule of total correctness. -/
theorem exec_of_measure {I : σ → Prop} (μ : σ → Nat)
    (hturn : ∀ s s', I s → turn s = some s' → I s' ∧ μ s' < μ s) (hs : I s) (hfuel : μ s ≤ fuel) :
    ∃ t, exec turn fuel s = some t ∧ I t ∧ turn t = none := by
  induction fuel generalizing s with
  | zero =>
    cases hnext : turn s with
    | none => exact ⟨s, exec_of_none hnext 0, hs, hnext⟩
    | some s' =>
      have hlt := (hturn s s' hs hnext).2
      exact absurd (Nat.lt_of_lt_of_le hlt hfuel) (Nat.not_lt_zero _)
  | succ fuel ih =>
    cases hnext : turn s with
    | none => exact ⟨s, exec_of_none hnext _, hs, hnext⟩
    | some s' =>
      obtain ⟨hs', hlt⟩ := hturn s s' hs hnext
      rw [exec_of_some hnext]
      exact ih hs' (Nat.le_of_lt_succ (Nat.lt_of_lt_of_le hlt hfuel))

theorem ends_of_measure {I : σ → Prop} (μ : σ → Nat)
    (hturn : ∀ s s', I s → turn s = some s' → I s' ∧ μ s' < μ s) (hs : I s) :
    ∃ t, Ends turn s t ∧ I t ∧ turn t = none := by
  obtain ⟨t, hexec, ht⟩ := exec_of_measure μ hturn hs (Nat.le_refl _)
  exact ⟨t, ⟨_, hexec⟩, ht⟩

end WhileLoop
