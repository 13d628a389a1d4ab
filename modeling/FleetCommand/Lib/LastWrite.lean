import FleetCommand.Lib.Runs

/-!
# Registers of a state

A part of a state that every event leaves as it is or writes is a `Register`. After a run it holds
what the last event that wrote it wrote, or what it held at the start when none did
(`Register.run_eq_iff`).
-/

set_option autoImplicit false

namespace LastWrite

open Runs

universe u v w

variable {σ : Type u} {ε : Type v} {α : Type w}

/-- An event leaves `get`, or writes what `writes` says. -/
structure Register (step : σ → ε → σ) (get : σ → α) (writes : σ → ε → Option α) : Prop where
  step : ∀ s e, get (step s e) = (writes s e).getD (get s)

/-- No event of the run writes. -/
def Untouched (step : σ → ε → σ) (writes : σ → ε → Option α) (s : σ) (es : List ε) : Prop :=
  AllSteps step (fun s e => writes s e = none) s es

variable {step : σ → ε → σ} {get : σ → α} {writes : σ → ε → Option α}

theorem Register.run_untouched (h : Register step get writes) {s : σ} {es : List ε}
    (hes : Untouched step writes s es) : get (run step s es) = get s := by
  induction es generalizing s with
  | nil => rfl
  | cons e es ih =>
    rw [run_cons, ih hes.2, h.step, hes.1, Option.getD_none]

theorem Register.run_written (h : Register step get writes) {s : σ} {pre post : List ε} {e : ε}
    {a : α} (he : writes (run step s pre) e = some a)
    (hpost : Untouched step writes (step (run step s pre) e) post) :
    get (run step s (pre ++ e :: post)) = a := by
  rw [run_append, run_cons, h.run_untouched hpost, h.step, he, Option.getD_some]

/-- A run has a last write or none. -/
theorem untouched_or_last (step : σ → ε → σ) (writes : σ → ε → Option α) (s : σ) (es : List ε) :
    Untouched step writes s es ∨ ∃ pre e post a, es = pre ++ e :: post ∧
      writes (run step s pre) e = some a ∧
      Untouched step writes (step (run step s pre) e) post := by
  induction es generalizing s with
  | nil => exact .inl trivial
  | cons e es ih =>
    rcases ih (step s e) with hrest | ⟨pre, e', post, a, rfl, he', hpost⟩
    · -- the first event wrote last, if it did
      cases he : writes s e with
      | none => exact .inl ⟨he, hrest⟩
      | some a => exact .inr ⟨[], e, es, a, rfl, he, hrest⟩
    · exact .inr ⟨e :: pre, e', post, a, rfl, he', hpost⟩

/-- After a run a register holds what was written last, or what it held at the start. -/
theorem Register.run_eq_iff (h : Register step get writes) (s : σ) (es : List ε) (a : α) :
    get (run step s es) = a ↔ Untouched step writes s es ∧ get s = a ∨
      ∃ pre e post, es = pre ++ e :: post ∧ writes (run step s pre) e = some a ∧
        Untouched step writes (step (run step s pre) e) post := by
  constructor
  · intro ha
    rcases untouched_or_last step writes s es with hnone | ⟨pre, e, post, b, rfl, he, hpost⟩
    · exact .inl ⟨hnone, (h.run_untouched hnone).symm.trans ha⟩
    · have hb : b = a := (h.run_written he hpost).symm.trans ha
      exact .inr ⟨pre, e, post, rfl, hb ▸ he, hpost⟩
  · rintro (⟨hnone, rfl⟩ | ⟨pre, e, post, rfl, he, hpost⟩)
    · exact h.run_untouched hnone
    · exact h.run_written he hpost

end LastWrite
