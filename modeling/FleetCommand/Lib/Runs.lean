import Mathlib.Data.List.Destutter
import Mathlib.Logic.Relation

/-!
# Runs of a step function

A system is a step function `step : σ → ε → σ`: a state and an event give the next state. This
module fixes what a finite run is, what it means for a property to hold in every state of a run
(`Always`) and for every event of a run, or some, to meet a condition in the state it is applied to
(`AllSteps`, `SomeStep`), and packages the inductions: invariants (`run_invariant`,
`always_of_allSteps`), the exact condition under which a property survives a run
(`always_iff_allSteps`), and transport along a map of states (`run_map`, `always_map`,
`allSteps_map`). The forms ending in `_of` are about the runs whose every step meets a given
condition. The last section is about what a run shows of itself once consecutive repeats are
collapsed.
-/

set_option autoImplicit false

namespace Runs

universe u v w

variable {σ : Type u} {τ : Type w} {ε : Type v} (step : σ → ε → σ)

/-- The state after a list of events. -/
def run (s : σ) (es : List ε) : σ := es.foldl step s

@[simp] theorem run_nil (s : σ) : run step s [] = s := rfl

@[simp] theorem run_cons (s : σ) (e : ε) (es : List ε) :
    run step s (e :: es) = run step (step s e) es := rfl

@[simp] theorem run_append (s : σ) (es es' : List ε) :
    run step s (es ++ es') = run step (run step s es) es' :=
  List.foldl_append

theorem run_concat (s : σ) (es : List ε) (e : ε) :
    run step s (es ++ [e]) = step (run step s es) e :=
  run_append step s es [e]

/-- `P` holds in every state of the run, the first and the last included. -/
def Always (P : σ → Prop) : σ → List ε → Prop
  | s, [] => P s
  | s, e :: es => P s ∧ Always P (step s e) es

/-- The states of the run in order, the first and the last included. -/
def states : σ → List ε → List σ
  | s, [] => [s]
  | s, e :: es => s :: states (step s e) es

/-- Every event of the run meets `C` in the state it is applied to. -/
def AllSteps (C : σ → ε → Prop) : σ → List ε → Prop
  | _, [] => True
  | s, e :: es => C s e ∧ AllSteps C (step s e) es

instance decidableAlways {step : σ → ε → σ} {P : σ → Prop} [∀ s, Decidable (P s)] :
    (s : σ) → (es : List ε) → Decidable (Always step P s es)
  | s, [] => inferInstanceAs (Decidable (P s))
  | s, e :: es =>
    have : Decidable (Always step P (step s e) es) := decidableAlways (step s e) es
    inferInstanceAs (Decidable (P s ∧ Always step P (step s e) es))

instance decidableAllSteps {step : σ → ε → σ} {C : σ → ε → Prop} [∀ s e, Decidable (C s e)] :
    (s : σ) → (es : List ε) → Decidable (AllSteps step C s es)
  | _, [] => inferInstanceAs (Decidable True)
  | s, e :: es =>
    have : Decidable (AllSteps step C (step s e) es) := decidableAllSteps (step s e) es
    inferInstanceAs (Decidable (C s e ∧ AllSteps step C (step s e) es))

variable {step} {P I : σ → Prop} {C : σ → ε → Prop}

theorem always_iff_splits (s : σ) (es : List ε) :
    Always step P s es ↔ ∀ pre post, es = pre ++ post → P (run step s pre) := by
  induction es generalizing s with
  | nil =>
    constructor
    · intro h pre post he
      obtain ⟨rfl, -⟩ := List.append_eq_nil_iff.1 he.symm
      exact h
    · intro h
      exact h [] [] rfl
  | cons e es ih =>
    constructor
    · rintro ⟨hs, h⟩ pre post he
      -- the prefix is empty or starts with `e`
      cases pre with
      | nil => exact hs
      | cons p pre =>
        simp only [List.cons_append, List.cons.injEq] at he
        obtain ⟨rfl, he⟩ := he
        exact (ih (step s e)).1 h pre post he
    · intro h
      refine ⟨h [] (e :: es) rfl, (ih (step s e)).2 fun pre post he => ?_⟩
      exact h (e :: pre) post (by rw [he, List.cons_append])

theorem allSteps_iff_splits (s : σ) (es : List ε) :
    AllSteps step C s es ↔ ∀ pre e post, es = pre ++ e :: post → C (run step s pre) e := by
  induction es generalizing s with
  | nil => simp [AllSteps]
  | cons e es ih =>
    constructor
    · rintro ⟨hs, h⟩ pre e' post he
      cases pre with
      | nil =>
        simp only [List.nil_append, List.cons.injEq] at he
        obtain ⟨rfl, -⟩ := he
        exact hs
      | cons p pre =>
        simp only [List.cons_append, List.cons.injEq] at he
        obtain ⟨rfl, he⟩ := he
        exact (ih (step s e)).1 h pre e' post he
    · intro h
      refine ⟨h [] e es rfl, (ih (step s e)).2 fun pre e' post he => ?_⟩
      exact h (e :: pre) e' post (by rw [he, List.cons_append])

theorem allSteps_append (s : σ) (es es' : List ε) :
    AllSteps step C s (es ++ es') ↔ AllSteps step C s es ∧ AllSteps step C (run step s es) es' := by
  induction es generalizing s with
  | nil => simp [AllSteps]
  | cons e es ih => simp only [List.cons_append, AllSteps, ih, run_cons, and_assoc]

theorem Always.imp {Q : σ → Prop} (hPQ : ∀ s, P s → Q s) {s : σ} {es : List ε}
    (h : Always step P s es) : Always step Q s es := by
  induction es generalizing s with
  | nil => exact hPQ s h
  | cons e es ih => exact ⟨hPQ s h.1, ih h.2⟩

theorem Always.last {s : σ} {es : List ε} (h : Always step P s es) : P (run step s es) :=
  (always_iff_splits s es).1 h es [] (List.append_nil es).symm

/-- Some event of the run meets `C` in the state it is applied to. -/
def SomeStep (step : σ → ε → σ) (C : σ → ε → Prop) (s : σ) (es : List ε) : Prop :=
  ∃ pre e post, es = pre ++ e :: post ∧ C (run step s pre) e

theorem not_someStep_nil (s : σ) : ¬ SomeStep step C s [] := by
  rintro ⟨pre, e, post, he, -⟩
  simp at he

/-- The event is the first one or a later one. -/
theorem someStep_cons {s : σ} {e : ε} {es : List ε} :
    SomeStep step C s (e :: es) ↔ C s e ∨ SomeStep step C (step s e) es := by
  constructor
  · rintro ⟨pre, e', post, he, hC⟩
    cases pre with
    | nil =>
      obtain ⟨rfl, -⟩ := List.cons.inj he
      exact .inl hC
    | cons p pre =>
      obtain ⟨rfl, hes⟩ := List.cons.inj he
      exact .inr ⟨pre, e', post, hes, hC⟩
  · rintro (hC | ⟨pre, e', post, rfl, hC⟩)
    · exact ⟨[], e, es, rfl, hC⟩
    · exact ⟨e :: pre, e', post, rfl, hC⟩

theorem someStep_append {s : σ} {es es' : List ε} :
    SomeStep step C s (es ++ es') ↔ SomeStep step C s es ∨ SomeStep step C (run step s es) es' := by
  induction es generalizing s with
  | nil => exact (or_iff_right (not_someStep_nil s)).symm
  | cons e es ih => rw [List.cons_append, someStep_cons, someStep_cons, ih, run_cons, or_assoc]

theorem someStep_concat {s : σ} {es : List ε} {e : ε} :
    SomeStep step C s (es ++ [e]) ↔ SomeStep step C s es ∨ C (run step s es) e := by
  rw [someStep_append, someStep_cons, or_iff_left (not_someStep_nil _)]

/-- An invariant of the step is an invariant of the run. -/
theorem run_invariant (keep : ∀ s e, I s → I (step s e)) {s : σ} (h : I s) (es : List ε) :
    I (run step s es) := by
  induction es generalizing s with
  | nil => exact h
  | cons e es ih => exact ih (keep s e h)

theorem allSteps_of_forall (h : ∀ s e, C s e) (s : σ) (es : List ε) : AllSteps step C s es := by
  induction es generalizing s with
  | nil => trivial
  | cons e es ih => exact ⟨h s e, ih (step s e)⟩

theorem allSteps_of_mem {C : ε → Prop} {es : List ε} (h : ∀ e ∈ es, C e) (s : σ) :
    AllSteps step (fun _ e => C e) s es :=
  (allSteps_iff_splits s es).2 fun pre e post hsplit => h e (by simp [hsplit])

theorem AllSteps.and {D : σ → ε → Prop} {s : σ} {es : List ε} (hC : AllSteps step C s es)
    (hD : AllSteps step D s es) : AllSteps step (fun s e => C s e ∧ D s e) s es := by
  induction es generalizing s with
  | nil => trivial
  | cons e es ih => exact ⟨⟨hC.1, hD.1⟩, ih hC.2 hD.2⟩

/-- What follows from the condition where the property holds, along a run that stays in it. -/
theorem AllSteps.imp_of_always {D : σ → ε → Prop} (hCD : ∀ s e, P s → C s e → D s e) {s : σ}
    {es : List ε} (hP : Always step P s es) (hC : AllSteps step C s es) : AllSteps step D s es := by
  induction es generalizing s with
  | nil => trivial
  | cons e es ih => exact ⟨hCD s e hP.1 hC.1, ih hP.2 hC.2⟩

theorem AllSteps.imp {D : σ → ε → Prop} (hCD : ∀ s e, C s e → D s e) {s : σ} {es : List ε}
    (hC : AllSteps step C s es) : AllSteps step D s es := by
  induction es generalizing s with
  | nil => trivial
  | cons e es ih => exact ⟨hCD s e hC.1, ih hC.2⟩

theorem always_of_allSteps (keep : ∀ s e, I s → C s e → I (step s e)) {s : σ} (h : I s)
    {es : List ε} (hC : AllSteps step C s es) : Always step I s es := by
  induction es generalizing s with
  | nil => exact h
  | cons e es ih => exact ⟨h, ih (keep s e h hC.1) hC.2⟩

/-- A relation that every step along the run keeps is a chain through its states. -/
theorem isChain_states {R : σ → σ → Prop} {s : σ} {es : List ε}
    (h : AllSteps step (fun s e => R s (step s e)) s es) : (states step s es).IsChain R := by
  induction es generalizing s with
  | nil => exact List.isChain_singleton s
  | cons e es ih =>
    rw [states, List.isChain_cons]
    refine ⟨?_, ih h.2⟩
    -- the list of states that follows starts with the next state
    intro t ht
    have hhead : (states step (step s e) es).head? = some (step s e) := by
      cases es <;> rfl
    rw [hhead, Option.mem_some] at ht
    exact ht ▸ h.1

theorem states_concat (s : σ) (es : List ε) (e : ε) :
    states step s (es ++ [e]) = states step s es ++ [step (run step s es) e] := by
  induction es generalizing s with
  | nil => rfl
  | cons e' es ih => rw [List.cons_append, states, ih, states, run_cons, List.cons_append]

/-- A condition that every step from `P` to `P` meets, in a run that stays in `P`. -/
theorem allSteps_of_always (keep : ∀ s e, I s → I (step s e))
    (hC : ∀ s e, I s → P s → P (step s e) → C s e) {s : σ} (hI : I s) {es : List ε}
    (h : Always step P s es) : AllSteps step C s es := by
  induction es generalizing s with
  | nil => trivial
  | cons e es ih =>
    have hP : P (step s e) := by cases es with
      | nil => exact h.2
      | cons e' es => exact h.2.1
    exact ⟨hC s e hI h.1 hP, ih (keep s e hI) h.2⟩

section Given

variable {F : σ → ε → Prop}

/-- If, under an invariant `I` of every step that meets `F`, `C` is exactly when such a step keeps
`P`, then `P` holds in every state of a run of such steps exactly when every step of the run meets
`C`. -/
theorem always_iff_allSteps_of (keep : ∀ s e, I s → F s e → I (step s e))
    (exact_step : ∀ s e, I s → F s e → P s → (P (step s e) ↔ C s e)) {s : σ} (hI : I s) (hP : P s)
    {es : List ε} (hF : AllSteps step F s es) : Always step P s es ↔ AllSteps step C s es := by
  induction es generalizing s with
  | nil => simp [Always, AllSteps, hP]
  | cons e es ih =>
    simp only [Always, AllSteps, hP, true_and]
    have hI' := keep s e hI hF.1
    constructor
    · intro h
      -- the rest of the run starts with the state after `e`
      have hP' : P (step s e) := by cases es with
        | nil => exact h
        | cons e' es => exact h.1
      exact ⟨(exact_step s e hI hF.1 hP).1 hP', (ih hI' hP' hF.2).1 h⟩
    · rintro ⟨hC, h⟩
      exact (ih hI' ((exact_step s e hI hF.1 hP).2 hC) hF.2).2 h

/-- Conditions that agree where an invariant holds agree on runs. -/
theorem allSteps_congr_of (keep : ∀ s e, I s → F s e → I (step s e)) {D : σ → ε → Prop}
    (hCD : ∀ s e, I s → F s e → (C s e ↔ D s e)) {s : σ} (hI : I s) {es : List ε}
    (hF : AllSteps step F s es) : AllSteps step C s es ↔ AllSteps step D s es := by
  induction es generalizing s with
  | nil => exact Iff.rfl
  | cons e es ih => exact and_congr (hCD s e hI hF.1) (ih (keep s e hI hF.1) hF.2)

end Given

/-- `always_iff_allSteps_of` where every step keeps the invariant. -/
theorem always_iff_allSteps (keep : ∀ s e, I s → I (step s e))
    (exact_step : ∀ s e, I s → P s → (P (step s e) ↔ C s e)) {s : σ} (hI : I s) (hP : P s)
    (es : List ε) : Always step P s es ↔ AllSteps step C s es :=
  always_iff_allSteps_of (F := fun _ _ => True) (fun s e hs _ => keep s e hs)
    (fun s e hs _ => exact_step s e hs) hI hP (allSteps_of_forall (fun _ _ => trivial) s es)

/-- `allSteps_congr_of` where every step keeps the invariant. -/
theorem allSteps_congr (keep : ∀ s e, I s → I (step s e)) {D : σ → ε → Prop}
    (hCD : ∀ s e, I s → (C s e ↔ D s e)) {s : σ} (hI : I s) (es : List ε) :
    AllSteps step C s es ↔ AllSteps step D s es :=
  allSteps_congr_of (F := fun _ _ => True) (fun s e hs _ => keep s e hs)
    (fun s e hs _ => hCD s e hs) hI (allSteps_of_forall (fun _ _ => trivial) s es)

/-- A reflexive and transitive relation that every step keeps relates any state of a run to every
later one. -/
theorem allSteps_iff_between {R : σ → σ → Prop} (refl : ∀ s, R s s)
    (trans : ∀ a b c, R a b → R b c → R a c) (s : σ) (es : List ε) :
    AllSteps step (fun s e => R s (step s e)) s es ↔
      ∀ pre mid post, es = pre ++ mid ++ post → R (run step s pre) (run step s (pre ++ mid)) := by
  rw [allSteps_iff_splits]
  constructor
  · intro h pre mid
    -- on the events between the two states, from the last
    induction mid using List.reverseRecOn with
    | nil =>
      intro post _
      rw [List.append_nil]
      exact refl _
    | append_singleton mid e ih =>
      intro post he
      have hmid := ih (e :: post) (by rw [he]; simp)
      have hlast := h (pre ++ mid) e post (by rw [he]; simp)
      rw [← List.append_assoc, run_append step s (pre ++ mid)]
      exact trans _ _ _ hmid hlast
  · intro h pre e post he
    have hstep := h pre [e] post (by rw [he]; simp)
    rwa [run_append] at hstep

section Map

variable {step' : τ → ε → τ} {g : σ → τ} (hg : ∀ s e, g (step s e) = step' (g s) e)
include hg

theorem run_map (s : σ) (es : List ε) : g (run step s es) = run step' (g s) es := by
  induction es generalizing s with
  | nil => rfl
  | cons e es ih => rw [run_cons, run_cons, ih, hg]

theorem always_map {Q : τ → Prop} (s : σ) (es : List ε) :
    Always step' Q (g s) es ↔ Always step (fun s => Q (g s)) s es := by
  induction es generalizing s with
  | nil => rfl
  | cons e es ih => simp only [Always, ← hg, ih]

theorem allSteps_map {D : τ → ε → Prop} (s : σ) (es : List ε) :
    AllSteps step' D (g s) es ↔ AllSteps step (fun s e => D (g s) e) s es := by
  induction es generalizing s with
  | nil => rfl
  | cons e es ih => simp only [AllSteps, ← hg, ih]

end Map

/-! ## Collapsing repeats -/

section Collapse

variable {α : Type u} [DecidableEq α]

theorem head?_destutter' (a : α) (l : List α) : (l.destutter' (· ≠ ·) a).head? = some a := by
  induction l with
  | nil => rfl
  | cons b l ih =>
    rcases Decidable.em (a ≠ b) with hab | hab
    · rw [List.destutter'_cons_pos _ hab, List.head?_cons]
    · rw [List.destutter'_cons_neg _ hab, ih]

/-- Collapsing repeats keeps the first element. -/
theorem head?_destutter (l : List α) : (l.destutter (· ≠ ·)).head? = l.head? := by
  cases l with
  | nil => rfl
  | cons a l => rw [List.destutter_cons', head?_destutter', List.head?_cons]

/-- A chain of steps of `E` and repeats is a chain of `E` once repeats are collapsed. -/
theorem isChain_destutter {E : α → α → Prop} {l : List α}
    (h : l.IsChain fun a b => a = b ∨ E a b) : (l.destutter (· ≠ ·)).IsChain E := by
  cases l with
  | nil => exact List.isChain_nil
  | cons a l =>
    rw [List.destutter_cons']
    induction l generalizing a with
    | nil => exact List.isChain_singleton a
    | cons b l ih =>
      rw [List.isChain_cons_cons] at h
      obtain ⟨hab, hrest⟩ := h
      rcases eq_or_ne a b with rfl | hne
      · rw [List.destutter'_cons_neg _ (not_not.2 rfl)]
        exact ih a hrest
      · rw [List.destutter'_cons_pos _ hne, List.isChain_cons]
        -- the element after `a` once repeats are collapsed is still `b`
        refine ⟨?_, ih b hrest⟩
        intro c hc
        rw [head?_destutter', Option.mem_some] at hc
        exact hc ▸ hab.resolve_left hne

end Collapse

end Runs
