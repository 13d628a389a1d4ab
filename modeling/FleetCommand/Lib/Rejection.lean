import FleetCommand.Lib.Resumption

/-!
# Programs that fail before they write

A failure of a resumable program rolls nothing back, so a program that may fail after a write leaves
the write behind. `FailsFirst` is the judgement that a failure of a given kind only comes while the
program has called nothing but reads; such a failure leaves the state as it was
(`FailsFirstE.unchanged`). The rules follow the shape of a program: reads, then the checks, then a
rest that no longer fails (`NeverFails`).
-/

set_option autoImplicit false

namespace Resumption

universe u v w

variable {Op : Type u} {Resp : Op → Type u} {σ : Type w} (h : Handler Resp σ)

namespace Prog

variable {ε α : Type v} (bad : ε → Prop)

/-- Whatever the states it runs in, the program returns no failure that is `bad`. -/
def NeverFails : Prog Resp (Except ε α) → Prop
  | .ret r => ∀ e, r = .error e → ¬ bad e
  | .call op k => ∀ s, NeverFails (k (h op s).1)

/-- Whatever the states it runs in, the program returns a `bad` failure only while it has called
nothing but `reads`. -/
def FailsFirst (reads : Op → Prop) : Prog Resp (Except ε α) → Prop
  | .ret _ => True
  | .call op k => (reads op ∧ ∀ s, FailsFirst reads (k (h op s).1)) ∨
      ∀ s, (k (h op s).1).NeverFails h bad

variable {h bad}

theorem NeverFails.failsFirst {reads : Op → Prop} {p : Prog Resp (Except ε α)}
    (hp : p.NeverFails h bad) : p.FailsFirst h bad reads := by
  cases p with
  | ret r => trivial
  | call op k => exact Or.inr hp

theorem NeverFails.not_bad {p : Prog Resp (Except ε α)} (hp : p.NeverFails h bad) {s : σ} {e : ε}
    (he : (p.run h s).1 = .error e) : ¬ bad e := by
  induction p generalizing s with
  | ret r => exact hp e he
  | call op k ih => exact ih _ (hp s) he

theorem FailsFirst.unchanged {reads : Op → Prop} (hreads : ∀ op s, reads op → (h op s).2 = s)
    {p : Prog Resp (Except ε α)} (hp : p.FailsFirst h bad reads) {s : σ} {e : ε}
    (he : (p.run h s).1 = .error e) (hbad : bad e) : (p.run h s).2 = s := by
  induction p generalizing s with
  | ret r => rfl
  | call op k ih =>
    rcases hp with ⟨hop, hk⟩ | hk
    · have hsame : (h op s).2 = s := hreads op s hop
      have hrest := ih _ (hk s) (s := (h op s).2) he
      rw [run_call, hrest, hsame]
    · exact absurd hbad ((hk s).not_bad he)

end Prog

variable {ε α β : Type v} {h} {bad : ε → Prop} {reads : Op → Prop}

/-- `Prog.NeverFails` of a fallible program. -/
def NeverFailsE (h : Handler Resp σ) (bad : ε → Prop) (p : ExceptT ε (Prog Resp) α) : Prop :=
  Prog.NeverFails h bad (ExceptT.run p)

/-- `Prog.FailsFirst` of a fallible program. -/
def FailsFirstE (h : Handler Resp σ) (bad : ε → Prop) (reads : Op → Prop)
    (p : ExceptT ε (Prog Resp) α) : Prop :=
  Prog.FailsFirst h bad reads (ExceptT.run p)

/-- A bad failure leaves the state as it was. -/
theorem FailsFirstE.unchanged (hreads : ∀ op s, reads op → (h op s).2 = s)
    {p : ExceptT ε (Prog Resp) α} (hp : FailsFirstE h bad reads p) {s : σ} {e : ε}
    (he : (runE h p s).1 = .error e) (hbad : bad e) : (runE h p s).2 = s :=
  Prog.FailsFirst.unchanged hreads hp he hbad

namespace NeverFailsE

theorem pure (a : α) : NeverFailsE h bad (Pure.pure a : ExceptT ε (Prog Resp) α) :=
  fun _ he => nomatch he

theorem throw {e : ε} (he : ¬ bad e) :
    NeverFailsE h bad (MonadExcept.throw e : ExceptT ε (Prog Resp) α) := by
  intro e' he'
  obtain rfl := Except.error.inj he'
  exact he

theorem bind {p : ExceptT ε (Prog Resp) α} {f : α → ExceptT ε (Prog Resp) β}
    (hp : NeverFailsE h bad p) (hf : ∀ a, NeverFailsE h bad (f a)) : NeverFailsE h bad (p >>= f) := by
  have hcont : ∀ q : Prog Resp (Except ε α), q.NeverFails h bad →
      Prog.NeverFails h bad (q >>= ExceptT.bindCont f) := by
    intro q hq
    induction q with
    | ret r =>
      cases r with
      | ok a => exact hf a
      | error e =>
        intro e' he'
        obtain rfl := Except.error.inj he'
        exact hq e rfl
    | call op k ih => exact fun s => ih _ (hq s)
  exact hcont (ExceptT.run p) hp

theorem failsFirstE {p : ExceptT ε (Prog Resp) α} (hp : NeverFailsE h bad p) :
    FailsFirstE h bad reads p :=
  Prog.NeverFails.failsFirst hp

end NeverFailsE

namespace FailsFirstE

theorem pure (a : α) : FailsFirstE h bad reads (Pure.pure a : ExceptT ε (Prog Resp) α) := trivial

theorem throw (e : ε) : FailsFirstE h bad reads (MonadExcept.throw e : ExceptT ε (Prog Resp) α) :=
  trivial

/-- Reads, then a program that fails first. -/
theorem bind {p : ExceptT ε (Prog Resp) α} {f : α → ExceptT ε (Prog Resp) β}
    (hp : CallsOnlyE reads p) (hf : ∀ a, FailsFirstE h bad reads (f a)) :
    FailsFirstE h bad reads (p >>= f) := by
  have hcont : ∀ q : Prog Resp (Except ε α), q.CallsOnly reads →
      Prog.FailsFirst h bad reads (q >>= ExceptT.bindCont f) := by
    intro q hq
    induction q with
    | ret r =>
      cases r with
      | ok a => exact hf a
      | error e => trivial
    | call op k ih => exact Or.inl ⟨hq.1, fun s => ih _ (hq.2 _)⟩
  exact hcont (ExceptT.run p) hp

/-- A program that fails first, then a rest that does not fail. -/
theorem bind_neverFails {p : ExceptT ε (Prog Resp) α} {f : α → ExceptT ε (Prog Resp) β}
    (hp : FailsFirstE h bad reads p) (hf : ∀ a, NeverFailsE h bad (f a)) :
    FailsFirstE h bad reads (p >>= f) := by
  have hcont : ∀ q : Prog Resp (Except ε α), q.FailsFirst h bad reads →
      Prog.FailsFirst h bad reads (q >>= ExceptT.bindCont f) := by
    intro q hq
    induction q with
    | ret r =>
      cases r with
      | ok a => exact (hf a).failsFirstE
      | error e => trivial
    | call op k ih =>
      rcases hq with ⟨hop, hk⟩ | hk
      · exact Or.inl ⟨hop, fun s => ih _ (hk s)⟩
      · exact Or.inr fun s => NeverFailsE.bind (p := ExceptT.mk (k (h op s).1)) (hk s) hf
  exact hcont (ExceptT.run p) hp

end FailsFirstE

section PerformE

variable {ε : Type u} {h : Handler Resp σ} {bad : ε → Prop}

theorem NeverFailsE.performE (op : Op) :
    NeverFailsE h bad (Resumption.performE op : ExceptT ε (Prog Resp) (Resp op)) :=
  fun _ _ he => nomatch he

/-- A call whose responses the rest can rely on. -/
theorem NeverFailsE.performE_bind {β : Type u} {op : Op} {f : Resp op → ExceptT ε (Prog Resp) β}
    (hf : ∀ s, NeverFailsE h bad (f (h op s).1)) :
    NeverFailsE h bad (Resumption.performE op >>= f) :=
  fun s => hf s

theorem NeverFailsE.ofResult {α : Type u} {r : Except ε α} (hr : ∀ e, r = .error e → ¬ bad e) :
    NeverFailsE h bad (Resumption.ofResult r : ExceptT ε (Prog Resp) α) := hr

end PerformE

end Resumption
