import FleetCommand.Lib.Runs
import Mathlib.Logic.Function.Basic
import Mathlib.Data.List.Chain

/-!
# Resumable programs over an interface

A program either returns or calls one operation of an interface and goes on with the response
(`Prog`). The operations are the only points at which a program touches shared state, so one
definition of a program gives both of its meanings: run alone against a handler of the interface
(`Prog.run`), and interleaved with other programs at its calls (`Pool`, one call at a time, in the
order a schedule names).

`Prog.Meets` is a judgement of pre- and postconditions that also bounds every single call by a
relation of states; its rules follow the shape of a program. `Prog.EveryCall` says of each call of a
run alone what holds when it is made. `Prog.CallsOnly` bounds the operations a program can call
whatever it is answered, and gives the frame rule (`CallsOnly.meets`); `Prog.MustCall` says that a
program calls certain operations before it returns. The first three are carried over to programs
that can fail (`MeetsE`, `EveryCallE`, `CallsOnlyE`).

`Flow` presents a family of programs by control points: a first-order step on control points that
the programs' own steps follow. `Flow.toPool_run` carries a run of the control points to the run of
the programs, so an invariant of an interleaving can be stated over control points.
-/

set_option autoImplicit false

namespace Resumption

universe u v w

/-- A program over operations `Op` with responses `Resp`: return a value, or call an operation and
continue with its response. -/
inductive Prog {Op : Type u} (Resp : Op → Type u) (α : Type v) : Type (max u v) where
  | ret (a : α)
  | call (op : Op) (k : Resp op → Prog Resp α)

/-- An implementation of the interface over states `σ`; each operation is atomic. -/
abbrev Handler {Op : Type u} (Resp : Op → Type u) (σ : Type w) : Type (max u w) :=
  (op : Op) → σ → Resp op × σ

variable {Op : Type u} {Resp : Op → Type u} {α β : Type v} {σ : Type w}

namespace Prog

/-- Sequential composition. -/
def bind : Prog Resp α → (α → Prog Resp β) → Prog Resp β
  | .ret a, f => f a
  | .call op k, f => .call op fun r => bind (k r) f

instance : Monad (Prog Resp) where
  pure := .ret
  bind := bind

/-- The program that makes one call. -/
def perform (op : Op) : Prog Resp (Resp op) := .call op .ret

/-- The calls `ops` in order, whatever the responses, and then `p`. -/
def calls : List Op → Prog Resp α → Prog Resp α
  | [], p => p
  | op :: ops, p => .call op fun _ => calls ops p

theorem pure_eq (a : α) : (pure a : Prog Resp α) = .ret a := rfl

@[simp] theorem ret_bind (a : α) (f : α → Prog Resp β) : (Prog.ret a >>= f) = f a := rfl

@[simp] theorem call_bind (op : Op) (k : Resp op → Prog Resp α) (f : α → Prog Resp β) :
    (Prog.call op k >>= f) = .call op fun r => k r >>= f := rfl

theorem bind_assoc {γ : Type v} (p : Prog Resp α) (f : α → Prog Resp β) (g : β → Prog Resp γ) :
    (p >>= f >>= g) = p >>= fun a => f a >>= g := by
  induction p with
  | ret a => rfl
  | call op k ih => exact congrArg (Prog.call op) (funext ih)

theorem id_map (p : Prog Resp α) : id <$> p = p := by
  induction p with
  | ret a => rfl
  | call op k ih => exact congrArg (Prog.call op) (funext ih)

instance : LawfulMonad (Prog Resp) := LawfulMonad.mk' (Prog Resp) id_map ret_bind bind_assoc

@[simp] theorem perform_bind {β : Type u} (op : Op) (f : Resp op → Prog Resp β) :
    (perform op >>= f) = .call op f := rfl

@[simp] theorem map_perform {β : Type u} (op : Op) (f : Resp op → β) :
    f <$> (perform op : Prog Resp (Resp op)) = .call op fun r => .ret (f r) := rfl

@[simp] theorem calls_bind (ops : List Op) (p : Prog Resp α) (f : α → Prog Resp β) :
    (calls ops p >>= f) = calls ops (p >>= f) := by
  induction ops with
  | nil => rfl
  | cons op ops ih => simp only [calls, call_bind, ih]

theorem calls_append (ops ops' : List Op) (p : Prog Resp α) :
    calls (ops ++ ops') p = calls ops (calls ops' p) := by
  induction ops with
  | nil => rfl
  | cons op ops ih => simp only [List.cons_append, calls, ih]

/-- The operation a program is about to call. -/
def next? : Prog Resp α → Option Op
  | .ret _ => none
  | .call op _ => some op

variable (h : Handler Resp σ)

/-- The program run alone. -/
def run : Prog Resp α → σ → α × σ
  | .ret a, s => (a, s)
  | .call op k, s => run (k (h op s).1) (h op s).2

/-- The states after each call of the program run alone. -/
def trace : Prog Resp α → σ → List σ
  | .ret _, _ => []
  | .call op k, s => (h op s).2 :: trace (k (h op s).1) (h op s).2

/-- One call of the program; a program that has returned stays as it is. -/
def step : Prog Resp α → σ → Prog Resp α × σ
  | .ret a, s => (.ret a, s)
  | .call op k, s => (k (h op s).1, (h op s).2)

@[simp] theorem run_ret (a : α) (s : σ) : (Prog.ret a : Prog Resp α).run h s = (a, s) := rfl

@[simp] theorem run_call (op : Op) (k : Resp op → Prog Resp α) (s : σ) :
    (Prog.call op k).run h s = (k (h op s).1).run h (h op s).2 := rfl

@[simp] theorem run_pure (a : α) (s : σ) : (pure a : Prog Resp α).run h s = (a, s) := rfl

@[simp] theorem run_bind (p : Prog Resp α) (f : α → Prog Resp β) (s : σ) :
    (p >>= f).run h s = (f (p.run h s).1).run h (p.run h s).2 := by
  induction p generalizing s with
  | ret a => rfl
  | call op k ih => exact ih _ _

@[simp] theorem run_map (f : α → β) (p : Prog Resp α) (s : σ) :
    (f <$> p).run h s = (f (p.run h s).1, (p.run h s).2) :=
  run_bind h p (fun a => pure (f a)) s

@[simp] theorem run_perform (op : Op) (s : σ) : (perform op).run h s = h op s := rfl

/-- The handler beside a state that no operation touches. -/
def beside (τ : Type w) : Handler Resp (σ × τ) := fun op s => ((h op s.1).1, (h op s.1).2, s.2)

theorem run_beside {τ : Type w} (p : Prog Resp α) (s : σ) (t : τ) :
    p.run (beside h τ) (s, t) = ((p.run h s).1, (p.run h s).2, t) := by
  induction p generalizing s with
  | ret a => rfl
  | call op k ih => exact ih _ _

/-- The state after some calls. -/
def after (s : σ) (ops : List Op) : σ := ops.foldl (fun s op => (h op s).2) s

@[simp] theorem after_nil (s : σ) : after h s [] = s := rfl

@[simp] theorem after_cons (s : σ) (op : Op) (ops : List Op) :
    after h s (op :: ops) = after h (h op s).2 ops := rfl

theorem after_append (s : σ) (ops ops' : List Op) :
    after h s (ops ++ ops') = after h (after h s ops) ops' :=
  List.foldl_append

@[simp] theorem run_calls (ops : List Op) (p : Prog Resp α) (s : σ) :
    (calls ops p).run h s = p.run h (after h s ops) := by
  induction ops generalizing s with
  | nil => rfl
  | cons op ops ih => exact ih _

@[simp] theorem trace_ret (a : α) (s : σ) : (Prog.ret a : Prog Resp α).trace h s = [] := rfl

@[simp] theorem trace_call (op : Op) (k : Resp op → Prog Resp α) (s : σ) :
    (Prog.call op k).trace h s = (h op s).2 :: (k (h op s).1).trace h (h op s).2 := rfl

end Prog

/-! ## Rules of pre- and postconditions -/

namespace Prog

variable (h : Handler Resp σ) (R : σ → σ → Prop)

/-- Run alone from `s`, every call of the program moves the state along `R`, and the result and the
last state meet `Q`. -/
def Meets (Q : α → σ → Prop) : Prog Resp α → σ → Prop
  | .ret a, s => Q a s
  | .call op k, s => R s (h op s).2 ∧ Meets Q (k (h op s).1) (h op s).2

/-- What `Meets` says about the run. -/
theorem meets_iff (Q : α → σ → Prop) (p : Prog Resp α) (s : σ) :
    p.Meets h R Q s ↔ (s :: p.trace h s).IsChain R ∧ Q (p.run h s).1 (p.run h s).2 := by
  induction p generalizing s with
  | ret a => simp [Meets]
  | call op k ih =>
    simp only [Meets, trace_call, run_call, List.isChain_cons_cons, ih, and_assoc]

theorem meets_bind (Q : β → σ → Prop) (p : Prog Resp α) (f : α → Prog Resp β) (s : σ) :
    (p >>= f).Meets h R Q s ↔ p.Meets h R (fun a s => (f a).Meets h R Q s) s := by
  induction p generalizing s with
  | ret a => rfl
  | call op k ih => exact and_congr_right fun _ => ih _ _

theorem Meets.imp {Q Q' : α → σ → Prop} (hQ : ∀ a s, Q a s → Q' a s) {p : Prog Resp α} {s : σ}
    (hp : p.Meets h R Q s) : p.Meets h R Q' s := by
  rw [meets_iff] at hp ⊢
  exact ⟨hp.1, hQ _ _ hp.2⟩

/-- Whatever the responses, every operation the program calls meets `P`. -/
def CallsOnly (P : Op → Prop) : Prog Resp α → Prop
  | .ret _ => True
  | .call op k => P op ∧ ∀ r, CallsOnly P (k r)

theorem CallsOnly.bind {P : Op → Prop} {p : Prog Resp α} {f : α → Prog Resp β}
    (hp : p.CallsOnly P) (hf : ∀ a, (f a).CallsOnly P) : (p >>= f).CallsOnly P := by
  induction p with
  | ret a => exact hf a
  | call op k ih => exact ⟨hp.1, fun r => ih r (hp.2 r)⟩

/-- Run alone from `s`, every operation the program calls meets `C` in the state it is called in. -/
def EveryCall (C : Op → σ → Prop) : Prog Resp α → σ → Prop
  | .ret _, _ => True
  | .call op k, s => C op s ∧ EveryCall C (k (h op s).1) (h op s).2

instance decidableEveryCall {h : Handler Resp σ} {C : Op → σ → Prop}
    [∀ op s, Decidable (C op s)] : (p : Prog Resp α) → (s : σ) → Decidable (p.EveryCall h C s)
  | .ret _, _ => inferInstanceAs (Decidable True)
  | .call op k, s =>
    have : Decidable ((k (h op s).1).EveryCall h C (h op s).2) := decidableEveryCall _ _
    inferInstanceAs (Decidable (C op s ∧ (k (h op s).1).EveryCall h C (h op s).2))

theorem everyCall_bind (C : Op → σ → Prop) (p : Prog Resp α) (f : α → Prog Resp β) (s : σ) :
    (p >>= f).EveryCall h C s ↔
      p.EveryCall h C s ∧ (f (p.run h s).1).EveryCall h C (p.run h s).2 := by
  induction p generalizing s with
  | ret a => exact (and_iff_right trivial).symm
  | call op k ih => exact (and_congr_right fun _ => ih _ _).trans and_assoc.symm

/-- What every call keeps, the program keeps. -/
theorem EveryCall.run {C : Op → σ → Prop} {I : σ → Prop}
    (keep : ∀ op s, C op s → I s → I (h op s).2) {p : Prog Resp α} {s : σ}
    (hp : p.EveryCall h C s) (hs : I s) : I (p.run h s).2 := by
  induction p generalizing s with
  | ret a => exact hs
  | call op k ih => exact ih _ hp.2 (keep op s hp.1 hs)

theorem CallsOnly.everyCall {P : Op → Prop} {C : Op → σ → Prop} (hPC : ∀ op s, P op → C op s)
    {p : Prog Resp α} (hp : p.CallsOnly P) (s : σ) : p.EveryCall h C s := by
  induction p generalizing s with
  | ret a => trivial
  | call op k ih => exact ⟨hPC op s hp.1, ih _ (hp.2 _) _⟩

theorem CallsOnly.calls {P : Op → Prop} {ops : List Op} (hops : ∀ op ∈ ops, P op)
    {p : Prog Resp α} (hp : p.CallsOnly P) : (Prog.calls ops p).CallsOnly P := by
  induction ops with
  | nil => exact hp
  | cons op ops ih =>
    exact ⟨hops op List.mem_cons_self, fun _ => ih fun o ho => hops o (List.mem_cons_of_mem op ho)⟩

omit R in
theorem CallsOnly.step {P : Op → Prop} {p : Prog Resp α} (hp : p.CallsOnly P) (s : σ) :
    (p.step h s).1.CallsOnly P := by
  cases p with
  | ret a => exact hp
  | call op k => exact hp.2 _

theorem CallsOnly.next {P : Op → Prop} {p : Prog Resp α} (hp : p.CallsOnly P) {op : Op}
    (hop : p.next? = some op) : P op := by
  cases p with
  | ret a => exact absurd hop (by simp [next?])
  | call op' k => exact Option.some.inj hop ▸ hp.1

/-- Whatever the responses, the program calls an operation that meets `P` before it returns. -/
def MustCall (P : Op → Prop) : Prog Resp α → Prop
  | .ret _ => False
  | .call op k => P op ∨ ∀ r, MustCall P (k r)

theorem MustCall.calls {P : Op → Prop} (ops : List Op) {p : Prog Resp α} (hp : p.MustCall P) :
    (Prog.calls ops p).MustCall P := by
  induction ops with
  | nil => exact hp
  | cons op ops ih => exact .inr fun _ => ih

omit R in
/-- A call either meets the obligation or leaves it. -/
theorem MustCall.step {P : Op → Prop} {p : Prog Resp α} (hp : p.MustCall P)
    (hnext : ∀ op, p.next? = some op → ¬ P op) (s : σ) : (p.step h s).1.MustCall P := by
  cases p with
  | ret a => exact hp
  | call op k => exact (hp.resolve_left (hnext op rfl)) _

/-- The frame rule: what every called operation keeps, and how it moves the state, holds of the
program. -/
theorem CallsOnly.meets {P : Op → Prop} {I : σ → Prop}
    (hstep : ∀ op s, P op → I s → R s (h op s).2 ∧ I (h op s).2) {p : Prog Resp α}
    (hp : p.CallsOnly P) {s : σ} (hs : I s) : p.Meets h R (fun _ s' => I s') s := by
  induction p generalizing s with
  | ret a => exact hs
  | call op k ih =>
    obtain ⟨hR, hI⟩ := hstep op s hp.1 hs
    exact ⟨hR, ih _ (hp.2 _) hI⟩

/-- The last state of a trace is the state the run ends in. -/
theorem getLast_trace (p : Prog Resp α) (s : σ) :
    (s :: p.trace h s).getLast (List.cons_ne_nil _ _) = (p.run h s).2 := by
  induction p generalizing s with
  | ret a => rfl
  | call op k ih =>
    rw [trace_call, List.getLast_cons (List.cons_ne_nil _ _), run_call]
    exact ih _ _

end Prog

/-! ## Programs that can fail -/

section Fallible

variable {ε : Type v} (h : Handler Resp σ)

/-- A fallible program run alone. The state at a failure is kept: nothing is rolled back. -/
def runE (p : ExceptT ε (Prog Resp) α) (s : σ) : Except ε α × σ := Prog.run h (ExceptT.run p) s

theorem runE_beside {τ : Type w} (p : ExceptT ε (Prog Resp) α) (s : σ) (t : τ) :
    runE (Prog.beside h τ) p (s, t) = ((runE h p s).1, (runE h p s).2, t) :=
  Prog.run_beside h (ExceptT.run p) s t

/-- The states after each call of a fallible program run alone. -/
def traceE (p : ExceptT ε (Prog Resp) α) (s : σ) : List σ := Prog.trace h (ExceptT.run p) s

@[simp] theorem runE_pure (a : α) (s : σ) :
    runE h (pure a : ExceptT ε (Prog Resp) α) s = (.ok a, s) := rfl

@[simp] theorem runE_throw (e : ε) (s : σ) :
    runE h (throw e : ExceptT ε (Prog Resp) α) s = (.error e, s) := rfl

@[simp] theorem runE_bind (p : ExceptT ε (Prog Resp) α) (f : α → ExceptT ε (Prog Resp) β) (s : σ) :
    runE h (p >>= f) s = match runE h p s with
      | (.ok a, s') => runE h (f a) s'
      | (.error e, s') => (.error e, s') := by
  have hb : runE h (p >>= f) s = Prog.run h (ExceptT.bindCont f (Prog.run h (ExceptT.run p) s).1)
      (Prog.run h (ExceptT.run p) s).2 := Prog.run_bind h (ExceptT.run p) _ s
  rw [hb, runE]
  cases Prog.run h (ExceptT.run p) s with
  | mk r s' => cases r <;> rfl

/-- Run alone from `s`, every call of a fallible program moves the state along `R`, and the result,
a failure included, and the last state meet `Q`. -/
def MeetsE (R : σ → σ → Prop) (Q : Except ε α → σ → Prop) (p : ExceptT ε (Prog Resp) α) (s : σ) :
    Prop :=
  Prog.Meets h R Q (ExceptT.run p) s

variable (R : σ → σ → Prop)

theorem meetsE_iff (Q : Except ε α → σ → Prop) (p : ExceptT ε (Prog Resp) α) (s : σ) :
    MeetsE h R Q p s ↔ (s :: traceE h p s).IsChain R ∧ Q (runE h p s).1 (runE h p s).2 :=
  Prog.meets_iff h R Q (ExceptT.run p) s

theorem MeetsE.imp {Q Q' : Except ε α → σ → Prop} (hQ : ∀ r s, Q r s → Q' r s)
    {p : ExceptT ε (Prog Resp) α} {s : σ} (hp : MeetsE h R Q p s) : MeetsE h R Q' p s :=
  Prog.Meets.imp h R hQ hp

@[simp] theorem meetsE_pure (Q : Except ε α → σ → Prop) (a : α) (s : σ) :
    MeetsE h R Q (pure a) s ↔ Q (.ok a) s := Iff.rfl

@[simp] theorem meetsE_throw (Q : Except ε α → σ → Prop) (e : ε) (s : σ) :
    MeetsE h R Q (throw e) s ↔ Q (.error e) s := Iff.rfl

@[simp] theorem meetsE_bind (Q : Except ε β → σ → Prop) (p : ExceptT ε (Prog Resp) α)
    (f : α → ExceptT ε (Prog Resp) β) (s : σ) :
    MeetsE h R Q (p >>= f) s ↔ MeetsE h R (fun r s' => match r with
      | .ok a => MeetsE h R Q (f a) s'
      | .error e => Q (.error e) s') p s := by
  have hb : MeetsE h R Q (p >>= f) s ↔ Prog.Meets h R
      (fun r s' => Prog.Meets h R Q (ExceptT.bindCont f r) s') (ExceptT.run p) s :=
    Prog.meets_bind h R Q (ExceptT.run p) _ s
  have hcont : (fun (r : Except ε α) s' => Prog.Meets h R Q (ExceptT.bindCont f r) s') =
      fun r s' => match r with
        | .ok a => MeetsE h R Q (f a) s'
        | .error e => Q (.error e) s' := by
    funext r s'
    cases r <;> rfl
  rw [hb, hcont]
  rfl

theorem getLast_traceE (p : ExceptT ε (Prog Resp) α) (s : σ) :
    (s :: traceE h p s).getLast (List.cons_ne_nil _ _) = (runE h p s).2 :=
  Prog.getLast_trace h (ExceptT.run p) s

/-- Whatever the responses, every operation a fallible program calls meets `P`. -/
def CallsOnlyE (P : Op → Prop) (p : ExceptT ε (Prog Resp) α) : Prop :=
  Prog.CallsOnly P (ExceptT.run p)

variable {P : Op → Prop}

theorem CallsOnlyE.pure (a : α) : CallsOnlyE P (Pure.pure a : ExceptT ε (Prog Resp) α) := trivial

theorem CallsOnlyE.throw (e : ε) : CallsOnlyE P (MonadExcept.throw e : ExceptT ε (Prog Resp) α) :=
  trivial

theorem CallsOnlyE.bind {p : ExceptT ε (Prog Resp) α} {f : α → ExceptT ε (Prog Resp) β}
    (hp : CallsOnlyE P p) (hf : ∀ a, CallsOnlyE P (f a)) : CallsOnlyE P (p >>= f) := by
  refine Prog.CallsOnly.bind hp fun r => ?_
  cases r with
  | ok a => exact hf a
  | error e => trivial

theorem CallsOnlyE.meetsE {I : σ → Prop}
    (hstep : ∀ op s, P op → I s → R s (h op s).2 ∧ I (h op s).2)
    {p : ExceptT ε (Prog Resp) α} (hp : CallsOnlyE P p) {s : σ} (hs : I s) :
    MeetsE h R (fun _ s' => I s') p s :=
  Prog.CallsOnly.meets h R hstep hp hs

/-- Run alone from `s`, every operation a fallible program calls meets `C` in the state it is called
in. -/
def EveryCallE (C : Op → σ → Prop) (p : ExceptT ε (Prog Resp) α) (s : σ) : Prop :=
  Prog.EveryCall h C (ExceptT.run p) s

section EveryCallE

variable {C : Op → σ → Prop}

instance decidableEveryCallE {h : Handler Resp σ} [∀ op s, Decidable (C op s)]
    (p : ExceptT ε (Prog Resp) α) (s : σ) : Decidable (EveryCallE h C p s) :=
  inferInstanceAs (Decidable (Prog.EveryCall h C (ExceptT.run p) s))

@[simp] theorem everyCallE_pure (a : α) (s : σ) :
    EveryCallE h C (Pure.pure a : ExceptT ε (Prog Resp) α) s ↔ True := Iff.rfl

@[simp] theorem everyCallE_throw (e : ε) (s : σ) :
    EveryCallE h C (MonadExcept.throw e : ExceptT ε (Prog Resp) α) s ↔ True := Iff.rfl

theorem everyCallE_bind (p : ExceptT ε (Prog Resp) α) (f : α → ExceptT ε (Prog Resp) β) (s : σ) :
    EveryCallE h C (p >>= f) s ↔ EveryCallE h C p s ∧ match Resumption.runE h p s with
      | (.ok a, s') => EveryCallE h C (f a) s'
      | (.error _, _) => True := by
  have hb : EveryCallE h C (p >>= f) s ↔ EveryCallE h C p s ∧
      Prog.EveryCall h C (ExceptT.bindCont f (Prog.run h (ExceptT.run p) s).1)
        (Prog.run h (ExceptT.run p) s).2 := Prog.everyCall_bind h C (ExceptT.run p) _ s
  rw [hb, Resumption.runE]
  cases Prog.run h (ExceptT.run p) s with
  | mk r s' => cases r <;> rfl

/-- What every call keeps, the program keeps. -/
theorem EveryCallE.runE {I : σ → Prop} (keep : ∀ op s, C op s → I s → I (h op s).2)
    {p : ExceptT ε (Prog Resp) α} {s : σ} (hp : EveryCallE h C p s) (hs : I s) :
    I (Resumption.runE h p s).2 :=
  Prog.EveryCall.run h keep hp hs

theorem CallsOnlyE.everyCallE (hPC : ∀ op s, P op → C op s) {p : ExceptT ε (Prog Resp) α}
    (hp : CallsOnlyE P p) (s : σ) : EveryCallE h C p s :=
  Prog.CallsOnly.everyCall h hPC hp s

end EveryCallE

/-- Sequential composition after a program that only reads. -/
theorem CallsOnlyE.meetsE_bind_of_reads (hP : ∀ op s, P op → (h op s).2 = s) {s : σ} (refl : R s s)
    {Q : Except ε β → σ → Prop} {p : ExceptT ε (Prog Resp) α} {f : α → ExceptT ε (Prog Resp) β}
    (hp : CallsOnlyE P p)
    (hf : match (Resumption.runE h p s).1 with
      | .ok a => MeetsE h R Q (f a) s
      | .error e => Q (.error e) s) : MeetsE h R Q (p >>= f) s := by
  have hreads : MeetsE h R (fun _ s' => s' = s) p s := by
    have hstep : ∀ op s', P op → s' = s → R s' (h op s').2 ∧ (h op s').2 = s := by
      rintro op s' hop rfl
      rw [hP op s' hop]
      exact ⟨refl, rfl⟩
    exact hp.meetsE h R hstep rfl
  rw [meetsE_iff] at hreads
  rw [meetsE_bind, meetsE_iff]
  refine ⟨hreads.1, ?_⟩
  rw [hreads.2]
  exact hf

/-- A program whose every operation keeps `I` keeps `I`. -/
theorem CallsOnlyE.runE {I : σ → Prop} (hstep : ∀ op s, P op → I s → I (h op s).2)
    {p : ExceptT ε (Prog Resp) α} (hp : CallsOnlyE P p) {s : σ} (hs : I s) :
    I (Resumption.runE h p s).2 :=
  ((meetsE_iff h (fun _ _ => True) _ p s).1
    (hp.meetsE h _ (fun op s hop hI => ⟨trivial, hstep op s hop hI⟩) hs)).2

end Fallible

section PerformE

variable {ε : Type u} (h : Handler Resp σ)

/-- A call of the interface in a fallible program. -/
def performE (op : Op) : ExceptT ε (Prog Resp) (Resp op) := ExceptT.lift (Prog.perform op)

@[simp] theorem runE_performE (op : Op) (s : σ) :
    runE h (performE op : ExceptT ε (Prog Resp) (Resp op)) s = (.ok (h op s).1, (h op s).2) := rfl

@[simp] theorem meetsE_performE (R : σ → σ → Prop) (op : Op)
    (Q : Except ε (Resp op) → σ → Prop) (s : σ) :
    MeetsE h R Q (performE op) s ↔ R s (h op s).2 ∧ Q (.ok (h op s).1) (h op s).2 := Iff.rfl

/-- The rule for a call and what follows it. -/
theorem meetsE_performE_bind {β : Type u} (R : σ → σ → Prop) (op : Op)
    (f : Resp op → ExceptT ε (Prog Resp) β) (Q : Except ε β → σ → Prop) (s : σ) :
    MeetsE h R Q (performE op >>= f) s ↔
      R s (h op s).2 ∧ MeetsE h R Q (f (h op s).1) (h op s).2 := by
  rw [meetsE_bind, meetsE_performE]

@[simp] theorem everyCallE_performE (C : Op → σ → Prop) (op : Op) (s : σ) :
    EveryCallE h C (performE op : ExceptT ε (Prog Resp) (Resp op)) s ↔ C op s :=
  and_iff_left trivial

/-- The rule for a call and what follows it. -/
theorem everyCallE_performE_bind {β : Type u} (C : Op → σ → Prop) (op : Op)
    (f : Resp op → ExceptT ε (Prog Resp) β) (s : σ) :
    EveryCallE h C (performE op >>= f) s ↔ C op s ∧ EveryCallE h C (f (h op s).1) (h op s).2 :=
  Iff.rfl

/-- A program that starts with a call makes it and goes on with the response. -/
theorem step_performE_bind {β : Type u} (op : Op) (f : Resp op → ExceptT ε (Prog Resp) β) (s : σ) :
    Prog.step h (ExceptT.run (performE op >>= f)) s =
      (ExceptT.run (f (h op s).1), (h op s).2) := rfl

theorem CallsOnlyE.performE {P : Op → Prop} {op : Op} (hop : P op) :
    CallsOnlyE P (Resumption.performE op : ExceptT ε (Prog Resp) (Resp op)) :=
  ⟨hop, fun _ => trivial⟩

/-- A computed result or failure in a fallible program; no call. -/
def ofResult {α : Type u} (r : Except ε α) : ExceptT ε (Prog Resp) α := ExceptT.mk (.ret r)

@[simp] theorem runE_ofResult {α : Type u} (r : Except ε α) (s : σ) :
    runE h (ofResult r : ExceptT ε (Prog Resp) α) s = (r, s) := rfl

@[simp] theorem meetsE_ofResult {α : Type u} (R : σ → σ → Prop) (r : Except ε α)
    (Q : Except ε α → σ → Prop) (s : σ) :
    MeetsE h R Q (ofResult r : ExceptT ε (Prog Resp) α) s ↔ Q r s := Iff.rfl

@[simp] theorem everyCallE_ofResult {α : Type u} (C : Op → σ → Prop) (r : Except ε α) (s : σ) :
    EveryCallE h C (ofResult r : ExceptT ε (Prog Resp) α) s ↔ True := Iff.rfl

theorem CallsOnlyE.ofResult {α : Type u} {P : Op → Prop} (r : Except ε α) :
    CallsOnlyE P (Resumption.ofResult r : ExceptT ε (Prog Resp) α) := trivial

end PerformE

/-! ## Interleaving -/

/-- Programs running concurrently, one for each index, over one shared state. -/
structure Pool (ι : Type v) (Resp : Op → Type u) (α : Type v) (σ : Type w) where
  threads : ι → Prog Resp α
  shared : σ

section Pool

variable {ι : Type v} [DecidableEq ι] (h : Handler Resp σ)

/-- The program of index `i` makes its next call. -/
def Pool.step (c : Pool ι Resp α σ) (i : ι) : Pool ι Resp α σ where
  threads := Function.update c.threads i ((c.threads i).step h c.shared).1
  shared := ((c.threads i).step h c.shared).2

theorem Pool.step_threads_self (c : Pool ι Resp α σ) (i : ι) :
    (c.step h i).threads i = ((c.threads i).step h c.shared).1 :=
  Function.update_self ..

theorem Pool.step_threads_ne (c : Pool ι Resp α σ) {i j : ι} (hj : j ≠ i) :
    (c.step h i).threads j = c.threads j :=
  Function.update_of_ne hj ..

/-- The programs after the calls a schedule names, in that order. -/
def Pool.exec (c : Pool ι Resp α σ) (sched : List ι) : Pool ι Resp α σ :=
  Runs.run (Pool.step h) c sched

/-- The operations called along a schedule, in order. -/
def Pool.ops (c : Pool ι Resp α σ) : List ι → List Op
  | [] => []
  | i :: sched => (c.threads i).next?.toList ++ Pool.ops (c.step h i) sched

end Pool

/-! ## Control points -/

/-- Programs presented by control points, one family for each index: `next` is a step on control
points and states that the program at each control point follows. -/
structure Flow (h : Handler Resp σ) (ι Loc α : Type v) where
  code : ι → Loc → Prog Resp α
  next : ι → Loc → σ → Loc × σ
  code_next : ∀ i l s, (code i l).step h s = (code i (next i l s).1, (next i l s).2)

/-- One control point for each index, over one shared state. -/
structure Config (ι Loc : Type v) (σ : Type w) where
  locs : ι → Loc
  shared : σ

namespace Flow

variable {ι Loc : Type v} [DecidableEq ι] {h : Handler Resp σ} (F : Flow h ι Loc α)

/-- The programs at the control points of a configuration. -/
def toPool (c : Config ι Loc σ) : Pool ι Resp α σ := ⟨fun i => F.code i (c.locs i), c.shared⟩

/-- Index `i` moves to its next control point. -/
def step (c : Config ι Loc σ) (i : ι) : Config ι Loc σ where
  locs := Function.update c.locs i (F.next i (c.locs i) c.shared).1
  shared := (F.next i (c.locs i) c.shared).2

omit [DecidableEq ι] in
theorem toPool_threads {c : Config ι Loc σ} {i : ι} {l : Loc} (hl : c.locs i = l) :
    (F.toPool c).threads i = F.code i l :=
  congrArg (F.code i) hl

theorem step_locs_self (c : Config ι Loc σ) (i : ι) :
    (F.step c i).locs i = (F.next i (c.locs i) c.shared).1 :=
  Function.update_self ..

theorem step_locs_ne (c : Config ι Loc σ) {i j : ι} (hj : j ≠ i) :
    (F.step c i).locs j = c.locs j :=
  Function.update_of_ne hj ..

theorem toPool_step (c : Config ι Loc σ) (i : ι) :
    F.toPool (F.step c i) = Pool.step h (F.toPool c) i := by
  have hc := F.code_next i (c.locs i) c.shared
  have ht : (F.toPool (F.step c i)).threads = (Pool.step h (F.toPool c) i).threads := by
    funext j
    by_cases hj : j = i
    · subst hj
      simp [toPool, step, Pool.step, hc]
    · simp [toPool, step, Pool.step, hj]
  have hs : (F.toPool (F.step c i)).shared = (Pool.step h (F.toPool c) i).shared := by
    simp [toPool, step, Pool.step, hc]
  exact (Pool.mk.injEq ..).mpr ⟨ht, hs⟩

/-- A run of the control points is the run of the programs. -/
theorem toPool_run (c : Config ι Loc σ) (sched : List ι) :
    F.toPool (Runs.run F.step c sched) = (F.toPool c).exec h sched :=
  Runs.run_map F.toPool_step c sched

end Flow

end Resumption
