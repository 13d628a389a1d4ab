import FleetCommand.Lib.Resumption

/-!
# Programs under a monitor

A monitor follows the calls of a program: its state moves with each call and its response, and says
which calls are allowed (`Monitor`). A program obeys it when every call is allowed, whatever is
answered (`Prog.Obeys`). The rules follow the shape of a program, and one call of an obeying program
leaves an obeying program (`Obeys.step`), so obedience is an invariant of an interleaving.
-/

set_option autoImplicit false

namespace Resumption

universe u v w t

variable {Op : Type u} {Resp : Op → Type u} {α β : Type v} {σ : Type w} {τ : Type t}

/-- A state that follows the calls of a program, and the calls it allows. -/
structure Monitor (Resp : Op → Type u) (τ : Type t) where
  next : τ → (op : Op) → Resp op → τ
  allows : τ → Op → Prop

namespace Prog

variable (m : Monitor Resp τ)

/-- Whatever the responses, every call is allowed, and the result and the monitor's last state meet
`Q`. -/
def Obeys (Q : α → τ → Prop) : Prog Resp α → τ → Prop
  | .ret a, x => Q a x
  | .call op k, x => m.allows x op ∧ ∀ r, Obeys Q (k r) (m.next x op r)

/-- The monitor after the next call of a program. -/
def watched (h : Handler Resp σ) (p : Prog Resp α) (s : σ) (x : τ) : τ :=
  match p with
  | .ret _ => x
  | .call op _ => m.next x op (h op s).1

variable {m} {Q Q' : α → τ → Prop}

theorem Obeys.bind {Q' : β → τ → Prop} {p : Prog Resp α} {f : α → Prog Resp β} {x : τ}
    (hp : p.Obeys m Q x) (hf : ∀ a y, Q a y → (f a).Obeys m Q' y) : (p >>= f).Obeys m Q' x := by
  induction p generalizing x with
  | ret a => exact hf a x hp
  | call op k ih => exact ⟨hp.1, fun r => ih r (hp.2 r)⟩

theorem Obeys.step (h : Handler Resp σ) {p : Prog Resp α} {x : τ} (hp : p.Obeys m Q x) (s : σ) :
    (p.step h s).1.Obeys m Q (p.watched m h s x) := by
  cases p with
  | ret a => exact hp
  | call op k => exact hp.2 _

theorem Obeys.next {p : Prog Resp α} {x : τ} (hp : p.Obeys m Q x) {op : Op}
    (hop : p.next? = some op) : m.allows x op := by
  cases p with
  | ret a => exact absurd hop (by simp [next?])
  | call op' k => exact Option.some.inj hop ▸ hp.1

/-- Calls that are always allowed and do not move the monitor. -/
theorem CallsOnly.obeys {P : Op → Prop} (hallows : ∀ op x, P op → m.allows x op)
    (hnext : ∀ op x r, P op → m.next x op r = x) {p : Prog Resp α} (hp : p.CallsOnly P) (x : τ) :
    p.Obeys m (fun _ y => y = x) x := by
  induction p with
  | ret a => rfl
  | call op k ih =>
    refine ⟨hallows op x hp.1, fun r => ?_⟩
    rw [hnext op x r hp.1]
    exact ih r (hp.2 r)

end Prog

/-! ## Programs that can fail -/

section Fallible

variable {ε : Type v} (m : Monitor Resp τ)

/-- A fallible program that obeys a monitor; the result may be a failure. -/
def ObeysE (Q : Except ε α → τ → Prop) (p : ExceptT ε (Prog Resp) α) (x : τ) : Prop :=
  Prog.Obeys m Q (ExceptT.run p) x

variable {m} {Q : Except ε α → τ → Prop}

theorem ObeysE.pure {a : α} {x : τ} (hQ : Q (.ok a) x) :
    ObeysE m Q (Pure.pure a : ExceptT ε (Prog Resp) α) x := hQ

theorem ObeysE.throw {e : ε} {x : τ} (hQ : Q (.error e) x) :
    ObeysE m Q (MonadExcept.throw e : ExceptT ε (Prog Resp) α) x := hQ

theorem ObeysE.bind {Q' : Except ε β → τ → Prop} {p : ExceptT ε (Prog Resp) α}
    {f : α → ExceptT ε (Prog Resp) β} {x : τ} (hp : ObeysE m Q p x)
    (hok : ∀ a y, Q (.ok a) y → ObeysE m Q' (f a) y)
    (herror : ∀ e y, Q (.error e) y → Q' (.error e) y) : ObeysE m Q' (p >>= f) x := by
  refine Prog.Obeys.bind hp fun r y hr => ?_
  cases r with
  | ok a => exact hok a y hr
  | error e => exact herror e y hr

theorem CallsOnlyE.obeys {P : Op → Prop} (hallows : ∀ op x, P op → m.allows x op)
    (hnext : ∀ op x r, P op → m.next x op r = x) {p : ExceptT ε (Prog Resp) α}
    (hp : CallsOnlyE P p) (x : τ) : ObeysE m (fun _ y => y = x) p x :=
  Prog.CallsOnly.obeys hallows hnext hp x

end Fallible

/-- A call and what follows it. -/
theorem ObeysE.performE_bind {ε α : Type u} {m : Monitor Resp τ} {Q : Except ε α → τ → Prop}
    {op : Op} {f : Resp op → ExceptT ε (Prog Resp) α} {x : τ} (hop : m.allows x op)
    (hf : ∀ r, ObeysE m Q (f r) (m.next x op r)) : ObeysE m Q (Resumption.performE op >>= f) x :=
  ⟨hop, hf⟩

end Resumption
