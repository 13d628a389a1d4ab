import FleetCommand.Lib.Resumption

/-!
# Simulation between implementations of an interface

Two handlers of one interface whose states are related, answer alike and stay related are no
different to the programs over the interface: run along any schedule the programs are at the same
points, and the states are related (`Simulates.exec`).
-/

set_option autoImplicit false

namespace Resumption

universe u v w x

variable {Op : Type u} {Resp : Op → Type u} {α ι : Type v} {σ : Type w} {τ : Type x}

/-- From related states a call has the same response and leads to related states. -/
structure Simulates (h : Handler Resp σ) (h' : Handler Resp τ) (R : σ → τ → Prop) : Prop where
  response : ∀ op {s t}, R s t → (h op s).1 = (h' op t).1
  next : ∀ op {s t}, R s t → R (h op s).2 (h' op t).2

variable {h : Handler Resp σ} {h' : Handler Resp τ} {R : σ → τ → Prop}

theorem Simulates.step (hsim : Simulates h h' R) (p : Prog Resp α) {s : σ} {t : τ} (hst : R s t) :
    (p.step h s).1 = (p.step h' t).1 ∧ R (p.step h s).2 (p.step h' t).2 := by
  cases p with
  | ret a => exact ⟨rfl, hst⟩
  | call op k => exact ⟨congrArg k (hsim.response op hst), hsim.next op hst⟩

variable [DecidableEq ι]

theorem Simulates.pool_step (hsim : Simulates h h' R) {c : Pool ι Resp α σ} {d : Pool ι Resp α τ}
    (hthreads : c.threads = d.threads) (hshared : R c.shared d.shared) (i : ι) :
    (c.step h i).threads = (d.step h' i).threads ∧ R (c.step h i).shared (d.step h' i).shared := by
  have hi : c.threads i = d.threads i := congrFun hthreads i
  obtain ⟨hpoint, hnext⟩ := hsim.step (d.threads i) hshared
  constructor
  · rw [Pool.step, Pool.step, hi, hpoint, hthreads]
  · rw [Pool.step, Pool.step, hi]
    exact hnext

/-- Along any schedule the programs are at the same points and the states are related. -/
theorem Simulates.exec (hsim : Simulates h h' R) {c : Pool ι Resp α σ} {d : Pool ι Resp α τ}
    (hthreads : c.threads = d.threads) (hshared : R c.shared d.shared) (sched : List ι) :
    (c.exec h sched).threads = (d.exec h' sched).threads ∧
      R (c.exec h sched).shared (d.exec h' sched).shared := by
  induction sched generalizing c d with
  | nil => exact ⟨hthreads, hshared⟩
  | cons i sched ih =>
    obtain ⟨hthreads', hshared'⟩ := hsim.pool_step hthreads hshared i
    exact ih hthreads' hshared'

end Resumption
