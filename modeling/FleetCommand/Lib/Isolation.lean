import FleetCommand.Lib.Resumption

/-!
# Programs confined to parts of a shared state

Every index sees a part of the shared state. When an operation an index may call is answered from
its part, changes that part as the part alone determines and leaves the other parts as they are
(`Confined`), an interleaving of programs is no different, for each of them, from its own calls made
alone (`Confined.exec`).
-/

set_option autoImplicit false

namespace Resumption

universe u v w t

variable {Op : Type u} {Resp : Op → Type u} {α : Type v} {σ : Type w} (h : Handler Resp σ)

namespace Prog

/-- The first `n` calls of a program run alone. -/
def steps : Nat → Prog Resp α → σ → Prog Resp α × σ
  | 0, p, s => (p, s)
  | n + 1, p, s => steps n (p.step h s).1 (p.step h s).2

theorem steps_ret (n : Nat) (a : α) (s : σ) :
    (Prog.ret a : Prog Resp α).steps h n s = (.ret a, s) := by
  induction n with
  | zero => rfl
  | succ n ih => exact ih

/-- A program that has returned after some calls has returned what it returns run alone. -/
theorem run_of_steps {n : Nat} {p : Prog Resp α} {s : σ} {a : α} (hp : (p.steps h n s).1 = .ret a) :
    p.run h s = (a, (p.steps h n s).2) := by
  induction n generalizing p s with
  | zero =>
    obtain rfl : p = .ret a := hp
    rfl
  | succ n ih =>
    cases p with
    | ret b =>
      rw [steps_ret] at hp ⊢
      obtain rfl : b = a := by simpa using hp
      rfl
    | call op k => exact ih hp

/-- A program run alone returns after finitely many calls. -/
theorem exists_steps_ret (p : Prog Resp α) (s : σ) :
    ∃ n, ∀ m, n ≤ m → ∃ a, (p.steps h m s).1 = .ret a := by
  induction p generalizing s with
  | ret a => exact ⟨0, fun m _ => ⟨a, by rw [steps_ret]⟩⟩
  | call op k ih =>
    obtain ⟨n, hn⟩ := ih (h op s).1 (h op s).2
    refine ⟨n + 1, fun m hm => ?_⟩
    obtain ⟨m, rfl⟩ : ∃ m', m = m' + 1 := ⟨m - 1, by omega⟩
    exact hn m (by omega)

end Prog

variable {ι : Type v} {τ : Type t}

/-- The operations each index may call keep to the part of the state it sees. -/
structure Confined (may : ι → Op → Prop) (view : ι → σ → τ) : Prop where
  answer : ∀ i op s s', may i op → view i s = view i s' → (h op s).1 = (h op s').1
  own : ∀ i op s s', may i op → view i s = view i s' → view i (h op s).2 = view i (h op s').2
  other : ∀ i j op s, may i op → j ≠ i → view j (h op s).2 = view j s

namespace Confined

variable {h} {may : ι → Op → Prop} {view : ι → σ → τ} (hc : Confined h may view)
include hc

theorem step {i : ι} {p : Prog Resp α} (hp : p.CallsOnly (may i)) {s s' : σ}
    (hs : view i s = view i s') :
    (p.step h s).1 = (p.step h s').1 ∧ view i (p.step h s).2 = view i (p.step h s').2 := by
  cases p with
  | ret a => exact ⟨rfl, hs⟩
  | call op k =>
    refine ⟨?_, hc.own i op s s' hp.1 hs⟩
    show k (h op s).1 = k (h op s').1
    rw [hc.answer i op s s' hp.1 hs]

/-- Calls made alone depend on the caller's part only. -/
theorem steps {i : ι} (n : Nat) {p : Prog Resp α} (hp : p.CallsOnly (may i)) {s s' : σ}
    (hs : view i s = view i s') :
    (p.steps h n s).1 = (p.steps h n s').1 ∧ view i (p.steps h n s).2 = view i (p.steps h n s').2 := by
  induction n generalizing p s s' with
  | zero => exact ⟨rfl, hs⟩
  | succ n ih =>
    obtain ⟨hprog, hview⟩ := hc.step hp hs
    have hnext := ih (hp.step h s) hview
    rw [Prog.steps, Prog.steps, ← hprog]
    exact hnext

theorem other_step {i j : ι} (hj : j ≠ i) {p : Prog Resp α} (hp : p.CallsOnly (may i)) (s : σ) :
    view j (p.step h s).2 = view j s := by
  cases p with
  | ret a => rfl
  | call op k => exact hc.other i j op s hp.1 hj

variable [DecidableEq ι]

/-- An interleaving leaves each program, and the part of the state it sees, where its own calls made
alone leave them. -/
theorem exec {c : Pool ι Resp α σ} (hthreads : ∀ i, (c.threads i).CallsOnly (may i))
    (sched : List ι) (i : ι) :
    (c.exec h sched).threads i = ((c.threads i).steps h (sched.count i) c.shared).1 ∧
    view i (c.exec h sched).shared =
      view i ((c.threads i).steps h (sched.count i) c.shared).2 := by
  -- on the schedule: a call of another index moves neither the program nor its part
  induction sched generalizing c with
  | nil => exact ⟨rfl, rfl⟩
  | cons j sched ih =>
    have hnext : ∀ k, ((c.step h j).threads k).CallsOnly (may k) := by
      intro k
      rcases eq_or_ne k j with rfl | hk
      · rw [Pool.step_threads_self]
        exact (hthreads k).step h c.shared
      · rw [Pool.step_threads_ne h c hk]
        exact hthreads k
    have hrest := ih hnext
    show ((c.step h j).exec h sched).threads i = _ ∧ view i ((c.step h j).exec h sched).shared = _
    rw [hrest.1, hrest.2]
    rcases eq_or_ne i j with rfl | hi
    · rw [Pool.step_threads_self, List.count_cons_self]
      exact ⟨rfl, rfl⟩
    · have hview : view i (c.step h j).shared = view i c.shared :=
        hc.other_step hi (hthreads j) c.shared
      rw [Pool.step_threads_ne h c hi, List.count_cons_of_ne hi.symm]
      exact hc.steps (sched.count i) (hthreads i) hview

end Confined

end Resumption
