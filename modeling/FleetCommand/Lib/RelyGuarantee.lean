import FleetCommand.Lib.Resumption

/-!
# Programs beside others

`Prog.Under` is a judgement about a program that other programs may run beside. Before each of its
calls the state may have moved along a relation, the rely, as long as an invariant holds; from any
such state the call must meet its condition. The rules follow the shape of a program and do not
mention the other programs.

In a pool each program has a rely of its own. Where every permitted call keeps the invariant, and
what one program does is within what every other relies on, the judgements of all programs hold
together along any schedule (`Pool.Sound.exec`), a program that has returned keeps its promise of
the state (`Pool.Sound.result`), and the state moves along any preorder that contains every
program's moves (`Pool.Sound.exec_moves`). A program that makes at most `n` calls has returned after
`n` turns of its own (`Pool.exec_returns`).
-/

set_option autoImplicit false

namespace Resumption

universe u v w

variable {Op : Type u} {Resp : Op → Type u} {α β : Type v} {σ : Type w}

/-- What one program relies on: an invariant of the state, how the other programs may move the
state, and the condition its calls have to meet. -/
structure Contract (Op : Type u) (σ : Type w) where
  inv : σ → Prop
  rely : σ → σ → Prop
  refl : ∀ s, rely s s
  trans : ∀ {s t r}, rely s t → rely t r → rely s r
  permits : Op → σ → Prop

/-- Neither the other programs nor a permitted call that meets `P` undoes `J`. -/
structure Contract.Stable (h : Handler Resp σ) (c : Contract Op σ) (P : Op → Prop) (J : σ → Prop) :
    Prop where
  others : ∀ {s s'}, J s → c.rely s s' → J s'
  own : ∀ {op s}, P op → c.inv s → c.permits op s → J s → J (h op s).2

namespace Prog

variable (h : Handler Resp σ) (c : Contract Op σ)

/-- From every state the other programs can have reached, the next call is permitted and what
follows it is under the contract again; the result meets `Q` and goes on meeting it. -/
def Under (Q : α → σ → Prop) : Prog Resp α → σ → Prop
  | .ret a, s => ∀ s', c.rely s s' → c.inv s' → Q a s'
  | .call op k, s => ∀ s', c.rely s s' → c.inv s' →
      c.permits op s' ∧ Under Q (k (h op s').1) (h op s').2

variable {h c} {Q Q' : α → σ → Prop}

/-- What the other programs do leaves the judgement as it is. -/
theorem Under.rely {p : Prog Resp α} {s s' : σ} (hp : p.Under h c Q s) (hs : c.rely s s') :
    p.Under h c Q s' := by
  cases p with
  | ret a => exact fun s'' hs'' => hp s'' (c.trans hs hs'')
  | call op k => exact fun s'' hs'' => hp s'' (c.trans hs hs'')

/-- The judgement may be shown in the states the other programs reach. -/
theorem Under.of_rely {p : Prog Resp α} {s : σ}
    (hp : ∀ s', c.rely s s' → c.inv s' → p.Under h c Q s') : p.Under h c Q s := by
  cases p with
  | ret a => exact fun s' hs hinv => hp s' hs hinv s' (c.refl s') hinv
  | call op k => exact fun s' hs hinv => hp s' hs hinv s' (c.refl s') hinv

theorem Under.imp {p : Prog Resp α} {s : σ} (hp : p.Under h c Q s)
    (hQ : ∀ a s', Q a s' → Q' a s') : p.Under h c Q' s := by
  induction p generalizing s with
  | ret a => exact fun s' hs hinv => hQ a s' (hp s' hs hinv)
  | call op k ih =>
    intro s' hs hinv
    obtain ⟨hop, hk⟩ := hp s' hs hinv
    exact ⟨hop, ih _ hk⟩

theorem Under.bind {Q' : β → σ → Prop} {p : Prog Resp α} {f : α → Prog Resp β} {s : σ}
    (hp : p.Under h c Q s) (hf : ∀ a s', c.inv s' → Q a s' → (f a).Under h c Q' s') :
    (p >>= f).Under h c Q' s := by
  induction p generalizing s with
  | ret a => exact .of_rely fun s' hs hinv => hf a s' hinv (hp s' hs hinv)
  | call op k ih =>
    intro s' hs hinv
    obtain ⟨hop, hk⟩ := hp s' hs hinv
    exact ⟨hop, ih _ hk⟩

theorem Under.step {p : Prog Resp α} {s : σ} (hp : p.Under h c Q s) (hs : c.inv s) :
    (p.step h s).1.Under h c Q (p.step h s).2 := by
  cases p with
  | ret a => exact hp
  | call op k => exact (hp s (c.refl s) hs).2

/-- What a program that has returned promises holds now. -/
theorem Under.result {a : α} {s : σ} (hp : (Prog.ret a : Prog Resp α).Under h c Q s)
    (hs : c.inv s) : Q a s :=
  hp s (c.refl s) hs

/-- The frame rule: a property nobody undoes holds of the result too. -/
theorem Under.frame {P : Op → Prop} {J : σ → Prop} (hJ : c.Stable h P J) {p : Prog Resp α} {s : σ}
    (hp : p.Under h c Q s) (hcalls : p.CallsOnly P) (hs : J s) :
    p.Under h c (fun a s' => Q a s' ∧ J s') s := by
  induction p generalizing s with
  | ret a => exact fun s' hrel hinv => ⟨hp s' hrel hinv, hJ.others hs hrel⟩
  | call op k ih =>
    intro s' hrel hinv
    obtain ⟨hop, hk⟩ := hp s' hrel hinv
    exact ⟨hop, ih _ hk (hcalls.2 _) (hJ.own hcalls.1 hinv hop (hJ.others hs hrel))⟩

end Prog

/-! ## Programs that can fail -/

section Fallible

variable {ε : Type v} (h : Handler Resp σ) (c : Contract Op σ)

/-- A fallible program under a contract; `Q` is about what it returns, and a failure promises
nothing. -/
def UnderE (Q : α → σ → Prop) (p : ExceptT ε (Prog Resp) α) (s : σ) : Prop :=
  Prog.Under h c (fun r s' => ∀ a, r = .ok a → Q a s') (ExceptT.run p) s

variable {h c} {Q Q' : α → σ → Prop}

theorem UnderE.pure {a : α} {s : σ} (hQ : ∀ s', c.rely s s' → c.inv s' → Q a s') :
    UnderE h c Q (Pure.pure a : ExceptT ε (Prog Resp) α) s := by
  intro s' hs hinv b hb
  obtain rfl := Except.ok.inj hb
  exact hQ s' hs hinv

theorem UnderE.throw {e : ε} {s : σ} :
    UnderE h c Q (MonadExcept.throw e : ExceptT ε (Prog Resp) α) s := by
  intro s' _ _ b hb
  exact absurd hb (by simp)

theorem UnderE.bind {Q' : β → σ → Prop} {p : ExceptT ε (Prog Resp) α}
    {f : α → ExceptT ε (Prog Resp) β} {s : σ} (hp : UnderE h c Q p s)
    (hf : ∀ a s', c.inv s' → Q a s' → UnderE h c Q' (f a) s') : UnderE h c Q' (p >>= f) s := by
  refine Prog.Under.bind hp fun r s' hinv hr => ?_
  cases r with
  | ok a => exact hf a s' hinv (hr a rfl)
  | error e => exact UnderE.throw

/-- Sequential composition with a property nobody undoes. -/
theorem UnderE.bind_frame {P : Op → Prop} {J : σ → Prop} (hJ : c.Stable h P J)
    {Q' : β → σ → Prop} {p : ExceptT ε (Prog Resp) α} {f : α → ExceptT ε (Prog Resp) β} {s : σ}
    (hp : UnderE h c Q p s) (hcalls : CallsOnlyE P p) (hs : J s)
    (hf : ∀ a s', c.inv s' → Q a s' → J s' → UnderE h c Q' (f a) s') :
    UnderE h c Q' (p >>= f) s := by
  refine Prog.Under.bind (Prog.Under.frame hJ hp hcalls hs) fun r s' hinv hr => ?_
  cases r with
  | ok a => exact hf a s' hinv (hr.1 a rfl) hr.2
  | error e => exact UnderE.throw

end Fallible

section PerformE

variable {ε : Type u} {h : Handler Resp σ} {c : Contract Op σ}

/-- The rule for a call and what follows it. -/
theorem UnderE.performE_bind {γ : Type u} {Q : γ → σ → Prop} {op : Op}
    {f : Resp op → ExceptT ε (Prog Resp) γ} {s : σ}
    (hop : ∀ s', c.rely s s' → c.inv s' →
      c.permits op s' ∧ UnderE h c Q (f (h op s').1) (h op s').2) :
    UnderE h c Q (Resumption.performE op >>= f) s := hop

theorem UnderE.ofResult_bind {γ δ : Type u} {Q : δ → σ → Prop} {r : Except ε γ}
    {f : γ → ExceptT ε (Prog Resp) δ} {s : σ} (hf : ∀ a, r = .ok a → UnderE h c Q (f a) s) :
    UnderE h c Q (Resumption.ofResult r >>= f) s := by
  cases r with
  | ok a => exact hf a rfl
  | error e => exact UnderE.throw

end PerformE

/-! ## Pools -/

section Pool

variable {ι : Type v} (h : Handler Resp σ) (contracts : ι → Contract Op σ)
  (results : ι → α → σ → Prop)

/-- The invariant holds and every program is under its contract. -/
structure Pool.Sound (inv : σ → Prop) (c : Pool ι Resp α σ) : Prop where
  inv : inv c.shared
  under : ∀ i, (c.threads i).Under h (contracts i) (results i) c.shared

/-- The contracts fit together: they share their invariant, a permitted call keeps it and moves the
state along the program's own guarantee, and that is within what every other program relies on. -/
structure Compatible (inv : σ → Prop) (moves : ι → σ → σ → Prop) : Prop where
  inv_eq : ∀ i, (contracts i).inv = inv
  keeps : ∀ i op s, (contracts i).permits op s → inv s → inv (h op s).2 ∧ moves i s (h op s).2
  within : ∀ i j, j ≠ i → ∀ s s', moves j s s' → (contracts i).rely s s'

variable {h contracts results} [DecidableEq ι] {inv : σ → Prop} {moves : ι → σ → σ → Prop}

/-- What the next call of a program does: nothing where the program has returned. -/
theorem Pool.Sound.step_moves (hfit : Compatible h contracts inv moves) {c : Pool ι Resp α σ}
    (hc : c.Sound h contracts results inv) (i : ι) :
    inv (c.step h i).shared ∧
      ((c.step h i).shared = c.shared ∨ moves i c.shared (c.step h i).shared) := by
  have hunder := hc.under i
  rw [Pool.step]
  cases hp : c.threads i with
  | ret a => exact ⟨hc.inv, .inl rfl⟩
  | call op k =>
    rw [hp] at hunder
    -- the judgement holds now, before the others move
    have hinv : (contracts i).inv c.shared := (hfit.inv_eq i).symm ▸ hc.inv
    have hop := (hunder c.shared ((contracts i).refl _) hinv).1
    obtain ⟨hkeep, hmove⟩ := hfit.keeps i op c.shared hop hc.inv
    exact ⟨hkeep, .inr hmove⟩

theorem Pool.Sound.step (hfit : Compatible h contracts inv moves) {c : Pool ι Resp α σ}
    (hc : c.Sound h contracts results inv) (i : ι) :
    (c.step h i).Sound h contracts results inv := by
  obtain ⟨hinv, hmoved⟩ := hc.step_moves hfit i
  refine ⟨hinv, fun j => ?_⟩
  rcases eq_or_ne j i with rfl | hj
  · rw [Pool.step_threads_self]
    exact (hc.under j).step ((hfit.inv_eq j).symm ▸ hc.inv)
  · -- the other programs only see the move
    rw [Pool.step_threads_ne h c hj]
    refine (hc.under j).rely ?_
    rcases hmoved with heq | hmove
    · rw [heq]
      exact (contracts j).refl _
    · exact hfit.within j i hj.symm _ _ hmove

/-- Along any schedule the invariant holds and every program stays under its contract. -/
theorem Pool.Sound.exec (hfit : Compatible h contracts inv moves) {c : Pool ι Resp α σ}
    (hc : c.Sound h contracts results inv) (sched : List ι) :
    (c.exec h sched).Sound h contracts results inv :=
  Runs.run_invariant (fun _ i hc => hc.step hfit i) hc sched

/-- Along any schedule the state moves along every preorder that contains the programs' moves. -/
theorem Pool.Sound.exec_moves (hfit : Compatible h contracts inv moves) {E : σ → σ → Prop}
    (refl : ∀ s, E s s) (trans : ∀ {s t r}, E s t → E t r → E s r)
    (hE : ∀ i s s', moves i s s' → E s s') {c : Pool ι Resp α σ}
    (hc : c.Sound h contracts results inv) (sched : List ι) :
    E c.shared (c.exec h sched).shared := by
  induction sched generalizing c with
  | nil => exact refl _
  | cons i sched ih =>
    refine trans ?_ (ih (hc.step hfit i))
    rcases (hc.step_moves hfit i).2 with heq | hmove
    · rw [heq]
      exact refl _
    · exact hE i _ _ hmove

omit [DecidableEq ι] in
/-- What a program that has returned promises of the state. -/
theorem Pool.Sound.result (hfit : Compatible h contracts inv moves) {c : Pool ι Resp α σ}
    (hc : c.Sound h contracts results inv) {i : ι} {a : α} (hi : c.threads i = .ret a) :
    results i a c.shared := by
  have hunder := hc.under i
  rw [hi] at hunder
  exact hunder.result ((hfit.inv_eq i).symm ▸ hc.inv)

end Pool

/-! ## Programs that return -/

section Turns

/-- A program makes at most `n` calls, whatever they answer. -/
def Prog.Within : Prog Resp α → Nat → Prop
  | .ret _, _ => True
  | .call _ k, n => ∃ m, n = m + 1 ∧ ∀ r, (k r).Within m

theorem Prog.Within.mono {p : Prog Resp α} {m n : Nat} (hp : p.Within m) (hmn : m ≤ n) :
    p.Within n := by
  induction p generalizing m n with
  | ret a => trivial
  | call op k ih =>
    obtain ⟨m, rfl, hk⟩ := hp
    obtain ⟨n, rfl⟩ := Nat.exists_eq_add_of_lt hmn
    exact ⟨m + n, rfl, fun r => ih r (hk r) (Nat.le_add_right m n)⟩

theorem Prog.Within.step {p : Prog Resp α} {n : Nat} (hp : p.Within (n + 1)) (h : Handler Resp σ)
    (s : σ) : (p.step h s).1.Within n := by
  cases p with
  | ret a => trivial
  | call op k =>
    obtain ⟨m, hm, hk⟩ := hp
    obtain rfl := Nat.succ.inj hm
    exact hk _

theorem Prog.Within.bind {p : Prog Resp α} {f : α → Prog Resp β} {m n : Nat} (hp : p.Within m)
    (hf : ∀ a, (f a).Within n) : (p >>= f).Within (n + m) := by
  induction p generalizing m with
  | ret a =>
    exact (hf a).mono (Nat.le_add_right n m)
  | call op k ih =>
    obtain ⟨m, rfl, hk⟩ := hp
    exact ⟨n + m, rfl, fun r => ih r (hk r)⟩

variable {ι : Type v} [DecidableEq ι] (h : Handler Resp σ)

/-- A program has returned when it has had as many turns as it makes calls. -/
theorem Pool.exec_returns {c : Pool ι Resp α σ} {i : ι} {sched : List ι}
    (hi : (c.threads i).Within (sched.count i)) : ∃ a, (c.exec h sched).threads i = .ret a := by
  induction sched generalizing c with
  | nil =>
    cases hp : c.threads i with
    | ret a => exact ⟨a, hp⟩
    | call op k =>
      rw [hp] at hi
      obtain ⟨m, hm, -⟩ := hi
      exact absurd hm (by simp)
  | cons j sched ih =>
    refine ih ?_
    rcases eq_or_ne i j with rfl | hij
    · rw [Pool.step_threads_self]
      rw [List.count_cons_self] at hi
      exact hi.step h c.shared
    · rw [Pool.step_threads_ne h c hij]
      rwa [List.count_cons_of_ne hij.symm] at hi

end Turns

end Resumption
