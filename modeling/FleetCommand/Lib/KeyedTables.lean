import FleetCommand.Lib.InsertionMap

/-!
# Tables with keys

A store of records under keys as a table of a database: its row checks (`Rows`), its references to
the keys of other tables (`References`), and how it may change (`Evolves`): no row disappears, a row
changes along a given relation only, and a row that is added has a key of a given set. Evolution is
a preorder, so what two moments of a table have in common follows from its single writes, and a
reference into a table that evolves stays one.
-/

set_option autoImplicit false

namespace KeyedTable

universe u v w

variable {κ : Type u} {ν : Type v} [DecidableEq κ]

/-! ## Row checks -/

/-- Every row meets `P` of its key. -/
def Rows (P : κ → ν → Prop) (m : InsertionMap κ ν) : Prop := ∀ k v, m.get? k = some v → P k v

namespace Rows

variable {P : κ → ν → Prop} {m : InsertionMap κ ν}

theorem empty : Rows P (.empty : InsertionMap κ ν) := by
  intro k v hv
  exact absurd hv (by simp)

theorem set (h : Rows P m) {k : κ} {v : ν} (hv : P k v) : Rows P (m.set k v) := by
  intro k' v' hv'
  rw [InsertionMap.get?_set] at hv'
  split at hv'
  next hk =>
    obtain rfl := Option.some.inj hv'
    exact hk ▸ hv
  next => exact h k' v' hv'

/-- Rows under keys of their own differ in them. -/
theorem nodup_values {f : ν → κ} (h : Rows (fun k v => f v = k) m) : (m.values.map f).Nodup := by
  have hkeys : m.values.map f = m.entries.map Prod.fst := by
    rw [InsertionMap.values, List.map_map]
    exact List.map_congr_left fun e he => h e.1 e.2 (m.get?_eq_some_iff.2 he)
  exact hkeys ▸ m.nodup

end Rows

/-! ## Change -/

/-- The two rows agree in what `f` reads. -/
def SameBy {β : Type w} (f : ν → β) (v v' : ν) : Prop := f v = f v'

theorem SameBy.refl {β : Type w} (f : ν → β) (v : ν) : SameBy f v v := rfl

theorem SameBy.symm {β : Type w} {f : ν → β} {v v' : ν} (h : SameBy f v v') : SameBy f v' v :=
  Eq.symm h

theorem SameBy.trans {β : Type w} {f : ν → β} {a b c : ν} (h : SameBy f a b) (h' : SameBy f b c) :
    SameBy f a c :=
  Eq.trans h h'

/-- The row of a key is one `v` may have become. -/
def Holds (rel : ν → ν → Prop) (m : InsertionMap κ ν) (k : κ) (v : ν) : Prop :=
  ∃ v', m.get? k = some v' ∧ rel v v'

/-- Every row of `m` stays in `m'`, changed along `rel` only, and the keys added meet `new`. -/
structure Evolves (rel : ν → ν → Prop) (new : κ → Prop) (m m' : InsertionMap κ ν) : Prop where
  kept : ∀ {k v}, m.get? k = some v → Holds rel m' k v
  added : ∀ {k v}, m'.get? k = some v → m.get? k = none → new k

namespace Evolves

variable {rel : ν → ν → Prop} {new new' : κ → Prop} {m m' m'' : InsertionMap κ ν}

theorem refl (hrel : ∀ v, rel v v) (m : InsertionMap κ ν) : Evolves rel new m m where
  kept {_ v} hv := ⟨v, hv, hrel v⟩
  added hv hnone := absurd (hv.symm.trans hnone) (by simp)

theorem trans (hrel : ∀ {a b c}, rel a b → rel b c → rel a c) (h : Evolves rel new m m')
    (h' : Evolves rel new m' m'') : Evolves rel new m m'' where
  kept hv := by
    obtain ⟨v', hv', hrel'⟩ := h.kept hv
    obtain ⟨v'', hv'', hrel''⟩ := h'.kept hv'
    exact ⟨v'', hv'', hrel hrel' hrel''⟩
  added {k v} hv hnone := by
    cases hk : m'.get? k with
    | none => exact h'.added hv hk
    | some v' => exact h.added hk hnone

theorem mono (h : Evolves rel new m m') (hnew : ∀ k, new k → new' k) : Evolves rel new' m m' where
  kept := h.kept
  added hv hnone := hnew _ (h.added hv hnone)

/-- A key that no added row can have stays unused. -/
theorem unused (h : Evolves rel new m m') {k : κ} (hk : m.get? k = none) (hnew : ¬ new k) :
    m'.get? k = none := by
  rw [Option.eq_none_iff_forall_ne_some]
  intro v hv
  exact hnew (h.added hv hk)

theorem isSome (h : Evolves rel new m m') {k : κ} (hk : (m.get? k).isSome) :
    (m'.get? k).isSome := by
  obtain ⟨v, hv⟩ := Option.isSome_iff_exists.1 hk
  obtain ⟨v', hv', -⟩ := h.kept hv
  exact Option.isSome_iff_exists.2 ⟨v', hv'⟩

/-- A row added under an unused key. -/
theorem insert (hrel : ∀ v, rel v v) {k : κ} (v : ν) (hk : m.get? k = none) (hnew : new k) :
    Evolves rel new m (m.set k v) where
  kept {k' v'} hv' := by
    have hne : k' ≠ k := by
      rintro rfl
      exact absurd (hv'.symm.trans hk) (by simp)
    exact ⟨v', (m.get?_set_of_ne hne v).trans hv', hrel v'⟩
  added {k' v'} hv' hnone := by
    rw [InsertionMap.get?_set] at hv'
    split at hv'
    next heq => exact heq ▸ hnew
    next => exact absurd (hv'.symm.trans hnone) (by simp)

/-- A row replaced by one it may become. -/
theorem replace (hrel : ∀ v, rel v v) {k : κ} {v₀ v : ν} (hk : m.get? k = some v₀)
    (hv : rel v₀ v) : Evolves rel new m (m.set k v) where
  kept {k' v'} hv' := by
    rcases eq_or_ne k' k with rfl | hne
    · obtain rfl := Option.some.inj (hk.symm.trans hv')
      exact ⟨v, m.get?_set_self k' v, hv⟩
    · exact ⟨v', (m.get?_set_of_ne hne v).trans hv', hrel v'⟩
  added {k' v'} hv' hnone := by
    rw [InsertionMap.get?_set] at hv'
    split at hv'
    next heq => exact absurd (hk.symm.trans (heq ▸ hnone)) (by simp)
    next => exact absurd (hv'.symm.trans hnone) (by simp)

end Evolves

theorem Holds.evolves {rel : ν → ν → Prop} {new : κ → Prop} {m m' : InsertionMap κ ν}
    (hrel : ∀ {a b c}, rel a b → rel b c → rel a c) {k : κ} {v : ν} (h : Holds rel m k v)
    (hm : Evolves rel new m m') : Holds rel m' k v := by
  obtain ⟨v', hv', hrel'⟩ := h
  obtain ⟨v'', hv'', hrel''⟩ := hm.kept hv'
  exact ⟨v'', hv'', hrel hrel' hrel''⟩

theorem Holds.isSome {rel : ν → ν → Prop} {m : InsertionMap κ ν} {k : κ} {v : ν}
    (h : Holds rel m k v) : (m.get? k).isSome := by
  obtain ⟨v', hv', -⟩ := h
  exact Option.isSome_iff_exists.2 ⟨v', hv'⟩

/-! ## References -/

variable {κ' : Type w} {ν' : Type v} [DecidableEq κ']

/-- Every key a row of `m` refers to is in use in `m'`. -/
def References (refers : ν → κ' → Prop) (m : InsertionMap κ ν) (m' : InsertionMap κ' ν') : Prop :=
  Rows (fun _ v => ∀ k', refers v k' → (m'.get? k').isSome) m

namespace References

variable {refers : ν → κ' → Prop} {m : InsertionMap κ ν} {m' m'' : InsertionMap κ' ν'}

theorem empty : References refers (.empty : InsertionMap κ ν) m' := Rows.empty

theorem set (h : References refers m m') (k : κ) {v : ν}
    (hv : ∀ k', refers v k' → (m'.get? k').isSome) : References refers (m.set k v) m' :=
  Rows.set h hv

theorem evolves {rel : ν' → ν' → Prop} {new : κ' → Prop} (h : References refers m m')
    (hm : Evolves rel new m' m'') : References refers m m'' :=
  fun k v hv k' hk' => hm.isSome (h k v hv k' hk')

end References

end KeyedTable
