import FleetCommand.Lib.InsertionMap

/-!
# Secondary indexes

A second map beside a store, from a key computed from each record to the id the record is stored
under. `Exact` says that the index holds the keys of the stored records and nothing else; it is kept
by storing a record under an id and a key both new, and by replacing a record by one of the same
key. An exact index is a function of the key, so no two stored records share one (`Exact.unique`).
-/

set_option autoImplicit false

universe u v w

namespace SecondaryIndex

variable {ι : Type u} {κ : Type v} {ν : Type w} [DecidableEq ι] [DecidableEq κ]

/-- The index maps exactly the keys of the stored records to their ids. -/
def Exact (key : ν → κ) (store : InsertionMap ι ν) (index : InsertionMap κ ι) : Prop :=
  ∀ k id, index.get? k = some id ↔ ∃ v, store.get? id = some v ∧ key v = k

namespace Exact

variable {key : ν → κ} {store : InsertionMap ι ν} {index : InsertionMap κ ι}

theorem empty : Exact key (.empty : InsertionMap ι ν) .empty := by
  intro k id
  simp

/-- A key that is not in the index is the key of no stored record. -/
theorem get?_eq_none_iff (h : Exact key store index) {k : κ} :
    index.get? k = none ↔ ∀ id v, store.get? id = some v → key v ≠ k := by
  rw [Option.eq_none_iff_forall_ne_some]
  constructor
  · intro hnone id v hv hkey
    exact hnone id ((h k id).2 ⟨v, hv, hkey⟩)
  · intro hnone id hid
    obtain ⟨v, hv, hkey⟩ := (h k id).1 hid
    exact hnone id v hv hkey

/-- No two stored records share a key. -/
theorem unique (h : Exact key store index) {id id' : ι} {v v' : ν} (hv : store.get? id = some v)
    (hv' : store.get? id' = some v') (hkey : key v = key v') : id = id' := by
  have hid : index.get? (key v) = some id := (h _ _).2 ⟨v, hv, rfl⟩
  have hid' : index.get? (key v) = some id' := (h _ _).2 ⟨v', hv', hkey.symm⟩
  exact Option.some.inj (hid.symm.trans hid')

/-- A record stored under a new id and a new key. -/
theorem insert (h : Exact key store index) {id : ι} {v : ν} (hid : store.get? id = none)
    (hkey : index.get? (key v) = none) :
    Exact key (store.set id v) (index.set (key v) id) := by
  intro k id'
  rw [InsertionMap.get?_set, InsertionMap.get?_set]
  have hother := h.get?_eq_none_iff.1 hkey
  rcases eq_or_ne k (key v) with rfl | hk
  · rw [if_pos rfl, Option.some.injEq]
    constructor
    · rintro rfl
      exact ⟨v, if_pos rfl, rfl⟩
    · rintro ⟨w, hw, hkw⟩
      split at hw
      next hid' => exact hid'.symm
      -- an old record does not have the new key
      next => exact absurd hkw (hother id' w hw)
  · rw [if_neg hk, h k id']
    rcases eq_or_ne id' id with rfl | hne
    · simp [hid, hk.symm]
    · simp [hne]

/-- A record replaced by one of the same key. -/
theorem replace (h : Exact key store index) {id : ι} {v v₀ : ν} (hv : store.get? id = some v₀)
    (hkey : key v = key v₀) : Exact key (store.set id v) (index.set (key v) id) := by
  intro k id'
  have hid : index.get? (key v) = some id := (h _ _).2 ⟨v₀, hv, hkey.symm⟩
  have hindex : (index.set (key v) id).get? k = index.get? k := by
    rw [InsertionMap.get?_set]
    split
    next hk => rw [hk, hid]
    next => rfl
  rw [hindex, h k id', InsertionMap.get?_set]
  rcases eq_or_ne id' id with rfl | hne
  · simp [hv, hkey]
  · simp [hne]

end Exact

/-- Each entry leads to a stored record of its key, and the key of each stored record has one. -/
structure Resolves (key : ν → κ) (store : InsertionMap ι ν) (index : InsertionMap κ ι) : Prop where
  leads : ∀ {k id}, index.get? k = some id → ∃ v, store.get? id = some v ∧ key v = k
  listed : ∀ {id v}, store.get? id = some v → (index.get? (key v)).isSome

namespace Resolves

variable {key : ν → κ} {store : InsertionMap ι ν} {index : InsertionMap κ ι}

theorem empty : Resolves key (.empty : InsertionMap ι ν) .empty :=
  ⟨fun h => absurd h (by simp), fun h => absurd h (by simp)⟩

/-- A record stored under an id that is new or whose record has the same key. -/
theorem set (h : Resolves key store index) {id : ι} {v : ν}
    (hid : ∀ v₀, store.get? id = some v₀ → key v₀ = key v) :
    Resolves key (store.set id v) (index.set (key v) id) where
  leads {k id'} hk := by
    rw [InsertionMap.get?_set] at hk
    split at hk
    next hkey =>
      obtain rfl := Option.some.inj hk
      exact ⟨v, store.get?_set_self id v, hkey.symm⟩
    next hkey =>
      obtain ⟨v', hv', hkey'⟩ := h.leads hk
      -- an entry of another key does not lead to the record replaced
      have hne : id' ≠ id := by
        rintro rfl
        exact hkey (hkey'.symm.trans (hid v' hv'))
      exact ⟨v', (store.get?_set_of_ne hne v).trans hv', hkey'⟩
  listed {id' v'} hv' := by
    rw [InsertionMap.get?_set]
    split
    · rfl
    next hkey =>
      rw [InsertionMap.get?_set] at hv'
      split at hv'
      next =>
        obtain rfl := Option.some.inj hv'
        exact absurd rfl hkey
      next => exact h.listed hv'

end Resolves

/-- An answer to a lookup by key: a stored record of the key, or that there is none. -/
def Answers (key : ν → κ) (store : InsertionMap ι ν) (k : κ) : Option ν → Prop
  | some v => (∃ id, store.get? id = some v) ∧ key v = k
  | none => ∀ id v, store.get? id = some v → key v ≠ k

/-- Following the index answers the lookup. -/
theorem Resolves.answers {key : ν → κ} {store : InsertionMap ι ν} {index : InsertionMap κ ι}
    (h : Resolves key store index) (k : κ) :
    Answers key store k ((index.get? k).bind store.get?) := by
  cases hk : index.get? k with
  | none =>
    rintro id v hv rfl
    exact absurd (h.listed hv) (by simp [hk])
  | some id =>
    obtain ⟨v, hv, hkey⟩ := h.leads hk
    simp only [Option.bind_some, hv]
    exact ⟨⟨id, hv⟩, hkey⟩

end SecondaryIndex
