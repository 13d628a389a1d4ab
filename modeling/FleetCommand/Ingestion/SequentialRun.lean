import FleetCommand.Ingestion.Service
import Mathlib.Order.Bounds.Basic

/-!
# Ingestion, one request after another

`run_ingest` gives the effect of one request in closed form, and `Ordered` is what every run keeps:
each vehicle's high-water mark is the greatest timestamp persisted for it, and each vehicle's
timestamps were persisted in nondecreasing order. The run specification `ingest_run_spec` follows.
-/

set_option autoImplicit false

namespace FleetCommand.Ingestion

open Resumption

variable {K : Type} [LT K] [DecidableLT K] [IntCast K]

/-- What an accepted request leaves behind. -/
def State.record (s : State K) (c : Call K) : State K where
  store := s.store.persist c.stored
  hwm := s.hwm.advance c.vehicleID c.ts
  publisher := s.publisher.publish c.event c.publishErr

/-- A request passes validation, is not stale and its `Persist` succeeds. -/
def Accepts (s : State K) (c : Call K) : Prop :=
  validate c.req = [] ∧ isStale c.ts (s.hwm.latest c.vehicleID) = false ∧ c.persistErr = none

instance (s : State K) (c : Call K) : Decidable (Accepts s c) :=
  inferInstanceAs (Decidable (_ ∧ _ ∧ _))

/-- What a request returns, given its vehicle's mark. -/
def verdict (c : Call K) (mark : Option Time) : Return :=
  if validate c.req ≠ [] then (⟨.invalid, "", validate c.req⟩, none)
  else if isStale c.ts mark then (⟨.stale, "", []⟩, none)
  else match c.persistErr with
    | some err => (Result.zero, some err)
    | none => (⟨.accepted, c.newID, []⟩, none)

/-- One request run alone. -/
theorem run_ingest (c : Call K) (s : State K) :
    (ingest c).run memory s =
      (verdict c (s.hwm.latest c.vehicleID), if Accepts s c then s.record c else s) := by
  unfold ingest verdict
  by_cases hv : validate c.req = []
  · cases hs : isStale c.ts (s.hwm.latest c.vehicleID) with
    | true => simp [hv, hs, perform, memory, Accepts]
    | false =>
      cases hp : c.persistErr with
      | some err => simp [hv, hs, hp, perform, memory, Accepts, persistAndPublish]
      | none =>
        simp [hv, hs, hp, perform, memory, Accepts, persistAndPublish, advanceAndPublish,
          publishAndAck, State.record, Call.stored]
  · simp [hv, Accepts]

theorem verdict_accepted_iff (s : State K) (c : Call K) :
    ((verdict c (s.hwm.latest c.vehicleID)).1.status = .accepted ∧
      (verdict c (s.hwm.latest c.vehicleID)).2 = none) ↔ Accepts s c := by
  unfold verdict Accepts
  by_cases hv : validate c.req = []
  · cases hs : isStale c.ts (s.hwm.latest c.vehicleID) with
    | true => simp [hv]
    | false => cases hp : c.persistErr <;> simp [hv]
  · simp [hv]

/-- The state after one request. -/
def serve (s : State K) (c : Call K) : State K := ((ingest c).run memory s).2

/-- The values a sequence of requests returns. -/
def returns : State K → List (Call K) → List Return
  | _, [] => []
  | s, c :: cs => ((ingest c).run memory s).1 :: returns (serve s c) cs

/-! ## The ordering invariant -/

/-- The greatest element of a list of timestamps; `none` for the empty list. -/
def latestOf : List Time → Option Time
  | [] => none
  | t :: ts => some ((latestOf ts).elim t fun m => max t m)

theorem latestOf_append_singleton (ts : List Time) (t : Time) :
    latestOf (ts ++ [t]) = some ((latestOf ts).elim t fun m => max m t) := by
  induction ts with
  | nil => rfl
  | cons x ts ih =>
    simp only [List.cons_append, latestOf, ih, Option.elim_some]
    cases latestOf ts <;> simp [max_assoc]

theorem latestOf_eq_some_iff (ts : List Time) (t : Time) :
    latestOf ts = some t ↔ IsGreatest {x | x ∈ ts} t := by
  induction ts generalizing t with
  | nil => simp [latestOf, IsGreatest]
  | cons x ts ih =>
    cases hm : latestOf ts with
    | none =>
      have hts : ts = [] := by cases ts with
        | nil => rfl
        | cons y ts => simp [latestOf] at hm
      subst hts
      simp only [latestOf, IsGreatest, mem_upperBounds, Option.elim_none, Option.some.injEq,
        List.mem_singleton, Set.mem_ofPred_eq, forall_eq]
      exact ⟨fun h => ⟨h.symm, h.le⟩, fun h => h.1.symm⟩
    | some m =>
      obtain ⟨hmem, hub⟩ := (ih m).1 hm
      -- the greatest of the rest against the first
      have hgreatest : IsGreatest {y | y ∈ x :: ts} (max x m) := by
        constructor
        · rcases max_choice x m with h | h
          · simp [h]
          · simpa [h] using Or.inr hmem
        · intro y hy
          rcases List.mem_cons.1 hy with rfl | hy
          · exact le_max_left _ _
          · exact le_max_of_le_right (hub hy)
      simp only [latestOf, hm, Option.elim_some, Option.some.injEq]
      exact ⟨fun h => h ▸ hgreatest, fun h => hgreatest.unique h⟩

theorem latestOf_eq_none_iff (ts : List Time) : latestOf ts = none ↔ ts = [] := by
  cases ts <;> simp [latestOf]

/-- Every mark is the latest persisted timestamp, and each vehicle's timestamps are in order. -/
structure Ordered (s : State K) : Prop where
  mark : ∀ v, s.hwm.latest v = latestOf (s.store.timestamps v)
  sorted : ∀ v, (s.store.timestamps v).Pairwise (· ≤ ·)

omit [LT K] [DecidableLT K] [IntCast K] in
theorem ordered_new : Ordered (State.new : State K) :=
  ⟨fun _ => rfl, fun _ => List.Pairwise.nil⟩

omit [DecidableLT K] [LT K] in
theorem Ordered.record {s : State K} (h : Ordered s) {c : Call K}
    (hc : isStale c.ts (s.hwm.latest c.vehicleID) = false) : Ordered (s.record c) := by
  -- the request is not before the mark, and the mark is the latest timestamp persisted
  have hle : ∀ t ∈ s.store.timestamps c.vehicleID, t ≤ c.ts := by
    intro t ht
    cases hm : s.hwm.latest c.vehicleID with
    | none =>
      rw [h.mark, latestOf_eq_none_iff] at hm
      rw [hm] at ht
      exact absurd ht List.not_mem_nil
    | some m =>
      have hmt : m ≤ c.ts := by simpa [isStale, hm] using hc
      rw [h.mark, latestOf_eq_some_iff] at hm
      exact (hm.2 ht).trans hmt
  constructor
  · intro v
    by_cases hv : v = c.vehicleID
    · subst hv
      simp [State.record, MemoryHighWaterMark.latest_advance, latestOf_append_singleton, h.mark]
    · simp [State.record, MemoryHighWaterMark.latest_advance, hv, Ne.symm hv, h.mark]
  · intro v
    by_cases hv : c.vehicleID = v
    · subst hv
      simp only [State.record, MemoryStore.timestamps_persist, Call.stored_vehicleID, if_true,
        Call.stored_timestamp]
      exact List.pairwise_append.2 ⟨h.sorted _, List.pairwise_singleton _ _,
        fun x hx y hy => (List.mem_singleton.1 hy) ▸ hle x hx⟩
    · simpa [State.record, hv] using h.sorted v

theorem Ordered.serve {s : State K} (h : Ordered s) (c : Call K) : Ordered (serve s c) := by
  rw [Ingestion.serve, run_ingest]
  split
  next hc => exact h.record hc.2.1
  next => exact h

/-! ## Publishing does not feed back -/

/-- Two requests that differ at most in what `Publish` does. -/
def SameButPublish (c c' : Call K) : Prop := c' = { c with publishErr := c'.publishErr }

/-- Two states that agree except in what was published. -/
def SameStores (s s' : State K) : Prop := s.store = s'.store ∧ s.hwm = s'.hwm

theorem run_ingest_sameButPublish {c c' : Call K} (hc : SameButPublish c c') {s s' : State K}
    (hs : SameStores s s') :
    ((ingest c').run memory s').1 = ((ingest c).run memory s).1 ∧
      SameStores (serve s c) (serve s' c') := by
  obtain ⟨hstore, hhwm⟩ := hs
  -- acceptance looks at the mark and at `Persist`, never at `Publish`
  have hacc : Accepts s' c' ↔ Accepts s c := by
    rw [hc]
    simp [Accepts, Call.ts, Call.vehicleID, hhwm]
  constructor
  · rw [run_ingest, run_ingest, hc, ← hhwm]
    rfl
  · unfold serve
    rw [run_ingest, run_ingest]
    by_cases h : Accepts s c
    · rw [if_pos h, if_pos (hacc.2 h), hc, State.record, State.record, hstore, hhwm]
      exact ⟨rfl, rfl⟩
    · rw [if_neg h, if_neg (mt hacc.1 h)]
      exact ⟨hstore, hhwm⟩

theorem run_sameButPublish {cs cs' : List (Call K)} (hcs : List.Forall₂ SameButPublish cs cs') :
    ∀ {s s' : State K}, SameStores s s' →
      returns s' cs' = returns s cs ∧ SameStores (Runs.run serve s cs) (Runs.run serve s' cs') := by
  induction hcs with
  | nil => exact fun hs => ⟨rfl, hs⟩
  | cons hc _ ih =>
    intro s s' hs
    obtain ⟨hret, hnext⟩ := run_ingest_sameButPublish hc hs
    obtain ⟨hrest, hlast⟩ := ih hnext
    exact ⟨by rw [returns, returns, hret, hrest], hlast⟩

/-! ## The run specification -/

/-- After any sequence of requests on fresh stores: the high-water mark of a vehicle is absent
exactly when nothing was persisted for it and otherwise is its greatest persisted timestamp; the
timestamps of each vehicle were persisted in nondecreasing order; the next request is accepted
exactly when it is valid, not before its vehicle's mark and its `Persist` succeeds; an accepted
request is stored, raises its vehicle's mark and is published; a request that is invalid, stale or
fails to persist changes nothing; and what `Publish` does changes neither the returned values nor
the stores. -/
theorem ingest_run_spec (calls : List (Call K)) :
    let s := Runs.run serve State.new calls
    (∀ v, (s.hwm.latest v = none ↔ ∀ p ∈ s.store.persisted, p.vehicleID ≠ v) ∧
      ∀ t, s.hwm.latest v = some t ↔
        IsGreatest {x | ∃ p ∈ s.store.persisted, p.vehicleID = v ∧ p.timestamp = x} t) ∧
    (∀ v, ((s.store.persisted.filter fun p => p.vehicleID = v).map StoredPing.timestamp).Pairwise
      (· ≤ ·)) ∧
    (∀ c, (((ingest c).run memory s).1.1.status = .accepted ∧ ((ingest c).run memory s).1.2 = none) ↔
      validate c.req = [] ∧ (∀ m, s.hwm.latest c.vehicleID = some m → m ≤ c.ts) ∧
        c.persistErr = none) ∧
    (∀ c, ((ingest c).run memory s).1.1.status = .accepted → ((ingest c).run memory s).1.2 = none →
      ((ingest c).run memory s).2.store.persisted = s.store.persisted ++ [c.stored] ∧
        ((ingest c).run memory s).2 = s.record c) ∧
    (∀ c, (((ingest c).run memory s).1.1.status = .invalid ∨
        ((ingest c).run memory s).1.1.status = .stale ∨ ((ingest c).run memory s).1.2 ≠ none) →
      ((ingest c).run memory s).2 = s) ∧
    (∀ calls', List.Forall₂ SameButPublish calls calls' →
      returns State.new calls' = returns State.new calls ∧
      (Runs.run serve State.new calls').store = s.store ∧
      (Runs.run serve State.new calls').hwm = s.hwm) := by
  intro s
  -- every part but the last is read off the invariant of the state reached
  have hord : Ordered s := Runs.run_invariant (fun _ c h => h.serve c) ordered_new calls
  refine ⟨fun v => ⟨?_, fun t => ?_⟩, hord.sorted, fun c => ?_, fun c hst herr => ?_,
    fun c hc => ?_, fun calls' h => ?_⟩
  · rw [hord.mark, latestOf_eq_none_iff, MemoryStore.timestamps, List.map_eq_nil_iff,
      List.filter_eq_nil_iff]
    simp
  · rw [hord.mark, latestOf_eq_some_iff]
    simp only [MemoryStore.timestamps, List.mem_map, List.mem_filter, decide_eq_true_eq, and_assoc]
  · have hstale : isStale c.ts (s.hwm.latest c.vehicleID) = false ↔
        ∀ m, s.hwm.latest c.vehicleID = some m → m ≤ c.ts := by
      cases s.hwm.latest c.vehicleID <;> simp [isStale]
    rw [← hstale, run_ingest]
    exact verdict_accepted_iff s c
  · rw [run_ingest] at hst herr ⊢
    have haccepts : Accepts s c := (verdict_accepted_iff s c).1 ⟨hst, herr⟩
    rw [if_pos haccepts]
    exact ⟨rfl, rfl⟩
  · rw [run_ingest] at hc ⊢
    -- only an accepted request records anything, and its return is none of the three
    refine if_neg fun hacc => ?_
    obtain ⟨hst, herr⟩ := (verdict_accepted_iff s c).2 hacc
    simp [hst, herr] at hc
  · obtain ⟨hret, hstore, hhwm⟩ := run_sameButPublish h (s := State.new) ⟨rfl, rfl⟩
    exact ⟨hret, hstore.symm, hhwm.symm⟩

end FleetCommand.Ingestion
