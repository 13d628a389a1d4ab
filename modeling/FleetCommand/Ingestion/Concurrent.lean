import FleetCommand.Ingestion.SequentialRun
import Mathlib.Data.Rat.Defs
import Mathlib.Algebra.Order.Ring.Rat

/-!
# Ingestion, requests in parallel

The HTTP handler runs one `ingest` for each request, and nothing is held across the calls an
`ingest` makes, so requests interleave at those calls. `Phase` names the control points of `ingest`.

Two facts hold of every interleaving (`Raced`): every mark is a persisted timestamp, and every
persisted timestamp is covered by the mark or by a request that has persisted it and not yet
advanced. The marks therefore survive races (`highWaterMark_race`). The persist order does not: the
staleness test and the persist are separate steps, and pings are persisted in order exactly when no
persist finds a later mark or a later ping still to be advanced (`persist_order_iff`).
-/

set_option autoImplicit false

namespace FleetCommand.Ingestion

open Resumption

variable {K : Type} [LT K] [DecidableLT K] [IntCast K]

/-- A control point of `ingest`: before the read of the mark, after the staleness test, after the
persist, after the advance, and returned. -/
inductive Phase where
  | start
  | checked
  | persisted
  | advanced
  | done (r : Return)

/-- What `ingest` still has to do at a control point. -/
def Phase.code (c : Call K) : Phase → StoreProg K Return
  | .start => ingest c
  | .checked => persistAndPublish c
  | .persisted => advanceAndPublish c
  | .advanced => publishAndAck c
  | .done r => .ret r

/-- The next control point, and the state after the interface call made on the way. -/
def Phase.next (c : Call K) : Phase → State K → Phase × State K
  | .start, s =>
    if validate c.req ≠ [] then (.done (⟨.invalid, "", validate c.req⟩, none), s)
    else if isStale c.ts (s.hwm.latest c.vehicleID) then (.done (⟨.stale, "", []⟩, none), s)
    else (.checked, s)
  | .checked, s => match c.persistErr with
    | some err => (.done (Result.zero, some err), s)
    | none => (.persisted, { s with store := s.store.persist c.stored })
  | .persisted, s => (.advanced, { s with hwm := s.hwm.advance c.vehicleID c.ts })
  | .advanced, s => (.done (⟨.accepted, c.newID, []⟩, none),
      { s with publisher := s.publisher.publish c.event c.publishErr })
  | .done r, s => (.done r, s)

theorem Phase.code_next (c : Call K) (l : Phase) (s : State K) :
    (l.code c).step memory s = ((l.next c s).1.code c, (l.next c s).2) := by
  cases l with
  | start =>
    simp only [Phase.code, Phase.next, ingest]
    by_cases hv : validate c.req = []
    · cases hs : isStale c.ts (s.hwm.latest c.vehicleID) <;>
        simp [hv, hs, perform, Prog.step, memory, Prog.pure_eq]
    · simp [hv, Prog.step, Prog.pure_eq]
  | checked =>
    simp only [Phase.code, Phase.next, persistAndPublish]
    cases hp : c.persistErr <;>
      simp [perform, Prog.step, memory, Prog.pure_eq]
  | persisted => rfl
  | advanced => rfl
  | done r => rfl

/-- The store call a request at a control point makes next. -/
theorem Phase.next?_code (l : Phase) (c : Call K) :
    (l.code c).next? =
      match l with
      | .start => if validate c.req = [] then some (.latest c.vehicleID) else none
      | .checked => some (.persist c.stored c.persistErr)
      | .persisted => some (.advance c.vehicleID c.ts)
      | .advanced => some (.publish c.event c.publishErr)
      | .done _ => none := by
  cases l with
  | start =>
    by_cases hv : validate c.req = [] <;>
      simp [Phase.code, ingest, hv, perform, Prog.next?, Prog.pure_eq]
  | checked => simp [Phase.code, persistAndPublish, perform, Prog.next?]
  | persisted => simp [Phase.code, advanceAndPublish, perform, Prog.next?]
  | advanced => simp [Phase.code, publishAndAck, perform, Prog.next?]
  | done r => simp [Phase.code, Prog.next?]

section Race

/-- A control point for each request, over the shared stores. -/
abbrev RaceConfig (K ι : Type) := Config ι Phase (State K)

variable {ι : Type} [DecidableEq ι] (calls : ι → Call K)

/-- The requests of one service by control points. -/
def ingestFlow : Flow (memory (K := K)) ι Phase Return where
  code i l := l.code (calls i)
  next i l s := l.next (calls i) s
  code_next i l s := l.code_next (calls i) s

/-- Every request at its start, on fresh stores. -/
def startCalls : Pool ι (StoreOp.Resp (K := K)) Return (State K) :=
  ⟨fun i => ingest (calls i), State.new⟩

/-- Request `i` has persisted its ping and has not advanced the mark. -/
def Advancing (c : Pool ι (StoreOp.Resp (K := K)) Return (State K)) (i : ι) : Prop :=
  (c.threads i).next? = some (.advance (calls i).vehicleID (calls i).ts)

/-- Request `i` is about to persist its ping successfully. -/
def Persisting (c : Pool ι (StoreOp.Resp (K := K)) Return (State K)) (i : ι) : Prop :=
  (c.threads i).next? = some (.persist (calls i).stored none)

omit [DecidableEq ι] in
theorem advancing_iff (c : RaceConfig K ι) (i : ι) :
    Advancing calls ((ingestFlow calls).toPool c) i ↔ c.locs i = .persisted := by
  show ((c.locs i).code (calls i)).next? = _ ↔ _
  rw [Phase.next?_code]
  cases c.locs i <;> simp

omit [DecidableEq ι] in
theorem persisting_iff (c : RaceConfig K ι) (i : ι) :
    Persisting calls ((ingestFlow calls).toPool c) i ↔
      c.locs i = .checked ∧ (calls i).persistErr = none := by
  show ((c.locs i).code (calls i)).next? = _ ↔ _
  rw [Phase.next?_code]
  cases c.locs i <;> simp

/-- What one step of the interleaving does to the control points, the store and the marks. -/
inductive StepKind (c c' : RaceConfig K ι) (i : ι) : Prop where
  | quiet (hold : c.locs i ≠ .persisted) (hpers : ¬ Persisting calls ((ingestFlow calls).toPool c) i)
      (hnew : c'.locs i ≠ .persisted) (hstore : c'.shared.store = c.shared.store)
      (hhwm : c'.shared.hwm = c.shared.hwm)
  | persist (hpers : Persisting calls ((ingestFlow calls).toPool c) i) (hold : c.locs i ≠ .persisted)
      (hnew : c'.locs i = .persisted)
      (hstore : c'.shared.store = c.shared.store.persist (calls i).stored)
      (hhwm : c'.shared.hwm = c.shared.hwm)
  | advance (hold : c.locs i = .persisted) (hpers : ¬ Persisting calls ((ingestFlow calls).toPool c) i)
      (hnew : c'.locs i ≠ .persisted) (hstore : c'.shared.store = c.shared.store)
      (hhwm : c'.shared.hwm = c.shared.hwm.advance (calls i).vehicleID (calls i).ts)

theorem step_kind (c : RaceConfig K ι) (i : ι) :
    StepKind calls c ((ingestFlow calls).step c i) i := by
  have hloc : ((ingestFlow calls).step c i).locs i = ((c.locs i).next (calls i) c.shared).1 :=
    Flow.step_locs_self ..
  have hsh : ((ingestFlow calls).step c i).shared = ((c.locs i).next (calls i) c.shared).2 := rfl
  have hpi := persisting_iff calls c i
  cases hl : c.locs i with
  | start =>
    simp only [hl, Phase.next] at hloc hsh hpi
    -- validation and the staleness test touch no store, however they end
    refine .quiet (by simp [hl]) (by simp [hpi]) ?_ ?_ ?_
    all_goals first | rw [hloc] | rw [hsh]
    all_goals
      split
      · simp
      · split <;> simp
  | checked =>
    simp only [hl, Phase.next, true_and] at hloc hsh hpi
    cases hp : (calls i).persistErr with
    | some err =>
      simp only [hp, reduceCtorEq, iff_false] at hloc hsh hpi
      exact .quiet (by simp [hl]) hpi (by simp [hloc]) (by rw [hsh]) (by rw [hsh])
    | none =>
      simp only [hp, iff_true] at hloc hsh hpi
      exact .persist hpi (by simp [hl]) hloc (by rw [hsh]) (by rw [hsh])
  | persisted =>
    simp only [hl, Phase.next, reduceCtorEq, false_and, iff_false] at hloc hsh hpi
    exact .advance hl hpi (by simp [hloc]) (by rw [hsh]) (by rw [hsh])
  | advanced =>
    simp only [hl, Phase.next, reduceCtorEq, false_and, iff_false] at hloc hsh hpi
    exact .quiet (by simp [hl]) hpi (by simp [hloc]) (by rw [hsh]) (by rw [hsh])
  | done r =>
    simp only [hl, Phase.next, reduceCtorEq, false_and, iff_false] at hloc hsh hpi
    exact .quiet (by simp [hl]) hpi (by simp [hloc]) (by rw [hsh]) (by rw [hsh])

/-! ## What every interleaving keeps -/

/-- The timestamp `t` of vehicle `v` is not later than the mark, or a request that has persisted a
timestamp not earlier than `t` is about to advance the mark. -/
def Covered (c : RaceConfig K ι) (v : String) (t : Time) : Prop :=
  (∃ m, c.shared.hwm.latest v = some m ∧ t ≤ m) ∨
    ∃ i, c.locs i = .persisted ∧ (calls i).vehicleID = v ∧ t ≤ (calls i).ts

/-- The invariant of every interleaving. -/
structure Raced (c : RaceConfig K ι) : Prop where
  mark_persisted : ∀ v m, c.shared.hwm.latest v = some m → m ∈ c.shared.store.timestamps v
  pending_persisted : ∀ i, c.locs i = .persisted →
    (calls i).ts ∈ c.shared.store.timestamps (calls i).vehicleID
  covered : ∀ v, ∀ t ∈ c.shared.store.timestamps v, Covered calls c v t

omit [LT K] [DecidableLT K] [IntCast K] [DecidableEq ι] in
theorem raced_start : Raced calls ⟨fun _ => Phase.start, State.new⟩ where
  mark_persisted v m h := by simp [State.new] at h
  pending_persisted i h := by simp at h
  covered v t h := by simp [State.new] at h

variable {calls}

omit [LT K] [DecidableLT K] [IntCast K] [DecidableEq ι] in
/-- A step that persists nothing new and advances no mark keeps what is covered. -/
theorem Covered.of_quiet {c c' : RaceConfig K ι} {v : String} {t : Time}
    (hhwm : c'.shared.hwm = c.shared.hwm)
    (hlocs : ∀ j, c.locs j = .persisted → c'.locs j = .persisted) (h : Covered calls c v t) :
    Covered calls c' v t := by
  rcases h with ⟨m, hm, hle⟩ | ⟨j, hj, hv, hle⟩
  · exact Or.inl ⟨m, by rw [hhwm, hm], hle⟩
  · exact Or.inr ⟨j, hlocs j hj, hv, hle⟩

omit [LT K] [DecidableLT K] [IntCast K] in
/-- An advance covers by the mark what the advancing request covered. -/
theorem Covered.of_advance {c c' : RaceConfig K ι} {i : ι} {v : String} {t : Time}
    (hhwm : c'.shared.hwm = c.shared.hwm.advance (calls i).vehicleID (calls i).ts)
    (hlocs : ∀ j, j ≠ i → c'.locs j = c.locs j) (h : Covered calls c v t) :
    Covered calls c' v t := by
  rcases h with ⟨m, hm, hle⟩ | ⟨j, hj, hv, hle⟩
  · left
    rw [hhwm, MemoryHighWaterMark.latest_advance]
    by_cases hv : v = (calls i).vehicleID
    · subst hv
      exact ⟨max m (calls i).ts, by simp [hm], le_max_of_le_left hle⟩
    · exact ⟨m, by simp [hv, hm], hle⟩
  · by_cases hji : j = i
    -- request `i` itself: what it covered is now below the mark
    · subst hji
      subst hv
      left
      rw [hhwm, MemoryHighWaterMark.latest_advance, if_pos rfl]
      cases c.shared.hwm.latest (calls j).vehicleID with
      | none => exact ⟨_, rfl, hle⟩
      | some m => exact ⟨_, rfl, le_max_of_le_right hle⟩
    · exact Or.inr ⟨j, by rw [hlocs j hji, hj], hv, hle⟩

section Steps

variable {c c' : RaceConfig K ι} {i : ι}

omit [LT K] [DecidableLT K] [IntCast K] in
/-- The same requests are between their persist and their advance as before. -/
theorem Raced.quiet (h : Raced calls c) (hne : ∀ j, j ≠ i → c'.locs j = c.locs j)
    (hold : c.locs i ≠ .persisted) (hnew : c'.locs i ≠ .persisted)
    (hstore : c'.shared.store = c.shared.store) (hhwm : c'.shared.hwm = c.shared.hwm) :
    Raced calls c' := by
  have hsame : ∀ j, c'.locs j = .persisted ↔ c.locs j = .persisted := by
    intro j
    by_cases hj : j = i
    · subst hj
      exact iff_of_false hnew hold
    · rw [hne j hj]
  refine ⟨fun v m hm => ?_, fun j hj => ?_, fun v t ht => ?_⟩
  · rw [hstore]
    exact h.mark_persisted v m (by rw [← hhwm, hm])
  · rw [hstore]
    exact h.pending_persisted j ((hsame j).1 hj)
  · rw [hstore] at ht
    exact (h.covered v t ht).of_quiet hhwm fun j hj => (hsame j).2 hj

omit [LT K] [DecidableLT K] in
/-- Every timestamp persisted so far stays; the new one is covered by request `i` itself. -/
theorem Raced.persist (h : Raced calls c) (hne : ∀ j, j ≠ i → c'.locs j = c.locs j)
    (hnew : c'.locs i = .persisted)
    (hstore : c'.shared.store = c.shared.store.persist (calls i).stored)
    (hhwm : c'.shared.hwm = c.shared.hwm) : Raced calls c' := by
  have hkeep : ∀ v, ∀ t ∈ c.shared.store.timestamps v, t ∈ c'.shared.store.timestamps v := by
    intro v t ht
    rw [hstore, MemoryStore.timestamps_persist]
    split
    · exact List.mem_append_left _ ht
    · exact ht
  -- no request leaves the gap between its persist and its advance
  have hlocs : ∀ j, c.locs j = .persisted → c'.locs j = .persisted := by
    intro j hj
    by_cases hji : j = i
    · subst hji
      exact hnew
    · rw [hne j hji, hj]
  refine ⟨fun v m hm => ?_, fun j hj => ?_, fun v t ht => ?_⟩
  · exact hkeep v m (h.mark_persisted v m (by rw [← hhwm, hm]))
  · by_cases hji : j = i
    · subst hji
      simp [hstore]
    · exact hkeep _ _ (h.pending_persisted j (by rw [← hne j hji, hj]))
  · by_cases hold : t ∈ c.shared.store.timestamps v
    · exact (h.covered v t hold).of_quiet hhwm hlocs
    · rw [hstore, MemoryStore.timestamps_persist] at ht
      split at ht
      next hv =>
        rcases List.mem_append.1 ht with ht | ht
        · exact absurd ht hold
        · rw [List.mem_singleton] at ht
          exact Or.inr ⟨i, hnew, hv, ht.le⟩
      next => exact absurd ht hold

omit [LT K] [DecidableLT K] [IntCast K] in
/-- The new mark is the old one or what request `i` persisted. -/
theorem Raced.advance (h : Raced calls c) (hne : ∀ j, j ≠ i → c'.locs j = c.locs j)
    (hold : c.locs i = .persisted) (hnew : c'.locs i ≠ .persisted)
    (hstore : c'.shared.store = c.shared.store)
    (hhwm : c'.shared.hwm = c.shared.hwm.advance (calls i).vehicleID (calls i).ts) :
    Raced calls c' := by
  refine ⟨fun v m hm => ?_, fun j hj => ?_, fun v t ht => ?_⟩
  · rw [hstore]
    rw [hhwm, MemoryHighWaterMark.latest_advance] at hm
    split at hm
    next hv =>
      subst hv
      cases hc : c.shared.hwm.latest (calls i).vehicleID with
      | none =>
        -- no mark yet: the new mark is what `i` persisted
        simp only [hc, Option.elim_none, Option.some.injEq] at hm
        exact hm ▸ h.pending_persisted i hold
      | some cur =>
        simp only [hc, Option.elim_some, Option.some.injEq] at hm
        rcases max_choice cur (calls i).ts with hmax | hmax
        · exact hm ▸ hmax.symm ▸ h.mark_persisted _ cur hc
        · exact hm ▸ hmax.symm ▸ h.pending_persisted i hold
    next => exact h.mark_persisted v m hm
  · rw [hstore]
    by_cases hji : j = i
    · exact absurd (hji ▸ hj) hnew
    · exact h.pending_persisted j (by rw [← hne j hji, hj])
  · rw [hstore] at ht
    exact (h.covered v t ht).of_advance hhwm hne

end Steps

theorem Raced.step {c : RaceConfig K ι} (h : Raced calls c) (i : ι) :
    Raced calls ((ingestFlow calls).step c i) := by
  have hne : ∀ j, j ≠ i → ((ingestFlow calls).step c i).locs j = c.locs j :=
    fun j hj => (ingestFlow calls).step_locs_ne c hj
  cases step_kind calls c i with
  | quiet hold _ hnew hstore hhwm => exact h.quiet hne hold hnew hstore hhwm
  | persist _ _ hnew hstore hhwm => exact h.persist hne hnew hstore hhwm
  | advance hold _ hnew hstore hhwm => exact h.advance hne hold hnew hstore hhwm

variable (calls)

/-- The control points after a schedule, from every request at its start. -/
def raceAfter (sched : List ι) : RaceConfig K ι :=
  Runs.run (ingestFlow calls).step ⟨fun _ => Phase.start, State.new⟩ sched

theorem toPool_raceAfter (sched : List ι) :
    (ingestFlow calls).toPool (raceAfter calls sched) = (startCalls calls).exec memory sched :=
  (ingestFlow calls).toPool_run _ sched

theorem raced_raceAfter (sched : List ι) : Raced calls (raceAfter calls sched) :=
  Runs.run_invariant (fun _ i h => h.step i) (raced_start calls) sched

/-! ## The marks survive races -/

/-- A step never moves a mark back. -/
theorem mark_step_le (c : RaceConfig K ι) (i : ι) {v : String} {m : Time}
    (hm : c.shared.hwm.latest v = some m) :
    ∃ m', ((ingestFlow calls).step c i).shared.hwm.latest v = some m' ∧ m ≤ m' := by
  cases step_kind calls c i with
  | quiet _ _ _ _ hhwm => exact ⟨m, by rw [hhwm, hm], le_rfl⟩
  | persist _ _ _ _ hhwm => exact ⟨m, by rw [hhwm, hm], le_rfl⟩
  | advance _ _ _ _ hhwm =>
    rw [hhwm, MemoryHighWaterMark.latest_advance]
    by_cases hv : v = (calls i).vehicleID
    · subst hv
      exact ⟨max m (calls i).ts, by simp [hm], le_max_left _ _⟩
    · exact ⟨m, by simp [hv, hm], le_rfl⟩

theorem mark_run_le (c : RaceConfig K ι) (sched : List ι) {v : String} {m : Time}
    (hm : c.shared.hwm.latest v = some m) :
    ∃ m', (Runs.run (ingestFlow calls).step c sched).shared.hwm.latest v = some m' ∧ m ≤ m' := by
  induction sched generalizing c m with
  | nil => exact ⟨m, hm, le_rfl⟩
  | cons i sched ih =>
    obtain ⟨m', hm', hle⟩ := mark_step_le calls c i hm
    obtain ⟨m'', hm'', hle'⟩ := ih _ hm'
    exact ⟨m'', hm'', hle.trans hle'⟩

omit [LT K] [DecidableLT K] [IntCast K] [DecidableEq ι] in
/-- Where no request of the vehicle is about to advance, the mark is the latest timestamp. -/
theorem Raced.mark_eq {c : RaceConfig K ι} (h : Raced calls c) {v : String}
    (hidle : ∀ i, (calls i).vehicleID = v → c.locs i ≠ .persisted) :
    c.shared.hwm.latest v = latestOf (c.shared.store.timestamps v) := by
  -- with no request in the gap, everything persisted is covered by the mark alone
  have hcov : ∀ t ∈ c.shared.store.timestamps v, ∃ m, c.shared.hwm.latest v = some m ∧ t ≤ m := by
    intro t ht
    rcases h.covered v t ht with hm | ⟨i, hi, hv, -⟩
    · exact hm
    · exact absurd hi (hidle i hv)
  cases hm : c.shared.hwm.latest v with
  | none =>
    symm
    rw [latestOf_eq_none_iff, List.eq_nil_iff_forall_not_mem]
    intro t ht
    obtain ⟨m, hm', -⟩ := hcov t ht
    rw [hm] at hm'
    exact absurd hm' (by simp)
  | some m =>
    symm
    rw [latestOf_eq_some_iff]
    refine ⟨h.mark_persisted v m hm, fun t ht => ?_⟩
    obtain ⟨m', hm', hle⟩ := hcov t ht
    rw [hm, Option.some.injEq] at hm'
    exact hm' ▸ hle

/-- What the marks of a state say about the pings persisted: no mark decreases from here on, every
mark is the timestamp of a ping persisted for its vehicle, at most the greatest, and it is the
greatest, absent when there is none, unless a request of the vehicle is between its successful
persist and its advance. -/
structure MarksExact (c : Pool ι (StoreOp.Resp (K := K)) Return (State K)) : Prop where
  monotone : ∀ v m, c.shared.hwm.latest v = some m →
    ∀ more, ∃ m', (c.exec memory more).shared.hwm.latest v = some m' ∧ m ≤ m'
  persisted : ∀ v m, c.shared.hwm.latest v = some m →
    (∃ p ∈ c.shared.store.persisted, p.vehicleID = v ∧ p.timestamp = m) ∧
    ∀ t, IsGreatest {x | ∃ p ∈ c.shared.store.persisted, p.vehicleID = v ∧ p.timestamp = x} t →
      m ≤ t
  greatest : ∀ v, (∀ i, (calls i).vehicleID = v → ¬ Advancing calls c i) →
    (c.shared.hwm.latest v = none ↔ ∀ p ∈ c.shared.store.persisted, p.vehicleID ≠ v) ∧
    ∀ t, c.shared.hwm.latest v = some t ↔
      IsGreatest {x | ∃ p ∈ c.shared.store.persisted, p.vehicleID = v ∧ p.timestamp = x} t

/-- The marks are exact after every interleaving of any set of requests, whatever `Persist` and
`Publish` do. -/
theorem highWaterMark_race (sched : List ι) :
    MarksExact calls ((startCalls calls).exec memory sched) := by
  -- the state reached, and the same state by control points
  generalize hstate : (startCalls calls).exec memory sched = c
  have hc : c = (ingestFlow calls).toPool (raceAfter calls sched) :=
    hstate.symm.trans (toPool_raceAfter calls sched).symm
  have hraced := raced_raceAfter calls sched
  have hmem : ∀ v m, m ∈ c.shared.store.timestamps v ↔
      ∃ p ∈ c.shared.store.persisted, p.vehicleID = v ∧ p.timestamp = m := by
    intro v m
    simp only [MemoryStore.timestamps, List.mem_map, List.mem_filter, decide_eq_true_eq, and_assoc]
  refine ⟨fun v m hm more => ?_, fun v m hm => ?_, fun v hidle => ?_⟩
  · rw [hc] at hm ⊢
    rw [← Flow.toPool_run]
    exact mark_run_le calls _ more hm
  · rw [hc] at hm
    have hp := (hmem v m).1 (by rw [hc]; exact hraced.mark_persisted v m hm)
    exact ⟨hp, fun t ht => ht.2 hp⟩
  · have hmark : c.shared.hwm.latest v = latestOf (c.shared.store.timestamps v) := by
      rw [hc]
      refine hraced.mark_eq calls fun i hi hl => hidle i hi ?_
      rw [hc]
      exact (advancing_iff calls _ i).2 hl
    refine ⟨?_, fun t => ?_⟩
    · rw [hmark, latestOf_eq_none_iff, MemoryStore.timestamps, List.map_eq_nil_iff,
        List.filter_eq_nil_iff]
      simp
    · rw [hmark, latestOf_eq_some_iff]
      simp only [hmem]

/-! ## The persist order does not -/

/-- No ping was persisted after a strictly later ping of its vehicle. -/
def InPersistOrder (ps : List (StoredPing K)) : Prop :=
  ps.Pairwise fun p q => p.vehicleID = q.vehicleID → ¬ q.timestamp < p.timestamp

instance (ps : List (StoredPing K)) : Decidable (InPersistOrder ps) :=
  inferInstanceAs (Decidable (List.Pairwise _ _))

/-- Where request `i` is about to persist, neither the mark of its vehicle nor a ping of its vehicle
still to be advanced is later than its ping. -/
def PersistsFresh (c : Pool ι (StoreOp.Resp (K := K)) Return (State K)) (i : ι) : Prop :=
  Persisting calls c i →
    (∀ m, c.shared.hwm.latest (calls i).vehicleID = some m → m ≤ (calls i).ts) ∧
    ∀ j, Advancing calls c j → (calls j).vehicleID = (calls i).vehicleID →
      (calls j).ts ≤ (calls i).ts

omit [LT K] [DecidableLT K] [IntCast K] in
theorem inPersistOrder_persist (m : MemoryStore K) (p : StoredPing K)
    (h : InPersistOrder m.persisted) :
    InPersistOrder (m.persist p).persisted ↔ ∀ t ∈ m.timestamps p.vehicleID, t ≤ p.timestamp := by
  simp only [InPersistOrder, MemoryStore.persist, MemoryStore.timestamps, List.pairwise_append,
    List.pairwise_singleton, List.mem_singleton, List.mem_map, List.mem_filter, decide_eq_true_eq,
    true_and, forall_eq, not_lt, forall_exists_index, and_imp]
  constructor
  · rintro ⟨-, hall⟩ t q hq hv rfl
    exact hall q hq hv
  · intro hall
    exact ⟨by simpa only [InPersistOrder, not_lt] using h, fun q hq hv => hall _ q hq hv rfl⟩

/-- In a state an interleaving reaches, a step keeps the persist order exactly when it persists
fresh. -/
theorem Raced.order_step_iff {c : RaceConfig K ι} (h : Raced calls c)
    (hord : InPersistOrder c.shared.store.persisted) (i : ι) :
    InPersistOrder ((ingestFlow calls).step c i).shared.store.persisted ↔
      PersistsFresh calls ((ingestFlow calls).toPool c) i := by
  have hquiet : ¬ Persisting calls ((ingestFlow calls).toPool c) i →
      ((ingestFlow calls).step c i).shared.store = c.shared.store →
      (InPersistOrder ((ingestFlow calls).step c i).shared.store.persisted ↔
        PersistsFresh calls ((ingestFlow calls).toPool c) i) := by
    intro hp hs
    rw [hs]
    exact iff_of_true hord fun hpers => absurd hpers hp
  cases step_kind calls c i with
  | quiet _ hpers _ hstore _ => exact hquiet hpers hstore
  | advance _ hpers _ hstore _ => exact hquiet hpers hstore
  | persist hpers _ _ hstore _ =>
    rw [hstore, inPersistOrder_persist _ _ hord]
    constructor
    · intro hall _
      refine ⟨fun m hm => hall m (h.mark_persisted _ m hm), fun j hj hv => hall _ ?_⟩
      -- a ping waiting for its advance is among those persisted
      have hjp := h.pending_persisted j ((advancing_iff calls c j).1 hj)
      rwa [hv] at hjp
    · intro hfresh t ht
      -- every timestamp persisted is covered, by the mark or by a waiting ping
      obtain ⟨hmark, hpend⟩ := hfresh hpers
      rcases h.covered _ t ht with ⟨m, hm, hle⟩ | ⟨j, hj, hv, hle⟩
      · exact hle.trans (hmark m hm)
      · exact hle.trans (hpend j ((advancing_iff calls c j).2 hj) hv)

/-- In every interleaving of any set of requests: pings are persisted in timestamp order for each
vehicle in every state of the interleaving exactly when every successful persist finds neither a
later mark for its vehicle nor a later ping of its vehicle that is persisted and not
yet advanced. -/
theorem persist_order_iff (sched : List ι) :
    Runs.Always (Pool.step memory) (fun c => InPersistOrder c.shared.store.persisted)
        (startCalls calls) sched ↔
      Runs.AllSteps (Pool.step memory) (PersistsFresh calls) (startCalls calls) sched := by
  have hstart : startCalls calls = (ingestFlow calls).toPool ⟨fun _ => Phase.start, State.new⟩ :=
    rfl
  rw [hstart, Runs.always_map (ingestFlow calls).toPool_step,
    Runs.allSteps_map (ingestFlow calls).toPool_step]
  exact Runs.always_iff_allSteps (I := Raced calls) (fun _ i h => h.step i)
    (fun _ i h hord => h.order_step_iff calls hord i) (raced_start calls)
    List.Pairwise.nil sched

end Race

/-- A request for vehicle `v` at the origin with the given timestamp. -/
def pingAt (timestamp id : String) : Call ℚ where
  req := ⟨some "v", some 0, some 0, some timestamp, none⟩
  driverForVehicle := none
  newID := id
  now := 0
  persistErr := none
  publishErr := none

/-- Two requests that both read the mark before either persists. -/
def racingCalls : Fin 2 → Call ℚ
  | 0 => pingAt "2024-01-01T00:00:30Z" "a"
  | 1 => pingAt "2024-01-01T00:00:05Z" "b"

/-- The later ping is persisted first. -/
theorem racingCalls_out_of_order :
    ¬ InPersistOrder
      ((startCalls racingCalls).exec memory [0, 1, 0, 1]).shared.store.persisted := by
  decide

end FleetCommand.Ingestion
