import FleetCommand.Ingestion.SequentialRun
import FleetCommand.Lib.Runs

/-!
# Replaying a sequence of requests

A client that lost its acknowledgements sends its requests again. Every vehicle's high-water mark is
then already at or above each of them (`Covers`), so the replay moves no mark; a request before its
mark is stale and leaves nothing. A request at its mark is not: `ts.Before(latest)` is strict, so
the replay stores exactly the valid requests that carry their vehicle's mark once more
(`replay_persisted`), and every vehicle with a valid request has one. The contents of the store are
therefore left as they are only by the replay of a sequence without a valid request, while the marks
are left by every replay (`replay_stores_marks_again`).

What the store holds is read off the sequence of persisted pings; under distinct ids that is what
its map holds (`store_holds_persisted`).
-/

set_option autoImplicit false

namespace FleetCommand.Ingestion

open Resumption

variable {K : Type} [LT K] [DecidableLT K] [IntCast K]

/-! ## What the store holds -/

omit [LT K] [DecidableLT K] [IntCast K] in
theorem MemoryStore.get_persist (m : MemoryStore K) (p : StoredPing K) (id : String) :
    (m.persist p).get id = if id = p.id then some p else m.get id :=
  GoMap.lookup_set _ _ _ _

omit [LT K] [DecidableLT K] [IntCast K] in
@[simp] theorem MemoryStore.persisted_persist (m : MemoryStore K) (p : StoredPing K) :
    (m.persist p).persisted = m.persisted ++ [p] := rfl

theorem serve_eq (s : State K) (c : Call K) :
    serve s c = if Accepts s c then s.record c else s := by
  rw [serve, run_ingest]

/-- The last request of a sequence is recorded or changes nothing. -/
theorem run_serve_concat (s : State K) (calls : List (Call K)) (c : Call K) :
    Runs.run serve s (calls ++ [c]) =
      if Accepts (Runs.run serve s calls) c then (Runs.run serve s calls).record c
      else Runs.run serve s calls := by
  rw [Runs.run_concat, serve_eq]

/-- Every persisted ping carries the id of a request. -/
theorem id_mem_of_persisted {calls : List (Call K)} :
    ∀ p ∈ (Runs.run serve State.new calls).store.persisted, p.id ∈ calls.map Call.newID := by
  induction calls using List.reverseRecOn with
  | nil => exact fun p hp => absurd hp List.not_mem_nil
  | append_singleton calls c ih =>
    intro p hp
    rw [List.map_append, List.mem_append]
    rw [run_serve_concat] at hp
    split at hp
    · rcases List.mem_append.1 hp with hp | hp
      · exact Or.inl (ih p hp)
      · rw [List.mem_singleton.1 hp]
        exact Or.inr (List.mem_singleton_self _)
    · exact Or.inl (ih p hp)

/-- Under distinct ids the store's map holds what was persisted, and its count is their number. -/
theorem store_holds_persisted {calls : List (Call K)} (hids : (calls.map Call.newID).Nodup) :
    (∀ id p, (Runs.run serve State.new calls).store.get id = some p ↔
      p ∈ (Runs.run serve State.new calls).store.persisted ∧ p.id = id) ∧
    (Runs.run serve State.new calls).store.count =
      (Runs.run serve State.new calls).store.persisted.length := by
  induction calls using List.reverseRecOn with
  | nil => exact ⟨fun id p => iff_of_false nofun fun h => absurd h.1 List.not_mem_nil, rfl⟩
  | append_singleton calls c ih =>
    rw [List.map_append, List.map_singleton] at hids
    obtain ⟨hold, -, hnew⟩ := List.nodup_append.1 hids
    obtain ⟨hget, hcount⟩ := ih hold
    rw [run_serve_concat]
    split
    · refine ⟨fun id p => ?_, ?_⟩
      · rw [State.record, MemoryStore.get_persist, MemoryStore.persisted_persist, List.mem_append,
          List.mem_singleton]
        by_cases hid : id = c.stored.id
        · subst hid
          rw [if_pos rfl, Option.some.injEq]
          constructor
          · rintro rfl
            exact ⟨Or.inr rfl, rfl⟩
          · rintro ⟨hp | rfl, hpid⟩
            · exact absurd hpid (hnew _ (id_mem_of_persisted p hp) _ (List.mem_singleton_self _))
            · rfl
        · rw [if_neg hid, hget]
          refine and_congr_left fun hpid => (or_iff_left ?_).symm
          rintro rfl
          exact hid hpid.symm
      · simp only [State.record, MemoryStore.persist, hcount, List.length_append,
          List.length_singleton]
    · exact ⟨hget, hcount⟩

/-! ## Requests at or before their vehicle's mark -/

/-- A valid request is not after its vehicle's mark. -/
def Covers (h : MemoryHighWaterMark) (c : Call K) : Prop :=
  validate c.req = [] → ∃ m, h.latest c.vehicleID = some m ∧ c.ts ≤ m

/-- A valid request that carries its vehicle's mark. -/
def AtMark (h : MemoryHighWaterMark) (c : Call K) : Prop :=
  validate c.req = [] ∧ h.latest c.vehicleID = some c.ts

instance (h : MemoryHighWaterMark) : DecidablePred (AtMark (K := K) h) :=
  fun _ => inferInstanceAs (Decidable (_ ∧ _))

omit [LT K] [DecidableLT K] in
theorem latest_record (s : State K) (c : Call K) (v : String) :
    (s.record c).hwm.latest v =
      if v = c.vehicleID then some ((s.hwm.latest c.vehicleID).elim c.ts fun cur => max cur c.ts)
      else s.hwm.latest v :=
  MemoryHighWaterMark.latest_advance _ _ _ _

/-- A mark never goes back. -/
theorem Covers.serve {s : State K} {c : Call K} (h : Covers s.hwm c) (c' : Call K) :
    Covers (serve s c').hwm c := by
  intro hvalid
  obtain ⟨m, hm, hle⟩ := h hvalid
  rw [serve_eq]
  split
  · rw [latest_record]
    by_cases hv : c.vehicleID = c'.vehicleID
    · rw [if_pos hv, ← hv, hm]
      exact ⟨_, rfl, hle.trans (le_max_left _ _)⟩
    · rw [if_neg hv]
      exact ⟨m, hm, hle⟩
  · exact ⟨m, hm, hle⟩

theorem Covers.run {s : State K} {c : Call K} (h : Covers s.hwm c) (calls : List (Call K)) :
    Covers (Runs.run Ingestion.serve s calls).hwm c :=
  Runs.run_invariant (I := fun s : State K => Covers s.hwm c) (fun _ c' h' => Covers.serve h' c') h
    calls

/-- A request that can be stored is at or before its vehicle's mark once it was served. -/
theorem covers_serve (s : State K) {c : Call K} (hstored : c.persistErr = none) :
    Covers (serve s c).hwm c := by
  intro hvalid
  rw [serve_eq]
  split
  · rw [latest_record, if_pos rfl]
    refine ⟨_, rfl, ?_⟩
    cases s.hwm.latest c.vehicleID with
    | none => exact le_rfl
    | some m => exact le_max_right _ _
  next hrejected =>
    -- only staleness is left to reject it
    cases hm : s.hwm.latest c.vehicleID with
    | none => exact absurd ⟨hvalid, by rw [hm]; rfl, hstored⟩ hrejected
    | some m =>
      refine ⟨m, rfl, le_of_not_gt fun hlt => hrejected ⟨hvalid, ?_, hstored⟩⟩
      rw [hm, isStale, decide_eq_false_iff_not]
      exact hlt.not_gt

theorem covers_run (s : State K) {calls : List (Call K)}
    (hstored : ∀ c ∈ calls, c.persistErr = none) :
    ∀ c ∈ calls, Covers (Runs.run serve s calls).hwm c := by
  induction calls generalizing s with
  | nil => exact fun c hc => absurd hc List.not_mem_nil
  | cons c calls ih =>
    rintro c' hc'
    rcases List.mem_cons.1 hc' with rfl | hc'
    · exact (covers_serve s (hstored c' List.mem_cons_self)).run calls
    · exact ih (Ingestion.serve s c) (fun d hd => hstored d (List.mem_cons_of_mem _ hd)) c' hc'

/-! ## What a replay stores -/

/-- A covered request leaves its vehicle's mark where it is. -/
theorem Covers.hwm_serve {s : State K} {c : Call K} (h : Covers s.hwm c) :
    (Ingestion.serve s c).hwm = s.hwm := by
  rw [serve_eq]
  split
  next haccepted =>
    obtain ⟨m, hm, hle⟩ := h haccepted.1
    have hlookup : s.hwm.marks.lookup c.vehicleID = some m := hm
    simp only [State.record, MemoryHighWaterMark.advance, hlookup]
    exact if_neg hle.not_gt
  next => rfl

/-- Of the covered requests, those at their mark are stored. -/
theorem Covers.persisted_serve {s : State K} {c : Call K} (h : Covers s.hwm c)
    (hstored : c.persistErr = none) :
    (Ingestion.serve s c).store.persisted =
      s.store.persisted ++ if AtMark s.hwm c then [c.stored] else [] := by
  have haccepts : Accepts s c ↔ AtMark s.hwm c := by
    refine and_congr_right fun hvalid => ?_
    obtain ⟨m, hm, hle⟩ := h hvalid
    rw [hm, and_iff_left hstored, isStale, decide_eq_false_iff_not, not_lt, Option.some.injEq]
    exact ⟨fun hge => le_antisymm hge hle, fun heq => heq.le⟩
  rw [serve_eq]
  by_cases hc : AtMark s.hwm c
  · rw [if_pos hc, if_pos (haccepts.2 hc)]
    rfl
  · rw [if_neg hc, if_neg (mt haccepts.1 hc), List.append_nil]

/-- Requests that are all covered move no mark and store those at their marks. -/
theorem replay_persisted {s : State K} {calls : List (Call K)}
    (hcovers : ∀ c ∈ calls, Covers s.hwm c) (hstored : ∀ c ∈ calls, c.persistErr = none) :
    (Runs.run serve s calls).hwm = s.hwm ∧
      (Runs.run serve s calls).store.persisted =
        s.store.persisted ++ (calls.filter fun c => AtMark s.hwm c).map Call.stored := by
  induction calls generalizing s with
  | nil => exact ⟨rfl, (List.append_nil _).symm⟩
  | cons c calls ih =>
    have hc := hcovers c List.mem_cons_self
    have hhwm := hc.hwm_serve
    obtain ⟨hmarks, hpersisted⟩ := @ih (Ingestion.serve s c)
      (fun d hd => hhwm.symm ▸ hcovers d (List.mem_cons_of_mem _ hd))
      fun d hd => hstored d (List.mem_cons_of_mem _ hd)
    refine ⟨hmarks.trans hhwm, ?_⟩
    rw [Runs.run_cons, hpersisted, hhwm, hc.persisted_serve (hstored c List.mem_cons_self),
      List.append_assoc]
    by_cases hat : AtMark s.hwm c
    · rw [if_pos hat, List.filter_cons_of_pos (by simpa using hat)]
      rfl
    · rw [if_neg hat, List.filter_cons_of_neg (by simpa using hat)]
      rfl

/-- Every mark comes from a valid request of the run. -/
theorem exists_atMark {calls : List (Call K)} {v : String} {m : Time}
    (hm : (Runs.run serve State.new calls).hwm.latest v = some m) :
    ∃ c ∈ calls, validate c.req = [] ∧ c.vehicleID = v ∧ c.ts = m := by
  induction calls using List.reverseRecOn with
  | nil => exact absurd hm (by simp [State.new])
  | append_singleton calls c ih =>
    rw [run_serve_concat] at hm
    have hold : (Runs.run serve State.new calls).hwm.latest v = some m →
        ∃ d ∈ calls ++ [c], validate d.req = [] ∧ d.vehicleID = v ∧ d.ts = m := by
      intro h
      obtain ⟨d, hd, hmark⟩ := ih h
      exact ⟨d, List.mem_append_left _ hd, hmark⟩
    split at hm
    next haccepted =>
      rw [latest_record] at hm
      split at hm
      next hv =>
        subst hv
        -- the new mark is the old one or the timestamp of the request
        cases hlatest : (Runs.run serve State.new calls).hwm.latest c.vehicleID with
        | none =>
          rw [hlatest] at hm
          exact ⟨c, by simp, haccepted.1, rfl, Option.some.inj hm⟩
        | some cur =>
          rw [hlatest, Option.elim_some, Option.some.injEq] at hm
          rcases max_choice cur c.ts with hmax | hmax
          · exact hold (hlatest.trans (congrArg some (hmax.symm.trans hm)))
          · exact ⟨c, by simp, haccepted.1, rfl, hmax.symm.trans hm⟩
      next => exact hold hm
    next => exact hold hm

/-! ## The result of a replay -/

/-- What a client sent of a stored ping. -/
structure PingContent (K : Type) where
  vehicleID : String
  timestamp : Time
  lat : K
  lng : K
  telemetry : Option (Telemetry K)
  deriving DecidableEq

/-- What the client sent of it. -/
def StoredPing.content (p : StoredPing K) : PingContent K :=
  ⟨p.vehicleID, p.timestamp, p.lat, p.lng, p.telemetry⟩

/-- Two states hold the same pings with the same multiplicities, and the same marks. -/
def SameContents (s s' : State K) : Prop :=
  (s'.store.persisted.map StoredPing.content).Perm (s.store.persisted.map StoredPing.content) ∧
    ∀ v, s'.hwm.latest v = s.hwm.latest v

/-- The calls of a second pass over the requests: the ids, the clock readings, the driver lookups
and what the publisher answers may be others. -/
def Replays (calls again : List (Call K)) : Prop :=
  again.map Call.req = calls.map Call.req

omit [LT K] [DecidableLT K] [IntCast K] in
theorem Replays.exists_req {calls again : List (Call K)} (h : Replays calls again) {c : Call K}
    (hc : c ∈ calls) : ∃ d ∈ again, d.req = c.req :=
  List.mem_map.1 (h ▸ List.mem_map_of_mem hc)

omit [LT K] [DecidableLT K] [IntCast K] in
theorem Replays.symm {calls again : List (Call K)} (h : Replays calls again) :
    Replays again calls := Eq.symm h

/-- A replay covers what the first pass covers. -/
theorem Covers.of_req {h : MemoryHighWaterMark} {c d : Call K} (hc : Covers h c)
    (hreq : d.req = c.req) : Covers h d := by
  simpa only [Covers, Call.vehicleID, Call.ts, hreq] using hc

/-- A first pass without store failures covers its replay. -/
theorem Replays.covers {calls again : List (Call K)} (h : Replays calls again)
    (hstored : ∀ c ∈ calls, c.persistErr = none) :
    ∀ d ∈ again, Covers (Runs.run serve State.new calls).hwm d := by
  intro d hd
  obtain ⟨c, hc, hreq⟩ := h.symm.exists_req hd
  exact (covers_run _ hstored c hc).of_req hreq.symm

/-- What is stored of a request, and whether it is at its mark, is read off the request. -/
theorem Replays.contents_atMark {calls again : List (Call K)} (h : Replays calls again)
    (marks : MemoryHighWaterMark) :
    (again.filter fun d => AtMark marks d).map (fun d => d.stored.content) =
      (calls.filter fun c => AtMark marks c).map fun c => c.stored.content := by
  induction calls generalizing again with
  | nil => rw [List.map_eq_nil_iff.1 h]
  | cons c calls ih =>
    obtain ⟨d, again, rfl, hreq, hrest⟩ := List.map_eq_cons_iff.1 h
    have hat : AtMark marks d ↔ AtMark marks c := by
      simp only [AtMark, Call.vehicleID, Call.ts, hreq]
    have hcontent : d.stored.content = c.stored.content := by
      simp only [Call.stored, StoredPing.content, Call.vehicleID, Call.ts, hreq]
    by_cases hc : AtMark marks c
    · rw [List.filter_cons_of_pos (by simpa using hat.2 hc),
        List.filter_cons_of_pos (by simpa using hc), List.map_cons, List.map_cons, hcontent,
        ih hrest]
    · rw [List.filter_cons_of_neg (by simpa using mt hat.1 hc),
        List.filter_cons_of_neg (by simpa using hc), ih hrest]

/-- A replay leaves the marks, and adds the contents of the requests at their marks. -/
theorem replay_contents {calls again : List (Call K)} (hreplays : Replays calls again)
    (hstored : ∀ c ∈ calls ++ again, c.persistErr = none) :
    (Runs.run serve State.new (calls ++ again)).hwm = (Runs.run serve State.new calls).hwm ∧
      (Runs.run serve State.new (calls ++ again)).store.persisted.map StoredPing.content =
        (Runs.run serve State.new calls).store.persisted.map StoredPing.content ++
          (calls.filter fun c => AtMark (Runs.run serve State.new calls).hwm c).map
            fun c => c.stored.content := by
  have hfirst : ∀ c ∈ calls, c.persistErr = none :=
    fun c hc => hstored c (List.mem_append_left _ hc)
  obtain ⟨hhwm, hpersisted⟩ := replay_persisted (hreplays.covers hfirst)
    fun d hd => hstored d (List.mem_append_right _ hd)
  rw [Runs.run_append]
  refine ⟨hhwm, ?_⟩
  rw [hpersisted, List.map_append, List.map_map]
  exact congrArg _ (hreplays.contents_atMark _)

/-- Once the requests are stored, a vehicle with a valid request has one at its mark. -/
theorem exists_atMark_of_valid {calls : List (Call K)} (hstored : ∀ c ∈ calls, c.persistErr = none)
    {c : Call K} (hc : c ∈ calls) (hvalid : validate c.req = []) :
    ∃ d ∈ calls, d.vehicleID = c.vehicleID ∧ AtMark (Runs.run serve State.new calls).hwm d := by
  obtain ⟨m, hm, -⟩ := covers_run State.new hstored c hc hvalid
  obtain ⟨d, hd, hvalid', hvehicle, hts⟩ := exists_atMark hm
  exact ⟨d, hd, hvehicle, hvalid', by rw [hvehicle, hts, hm]⟩

/-- From empty stores, with no store failure: a sequence of requests followed by a replay of it
leaves what the sequence alone leaves exactly when no request of the sequence is valid. -/
theorem replay_idempotent_iff {calls again : List (Call K)} (hreplays : Replays calls again)
    (hstored : ∀ c ∈ calls ++ again, c.persistErr = none) :
    SameContents (Runs.run serve State.new calls) (Runs.run serve State.new (calls ++ again)) ↔
      ∀ c ∈ calls, validate c.req ≠ [] := by
  obtain ⟨hhwm, hcontents⟩ := replay_contents hreplays hstored
  rw [SameContents, hhwm, hcontents]
  constructor
  · rintro ⟨hperm, -⟩ c hc hvalid
    -- the mark of the vehicle of a valid request was sent by some request, which is stored again
    obtain ⟨d, hd, -, hat⟩ :=
      exists_atMark_of_valid (fun c hc => hstored c (List.mem_append_left _ hc)) hc hvalid
    have hlength := hperm.length_eq
    simp only [List.length_append, List.length_map] at hlength
    have hnone :
        (calls.filter fun c => AtMark (Runs.run serve State.new calls).hwm c).length = 0 := by
      omega
    rw [List.length_eq_zero_iff, List.filter_eq_nil_iff] at hnone
    exact hnone d hd (by simpa using hat)
  · intro hinvalid
    have hnone : (calls.filter fun c => AtMark (Runs.run serve State.new calls).hwm c) = [] := by
      rw [List.filter_eq_nil_iff]
      intro c hc hat
      have hat' : AtMark (Runs.run serve State.new calls).hwm c := by simpa using hat
      exact hinvalid c hc hat'.1
    rw [hnone, List.map_nil, List.append_nil]
    exact ⟨.refl _, fun _ => rfl⟩

/-- From empty stores, with no store failure: a sequence of requests followed by a replay of it
leaves every mark where the sequence alone leaves it; the store holds what the sequence alone leaves
and, once more each, the valid requests that carry their vehicle's mark. Every vehicle with a valid
request has such a request, so a replay changes nothing exactly when no request is valid. -/
theorem replay_stores_marks_again {calls again : List (Call K)} (hreplays : Replays calls again)
    (hstored : ∀ c ∈ calls ++ again, c.persistErr = none) :
    (∀ v, (Runs.run serve State.new (calls ++ again)).hwm.latest v =
      (Runs.run serve State.new calls).hwm.latest v) ∧
    (Runs.run serve State.new (calls ++ again)).store.persisted.map StoredPing.content =
      (Runs.run serve State.new calls).store.persisted.map StoredPing.content ++
        (calls.filter fun c => AtMark (Runs.run serve State.new calls).hwm c).map
          (fun c => c.stored.content) ∧
    (∀ c ∈ calls, validate c.req = [] → ∃ d ∈ calls, d.vehicleID = c.vehicleID ∧
      AtMark (Runs.run serve State.new calls).hwm d) ∧
    (SameContents (Runs.run serve State.new calls) (Runs.run serve State.new (calls ++ again)) ↔
      ∀ c ∈ calls, validate c.req ≠ []) := by
  obtain ⟨hhwm, hcontents⟩ := replay_contents hreplays hstored
  refine ⟨fun v => by rw [hhwm], hcontents, fun c hc => ?_, replay_idempotent_iff hreplays hstored⟩
  exact exists_atMark_of_valid (fun c hc => hstored c (List.mem_append_left _ hc)) hc

/-- A valid request of a vehicle for a time, stored under the given id. -/
def requestAt (vehicleID timestamp id : String) : Call Int where
  req := ⟨some vehicleID, some 47, some (-122), some timestamp, none⟩
  driverForVehicle := none
  newID := id
  now := 0
  persistErr := none
  publishErr := none

/-- Two pings of one vehicle around one of another, stored under the given ids. -/
def threePings (first second third : String) : List (Call Int) :=
  [requestAt "v" "2024-01-01T00:00:10Z" first, requestAt "w" "2024-01-01T00:00:20Z" second,
    requestAt "v" "2024-01-01T00:00:30Z" third]

/-- Of the three pings the replay stores the last of each vehicle again. -/
theorem threePings_storedAgain :
    (∀ v, (Runs.run serve State.new
        (threePings "a" "b" "c" ++ threePings "d" "e" "f")).hwm.latest v =
      (Runs.run serve State.new (threePings "a" "b" "c")).hwm.latest v) ∧
    (Runs.run serve State.new
        (threePings "a" "b" "c" ++ threePings "d" "e" "f")).store.persisted.map StoredPing.content =
      (threePings "a" "b" "c" ++ (threePings "d" "e" "f").drop 1).map
        fun c => c.stored.content := by
  have hreplays : Replays (threePings "a" "b" "c") (threePings "d" "e" "f") := rfl
  obtain ⟨hmarks, hcontents, -⟩ := replay_stores_marks_again hreplays (by decide)
  exact ⟨hmarks, hcontents.trans (by decide)⟩

/-- A valid request, stored under the given id. -/
def pingStoredAs (id : String) : Call Int := requestAt "v" "2024-01-01T00:00:30Z" id

/-- The ping is held twice. -/
theorem onePing_storedTwice :
    ¬ SameContents (Runs.run serve State.new [pingStoredAs "a"])
      (Runs.run serve State.new ([pingStoredAs "a"] ++ [pingStoredAs "b"])) := by
  rintro ⟨hperm, -⟩
  exact absurd hperm.length_eq (by decide)

end FleetCommand.Ingestion
