import FleetCommand.Ingestion.DriverPing
import FleetCommand.Ingestion.Replay
import FleetCommand.Lib.RelyGuarantee

/-!
# What the answers to pings say

The endpoint serves requests side by side, each under an id of its own. What it answers is true of
the stores, and stays so whatever the others do (`answers_true`): a ping that is acknowledged is
stored, once, at or before its vehicle's mark, and published unless the publish failed; a request
that is refused left nothing. Every request is answered after four turns, and nothing is stored or
published that no request asked for.

Each request runs under a contract (`ownPing`): the others leave what concerns its id alone and take
no mark back, and it does the same for them.
-/

set_option autoImplicit false

namespace FleetCommand.Ingestion

open Resumption GoJson

variable {K N Text : Type}

/-! ## What the stores hold of one ping -/

/-- The record of a ping id, its persists and its events. -/
structure PingTrace (K : Type) where
  record : Option (StoredPing K)
  persisted : List (StoredPing K)
  events : List (AcceptedPingEvent K)

namespace State

/-- What a ping with the id has left. -/
def trace (s : State K) (id : String) : PingTrace K where
  record := s.store.get id
  persisted := s.store.persisted.filter fun p => p.id = id
  events := s.publisher.events.filter fun e => e.pingID = id

/-- No mark goes back. -/
def MarksKept (s s' : State K) : Prop :=
  ∀ v m, s.hwm.latest v = some m → ∃ m', s'.hwm.latest v = some m' ∧ m ≤ m'

theorem MarksKept.refl (s : State K) : s.MarksKept s := fun _ m hm => ⟨m, hm, le_rfl⟩

theorem MarksKept.trans {s s' s'' : State K} (h : s.MarksKept s') (h' : s'.MarksKept s'') :
    s.MarksKept s'' := by
  intro v m hm
  obtain ⟨m', hm', hle⟩ := h v m hm
  obtain ⟨m'', hm'', hle'⟩ := h' v m' hm'
  exact ⟨m'', hm'', hle.trans hle'⟩

theorem marksKept_advance (s : State K) (v : String) (ts : Time) :
    s.MarksKept { s with hwm := s.hwm.advance v ts } := by
  intro w m hm
  rw [MemoryHighWaterMark.latest_advance]
  split
  next hw =>
    rw [← hw, hm]
    exact ⟨max m ts, rfl, le_max_left m ts⟩
  next => exact ⟨m, hm, le_rfl⟩

theorem trace_persist (s : State K) (p : StoredPing K) (id : String) :
    ({ s with store := s.store.persist p } : State K).trace id =
      if p.id = id then
        { s.trace id with record := some p, persisted := (s.trace id).persisted ++ [p] }
      else s.trace id := by
  rw [trace, trace, MemoryStore.get_persist, MemoryStore.persisted_persist, List.filter_append]
  by_cases hid : p.id = id
  · subst hid
    simp
  · simp [hid, Ne.symm hid]

theorem trace_publish (s : State K) (e : AcceptedPingEvent K) (err : Option Error) (id : String) :
    ({ s with publisher := s.publisher.publish e err } : State K).trace id =
      if e.pingID = id ∧ err.isNone then
        { s.trace id with events := (s.trace id).events ++ [e] }
      else s.trace id := by
  rw [trace, trace, CollectingPublisher.publish]
  by_cases herr : err.isNone
  · by_cases hid : e.pingID = id
    · simp [herr, hid, List.filter_append]
    · simp [herr, hid, List.filter_append]
  · simp [herr]

end State

/-! ## The contract of a request -/

variable [IntCast K]

/-- What is stored and published are the pings that were asked for, and only a stored ping is
published. -/
structure Accounted (asked : Call K → Prop) (s : State K) : Prop where
  persisted : ∀ p ∈ s.store.persisted, ∃ c, asked c ∧ p = c.stored
  events : ∀ e ∈ s.publisher.events, ∃ c, asked c ∧ c.stored ∈ s.store.persisted ∧ e = c.event

/-- What a request with this ping id may call: it persists a ping that was asked for under its id,
and publishes what is stored under its id. -/
def PermitsPing (asked : Call K → Prop) (id : String) : StoreOp K → State K → Prop
  | .latest _, _ => True
  | .persist p _, _ => p.id = id ∧ ∃ c, asked c ∧ p = c.stored
  | .advance _ _, _ => True
  | .publish e _, s => e.pingID = id ∧
      ∃ c, asked c ∧ c.stored ∈ s.store.persisted ∧ e = c.event

/-- The others leave what concerns the ping id as it is, and take no mark back. -/
def ownPing (asked : Call K → Prop) (id : String) : Contract (StoreOp K) (State K) where
  inv := Accounted asked
  rely s s' := s'.trace id = s.trace id ∧ s.MarksKept s'
  refl s := ⟨rfl, .refl s⟩
  trans h h' := ⟨h'.1.trans h.1, h.2.trans h'.2⟩
  permits := PermitsPing asked id

/-- What a request does to the stores, as the others see it. -/
def Spares (id : String) (s s' : State K) : Prop :=
  (∀ other, other ≠ id → s'.trace other = s.trace other) ∧ s.MarksKept s'

theorem Accounted.memory {asked : Call K → Prop} {s : State K} (h : Accounted asked s)
    {id : String} {op : StoreOp K} (hop : PermitsPing asked id op s) :
    Accounted asked (memory op s).2 ∧ Spares id s (memory op s).2 := by
  cases op with
  | latest v => exact ⟨h, fun _ _ => rfl, .refl s⟩
  | persist p err =>
    obtain ⟨rfl, c, hc, rfl⟩ := hop
    cases err with
    | some err => exact ⟨h, fun _ _ => rfl, .refl s⟩
    | none =>
      refine ⟨⟨fun p hp => ?_, fun e he => ?_⟩, fun other hother => ?_, .refl s⟩
      · rcases List.mem_append.1 hp with hp | hp
        · exact h.persisted p hp
        · exact ⟨c, hc, List.mem_singleton.1 hp⟩
      · obtain ⟨d, hd, hstored, rfl⟩ := h.events e he
        exact ⟨d, hd, List.mem_append_left _ hstored, rfl⟩
      · exact (s.trace_persist c.stored other).trans (if_neg hother.symm)
  | advance v ts => exact ⟨⟨h.persisted, h.events⟩, fun _ _ => rfl, s.marksKept_advance v ts⟩
  | publish e err =>
    obtain ⟨rfl, c, hc, hstored, rfl⟩ := hop
    refine ⟨⟨h.persisted, fun e he => ?_⟩, fun other hother => ?_, .refl s⟩
    · cases err with
      | some err => exact h.events e he
      | none =>
        rcases List.mem_append.1 he with he | he
        · exact h.events e he
        · exact ⟨c, hc, hstored, List.mem_singleton.1 he⟩
    · exact (s.trace_publish c.event err other).trans (if_neg fun hboth => hother hboth.1.symm)

/-! ## What `Ingest` says -/

/-- The ping is stored under its id, once, at or before its vehicle's mark, and published unless the
publish failed. -/
structure Recorded (c : Call K) (s : State K) : Prop where
  trace : s.trace c.newID =
    ⟨some c.stored, [c.stored], if c.publishErr.isNone then [c.event] else []⟩
  mark : ∃ m, s.hwm.latest c.vehicleID = some m ∧ c.ts ≤ m

/-- Nothing is stored or published under the id of the request. -/
def Unrecorded (c : Call K) (s : State K) : Prop := s.trace c.newID = ⟨none, [], []⟩

variable [LT K] [DecidableLT K]

/-- What `Ingest` returns says what became of the ping. -/
inductive Told (c : Call K) (s : State K) : Return → Prop where
  | invalid : validate c.req ≠ [] → Unrecorded c s → Told c s (⟨.invalid, "", validate c.req⟩, none)
  | stale {m : Time} : validate c.req = [] → s.hwm.latest c.vehicleID = some m → c.ts < m →
    Unrecorded c s → Told c s (⟨.stale, "", []⟩, none)
  | failed {err : Error} : validate c.req = [] → c.persistErr = some err → Unrecorded c s →
    Told c s (.zero, some err)
  | accepted : validate c.req = [] → c.persistErr = none → Recorded c s →
    Told c s (⟨.accepted, c.newID, []⟩, none)

section Under

variable {asked : Call K → Prop} {c : Call K} {s s' : State K}

omit [LT K] [DecidableLT K] in
theorem Recorded.rely (h : Recorded c s) (hs : (ownPing asked c.newID).rely s s') :
    Recorded c s' := by
  obtain ⟨m, hm, hle⟩ := h.mark
  obtain ⟨m', hm', hle'⟩ := hs.2 _ m hm
  exact ⟨hs.1.trans h.trace, m', hm', hle.trans hle'⟩

/-- What was told stays true. -/
theorem Told.rely {ret : Return} (h : Told c s ret) (hs : (ownPing asked c.newID).rely s s') :
    Told c s' ret := by
  cases h with
  | invalid hinvalid hnone => exact .invalid hinvalid (hs.1.trans hnone)
  | stale hvalid hm hlt hnone =>
    obtain ⟨m', hm', hle⟩ := hs.2 _ _ hm
    exact .stale hvalid hm' (hlt.trans_le hle) (hs.1.trans hnone)
  | failed hvalid herr hnone => exact .failed hvalid herr (hs.1.trans hnone)
  | accepted hvalid herr hrecorded => exact .accepted hvalid herr (hrecorded.rely hs)

theorem Told.under {ret : Return} (h : Told c s ret) :
    (Prog.ret ret : StoreProg K Return).Under memory (ownPing asked c.newID)
      (fun ret s' => Told c s' ret) s :=
  fun _ hs _ => h.rely hs

theorem publishAndAck_under (hasked : asked c) (hvalid : validate c.req = [])
    (herr : c.persistErr = none) (htrace : s.trace c.newID = ⟨some c.stored, [c.stored], []⟩)
    {m : Time} (hm : s.hwm.latest c.vehicleID = some m) (hle : c.ts ≤ m) :
    (publishAndAck c).Under memory (ownPing asked c.newID) (fun ret s' => Told c s' ret) s := by
  intro s' hs _
  obtain ⟨m', hm', hle'⟩ := hs.2 _ m hm
  have htrace' : s'.trace c.newID = ⟨some c.stored, [c.stored], []⟩ := hs.1.trans htrace
  -- the ping is still stored when its event is published
  have hstored : c.stored ∈ s'.store.persisted := by
    have hfilter : (s'.trace c.newID).persisted = [c.stored] := by rw [htrace']
    have hmem : c.stored ∈ (s'.trace c.newID).persisted := by simp [hfilter]
    exact List.mem_of_mem_filter hmem
  refine ⟨⟨rfl, c, hasked, hstored, rfl⟩, Told.under (.accepted hvalid herr ⟨?_, m', hm', ?_⟩)⟩
  · refine (s'.trace_publish c.event c.publishErr c.newID).trans ?_
    rw [htrace']
    by_cases hpublish : c.publishErr.isNone
    · rw [if_pos ⟨rfl, hpublish⟩, if_pos hpublish]
      rfl
    · rw [if_neg fun hboth => hpublish hboth.2, if_neg hpublish]
  · exact hle.trans hle'

theorem advanceAndPublish_under (hasked : asked c) (hvalid : validate c.req = [])
    (herr : c.persistErr = none) (htrace : s.trace c.newID = ⟨some c.stored, [c.stored], []⟩) :
    (advanceAndPublish c).Under memory (ownPing asked c.newID) (fun ret s' => Told c s' ret) s := by
  intro s' hs _
  refine ⟨trivial, ?_⟩
  -- the mark may have been later already, through another request of the vehicle
  have hmark := MemoryHighWaterMark.latest_advance s'.hwm c.vehicleID c.vehicleID c.ts
  rw [if_pos rfl] at hmark
  refine publishAndAck_under hasked hvalid herr (hs.1.trans htrace) hmark ?_
  cases s'.hwm.latest c.vehicleID with
  | none => exact le_rfl
  | some m => exact le_max_right m c.ts

theorem persistAndPublish_under (hasked : asked c) (hvalid : validate c.req = [])
    (hnone : Unrecorded c s) :
    (persistAndPublish c).Under memory (ownPing asked c.newID) (fun ret s' => Told c s' ret) s := by
  intro s' hs _
  have hnone' : s'.trace c.newID = ⟨none, [], []⟩ := hs.1.trans hnone
  refine ⟨⟨rfl, c, hasked, rfl⟩, ?_⟩
  cases herr : c.persistErr with
  | some err => exact Told.under (.failed hvalid herr hnone')
  | none =>
    refine advanceAndPublish_under hasked hvalid herr ?_
    refine (s'.trace_persist c.stored c.newID).trans ?_
    rw [if_pos (show c.stored.id = c.newID from rfl), hnone']
    rfl

/-- Whatever runs beside it, what `Ingest` returns is true of the ping. -/
theorem ingest_under (hasked : validate c.req = [] → asked c) (hnone : Unrecorded c s) :
    (ingest c).Under memory (ownPing asked c.newID) (fun ret s' => Told c s' ret) s := by
  rw [ingest]
  split
  next hinvalid => exact Told.under (.invalid hinvalid hnone)
  next hvalid =>
    have hvalid := not_not.1 hvalid
    intro s' hs _
    refine ⟨trivial, ?_⟩
    have hnone' : Unrecorded c s' := hs.1.trans hnone
    -- the mark that was read decides; it can only go on from here
    show (if isStale c.ts (s'.hwm.latest c.vehicleID) then _ else _ : StoreProg K Return).Under
      memory _ _ s'
    split
    next hstale =>
      cases hm : s'.hwm.latest c.vehicleID with
      | none =>
        rw [hm] at hstale
        exact absurd hstale (by simp [isStale])
      | some m =>
        rw [hm, isStale, decide_eq_true_iff] at hstale
        exact Told.under (.stale hvalid hm hstale hnone')
    next => exact persistAndPublish_under (hasked hvalid) hvalid hnone'

end Under

/-! ## The endpoint -/

variable (lits : Literals K N) (codec : Json.Codec N Text)

/-- The ping of a body, as it is ingested. -/
def posted (env : Call K) (r : HttpRequest Text) : Option (Call K) :=
  ((codec.decode r.body).bind (decodePing lits)).map fun req => { env with req := req }

/-- The request asks for this ping to be stored. -/
def Asks (env : Call K) (r : HttpRequest Text) (c : Call K) : Prop :=
  r.method = "POST" ∧ posted lits codec env r = some c ∧ validate c.req = []

/-- What a response says is true of the stores. -/
inductive Truthful (env : Call K) (r : HttpRequest Text) (s : State K) : PingResponse → Prop where
  | notAllowed : r.method ≠ "POST" → Unrecorded env s →
    Truthful env r s ⟨405, false, "", "method-not-allowed", []⟩
  | noPing : r.method = "POST" → posted lits codec env r = none → Unrecorded env s →
    Truthful env r s ⟨400, false, "", "validation-error", ["body"]⟩
  | ingested {c : Call K} {ret : Return} : r.method = "POST" → posted lits codec env r = some c →
    Told c s ret → Truthful env r s (respond ret)

theorem handler_eq (env : Call K) (r : HttpRequest Text) :
    handler lits codec env r =
      if r.method ≠ "POST" then .ret ⟨405, false, "", "method-not-allowed", []⟩
      else match posted lits codec env r with
        | none => .ret ⟨400, false, "", "validation-error", ["body"]⟩
        | some c => ingest c >>= fun ret => .ret (respond ret) := by
  rw [handler, posted]
  cases (codec.decode r.body).bind (decodePing lits) <;> rfl

omit [LT K] [DecidableLT K] in
theorem newID_of_posted {env c : Call K} {r : HttpRequest Text}
    (h : posted lits codec env r = some c) : c.newID = env.newID := by
  obtain ⟨req, -, rfl⟩ := Option.map_eq_some_iff.1 h
  rfl

theorem handler_under {asked : Call K → Prop} {env : Call K} {r : HttpRequest Text} {s : State K}
    (hasked : ∀ c, Asks lits codec env r c → asked c) (hnone : Unrecorded env s) :
    (handler lits codec env r).Under memory (ownPing asked env.newID)
      (fun response s' => Truthful lits codec env r s' response) s := by
  rw [handler_eq]
  split
  next hmethod => exact fun s' hs _ => .notAllowed hmethod (hs.1.trans hnone)
  next hmethod =>
    have hpost := not_not.1 hmethod
    cases hposted : posted lits codec env r with
    | none => exact fun s' hs _ => .noPing hpost hposted (hs.1.trans hnone)
    | some c =>
      have hid : c.newID = env.newID := newID_of_posted lits codec hposted
      have hingest : (ingest c).Under memory (ownPing asked c.newID)
          (fun ret s' => Told c s' ret) s := by
        refine ingest_under (fun hvalid => hasked c ⟨hpost, hposted, hvalid⟩) ?_
        rw [Unrecorded, hid]
        exact hnone
      rw [hid] at hingest
      refine hingest.bind fun ret s' _ htold s'' hs _ => ?_
      exact .ingested hpost hposted (htold.rely (by rw [hid]; exact hs))

/-- A request is answered after at most four calls of the interfaces. -/
theorem handler_within (env : Call K) (r : HttpRequest Text) :
    (handler lits codec env r).Within 4 := by
  have hpublish : ∀ c : Call K, (publishAndAck c).Within 1 := fun c => ⟨0, rfl, fun _ => trivial⟩
  have hadvance : ∀ c : Call K, (advanceAndPublish c).Within 2 :=
    fun c => ⟨1, rfl, fun _ => hpublish c⟩
  have hpersist : ∀ c : Call K, (persistAndPublish c).Within 3 := by
    refine fun c => ⟨2, rfl, fun err => ?_⟩
    cases err with
    | some err => trivial
    | none => exact hadvance c
  have hingest : ∀ c : Call K, (ingest c).Within 4 := by
    intro c
    rw [ingest]
    split
    · trivial
    · refine ⟨3, rfl, fun latest => ?_⟩
      show (if isStale c.ts latest then _ else _ : StoreProg K Return).Within 3
      split
      · trivial
      · exact hpersist c
  rw [handler_eq]
  split
  · trivial
  · cases posted lits codec env r with
    | none => trivial
    | some c => exact (hingest c).bind (n := 0) fun _ => trivial

/-! ## Requests side by side -/

section Pool

variable {ι : Type} [DecidableEq ι] (env : ι → Call K) (requests : ι → HttpRequest Text)

/-- The endpoint on fresh stores, with every request at its start. -/
def startRequests : Pool ι (StoreOp.Resp (K := K)) PingResponse (State K) :=
  ⟨fun i => handler lits codec (env i) (requests i), State.new⟩

/-- The endpoint after a schedule of its requests. -/
def endpointAfter (sched : List ι) : Pool ι (StoreOp.Resp (K := K)) PingResponse (State K) :=
  (startRequests lits codec env requests).exec memory sched

/-- The pings the requests ask for. -/
def Asked (c : Call K) : Prop := ∃ i, Asks lits codec (env i) (requests i) c

variable {env}

omit [LT K] [DecidableLT K] [DecidableEq ι] in
theorem ownPing_compatible (hids : Function.Injective fun i => (env i).newID)
    (asked : Call K → Prop) :
    Compatible memory (fun i => ownPing asked (env i).newID) (Accounted asked)
      fun i => Spares (env i).newID where
  inv_eq _ := rfl
  keeps _ _ _ hop hs := hs.memory hop
  within _ _ hji _ _ hs := ⟨hs.1 _ fun heq => hji (hids heq.symm), hs.2⟩

omit [DecidableEq ι] in
theorem startRequests_sound :
    (startRequests lits codec env requests).Sound memory
      (fun i => ownPing (Asked lits codec env requests) (env i).newID)
      (fun i response s => Truthful lits codec (env i) (requests i) s response)
      (Accounted (Asked lits codec env requests)) where
  inv := ⟨fun _ hp => absurd hp List.not_mem_nil, fun _ he => absurd he List.not_mem_nil⟩
  under i := handler_under lits codec (fun _ hc => ⟨i, hc⟩) rfl

/-- Requests under ids of their own, served side by side in any order: every answer given is true of
the stores, a request is answered once it has had four turns, and nothing is stored or published
that was not asked for. -/
theorem answers_true (hids : Function.Injective fun i => (env i).newID) (sched : List ι) :
    (∀ i response, (endpointAfter lits codec env requests sched).threads i = .ret response →
      Truthful lits codec (env i) (requests i)
        (endpointAfter lits codec env requests sched).shared response) ∧
    (∀ i, 4 ≤ sched.count i →
      ∃ response, (endpointAfter lits codec env requests sched).threads i = .ret response) ∧
    Accounted (Asked lits codec env requests)
      (endpointAfter lits codec env requests sched).shared := by
  have hfit := ownPing_compatible hids (Asked lits codec env requests)
  have hsound := (startRequests_sound lits codec requests).exec hfit sched
  refine ⟨fun i response hi => hsound.result hfit hi, fun i hcount => ?_, hsound.inv⟩
  have hwithin : ((startRequests lits codec env requests).threads i).Within (sched.count i) :=
    (handler_within lits codec (env i) (requests i)).mono hcount
  exact Pool.exec_returns memory hwithin

end Pool

/-! ## Two pings of one vehicle -/

/-- A ping of vehicle `V` at a second of 2024-01-01T00:00. -/
def postAt (second : String) : HttpRequest (Json (Int ⊕ Int)) where
  method := "POST"
  body := (PingPayload.mk "V" 47 (-122) ("2024-01-01T00:00:" ++ second ++ "Z") none).json tagged

/-- The later ping comes first. -/
def twoPosts : Fin 2 → HttpRequest (Json (Int ⊕ Int))
  | 0 => postAt "20"
  | 1 => postAt "10"

/-- One ping posted twice, under two ids. -/
def twoIds : Fin 2 → Call Int
  | 0 => pingStoredAs "a"
  | 1 => pingStoredAs "b"

/-- The other is answered as stale, and that is true. -/
theorem twoPosts_answered :
    Truthful tagged (Json.Codec.document _) (twoIds 1) (twoPosts 1)
      (endpointAfter tagged (Json.Codec.document _) twoIds twoPosts [0, 0, 0, 0, 1]).shared
      ⟨409, false, "", "stale-ping", []⟩ := by
  have hids : ∀ i j, (twoIds i).newID = (twoIds j).newID → i = j := by decide
  exact (answers_true tagged (Json.Codec.document _) twoPosts (fun i j => hids i j)
    [0, 0, 0, 0, 1]).1 1 _ rfl

end FleetCommand.Ingestion
