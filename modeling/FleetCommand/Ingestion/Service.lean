import FleetCommand.Ingestion.Ping
import FleetCommand.Lib.GoMap
import FleetCommand.Lib.Resumption

/-!
# The ingestion service

`ingest` is the per-ping hot path as a program over the three interfaces it works with: the
high-water mark, the store and the publisher (`StoreOp`). Each interface call is one atomic step;
between two calls other requests may run. `memory` is the in-memory implementation of the
interfaces.

What the environment decides about one request is part of the request's `Call`: the id and clock
readings, the driver the resolver finds, and the errors `Persist` and `Publish` return.
-/

set_option autoImplicit false

namespace FleetCommand.Ingestion

open Resumption

variable {K : Type}

/-- An error value; its text. -/
abbrev Error := String

/-- The persisted form of an accepted ping. -/
structure StoredPing (K : Type) where
  id : String
  vehicleID : String
  driverID : String
  lat : K
  lng : K
  timestamp : Time
  receivedAt : Time
  telemetry : Option (Telemetry K)
  deriving DecidableEq

/-- The event published after a ping is persisted. -/
structure AcceptedPingEvent (K : Type) where
  pingID : String
  vehicleID : String
  driverID : String
  lat : K
  lng : K
  timestamp : Time
  telemetry : Option (Telemetry K)
  deriving DecidableEq

/-! ## The in-memory stores -/

/-- The in-memory store: the map by id and the count, as in the source, and the sequence of
successful `Persist` calls, which the source does not keep. -/
structure MemoryStore (K : Type) where
  byID : GoMap String (StoredPing K)
  count : Nat
  persisted : List (StoredPing K)

namespace MemoryStore

/-- An empty store. -/
def new : MemoryStore K := ⟨∅, 0, []⟩

/-- The ping is stored under its id. -/
def persist (m : MemoryStore K) (p : StoredPing K) : MemoryStore K :=
  ⟨m.byID.set p.id p, m.count + 1, m.persisted ++ [p]⟩

/-- The ping of an id. -/
def get (m : MemoryStore K) (id : String) : Option (StoredPing K) := m.byID.lookup id

/-- The timestamps persisted for a vehicle, in persist order. -/
def timestamps (m : MemoryStore K) (vehicleID : String) : List Time :=
  (m.persisted.filter fun p => p.vehicleID = vehicleID).map StoredPing.timestamp

@[simp] theorem timestamps_new (v : String) : (new : MemoryStore K).timestamps v = [] := rfl

@[simp] theorem timestamps_persist (m : MemoryStore K) (p : StoredPing K) (v : String) :
    (m.persist p).timestamps v =
      if p.vehicleID = v then m.timestamps v ++ [p.timestamp] else m.timestamps v := by
  by_cases h : p.vehicleID = v <;> simp [timestamps, persist, List.filter_append, h]

end MemoryStore

/-- The in-memory high-water mark. -/
structure MemoryHighWaterMark where
  marks : GoMap String Time

namespace MemoryHighWaterMark

/-- No vehicle has a mark. -/
def new : MemoryHighWaterMark := ⟨∅⟩

/-- The mark of a vehicle. -/
def latest (h : MemoryHighWaterMark) (vehicleID : String) : Option Time := h.marks.lookup vehicleID

/-- Records `ts` as the vehicle's mark when there is none or it is later than the current one. -/
def advance (h : MemoryHighWaterMark) (vehicleID : String) (ts : Time) : MemoryHighWaterMark :=
  match h.marks.lookup vehicleID with
  | none => ⟨h.marks.set vehicleID ts⟩
  | some cur => if cur < ts then ⟨h.marks.set vehicleID ts⟩ else h

@[simp] theorem latest_new (v : String) : new.latest v = none := rfl

/-- The mark after an advance: the later of the old mark and the new timestamp. -/
theorem latest_advance (h : MemoryHighWaterMark) (v w : String) (ts : Time) :
    (h.advance v ts).latest w =
      if w = v then some ((h.latest v).elim ts fun cur => max cur ts) else h.latest w := by
  unfold advance latest
  cases hc : h.marks.lookup v with
  | none => simp [GoMap.lookup_set]
  | some cur =>
    by_cases hlt : cur < ts
    · simp [hlt, GoMap.lookup_set, max_eq_right hlt.le]
    · by_cases hw : w = v
      · subst hw
        simp [hlt, hc, max_eq_left (not_lt.1 hlt)]
      · simp [hlt, hw]

end MemoryHighWaterMark

/-- The publisher that records the events it took. -/
structure CollectingPublisher (K : Type) where
  events : List (AcceptedPingEvent K)

/-- A publish that fails records nothing. -/
def CollectingPublisher.publish (c : CollectingPublisher K) (e : AcceptedPingEvent K)
    (err : Option Error) : CollectingPublisher K :=
  if err.isNone then ⟨c.events ++ [e]⟩ else c

/-! ## The interfaces -/

/-- A call of one of the service's interfaces. `persist` and `publish` carry the error the
implementation returns; a failed `Persist` stores nothing. -/
inductive StoreOp (K : Type) where
  | latest (vehicleID : String)
  | persist (p : StoredPing K) (err : Option Error)
  | advance (vehicleID : String) (ts : Time)
  | publish (e : AcceptedPingEvent K) (err : Option Error)
  deriving DecidableEq

/-- What the calls answer. -/
@[reducible] def StoreOp.Resp : StoreOp K → Type
  | .latest _ => Option Time
  | .persist _ _ => Option Error
  | .advance _ _ => Unit
  | .publish _ _ => Option Error

/-- What the interfaces of one service hold. -/
structure State (K : Type) where
  store : MemoryStore K
  hwm : MemoryHighWaterMark
  publisher : CollectingPublisher K

/-- A fresh store, high-water mark and publisher. -/
def State.new : State K := ⟨MemoryStore.new, MemoryHighWaterMark.new, ⟨[]⟩⟩

/-- The in-memory implementation of the interfaces. -/
def memory : Handler (StoreOp.Resp (K := K)) (State K)
  | .latest v, s => (s.hwm.latest v, s)
  | .persist p err, s => (err, { s with store := if err.isNone then s.store.persist p else s.store })
  | .advance v ts, s => ((), { s with hwm := s.hwm.advance v ts })
  | .publish e err, s => (err, { s with publisher := s.publisher.publish e err })

/-! ## Ingest -/

/-- The classification of an ingestion attempt. -/
inductive Outcome where
  | accepted
  | invalid
  | stale
  deriving DecidableEq

/-- The outcome of `ingest`. -/
structure Result where
  status : Outcome
  pingID : String
  fields : List String
  deriving DecidableEq

/-- Go's zero `Result`. -/
def Result.zero : Result := ⟨.accepted, "", []⟩

/-- One request and what the environment decides about it. -/
structure Call (K : Type) where
  req : PingRequest K
  /-- The driver the resolver finds for the vehicle, when one is configured. -/
  driverForVehicle : Option String
  newID : String
  now : Time
  persistErr : Option Error
  publishErr : Option Error
  deriving DecidableEq

namespace Call

/-- `*req.VehicleID`; read only after validation, where it is not nil. -/
def vehicleID (c : Call K) : String := c.req.vehicleID.getD ""

/-- The event timestamp; read only after validation, where it parses. -/
def ts (c : Call K) : Time := (c.req.timestamp.bind parseTimestamp).getD 0

variable [IntCast K]

/-- The record `Persist` is given. The coordinates are not nil after validation. -/
def stored (c : Call K) : StoredPing K where
  id := c.newID
  vehicleID := c.vehicleID
  driverID := c.driverForVehicle.getD ""
  lat := c.req.lat.getD ((0 : Int) : K)
  lng := c.req.lng.getD ((0 : Int) : K)
  timestamp := c.ts
  receivedAt := c.now
  telemetry := c.req.telemetry

/-- The event published for the record. -/
def event (c : Call K) : AcceptedPingEvent K where
  pingID := c.stored.id
  vehicleID := c.stored.vehicleID
  driverID := c.stored.driverID
  lat := c.stored.lat
  lng := c.stored.lng
  timestamp := c.stored.timestamp
  telemetry := c.stored.telemetry

@[simp] theorem stored_vehicleID (c : Call K) : c.stored.vehicleID = c.vehicleID := rfl

@[simp] theorem stored_timestamp (c : Call K) : c.stored.timestamp = c.ts := rfl

end Call

/-- What `ingest` returns: the result and the error. -/
abbrev Return := Result × Option Error

/-- `ts.Before(latest)`, when there is a mark. -/
def isStale (ts : Time) : Option Time → Bool
  | none => false
  | some latest => decide (ts < latest)

/-- A program over the service's interfaces. -/
abbrev StoreProg (K : Type) (α : Type) := Prog (StoreOp.Resp (K := K)) α

/-- A call of one of the service's interfaces. -/
def perform (op : StoreOp K) : StoreProg K op.Resp := Prog.perform op

variable [LT K] [DecidableLT K] [IntCast K]

/-- `ingest` after the mark has been advanced: publish, whose error is only logged, and return. -/
def publishAndAck (c : Call K) : StoreProg K Return := do
  let _ ← perform (.publish c.event c.publishErr)
  return (⟨.accepted, c.stored.id, []⟩, none)

/-- `ingest` after a successful persist. -/
def advanceAndPublish (c : Call K) : StoreProg K Return := do
  perform (.advance c.vehicleID c.ts)
  publishAndAck c

/-- `ingest` after the staleness test. -/
def persistAndPublish (c : Call K) : StoreProg K Return := do
  match ← perform (.persist c.stored c.persistErr) with
  | some err => return (Result.zero, some err)
  | none => advanceAndPublish c

/-- Validates, orders, persists and publishes a single ping. -/
def ingest (c : Call K) : StoreProg K Return := do
  let fields := validate c.req
  if fields ≠ [] then
    return (⟨.invalid, "", fields⟩, none)
  else
    let latest ← perform (.latest c.vehicleID)
    if isStale c.ts latest then
      return (⟨.stale, "", []⟩, none)
    else
      persistAndPublish c

end FleetCommand.Ingestion
