import FleetCommand.Geofence.Geometry
import FleetCommand.Lib.GoMap
import FleetCommand.Lib.Resumption
import Mathlib.Data.List.Sort
import Mathlib.Data.String.Basic

/-!
# The geofence engine

`onAcceptedPing` evaluates one accepted ping as a program over the engine's interfaces: the zone
catalog, the membership store and the publisher (`EngineOp`). Each interface call is one atomic
step; between two calls other pings may be evaluated. `engine` is the implementation with the
in-memory membership store.

What the environment decides about one ping is part of its `PingCall`: the zones the catalog holds
when it is asked, or its failure; what `Lookup` answers; the order in which the two maps are ranged
over; and the errors `Publish` returns. `Lookup` reads only the catalog, which the engine never
writes, so its answer is data of the call and not a step.
-/

set_option autoImplicit false

namespace FleetCommand.Geofence

open Resumption

variable {K : Type}

/-- An error value; its text. -/
abbrev Error := String

/-- An instant: nanoseconds since the Unix epoch. -/
abbrev Time := Int

/-- A geo-fence region. -/
structure Zone (K : Type) where
  id : String
  arrivalLabel : Option String
  polygon : Polygon K

/-- The queue event the engine consumes. -/
structure AcceptedPing (K : Type) where
  pingID : String
  vehicleID : String
  driverID : String
  lat : K
  lng : K
  timestamp : Time

/-- Where the ping was sent from. -/
def AcceptedPing.point (p : AcceptedPing K) : Point K := ⟨p.lat, p.lng⟩

/-- Whether a zone is entered or left. -/
inductive EventType where
  | enter
  | exit
  deriving DecidableEq

/-- A generated geo-fence event. -/
structure ZoneEvent where
  vehicleID : String
  zoneID : String
  type : EventType
  label : Option String
  timestamp : Time
  deriving DecidableEq

/-! ## The membership store -/

/-- The in-memory membership store: vehicle id, zone id, inside. -/
structure MemoryMembership where
  inside : GoMap String (GoMap String Bool)

namespace MemoryMembership

/-- No vehicle in any zone. -/
def new : MemoryMembership := ⟨∅⟩

/-- The zone map of a vehicle; a missing one reads as empty. -/
def zonesOf (m : MemoryMembership) (vehicleID : String) : GoMap String Bool :=
  (m.inside.lookup vehicleID).getD ∅

/-- The set of zones the vehicle is recorded as inside. -/
def insideZones (m : MemoryMembership) (vehicleID : String) : Finset String :=
  (m.zonesOf vehicleID).keys.filter fun z => (m.zonesOf vehicleID).lookup z = some true

/-- Records the vehicle's membership for a zone. -/
def set (m : MemoryMembership) (vehicleID zoneID : String) (inside : Bool) : MemoryMembership :=
  ⟨m.inside.set vehicleID ((m.zonesOf vehicleID).set zoneID inside)⟩

theorem mem_insideZones (m : MemoryMembership) (v z : String) :
    z ∈ m.insideZones v ↔ (m.zonesOf v).lookup z = some true := by
  simp only [insideZones, Finset.mem_filter, GoMap.mem_keys_iff, and_iff_right_iff_imp]
  exact fun h => ⟨true, h⟩

@[simp] theorem insideZones_new (v : String) : new.insideZones v = ∅ := rfl

theorem zonesOf_set (m : MemoryMembership) (v z w : String) (b : Bool) :
    (m.set v z b).zonesOf w = if w = v then (m.zonesOf v).set z b else m.zonesOf w := by
  simp only [zonesOf, set, GoMap.lookup_set]
  split <;> rfl

/-- A `Set` changes the membership of one vehicle in one zone. -/
theorem mem_insideZones_set (m : MemoryMembership) (v z w y : String) (b : Bool) :
    y ∈ (m.set v z b).insideZones w ↔
      if w = v ∧ y = z then b = true else y ∈ m.insideZones w := by
  rw [mem_insideZones, mem_insideZones, zonesOf_set]
  by_cases hw : w = v
  · subst hw
    by_cases hy : y = z
    · simp [hy, GoMap.lookup_set]
    · simp [hy, GoMap.lookup_set]
  · simp [hw]

end MemoryMembership

/-! ## The interfaces -/

/-- A call of one of the engine's interfaces. `containing` carries the catalog's answer and
`publish` the error the publisher returns. -/
inductive EngineOp (K : Type) where
  | containing (answer : Except Error (List (Zone K)))
  | insideZones (vehicleID : String)
  | set (vehicleID zoneID : String) (inside : Bool)
  | publish (e : ZoneEvent) (err : Option Error)

/-- What the calls answer. -/
@[reducible] def EngineOp.Resp : EngineOp K → Type
  | .containing _ => Except Error (List (Zone K))
  | .insideZones _ => Finset String
  | .set _ _ _ => Unit
  | .publish _ _ => Option Error

/-- The membership store, and the calls of `Publish` in order with what they returned. -/
structure State where
  members : MemoryMembership
  publishCalls : List (ZoneEvent × Option Error)

/-- An empty membership store, nothing published. -/
def State.new : State := ⟨MemoryMembership.new, []⟩

/-- The implementation with the in-memory membership store. -/
def engine : Handler (EngineOp.Resp (K := K)) State
  | .containing answer, s => (answer, s)
  | .insideZones v, s => (s.members.insideZones v, s)
  | .set v z b, s => ((), { s with members := s.members.set v z b })
  | .publish e err, s => (err, { s with publishCalls := s.publishCalls ++ [(e, err)] })

/-- A program over the engine's interfaces. -/
abbrev EngineProg (K : Type) (α : Type) := Prog (EngineOp.Resp (K := K)) α

/-- A call of one of the engine's interfaces. -/
def perform (op : EngineOp K) : EngineProg K op.Resp := Prog.perform op

/-! ## Evaluating a ping -/

/-- One ping and what the environment decides about it. -/
structure PingCall (K : Type) where
  ping : AcceptedPing K
  /-- The zones of the catalog when it is asked, or its failure. -/
  zones : Except Error (List (Zone K))
  /-- What `Lookup` answers for a zone id. -/
  lookup : String → Except Error (Option (Zone K))
  enterOrder : RangeOrder String
  exitOrder : RangeOrder String
  publishErr : ZoneEvent → Option Error

/-- `less` of the event order: by zone id, then by type (`Enter` before `Exit`). -/
def eventLess (a b : ZoneEvent) : Bool :=
  if a.zoneID ≠ b.zoneID then decide (a.zoneID < b.zoneID)
  else decide (a.type = .enter ∧ b.type = .exit)

/-- `sort.SliceStable` by `eventLess`. -/
def sortEvents (events : List ZoneEvent) : List ZoneEvent :=
  events.insertionSort fun a b => eventLess b a = false

/-- The zones containing the point by id; a zone listed again replaces the earlier one. -/
def currentZones (containing : List (Zone K)) : GoMap String (Zone K) :=
  containing.foldl (fun m z => m.set z.id z) ∅

/-- The event for a zone newly containing the point. -/
def PingCall.enterEvent (c : PingCall K) (current : GoMap String (Zone K)) (id : String) :
    ZoneEvent where
  vehicleID := c.ping.vehicleID
  zoneID := id
  type := .enter
  label := (current.lookup id).bind Zone.arrivalLabel
  timestamp := c.ping.timestamp

/-- The event for a zone left; the label is absent when `Lookup` fails or finds nothing. -/
def PingCall.exitEvent (c : PingCall K) (id : String) : ZoneEvent where
  vehicleID := c.ping.vehicleID
  zoneID := id
  type := .exit
  label := match c.lookup id with
    | .ok (some z) => z.arrivalLabel
    | _ => none
  timestamp := c.ping.timestamp

/-- The loop over the current zones: an event and a `Set` for each zone not in `prior`. -/
def enterLoop (c : PingCall K) (current : GoMap String (Zone K)) (prior : Finset String) :
    List String → EngineProg K (List ZoneEvent)
  | [] => return []
  | id :: ids => do
    if id ∈ prior then
      enterLoop c current prior ids
    else
      perform (.set c.ping.vehicleID id true)
      let events ← enterLoop c current prior ids
      return c.enterEvent current id :: events

/-- The loop over the prior zones: an event and a `Set` for each zone not in `current`. -/
def exitLoop (c : PingCall K) (current : GoMap String (Zone K)) :
    List String → EngineProg K (List ZoneEvent)
  | [] => return []
  | id :: ids => do
    if id ∈ current.keys then
      exitLoop c current ids
    else
      perform (.set c.ping.vehicleID id false)
      let events ← exitLoop c current ids
      return c.exitEvent id :: events

/-- The publish loop; an error is only logged. -/
def publishLoop (c : PingCall K) : List ZoneEvent → EngineProg K Unit
  | [] => return ()
  | ev :: evs => do
    let _ ← perform (.publish ev (c.publishErr ev))
    publishLoop c evs

/-- `onAcceptedPing` after the read of the prior membership. -/
def diffAndPublish (c : PingCall K) (current : GoMap String (Zone K)) (prior : Finset String) :
    EngineProg K (Except Error (List ZoneEvent)) := do
  let entered ← enterLoop c current prior (c.enterOrder.list current.keys)
  let left ← exitLoop c current (c.exitOrder.list prior)
  let events := sortEvents (entered ++ left)
  publishLoop c events
  return .ok events

/-- `onAcceptedPing` after the catalog has answered. -/
def readAndDiff (c : PingCall K) (containing : List (Zone K)) :
    EngineProg K (Except Error (List ZoneEvent)) := do
  let prior ← perform (.insideZones c.ping.vehicleID)
  diffAndPublish c (currentZones containing) prior

section Evaluate

variable [Add K] [Sub K] [Mul K] [Div K] [Neg K] [LT K] [DecidableLT K] [Min K] [Max K] [BEq K]
  [IntCast K]

/-- The catalog's answer: every zone whose polygon includes the point. -/
def PingCall.containing (c : PingCall K) : Except Error (List (Zone K)) :=
  c.zones.map fun zones => zones.filter fun z => z.polygon.containsInclusive c.ping.point

/-- Evaluates one accepted ping and returns the generated events. -/
def onAcceptedPing (c : PingCall K) : EngineProg K (Except Error (List ZoneEvent)) := do
  match ← perform (.containing c.containing) with
  | .error e => return .error e
  | .ok containing => readAndDiff c containing

end Evaluate

end FleetCommand.Geofence
