import FleetCommand.Management.Services
import Mathlib.Data.Finset.Card

/-!
# The management service: routes

The route builder (`isExactCover`, `assignedOrderStops`, `optimizedStops`) and `RouteService`. What
the location provider and the optimizer answer, or that they fail or do not answer in time, is an
argument.
-/

set_option autoImplicit false

namespace FleetCommand.Management

open Resumption

/-! ## The route builder -/

/-- The delivery shape the route builder needs. -/
structure RoutableDelivery where
  id : String
  destination : GeoPoint

/-- The numbers of stops the optimizer is asked for. -/
def optimizeMinStops : Nat := 2
def optimizeMaxStops : Nat := 50

/-- The loop of `isExactCover`: every id is expected and none was seen before; the ids seen. -/
def coverLoop (expected : Finset String) (seen : Finset String) :
    List String → Option (Finset String)
  | [] => some seen
  | id :: rest =>
    if id ∉ expected then none
    else if id ∈ seen then none
    else coverLoop expected (insert id seen) rest

/-- The sequence has every expected id once and no other. -/
def isExactCover (sequence expectedIds : List String) : Bool :=
  if sequence.length ≠ expectedIds.length then false
  else match coverLoop expectedIds.toFinset ∅ sequence with
    | some seen => seen.card = expectedIds.toFinset.card
    | none => false

/-- One stop for each delivery, in the given order. -/
def assignedOrderStops (deliveries : List RoutableDelivery) : List RouteStop :=
  deliveries.mapIdx fun index d => ⟨index, [d.id], d.destination.lat, d.destination.lng⟩

/-- `new Map(deliveries.map(d => [d.id, d]))`. -/
def byId (deliveries : List RoutableDelivery) : InsertionMap String RoutableDelivery :=
  deliveries.foldl (fun m d => m.set d.id d) .empty

/-- The group key of each grouped delivery: the first member of its group, of the last group that
has it. Ids of no delivery are dropped. -/
def groupKeys (deliveries : InsertionMap String RoutableDelivery) (groups : List (List String)) :
    InsertionMap String String :=
  groups.foldl (fun m group =>
    let members := group.filter fun id => (deliveries.get? id).isSome
    -- a group without a known delivery sets no key
    match members.head? with
    | none => m
    | some key => members.foldl (fun m id => m.set id key) m) .empty

/-- A delivery added to a stop. -/
def RouteStop.addDelivery (stop : RouteStop) (id : String) : RouteStop :=
  if id ∈ stop.deliveryIds then stop else { stop with deliveryIds := stop.deliveryIds ++ [id] }

/-- What the loop of `optimizedStops` has built: the stops, and the position of the stop of each
key. -/
structure StopsBuilt where
  stops : List RouteStop
  stopByKey : InsertionMap String Nat

/-- One turn of the loop of `optimizedStops`. -/
def stopsStep (deliveries : InsertionMap String RoutableDelivery)
    (groupKeyOf : InsertionMap String String) (b : StopsBuilt) (id : String) : StopsBuilt :=
  match deliveries.get? id with
  | none => b
  | some delivery =>
    -- a delivery in no group is its own key
    let key := (groupKeyOf.get? id).getD id
    match b.stopByKey.get? key with
    | some position => { b with stops := b.stops.modify position fun stop => stop.addDelivery id }
    | none =>
      { stops := b.stops ++
          [⟨b.stops.length, [id], delivery.destination.lat, delivery.destination.lng⟩]
        stopByKey := b.stopByKey.set key b.stops.length }

/-- The stops of the optimizer's sequence, the deliveries of a group at one stop. -/
def optimizedStops (sequence : List String) (groups : List (List String))
    (deliveries : List RoutableDelivery) : List RouteStop :=
  let known := byId deliveries
  (sequence.foldl (stopsStep known (groupKeys known groups)) ⟨[], .empty⟩).stops

/-! ## The route service -/

/-- The optimizer's reply; the groups may be absent. -/
structure OptimizeResponse where
  sequence : List String
  groups : Option (List (List String))

/-- What the collaborators do during one `createOrUpdateRoute`. -/
structure Collaborators where
  /-- The vehicle's location, that there is none, or that the provider fails. -/
  origin : Except Unit (Option GeoPoint)
  /-- The optimizer's reply; `none` when it rejects or does not answer in time. -/
  optimized : Option OptimizeResponse
  /-- Whether the publisher rejects. -/
  publishFails : Bool

/-- The stops of a route to store. -/
structure BuiltStops where
  stops : List RouteStop
  optimized : Bool
  overLimit : Bool

/-- The outcome of building or updating a route. -/
structure RouteResult where
  route : Route
  overLimit : Bool
  message : Option ErrorEnvelope

variable (cfg : Config) (call : Call)

namespace RouteService

/-- The optimizer's reply; `none` where the source's `try` block throws. -/
def requestOptimization (env : Collaborators) : Service (Option OptimizeResponse) := do
  await .external
  match env.origin with
  | .error _ => return none
  | .ok none => return none
  | .ok (some _) => do
    await .external
    return env.optimized

/-- The optimizer's stops where its reply covers the deliveries, else those in assigned order. -/
def buildStops (env : Collaborators) (routable : List RoutableDelivery) : Service BuiltStops :=
  if optimizeMaxStops < routable.length then return ⟨assignedOrderStops routable, false, true⟩
  else if routable.length < optimizeMinStops then return ⟨assignedOrderStops routable, true, false⟩
  else do
    let reply ← requestOptimization env
    match reply with
    | none => return ⟨assignedOrderStops routable, false, false⟩
    | some response =>
      if isExactCover response.sequence (routable.map RoutableDelivery.id) then
        return ⟨optimizedStops response.sequence (response.groups.getD []) routable, true, false⟩
      else return ⟨assignedOrderStops routable, false, false⟩

/-- The route record a build stores; a rebuild keeps the id and the creation time. -/
def routeRecord (assignmentId : String) (built : BuiltStops) (now : Instant)
    (existing : Option Route) : Route where
  id := (existing.map Route.id).getD (cfg.routeId.gen call.seq)
  assignmentId := assignmentId
  stops := built.stops
  optimized := built.optimized
  currentStop := 0
  createdAt := (existing.map Route.createdAt).getD now
  updatedAt := now

/-- The route of an assignment is built, stored and published. -/
def createOrUpdateRoute (env : Collaborators) (assignmentId : String) : Service RouteResult := do
  let _ ← AssignmentService.requireAssignment assignmentId
  -- read before the optimizer is asked, and not again
  let deliveries ← await (.listDeliveriesByAssignmentId assignmentId)
  let built ← buildStops env (deliveries.map fun d => ⟨d.id, d.destination⟩)
  let now ← ofResult (toIso call.now)
  let existing ← await (.findRouteByAssignmentId assignmentId)
  let route := routeRecord cfg call assignmentId built now existing
  -- the route is stored before it is published, so a publisher that fails leaves it there
  await (.upsertRoute route)
  await (.publishRoute ⟨assignmentId, route.stops, route.optimized⟩)
  if env.publishFails then throw .other
  else return ⟨route, built.overLimit,
    if built.overLimit then some (makeError .overLimit []) else none⟩

/-- The route is built anew. -/
def reoptimize (env : Collaborators) (assignmentId : String) : Service RouteResult :=
  createOrUpdateRoute cfg call env assignmentId

/-- The assignment is completed and its driver freed once every delivery is terminal. -/
def completeIfAllStopsTerminal (assignmentId : String) : Service Bool := do
  let assignment ← AssignmentService.requireAssignment assignmentId
  let deliveries ← await (.listDeliveriesByAssignmentId assignmentId)
  if deliveries = [] then return false
  else if deliveries.all (fun d => isTerminal d.status) then do
    let now ← ofResult (toIso call.now)
    -- an assignment that is `Complete` already is not told apart here
    await (.saveAssignment { assignment with status := .complete })
    let found ← await (.findDriverById assignment.driverId)
    match found with
    | none => return true
    | some driver =>
      if driver.status = .onDelivery then do
        await (.saveDriver { driver with status := .available, updatedAt := now })
        return true
      else return true
  else return false

end RouteService

end FleetCommand.Management
