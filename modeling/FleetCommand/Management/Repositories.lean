import FleetCommand.Lib.InsertionMap
import FleetCommand.Lib.Resumption
import FleetCommand.Management.Common

/-!
# The management service: records and repositories

The records, the in-memory repositories, and the interface the services call (`RepoOp`): every
awaited repository call is one atomic step, and so is the code between two of them that touches
state a service keeps itself (the driver service's `lastStamp`). Calls of the injected collaborators
touch none of this state; they are steps because other requests run meanwhile.
-/

set_option autoImplicit false

namespace FleetCommand.Management

open Resumption

/-- A driver. -/
structure Driver where
  id : String
  name : String
  email : String
  phone : String
  licenseNumber : String
  status : DriverStatus
  active : Bool
  createdAt : Instant
  updatedAt : Instant
  deriving DecidableEq

/-- A vehicle, and the driver it is associated with. -/
structure Vehicle where
  id : String
  identifier : String
  type : String
  capacityKg : JsNumber
  driverId : Option String
  associatedAt : Option Instant
  createdAt : Instant
  deriving DecidableEq

/-- A delivery, and the assignment it is linked to. -/
structure Delivery where
  id : String
  address : String
  recipientName : String
  recipientContact : String
  weightKg : JsNumber
  destination : GeoPoint
  status : DeliveryStatus
  trackingToken : String
  assignmentId : Option String
  failureReason : Option String
  completedAt : Option Instant
  createdAt : Instant
  updatedAt : Instant
  deriving DecidableEq

/-- An assignment of deliveries to a driver and its vehicle. -/
structure Assignment where
  id : String
  driverId : String
  vehicleId : String
  status : AssignmentStatus
  acceptedAt : Option Instant
  createdAt : Instant
  deriving DecidableEq

/-- Not `Complete`. -/
def isActiveAssignment (a : Assignment) : Bool := a.status ≠ .complete

/-- A stop of a route, with the deliveries made there. -/
structure RouteStop where
  stopIndex : Nat
  deliveryIds : List String
  lat : JsNumber
  lng : JsNumber
  deriving DecidableEq

/-- The route of an assignment. -/
structure Route where
  id : String
  assignmentId : String
  stops : List RouteStop
  optimized : Bool
  /-- Index of the next stop to visit. -/
  currentStop : Nat
  createdAt : Instant
  updatedAt : Instant
  deriving DecidableEq

/-- What is published of a route. -/
structure RouteUpdateEvent where
  assignmentId : String
  stops : List RouteStop
  optimized : Bool
  deriving DecidableEq

/-! ## What the deployment provides -/

/-- A source of ids that never repeats one. -/
structure IdGenerator where
  gen : Nat → String
  injective : ∀ {m n}, gen m = gen n → m = n
  nonempty : ∀ n, gen n ≠ ""

/-- Ids that are ever longer runs of one letter. -/
def IdGenerator.unary (c : Char) : IdGenerator where
  gen n := String.ofList (List.replicate (n + 1) c)
  injective := by
    intro m n h
    have hlength := congrArg (fun s : String => s.toList.length) h
    simpa using hlength
  nonempty n h := by
    have hlength := congrArg (fun s : String => s.toList.length) h
    simp at hlength

/-- The platform's case mapping and each service's id source. -/
structure Config where
  toLowerCase : String → String
  driverId : IdGenerator
  vehicleId : IdGenerator
  deliveryId : IdGenerator
  assignmentId : IdGenerator
  routeId : IdGenerator
  trackingToken : Nat → String

/-- A deployment with ASCII case mapping and unary ids. -/
def Config.unary : Config where
  toLowerCase := String.toLower
  driverId := .unary 'd'
  vehicleId := .unary 'v'
  deliveryId := .unary 'p'
  assignmentId := .unary 'a'
  routeId := .unary 'r'
  trackingToken n := String.ofList (List.replicate (n + 1) 't')

/-- One service call: what the clock reads in it and which of the generated ids it takes. -/
structure Call where
  now : Int
  seq : Nat

/-! ## The repositories -/

/-- The drivers by id, and their ids by email in lower case. -/
structure DriverRepository where
  byId : InsertionMap String Driver
  emailIndex : InsertionMap String String

/-- The vehicles by id, and their ids by identifier key. -/
structure VehicleRepository where
  byId : InsertionMap String Vehicle
  identifierIndex : InsertionMap String String

/-- The stored records, what the driver service keeps, and the routes published. -/
structure Repos where
  drivers : DriverRepository
  lastStamp : InsertionMap String Int
  vehicles : VehicleRepository
  deliveries : InsertionMap String Delivery
  assignments : InsertionMap String Assignment
  routes : InsertionMap String Route
  publishCalls : List RouteUpdateEvent

/-- Empty repositories. -/
def Repos.new : Repos where
  drivers := ⟨.empty, .empty⟩
  lastStamp := .empty
  vehicles := ⟨.empty, .empty⟩
  deliveries := .empty
  assignments := .empty
  routes := .empty
  publishCalls := []

variable (cfg : Config)

/-- `insert` and `save` of the driver repository. -/
def DriverRepository.save (r : DriverRepository) (d : Driver) : DriverRepository where
  byId := r.byId.set d.id d
  emailIndex := r.emailIndex.set (cfg.toLowerCase d.email) d.id

/-- The driver the index has for an email. -/
def DriverRepository.findByEmail (r : DriverRepository) (email : String) : Option Driver :=
  match r.emailIndex.get? (cfg.toLowerCase email) with
  | some id => if id = "" then none else r.byId.get? id
  | none => none

/-- The case-insensitive key of a vehicle identifier. -/
def identifierKey (identifier : String) : String := cfg.toLowerCase (trim identifier)

/-- `insert` and `save` of the vehicle repository. -/
def VehicleRepository.save (r : VehicleRepository) (v : Vehicle) : VehicleRepository where
  byId := r.byId.set v.id v
  identifierIndex := r.identifierIndex.set (identifierKey cfg v.identifier) v.id

/-- The vehicle the index has for an identifier. -/
def VehicleRepository.findByIdentifier (r : VehicleRepository) (identifier : String) :
    Option Vehicle :=
  match r.identifierIndex.get? (identifierKey cfg identifier) with
  | some id => if id = "" then none else r.byId.get? id
  | none => none

/-- The first vehicle associated with the driver. -/
def VehicleRepository.findByDriverId (r : VehicleRepository) (driverId : String) : Option Vehicle :=
  r.byId.values.find? fun v => v.driverId = some driverId

/-- The deliveries of an assignment, in the order of their creation. -/
def listByAssignmentId (deliveries : InsertionMap String Delivery) (assignmentId : String) :
    List Delivery :=
  deliveries.values.filter fun d => d.assignmentId = some assignmentId

/-- The stamp of a change of a driver: the clock's reading, or just after the last stamp given or
stored where the clock is not past it. -/
def nextStampFor (lastStamp : InsertionMap String Int) (now : Int) (current : Driver) : Int :=
  match lastStamp.get? current.id with
  | some prevTracked => max now (max (prevTracked + 1) (current.updatedAt.ms + 1))
  | none => max now (current.updatedAt.ms + 1)

/-! ## The interface -/

/-- An awaited call. `insertNewDriver` and `stampAndSaveDriver` include what the driver service does
to its `lastStamp` on the way; `external` is a call of an injected collaborator. -/
inductive RepoOp where
  | insertNewDriver (now : Int) (d : Driver)
  | findDriverById (id : String)
  | findDriverByEmail (email : String)
  | saveDriver (d : Driver)
  | stampAndSaveDriver (now : Int) (d : Driver)
  | insertVehicle (v : Vehicle)
  | findVehicleById (id : String)
  | findVehicleByIdentifier (identifier : String)
  | findVehicleByDriverId (driverId : String)
  | saveVehicle (v : Vehicle)
  | insertDelivery (d : Delivery)
  | findDeliveryById (id : String)
  | saveDelivery (d : Delivery)
  | listDeliveriesByAssignmentId (assignmentId : String)
  | insertAssignment (a : Assignment)
  | findAssignmentById (id : String)
  | saveAssignment (a : Assignment)
  | findRouteByAssignmentId (assignmentId : String)
  | upsertRoute (r : Route)
  | publishRoute (e : RouteUpdateEvent)
  | external

/-- What the calls answer. -/
@[reducible] def RepoOp.Resp : RepoOp → Type
  | .findDriverById _ => Option Driver
  | .findDriverByEmail _ => Option Driver
  | .stampAndSaveDriver _ _ => Except Thrown Driver
  | .findVehicleById _ => Option Vehicle
  | .findVehicleByIdentifier _ => Option Vehicle
  | .findVehicleByDriverId _ => Option Vehicle
  | .findDeliveryById _ => Option Delivery
  | .listDeliveriesByAssignmentId _ => List Delivery
  | .findAssignmentById _ => Option Assignment
  | .findRouteByAssignmentId _ => Option Route
  | _ => Unit

/-- The state after a driver change is stamped and, when the stamp is a valid time, saved. -/
def Repos.stampAndSave (s : Repos) (now : Int) (d : Driver) : Except Thrown Driver × Repos :=
  let stamp := nextStampFor s.lastStamp now d
  let s := { s with lastStamp := s.lastStamp.set d.id stamp }
  match toIso stamp with
  | .ok iso =>
    (.ok { d with updatedAt := iso },
      { s with drivers := s.drivers.save cfg { d with updatedAt := iso } })
  | .error e => (.error e, s)

/-- The in-memory repositories. -/
def memory : Handler RepoOp.Resp Repos
  | .insertNewDriver now d, s =>
    ((), { s with lastStamp := s.lastStamp.set d.id now, drivers := s.drivers.save cfg d })
  | .findDriverById id, s => (s.drivers.byId.get? id, s)
  | .findDriverByEmail email, s => (s.drivers.findByEmail cfg email, s)
  | .saveDriver d, s => ((), { s with drivers := s.drivers.save cfg d })
  | .stampAndSaveDriver now d, s => s.stampAndSave cfg now d
  | .insertVehicle v, s => ((), { s with vehicles := s.vehicles.save cfg v })
  | .findVehicleById id, s => (s.vehicles.byId.get? id, s)
  | .findVehicleByIdentifier identifier, s => (s.vehicles.findByIdentifier cfg identifier, s)
  | .findVehicleByDriverId driverId, s => (s.vehicles.findByDriverId driverId, s)
  | .saveVehicle v, s => ((), { s with vehicles := s.vehicles.save cfg v })
  | .insertDelivery d, s => ((), { s with deliveries := s.deliveries.set d.id d })
  | .findDeliveryById id, s => (s.deliveries.get? id, s)
  | .saveDelivery d, s => ((), { s with deliveries := s.deliveries.set d.id d })
  | .listDeliveriesByAssignmentId id, s => (listByAssignmentId s.deliveries id, s)
  | .insertAssignment a, s => ((), { s with assignments := s.assignments.set a.id a })
  | .findAssignmentById id, s => (s.assignments.get? id, s)
  | .saveAssignment a, s => ((), { s with assignments := s.assignments.set a.id a })
  | .findRouteByAssignmentId id, s => (s.routes.get? id, s)
  | .upsertRoute r, s => ((), { s with routes := s.routes.set r.assignmentId r })
  | .publishRoute e, s => ((), { s with publishCalls := s.publishCalls ++ [e] })
  | .external, s => ((), s)

/-- A program of the management service. -/
abbrev Service (α : Type) := ExceptT Thrown (Prog RepoOp.Resp) α

/-- An awaited call. -/
abbrev await (op : RepoOp) : Service op.Resp := performE op

end FleetCommand.Management
