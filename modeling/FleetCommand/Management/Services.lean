import FleetCommand.Management.Repositories

/-!
# The management service: drivers, vehicles, deliveries, assignments

The methods of `DriverService`, `VehicleService`, `DeliveryService` and `AssignmentService` as
programs over the repositories. A `Call` fixes what the clock reads during a call and which
generated id it takes; what an injected collaborator answers is an argument.
-/

set_option autoImplicit false

namespace FleetCommand.Management

open Resumption

variable (cfg : Config) (call : Call)

/-! ## Drivers -/

/-- The statuses a driver may choose. -/
def driverSettableStatuses : List DriverStatus := [.available, .onBreak, .offline]

/-- The driver-initiated transitions; `On_Delivery` has none. -/
def driverTransitions : DriverStatus → List DriverStatus
  | .offline => [.available]
  | .available => [.onBreak, .offline]
  | .onBreak => [.available, .offline]
  | .onDelivery => []

/-- A driver may go from one status to the other. -/
def isDriverSettableTransition (current target : DriverStatus) : Bool :=
  if target ∈ driverSettableStatuses then decide (target ∈ driverTransitions current) else false

/-- The status in which a driver is given assignments. -/
def isEligibleStatus (status : DriverStatus) : Bool := status = .available

/-- The fields an update may change; an absent one keeps its value. -/
structure DriverUpdate where
  name : Option String
  phone : Option String
  licenseNumber : Option String
  status : Option DriverStatus

namespace DriverService

/-- A driver with the required fields and an email of its own. -/
def create (input : CreateDriverInput) : Service Driver :=
  match validateDriverInput input with
  | some envelope => throw (.domainError envelope 400)
  | none => do
    let existing ← await (.findDriverByEmail (input.email.getD ""))
    match existing with
    | some _ => throw (domainError .duplicate ["email"] 409)
    | none => do
      let iso ← ofResult (toIso call.now)
      let driver : Driver :=
        { id := cfg.driverId.gen call.seq
          name := input.name.getD ""
          email := input.email.getD ""
          phone := input.phone.getD ""
          licenseNumber := input.licenseNumber.getD ""
          status := .offline
          active := true
          createdAt := iso
          updatedAt := iso }
      await (.insertNewDriver call.now driver)
      return driver

/-- The driver of an id, or 404. -/
def requireDriver (id : String) : Service Driver := do
  let driver ← await (.findDriverById id)
  match driver with
  | some driver => return driver
  | none => throw (domainError .notFound ["id"] 404)

/-- Stamps the changed record and saves it. -/
def stampAndSave (next : Driver) : Service Driver := do
  let saved ← await (.stampAndSaveDriver call.now next)
  ofResult saved

/-- The fields given are changed. -/
def update (id : String) (changes : DriverUpdate) : Service Driver := do
  let current ← requireDriver id
  stampAndSave call
    { current with
      name := changes.name.getD current.name
      phone := changes.phone.getD current.phone
      licenseNumber := changes.licenseNumber.getD current.licenseNumber
      status := changes.status.getD current.status }

/-- The driver is no longer active. -/
def deactivate (id : String) : Service Driver := do
  let current ← requireDriver id
  stampAndSave call { current with active := false }

/-- The guard and the change the three status methods share. -/
def changeStatus (id : String) (allowed : DriverStatus → Bool) (target : DriverStatus) :
    Service Driver := do
  let current ← requireDriver id
  if allowed current.status then stampAndSave call { current with status := target }
  else throw (domainError .invalidTransition ["status"] 409)

/-- The driver chooses a status. -/
def setAvailability (id : String) (target : DriverStatus) : Service Driver :=
  changeStatus call id (fun current => isDriverSettableTransition current target) target

/-- An available driver goes on a delivery. -/
def beginDelivery (id : String) : Service Driver :=
  changeStatus call id (fun current => current = .available) .onDelivery

/-- A driver on a delivery becomes available. -/
def completeDelivery (id : String) : Service Driver :=
  changeStatus call id (fun current => current = .onDelivery) .available

end DriverService

/-! ## Vehicles -/

namespace VehicleService

/-- A vehicle with the required fields and an identifier of its own. -/
def register (input : RegisterVehicleInput) : Service Vehicle :=
  match validateVehicleInput input with
  | some envelope => throw (.domainError envelope 400)
  | none => do
    let existing ← await (.findVehicleByIdentifier (input.identifier.getD ""))
    match existing with
    | some _ => throw (domainError .duplicate ["identifier"] 409)
    | none => do
      let iso ← ofResult (toIso call.now)
      let vehicle : Vehicle :=
        { id := cfg.vehicleId.gen call.seq
          identifier := input.identifier.getD ""
          type := input.type.getD ""
          capacityKg := input.capacityKg.getD .nan
          driverId := none
          associatedAt := none
          createdAt := iso }
      await (.insertVehicle vehicle)
      return vehicle

/-- The vehicle is associated with a driver, whatever else the driver has. -/
def associateDriver (vehicleId : String) (driverId : Option String) : Service Vehicle :=
  if isMissing driverId then throw (domainError .validationError ["driverId"] 400)
  else do
    let found ← await (.findVehicleById vehicleId)
    match found with
    | none => throw (domainError .notFound ["id"] 404)
    | some vehicle =>
      -- associating the same driver again is allowed
      if truthy vehicle.driverId ∧ vehicle.driverId ≠ driverId then
        throw (domainError .conflict ["driverId"] 409)
      else do
        let iso ← ofResult (toIso call.now)
        let next := { vehicle with driverId := driverId, associatedAt := some iso }
        await (.saveVehicle next)
        return next

end VehicleService

/-! ## Deliveries -/

/-- The events that drive a delivery's lifecycle. -/
inductive DeliveryEvent where
  | assign
  | startTransit
  | arrive
  | complete
  | fail
  | cancel
  deriving DecidableEq

/-- The lengths of a failure reason. -/
def failureReasonMin : Nat := 1
def failureReasonMax : Nat := 500

/-- The next status for a status and an event; terminal statuses have none. -/
def nextStatus : DeliveryStatus → DeliveryEvent → Option DeliveryStatus
  | .created, .assign => some .assigned
  | .created, .cancel => some .cancelled
  | .assigned, .startTransit => some .inTransit
  | .assigned, .cancel => some .cancelled
  | .inTransit, .arrive => some .arrived
  | .inTransit, .fail => some .failed
  | .inTransit, .cancel => some .cancelled
  | .arrived, .complete => some .completed
  | .arrived, .fail => some .failed
  | .arrived, .cancel => some .cancelled
  | _, _ => none

/-- The delivery has ended. -/
def isTerminal (status : DeliveryStatus) : Bool := status ∈ terminalDeliveryStatuses

/-- A reason of an accepted length. -/
def isValidFailureReason (reason : Option String) : Bool :=
  match reason with
  | some s => failureReasonMin ≤ jsLength s && jsLength s ≤ failureReasonMax
  | none => false

namespace DeliveryService

/-- `geocoded` is what the geocoder answers in time; `none` when it rejects or times out. -/
def create (input : CreateDeliveryInput) (geocoded : Option GeoPoint) : Service Delivery :=
  match validateDeliveryInput input with
  | some envelope => throw (.domainError envelope 400)
  | none => do
    await .external
    match geocoded with
    | none => throw (domainError .geocodingFailure ["address"] 422)
    | some destination => do
      let iso ← ofResult (toIso call.now)
      let delivery : Delivery :=
        { id := cfg.deliveryId.gen call.seq
          address := input.address.getD ""
          recipientName := input.recipientName.getD ""
          recipientContact := input.recipientContact.getD ""
          weightKg := input.weightKg.getD .nan
          destination := destination
          status := .created
          trackingToken := cfg.trackingToken call.seq
          assignmentId := none
          failureReason := none
          completedAt := none
          createdAt := iso
          updatedAt := iso }
      await (.insertDelivery delivery)
      return delivery

/-- The record a transition to `target` stores. -/
def transitioned (current : Delivery) (target : DeliveryStatus) (reason : Option String)
    (iso : Instant) : Delivery :=
  { current with
    status := target
    updatedAt := iso
    completedAt := if target = .completed then some iso else current.completedAt
    failureReason := if target = .failed then reason else current.failureReason }

/-- A delivery event is applied where the lifecycle has it; a failure needs a reason. -/
def transition (id : String) (event : DeliveryEvent) (reason : Option String) :
    Service Delivery := do
  let found ← await (.findDeliveryById id)
  match found with
  | none => throw (domainError .notFound ["id"] 404)
  | some current =>
    match nextStatus current.status event with
    | none => throw (domainError .invalidTransition ["status"] 409)
    | some target =>
      -- the reason is looked at after the status, and only for `fail`
      if event = .fail ∧ isValidFailureReason reason = false then
        throw (domainError .validationError ["reason"] 400)
      else do
        let iso ← ofResult (toIso call.now)
        let next := transitioned current target reason iso
        await (.saveDelivery next)
        return next

end DeliveryService

/-! ## Assignments -/

namespace AssignmentService

/-- The active and available driver of an id; 404 without a driver, and else 409. -/
def requireEligibleDriver (driverId : String) : Service Driver := do
  let found ← await (.findDriverById driverId)
  match found with
  | none => throw (domainError .notFound ["driverId"] 404)
  | some driver =>
    if driver.active ∧ isEligibleStatus driver.status then return driver
    else throw (domainError .unavailableDriver ["driverId"] 409)

/-- The assignment of an id, or 404. -/
def requireAssignment (id : String) : Service Assignment := do
  let found ← await (.findAssignmentById id)
  match found with
  | some assignment => return assignment
  | none => throw (domainError .notFound ["assignmentId"] 404)

/-- The deliveries of the ids, none of them linked yet. -/
def resolveAssignableDeliveries : List String → Service (List Delivery)
  | [] => return []
  | id :: ids => do
    let found ← await (.findDeliveryById id)
    match found with
    | none => throw (domainError .notFound ["deliveryId"] 404)
    | some delivery =>
      -- an id listed twice passes: nothing is linked before all are resolved
      if truthy delivery.assignmentId then throw (domainError .alreadyAssigned ["deliveryId"] 409)
      else if nextStatus delivery.status .assign = none then
        throw (domainError .alreadyAssigned ["deliveryId"] 409)
      else do
        let resolved ← resolveAssignableDeliveries ids
        return delivery :: resolved

/-- The record linking a delivery to an assignment stores. -/
def linked (assignmentId : String) (now : Instant) (delivery : Delivery) : Delivery :=
  { delivery with
    assignmentId := some assignmentId
    status := (nextStatus delivery.status .assign).getD delivery.status
    updatedAt := now }

/-- The deliveries are linked to the assignment, one after the other. -/
def linkDeliveries (assignmentId : String) (now : Instant) : List Delivery → Service Unit
  | [] => return ()
  | delivery :: rest => do
    await (.saveDelivery (linked assignmentId now delivery))
    linkDeliveries assignmentId now rest

/-- A pending assignment of deliveries to an eligible driver with a vehicle. -/
def create (driverId : String) (deliveryIds : List String) : Service Assignment :=
  if deliveryIds = [] then throw (domainError .validationError ["deliveryIds"] 400)
  else do
    let driver ← requireEligibleDriver driverId
    let found ← await (.findVehicleByDriverId driverId)
    match found with
    | none => throw (domainError .conflict ["vehicleId"] 409)
    | some vehicle => do
      let toLink ← resolveAssignableDeliveries deliveryIds
      let now ← ofResult (toIso call.now)
      let assignment : Assignment :=
        { id := cfg.assignmentId.gen call.seq
          driverId := driverId
          vehicleId := vehicle.id
          status := .pending
          acceptedAt := none
          createdAt := now }
      -- from here on every write is made: nothing after this point throws
      await (.insertAssignment assignment)
      linkDeliveries assignment.id now toLink
      await (.saveDriver { driver with status := .onDelivery, updatedAt := now })
      return assignment

/-- `assignment.acceptedAt ?? toIso(now)`: a first acceptance reads the clock. -/
def acceptedAt (assignment : Assignment) : Except Thrown Instant :=
  match assignment.acceptedAt with
  | some t => .ok t
  | none => toIso call.now

/-- The assignment is accepted; a second acceptance keeps the first time. -/
def accept (assignmentId : String) : Service Assignment := do
  let assignment ← requireAssignment assignmentId
  let t ← ofResult (acceptedAt call assignment)
  -- the status of the assignment is not looked at
  let next := { assignment with status := .accepted, acceptedAt := some t }
  await (.saveAssignment next)
  return next

/-- A linked delivery that has not ended is linked to another assignment. -/
def reassign (deliveryId targetAssignmentId : String) : Service Delivery := do
  let found ← await (.findDeliveryById deliveryId)
  match found with
  | none => throw (domainError .notFound ["deliveryId"] 404)
  | some delivery =>
    if truthy delivery.assignmentId = false then
      throw (domainError .invalidTransition ["deliveryId"] 409)
    -- already there: nothing is written
    else if delivery.assignmentId = some targetAssignmentId then return delivery
    else do
      let target ← requireAssignment targetAssignmentId
      -- only the target has to be active; the assignment left behind is not looked at
      if isActiveAssignment target then do
        let iso ← ofResult (toIso call.now)
        let moved := { delivery with assignmentId := some target.id, updatedAt := iso }
        await (.saveDelivery moved)
        return moved
      else throw (domainError .conflict ["assignmentId"] 409)

end AssignmentService

end FleetCommand.Management
