import FleetCommand.Management.Services

/-!
# Control points of `AssignmentService.create`

`create` reads the driver, the vehicle and each listed delivery, and then inserts the assignment,
saves each delivery and saves the driver. `CreateLoc` names the points between these calls, and
`createFlow` presents any number of concurrent calls by them.
-/

set_option autoImplicit false

namespace FleetCommand.Management

open Resumption

/-- One call of `create`. -/
structure CreateCall where
  driverId : String
  deliveryIds : List String
  now : Int
  seq : Nat

/-- Two calls that name one driver or share a delivery. -/
def Conflicts (a b : CreateCall) : Prop :=
  a.driverId = b.driverId ∨ ∃ id ∈ a.deliveryIds, id ∈ b.deliveryIds

instance (a b : CreateCall) : Decidable (Conflicts a b) := inferInstanceAs (Decidable (_ ∨ _))

theorem Conflicts.symm {a b : CreateCall} (h : Conflicts a b) : Conflicts b a := by
  rcases h with hdriver | ⟨id, ha, hb⟩
  · exact .inl hdriver.symm
  · exact .inr ⟨id, hb, ha⟩

/-! ## The parts of `create` -/

namespace AssignmentService

/-- The writes after the insert. -/
def link (driver : Driver) (assignment : Assignment) (toLink : List Delivery) :
    Service Assignment := do
  linkDeliveries assignment.id assignment.createdAt toLink
  await (.saveDriver { driver with status := .onDelivery, updatedAt := assignment.createdAt })
  return assignment

variable (cfg : Config) (c : CreateCall)

/-- The assignment a call creates. -/
def booking (vehicle : Vehicle) (now : Instant) : Assignment where
  id := cfg.assignmentId.gen c.seq
  driverId := c.driverId
  vehicleId := vehicle.id
  status := .pending
  acceptedAt := none
  createdAt := now

/-- `create` once everything is checked. -/
def book (driver : Driver) (vehicle : Vehicle) (toLink : List Delivery) : Service Assignment := do
  let now ← ofResult (toIso c.now)
  await (.insertAssignment (booking cfg c vehicle now))
  link driver (booking cfg c vehicle now) toLink

/-- `create` once the driver is checked. -/
def bookWith (driver : Driver) : Service Assignment := do
  let found ← await (.findVehicleByDriverId c.driverId)
  match found with
  | none => throw (domainError .conflict ["vehicleId"] 409)
  | some vehicle => do
    let toLink ← resolveAssignableDeliveries c.deliveryIds
    book cfg c driver vehicle toLink

theorem create_eq : create cfg ⟨c.now, c.seq⟩ c.driverId c.deliveryIds =
    if c.deliveryIds = [] then throw (domainError .validationError ["deliveryIds"] 400)
    else requireEligibleDriver c.driverId >>= bookWith cfg c := by
  rw [create]
  split
  · rfl
  · -- the same reads, one after the other
    refine congrArg _ (funext fun driver => ?_)
    rw [bookWith]
    refine congrArg _ (funext fun found => ?_)
    cases found with
    | none => rfl
    | some vehicle =>
      dsimp only
      refine congrArg _ (funext fun toLink => ?_)
      rw [book]
      rfl

end AssignmentService

/-! ## Control points -/

/-- A control point of `create`: before the first read, before the vehicle is looked up, before the
delivery `id` is read, before the insert, before the next write, and returned. -/
inductive CreateLoc where
  | start
  | eligible (driver : Driver)
  | resolving (driver : Driver) (vehicle : Vehicle) (id : String) (todo : List String)
      (resolved : List Delivery)
  | inserting (driver : Driver) (assignment : Assignment) (toLink : List Delivery)
  | linking (driver : Driver) (assignment : Assignment) (toLink : List Delivery)
  | done (r : Except Thrown Assignment)

section Flow

variable (cfg : Config) (c : CreateCall)

/-- A call of `create` as a program. -/
def CreateCall.prog : Prog RepoOp.Resp (Except Thrown Assignment) :=
  ExceptT.run (AssignmentService.create cfg ⟨c.now, c.seq⟩ c.driverId c.deliveryIds)

/-- What a call still has to do at a control point. -/
def CreateLoc.code : CreateLoc → Prog RepoOp.Resp (Except Thrown Assignment)
  | .start => c.prog cfg
  | .eligible driver => ExceptT.run (AssignmentService.bookWith cfg c driver)
  | .resolving driver vehicle id todo resolved => ExceptT.run do
    let rest ← AssignmentService.resolveAssignableDeliveries (id :: todo)
    AssignmentService.book cfg c driver vehicle (resolved ++ rest)
  | .inserting driver assignment toLink => ExceptT.run do
    await (.insertAssignment assignment)
    AssignmentService.link driver assignment toLink
  | .linking driver assignment toLink =>
    ExceptT.run (AssignmentService.link driver assignment toLink)
  | .done r => .ret r

/-- The control point after the driver is read. -/
def CreateCall.afterDriver : Option Driver → CreateLoc
  | none => .done (.error (domainError .notFound ["driverId"] 404))
  | some driver =>
    if driver.active ∧ isEligibleStatus driver.status then .eligible driver
    else .done (.error (domainError .unavailableDriver ["driverId"] 409))

/-- The control point once every delivery is resolved; the clock may still fail. -/
def CreateCall.afterResolved (driver : Driver) (vehicle : Vehicle) (toLink : List Delivery) :
    CreateLoc :=
  match toIso c.now with
  | .error e => .done (.error e)
  | .ok now => .inserting driver (AssignmentService.booking cfg c vehicle now) toLink

/-- The control point before the deliveries `todo`. -/
def CreateCall.resolveNext (driver : Driver) (vehicle : Vehicle) (resolved : List Delivery) :
    List String → CreateLoc
  | [] => c.afterResolved cfg driver vehicle resolved
  | id :: todo => .resolving driver vehicle id todo resolved

/-- The control point after the vehicle is looked up. -/
def CreateCall.afterVehicle (driver : Driver) : Option Vehicle → CreateLoc
  | none => .done (.error (domainError .conflict ["vehicleId"] 409))
  | some vehicle => c.resolveNext cfg driver vehicle [] c.deliveryIds

/-- The control point after a delivery is read. -/
def CreateCall.afterDelivery (driver : Driver) (vehicle : Vehicle) (todo : List String)
    (resolved : List Delivery) : Option Delivery → CreateLoc
  | none => .done (.error (domainError .notFound ["deliveryId"] 404))
  | some delivery =>
    if truthy delivery.assignmentId then
      .done (.error (domainError .alreadyAssigned ["deliveryId"] 409))
    else if nextStatus delivery.status .assign = none then
      .done (.error (domainError .alreadyAssigned ["deliveryId"] 409))
    else c.resolveNext cfg driver vehicle (resolved ++ [delivery]) todo

/-- The driver record a call saves. -/
def busyDriver (driver : Driver) (assignment : Assignment) : Driver :=
  { driver with status := .onDelivery, updatedAt := assignment.createdAt }

/-- The next control point, and the repositories after the call made on the way. -/
def CreateLoc.next : CreateLoc → Repos → CreateLoc × Repos
  | .start, s =>
    if c.deliveryIds = [] then
      (.done (.error (domainError .validationError ["deliveryIds"] 400)), s)
    else (CreateCall.afterDriver (s.drivers.byId.get? c.driverId), s)
  | .eligible driver, s => (c.afterVehicle cfg driver (s.vehicles.findByDriverId c.driverId), s)
  | .resolving driver vehicle id todo resolved, s =>
    (c.afterDelivery cfg driver vehicle todo resolved (s.deliveries.get? id), s)
  | .inserting driver assignment toLink, s =>
    (.linking driver assignment toLink,
      { s with assignments := s.assignments.set assignment.id assignment })
  | .linking driver assignment (delivery :: toLink), s =>
    (.linking driver assignment toLink,
      { s with
        deliveries := s.deliveries.set delivery.id
          (AssignmentService.linked assignment.id assignment.createdAt delivery) })
  | .linking driver assignment [], s =>
    (.done (.ok assignment), { s with drivers := s.drivers.save cfg (busyDriver driver assignment) })
  | .done r, s => (.done r, s)

theorem code_afterResolved (driver : Driver) (vehicle : Vehicle) (toLink : List Delivery) :
    (c.afterResolved cfg driver vehicle toLink).code cfg c =
      ExceptT.run (AssignmentService.book cfg c driver vehicle toLink) := by
  rw [CreateCall.afterResolved, AssignmentService.book]
  cases toIso c.now with
  | error e => rfl
  | ok now => rfl

theorem code_resolveNext (driver : Driver) (vehicle : Vehicle) (resolved : List Delivery)
    (todo : List String) :
    (c.resolveNext cfg driver vehicle resolved todo).code cfg c = ExceptT.run (do
      let rest ← AssignmentService.resolveAssignableDeliveries todo
      AssignmentService.book cfg c driver vehicle (resolved ++ rest)) := by
  cases todo with
  | nil =>
    rw [CreateCall.resolveNext, code_afterResolved, AssignmentService.resolveAssignableDeliveries,
      pure_bind, List.append_nil]
  | cons id todo => rfl

theorem CreateLoc.code_next (l : CreateLoc) (s : Repos) :
    (l.code cfg c).step (memory cfg) s = ((l.next cfg c s).1.code cfg c, (l.next cfg c s).2) := by
  cases l with
  | start =>
    rw [code, CreateLoc.next, CreateCall.prog, AssignmentService.create_eq]
    split
    · rfl
    · rw [AssignmentService.requireEligibleDriver, bind_assoc, step_performE_bind]
      simp only [memory]
      cases s.drivers.byId.get? c.driverId with
      | none => rfl
      | some driver =>
        simp only [CreateCall.afterDriver]
        split
        · rw [pure_bind]
          rfl
        · rfl
  | eligible driver =>
    rw [code, CreateLoc.next, AssignmentService.bookWith, step_performE_bind]
    simp only [memory]
    cases s.vehicles.findByDriverId c.driverId with
    | none => rfl
    | some vehicle =>
      simp only [CreateCall.afterVehicle]
      rw [code_resolveNext]
      rfl
  | resolving driver vehicle id todo resolved =>
    rw [code, CreateLoc.next, AssignmentService.resolveAssignableDeliveries, bind_assoc,
      step_performE_bind]
    simp only [memory]
    cases s.deliveries.get? id with
    | none => rfl
    | some delivery =>
      simp only [CreateCall.afterDelivery]
      split
      · rfl
      · split
        · rfl
        · rw [code_resolveNext, bind_assoc]
          simp only [pure_bind, List.append_assoc, List.singleton_append]
  | inserting driver assignment toLink => rfl
  | linking driver assignment toLink =>
    cases toLink with
    | nil => rfl
    | cons delivery toLink => rfl
  | done r => rfl

/-- The call made next at a control point. -/
def CreateLoc.op? : CreateLoc → Option RepoOp
  | .start => if c.deliveryIds = [] then none else some (.findDriverById c.driverId)
  | .eligible _ => some (.findVehicleByDriverId c.driverId)
  | .resolving _ _ id _ _ => some (.findDeliveryById id)
  | .inserting _ assignment _ => some (.insertAssignment assignment)
  | .linking _ assignment (delivery :: _) =>
    some (.saveDelivery (AssignmentService.linked assignment.id assignment.createdAt delivery))
  | .linking driver assignment [] => some (.saveDriver (busyDriver driver assignment))
  | .done _ => none

theorem CreateLoc.next?_code (l : CreateLoc) : (l.code cfg c).next? = l.op? c := by
  cases l with
  | start =>
    rw [code, CreateLoc.op?, CreateCall.prog, AssignmentService.create_eq]
    split <;> rfl
  | linking driver assignment toLink => cases toLink <;> rfl
  | _ => rfl

/-- A program that has returned is at a control point without a next call. -/
theorem CreateLoc.op?_eq_none {l : CreateLoc} {r : Except Thrown Assignment}
    (h : l.code cfg c = .ret r) : l.op? c = none := by
  rw [← next?_code cfg c l, h]
  rfl

variable {ι : Type} [DecidableEq ι] (calls : ι → CreateCall)

/-- The calls by control points. -/
def createFlow : Flow (memory cfg) ι CreateLoc (Except Thrown Assignment) where
  code i l := l.code cfg (calls i)
  next i l s := l.next cfg (calls i) s
  code_next i l s := l.code_next cfg (calls i) s

end Flow

end FleetCommand.Management
