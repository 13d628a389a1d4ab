import FleetCommand.Management.Routes

/-!
# The management service: what each method writes

The part of the state each repository call writes (`RepoOp.writes`), that a call leaves the other
parts alone, and for each service method the parts its calls stay within, whatever they answer.
Creating an assignment is its checks, which only read, and then its writes
(`AssignmentService.create_eq_bind`).
-/

set_option autoImplicit false

namespace FleetCommand.Management

open Resumption

/-- The parts of the state a repository call can write. -/
inductive Part where
  | drivers
  | vehicles
  | deliveries
  | assignments
  | routes
  deriving DecidableEq

/-- The part a call writes. -/
def RepoOp.writes : RepoOp → Option Part
  | .insertNewDriver _ _ => some .drivers
  | .saveDriver _ => some .drivers
  | .stampAndSaveDriver _ _ => some .drivers
  | .insertVehicle _ => some .vehicles
  | .saveVehicle _ => some .vehicles
  | .insertDelivery _ => some .deliveries
  | .saveDelivery _ => some .deliveries
  | .insertAssignment _ => some .assignments
  | .saveAssignment _ => some .assignments
  | .upsertRoute _ => some .routes
  | .publishRoute _ => some .routes
  | _ => none

variable (cfg : Config) (call : Call)

/-! ## Frames -/

theorem Repos.stampAndSave_eq (s : Repos) (now : Int) (d : Driver) :
    ∃ lastStamp drivers, (s.stampAndSave cfg now d).2 =
      { s with lastStamp := lastStamp, drivers := drivers } := by
  rw [Repos.stampAndSave]
  dsimp only
  split
  · exact ⟨_, _, rfl⟩
  · exact ⟨_, s.drivers, rfl⟩

theorem memory_read {op : RepoOp} (h : op.writes = none) (s : Repos) :
    (memory cfg op s).2 = s := by
  cases op <;> first | rfl | exact absurd h (by simp [RepoOp.writes])

theorem memory_drivers {op : RepoOp} (h : op.writes ≠ some .drivers) (s : Repos) :
    (memory cfg op s).2.drivers = s.drivers := by
  cases op with
  | insertNewDriver now d => exact absurd rfl h
  | saveDriver d => exact absurd rfl h
  | stampAndSaveDriver now d => exact absurd rfl h
  | _ => rfl

theorem memory_vehicles {op : RepoOp} (h : op.writes ≠ some .vehicles) (s : Repos) :
    (memory cfg op s).2.vehicles = s.vehicles := by
  cases op with
  | insertVehicle v => exact absurd rfl h
  | saveVehicle v => exact absurd rfl h
  | stampAndSaveDriver now d =>
    obtain ⟨lastStamp, drivers, hs⟩ := s.stampAndSave_eq cfg now d
    rw [memory, hs]
  | _ => rfl

theorem memory_deliveries {op : RepoOp} (h : op.writes ≠ some .deliveries) (s : Repos) :
    (memory cfg op s).2.deliveries = s.deliveries := by
  cases op with
  | insertDelivery d => exact absurd rfl h
  | saveDelivery d => exact absurd rfl h
  | stampAndSaveDriver now d =>
    obtain ⟨lastStamp, drivers, hs⟩ := s.stampAndSave_eq cfg now d
    rw [memory, hs]
  | _ => rfl

theorem memory_assignments {op : RepoOp} (h : op.writes ≠ some .assignments) (s : Repos) :
    (memory cfg op s).2.assignments = s.assignments := by
  cases op with
  | insertAssignment a => exact absurd rfl h
  | saveAssignment a => exact absurd rfl h
  | stampAndSaveDriver now d =>
    obtain ⟨lastStamp, drivers, hs⟩ := s.stampAndSave_eq cfg now d
    rw [memory, hs]
  | _ => rfl

/-- No call removes an assignment. -/
theorem memory_assignment_exists (op : RepoOp) {s : Repos} {id : String}
    (h : (s.assignments.get? id).isSome) : ((memory cfg op s).2.assignments.get? id).isSome := by
  -- a write of an assignment is a `set`, which removes no key
  rcases eq_or_ne op.writes (some .assignments) with hop | hop
  · have hset : ∀ a : Assignment, ((s.assignments.set a.id a).get? id).isSome := by
      intro a
      rw [InsertionMap.get?_set]
      split
      · rfl
      · exact h
    cases op with
    | insertAssignment a => exact hset a
    | saveAssignment a => exact hset a
    | _ => exact absurd hop (by simp [RepoOp.writes])
  · rw [memory_assignments cfg hop]
    exact h

/-! ## Footprints -/

/-- A call that writes no part outside `parts`. -/
def Within (parts : List Part) (op : RepoOp) : Prop := ∀ part, op.writes = some part → part ∈ parts

variable {parts : List Part} {op : RepoOp}

theorem Within.reads (h : op.writes = none) : Within parts op := by
  intro part hpart
  rw [h] at hpart
  exact absurd hpart (by simp)

theorem Within.part {part : Part} (h : op.writes = some part) (hpart : part ∈ parts) :
    Within parts op := by
  intro part' hpart'
  obtain rfl := Option.some.inj (h.symm.trans hpart')
  exact hpart

theorem Within.not_writes {part : Part} (h : Within parts op) (hpart : part ∉ parts) :
    op.writes ≠ some part :=
  fun hop => hpart (h part hop)

theorem Within.reads_only (h : Within [] op) (s : Repos) : (memory cfg op s).2 = s := by
  apply memory_read
  rw [Option.eq_none_iff_forall_ne_some]
  intro part hpart
  exact absurd (h part hpart) List.not_mem_nil

/-- A method whose calls stay within `parts`, whatever they answer. -/
abbrev StaysWithin {α : Type} (parts : List Part) (p : Service α) : Prop :=
  CallsOnlyE (Within parts) p

theorem read_within {op : RepoOp} (h : op.writes = none) : StaysWithin parts (await op) :=
  .performE (.reads h)

theorem write_within {op : RepoOp} {part : Part} (h : op.writes = some part)
    (hpart : part ∈ parts) : StaysWithin parts (await op) :=
  .performE (.part h hpart)

/-! ### Drivers -/

section Drivers

variable (hdrivers : Part.drivers ∈ parts)
include hdrivers

theorem DriverService.stampAndSave_within (next : Driver) :
    StaysWithin parts (DriverService.stampAndSave call next) := by
  apply CallsOnlyE.bind (write_within rfl hdrivers)
  intro saved
  exact .ofResult saved

theorem DriverService.create_within (input : CreateDriverInput) :
    StaysWithin parts (DriverService.create cfg call input) := by
  rw [DriverService.create]
  split
  · exact .throw _
  · apply CallsOnlyE.bind (read_within rfl)
    intro existing
    cases existing with
    | some driver => exact .throw _
    | none =>
      apply CallsOnlyE.bind (.ofResult _)
      intro iso
      apply CallsOnlyE.bind (write_within rfl hdrivers)
      intro inserted
      exact .pure _

omit hdrivers in
theorem DriverService.requireDriver_within (id : String) :
    StaysWithin parts (DriverService.requireDriver id) := by
  apply CallsOnlyE.bind (read_within rfl)
  intro found
  cases found with
  | some driver => exact .pure _
  | none => exact .throw _

theorem DriverService.update_within (id : String) (changes : DriverUpdate) :
    StaysWithin parts (DriverService.update call id changes) := by
  apply CallsOnlyE.bind (DriverService.requireDriver_within id)
  intro current
  exact DriverService.stampAndSave_within call hdrivers _

theorem DriverService.deactivate_within (id : String) :
    StaysWithin parts (DriverService.deactivate call id) := by
  apply CallsOnlyE.bind (DriverService.requireDriver_within id)
  intro current
  exact DriverService.stampAndSave_within call hdrivers _

theorem DriverService.changeStatus_within (id : String) (allowed : DriverStatus → Bool)
    (target : DriverStatus) :
    StaysWithin parts (DriverService.changeStatus call id allowed target) := by
  apply CallsOnlyE.bind (DriverService.requireDriver_within id)
  intro current
  split
  · exact DriverService.stampAndSave_within call hdrivers _
  · exact .throw _

end Drivers

/-! ### Vehicles -/

theorem VehicleService.register_within (hvehicles : Part.vehicles ∈ parts)
    (input : RegisterVehicleInput) : StaysWithin parts (VehicleService.register cfg call input) := by
  rw [VehicleService.register]
  split
  · exact .throw _
  · apply CallsOnlyE.bind (read_within rfl)
    intro existing
    cases existing with
    | some vehicle => exact .throw _
    | none =>
      apply CallsOnlyE.bind (.ofResult _)
      intro iso
      apply CallsOnlyE.bind (write_within rfl hvehicles)
      intro inserted
      exact .pure _

theorem VehicleService.associateDriver_within (hvehicles : Part.vehicles ∈ parts)
    (vehicleId : String) (driverId : Option String) :
    StaysWithin parts (VehicleService.associateDriver call vehicleId driverId) := by
  rw [VehicleService.associateDriver]
  split
  · exact .throw _
  · apply CallsOnlyE.bind (read_within rfl)
    intro found
    cases found with
    | none => exact .throw _
    | some vehicle =>
      dsimp only
      split
      · exact .throw _
      · apply CallsOnlyE.bind (.ofResult _)
        intro iso
        apply CallsOnlyE.bind (write_within rfl hvehicles)
        intro saved
        exact .pure _

/-! ### Deliveries -/

theorem DeliveryService.create_within (hdeliveries : Part.deliveries ∈ parts)
    (input : CreateDeliveryInput) (geocoded : Option GeoPoint) :
    StaysWithin parts (DeliveryService.create cfg call input geocoded) := by
  unfold DeliveryService.create
  split
  · exact .throw _
  · apply CallsOnlyE.bind (read_within rfl)
    intro answered
    cases geocoded with
    | none => exact .throw _
    | some destination =>
      apply CallsOnlyE.bind (.ofResult _)
      intro iso
      apply CallsOnlyE.bind (write_within rfl hdeliveries)
      intro inserted
      exact .pure _

theorem DeliveryService.transition_within (hdeliveries : Part.deliveries ∈ parts) (id : String)
    (event : DeliveryEvent) (reason : Option String) :
    StaysWithin parts (DeliveryService.transition call id event reason) := by
  apply CallsOnlyE.bind (read_within rfl)
  intro found
  cases found with
  | none => exact .throw _
  | some current =>
    dsimp only
    split
    · exact .throw _
    · split
      · exact .throw _
      · apply CallsOnlyE.bind (.ofResult _)
        intro iso
        apply CallsOnlyE.bind (write_within rfl hdeliveries)
        intro saved
        exact .pure _

/-! ### Assignments -/

namespace AssignmentService

theorem requireAssignment_within (id : String) : StaysWithin parts (requireAssignment id) := by
  apply CallsOnlyE.bind (read_within rfl)
  intro found
  cases found with
  | some assignment => exact .pure _
  | none => exact .throw _

theorem requireEligibleDriver_within (driverId : String) :
    StaysWithin parts (requireEligibleDriver driverId) := by
  apply CallsOnlyE.bind (read_within rfl)
  intro found
  cases found with
  | none => exact .throw _
  | some driver =>
    dsimp only
    split
    · exact .pure _
    · exact .throw _

theorem resolveAssignableDeliveries_within (ids : List String) :
    StaysWithin parts (resolveAssignableDeliveries ids) := by
  induction ids with
  | nil => exact .pure _
  | cons id ids ih =>
    apply CallsOnlyE.bind (read_within rfl)
    intro found
    cases found with
    | none => exact .throw _
    | some delivery =>
      dsimp only
      split
      · exact .throw _
      · split
        · exact .throw _
        · apply CallsOnlyE.bind ih
          intro resolved
          exact .pure _

theorem linkDeliveries_within (hdeliveries : Part.deliveries ∈ parts) (assignmentId : String)
    (now : Instant) (toLink : List Delivery) :
    StaysWithin parts (linkDeliveries assignmentId now toLink) := by
  induction toLink with
  | nil => exact .pure _
  | cons delivery rest ih =>
    apply CallsOnlyE.bind (write_within rfl hdeliveries)
    intro saved
    exact ih

/-- What `create` knows when it makes its first write. -/
structure Checked where
  driver : Driver
  vehicle : Vehicle
  toLink : List Delivery
  now : Instant

/-- `create` before its first write. -/
def createChecks (driverId : String) (deliveryIds : List String) : Service Checked :=
  if deliveryIds = [] then throw (domainError .validationError ["deliveryIds"] 400)
  else do
    let driver ← requireEligibleDriver driverId
    let found ← await (.findVehicleByDriverId driverId)
    match found with
    | none => throw (domainError .conflict ["vehicleId"] 409)
    | some vehicle => do
      let toLink ← resolveAssignableDeliveries deliveryIds
      let now ← ofResult (toIso call.now)
      return ⟨driver, vehicle, toLink, now⟩

/-- The writes of `create`. -/
def createWrites (driverId : String) (c : Checked) : Service Assignment := do
  let assignment : Assignment :=
    ⟨cfg.assignmentId.gen call.seq, driverId, c.vehicle.id, .pending, none, c.now⟩
  await (.insertAssignment assignment)
  linkDeliveries assignment.id c.now c.toLink
  await (.saveDriver { c.driver with status := .onDelivery, updatedAt := c.now })
  return assignment

/-- `create` makes its writes after its checks. -/
theorem create_eq_bind (driverId : String) (deliveryIds : List String) :
    create cfg call driverId deliveryIds =
      createChecks call driverId deliveryIds >>= createWrites cfg call driverId := by
  rw [create, createChecks]
  split
  · rfl
  · rw [bind_assoc]
    refine congrArg _ (funext fun driver => ?_)
    rw [bind_assoc]
    refine congrArg _ (funext fun found => ?_)
    cases found with
    | none => rfl
    | some vehicle =>
      dsimp only
      rw [bind_assoc]
      refine congrArg _ (funext fun toLink => ?_)
      rw [bind_assoc]
      rfl

theorem createChecks_within (driverId : String) (deliveryIds : List String) :
    StaysWithin parts (createChecks call driverId deliveryIds) := by
  rw [createChecks]
  split
  · exact .throw _
  · apply CallsOnlyE.bind (requireEligibleDriver_within driverId)
    intro driver
    apply CallsOnlyE.bind (read_within rfl)
    intro found
    cases found with
    | none => exact .throw _
    | some vehicle =>
      apply CallsOnlyE.bind (resolveAssignableDeliveries_within deliveryIds)
      intro toLink
      apply CallsOnlyE.bind (.ofResult _)
      intro now
      exact .pure _

theorem create_within (hassignments : Part.assignments ∈ parts) (hdeliveries : Part.deliveries ∈ parts)
    (hdrivers : Part.drivers ∈ parts) (driverId : String) (deliveryIds : List String) :
    StaysWithin parts (create cfg call driverId deliveryIds) := by
  rw [create_eq_bind]
  apply CallsOnlyE.bind (createChecks_within call driverId deliveryIds)
  intro c
  apply CallsOnlyE.bind (write_within rfl hassignments)
  intro inserted
  apply CallsOnlyE.bind (linkDeliveries_within hdeliveries _ c.now c.toLink)
  intro linked
  apply CallsOnlyE.bind (write_within rfl hdrivers)
  intro saved
  exact .pure _

theorem accept_within (hassignments : Part.assignments ∈ parts) (assignmentId : String) :
    StaysWithin parts (accept call assignmentId) := by
  apply CallsOnlyE.bind (requireAssignment_within assignmentId)
  intro assignment
  apply CallsOnlyE.bind (.ofResult _)
  intro t
  apply CallsOnlyE.bind (write_within rfl hassignments)
  intro saved
  exact .pure _

theorem reassign_within (hdeliveries : Part.deliveries ∈ parts)
    (deliveryId targetAssignmentId : String) :
    StaysWithin parts (reassign call deliveryId targetAssignmentId) := by
  apply CallsOnlyE.bind (read_within rfl)
  intro found
  cases found with
  | none => exact .throw _
  | some delivery =>
    dsimp only
    split
    · exact .throw _
    · split
      · exact .pure _
      · apply CallsOnlyE.bind (requireAssignment_within targetAssignmentId)
        intro target
        split
        · apply CallsOnlyE.bind (.ofResult _)
          intro iso
          apply CallsOnlyE.bind (write_within rfl hdeliveries)
          intro saved
          exact .pure _
        · exact .throw _

end AssignmentService

/-! ### Routes -/

namespace RouteService

theorem buildStops_within (env : Collaborators) (routable : List RoutableDelivery) :
    StaysWithin parts (buildStops env routable) := by
  rw [buildStops]
  split
  · exact .pure _
  · split
    · exact .pure _
    · apply CallsOnlyE.bind
      · apply CallsOnlyE.bind (read_within rfl)
        intro located
        cases env.origin with
        | error e => exact .pure _
        | ok origin =>
          cases origin with
          | none => exact .pure _
          | some point =>
            apply CallsOnlyE.bind (read_within rfl)
            intro answered
            exact .pure _
      · intro reply
        cases reply with
        | none => exact .pure _
        | some response =>
          dsimp only
          split <;> exact .pure _

theorem createOrUpdateRoute_within (hroutes : Part.routes ∈ parts) (env : Collaborators)
    (assignmentId : String) :
    StaysWithin parts (createOrUpdateRoute cfg call env assignmentId) := by
  apply CallsOnlyE.bind (AssignmentService.requireAssignment_within assignmentId)
  intro assignment
  apply CallsOnlyE.bind (read_within rfl)
  intro deliveries
  apply CallsOnlyE.bind (buildStops_within env _)
  intro built
  apply CallsOnlyE.bind (.ofResult _)
  intro now
  apply CallsOnlyE.bind (read_within rfl)
  intro existing
  apply CallsOnlyE.bind (write_within rfl hroutes)
  intro saved
  apply CallsOnlyE.bind (write_within rfl hroutes)
  intro published
  split
  · exact .throw _
  · exact .pure _

theorem completeIfAllStopsTerminal_within (hassignments : Part.assignments ∈ parts)
    (hdrivers : Part.drivers ∈ parts) (assignmentId : String) :
    StaysWithin parts (completeIfAllStopsTerminal call assignmentId) := by
  apply CallsOnlyE.bind (AssignmentService.requireAssignment_within assignmentId)
  intro assignment
  apply CallsOnlyE.bind (read_within rfl)
  intro deliveries
  split
  · exact .pure _
  · split
    · apply CallsOnlyE.bind (.ofResult _)
      intro now
      apply CallsOnlyE.bind (write_within rfl hassignments)
      intro saved
      apply CallsOnlyE.bind (read_within rfl)
      intro found
      cases found with
      | none => exact .pure _
      | some driver =>
        dsimp only
        split
        · apply CallsOnlyE.bind (write_within rfl hdrivers)
          intro released
          exact .pure _
        · exact .pure _
    · exact .pure _

end RouteService

end FleetCommand.Management
