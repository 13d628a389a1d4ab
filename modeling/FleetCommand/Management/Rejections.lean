import FleetCommand.Management.AssignmentRace
import FleetCommand.Management.Effects
import FleetCommand.Management.System
import FleetCommand.Management.Zones

/-!
# Rejections are atomic

Every method makes its checks before its first write: a call that ends in a domain error has written
nothing, indexes included (`rejected_unchanged`). After a first write a call can still fail, but
only with what a collaborator throws or with the `RangeError` of a stamp, never with a domain error.
-/

set_option autoImplicit false

namespace FleetCommand.Management

open Resumption

variable (cfg : Config) (call : Call)

/-- A domain error was thrown. -/
def Thrown.IsDomainError : Thrown → Prop
  | .domainError _ _ => True
  | _ => False

/-- Throws domain errors only while it has written nothing. -/
abbrev RejectsFirst {α : Type} (p : Service α) : Prop :=
  FailsFirstE (memory cfg) Thrown.IsDomainError (Within []) p

/-- Throws no domain error. -/
abbrev NeverRejects {α : Type} (p : Service α) : Prop :=
  NeverFailsE (memory cfg) Thrown.IsDomainError p

theorem toIso_not_domainError (ms : Int) : ∀ e, toIso ms = .error e → ¬ e.IsDomainError := by
  intro e he
  obtain rfl := toIso_error he
  exact id

theorem await_neverRejects (op : RepoOp) : NeverRejects cfg (await op) := .performE op

/-- The time of a change is read before its first write. -/
theorem toIso_rejectsFirst {α : Type} {ms : Int} {f : Instant → Service α}
    (hf : ∀ iso, RejectsFirst cfg (f iso)) : RejectsFirst cfg (ofResult (toIso ms) >>= f) :=
  .bind (.ofResult _) hf

/-- A method that ends with one write. -/
theorem await_last_rejectsFirst {α : Type} {op : RepoOp} (f : RepoOp.Resp op → α) :
    RejectsFirst cfg (await op >>= fun r => pure (f r)) := by
  apply NeverFailsE.failsFirstE
  exact .bind (await_neverRejects cfg op) fun r => .pure (f r)

/-! ## Drivers -/

namespace DriverService

theorem stampAndSave_neverRejects (next : Driver) : NeverRejects cfg (stampAndSave call next) := by
  apply NeverFailsE.performE_bind
  intro s
  apply NeverFailsE.ofResult
  intro e he
  have hstamp : toIso (nextStampFor s.lastStamp call.now next) = .error e := by
    have hsave : (s.stampAndSave cfg call.now next).1 = .error e := he
    rw [Repos.stampAndSave] at hsave
    dsimp only at hsave
    split at hsave
    · exact absurd hsave (by simp)
    next e' he' =>
      obtain rfl := Except.error.inj hsave
      exact he'
  exact toIso_not_domainError _ e hstamp

theorem create_rejectsFirst (input : CreateDriverInput) :
    RejectsFirst cfg (create cfg call input) := by
  rw [create]
  split
  · exact .throw _
  · apply FailsFirstE.bind (read_within rfl)
    intro existing
    cases existing with
    | some driver => exact .throw _
    | none =>
      apply toIso_rejectsFirst
      intro iso
      exact await_last_rejectsFirst cfg _

theorem update_rejectsFirst (id : String) (changes : DriverUpdate) :
    RejectsFirst cfg (update call id changes) := by
  apply FailsFirstE.bind (requireDriver_within id)
  intro current
  exact (stampAndSave_neverRejects cfg call _).failsFirstE

theorem deactivate_rejectsFirst (id : String) : RejectsFirst cfg (deactivate call id) := by
  apply FailsFirstE.bind (requireDriver_within id)
  intro current
  exact (stampAndSave_neverRejects cfg call _).failsFirstE

theorem changeStatus_rejectsFirst (id : String) (allowed : DriverStatus → Bool)
    (target : DriverStatus) : RejectsFirst cfg (changeStatus call id allowed target) := by
  apply FailsFirstE.bind (requireDriver_within id)
  intro current
  split
  · exact (stampAndSave_neverRejects cfg call _).failsFirstE
  · exact .throw _

end DriverService

/-! ## Vehicles -/

namespace VehicleService

theorem register_rejectsFirst (input : RegisterVehicleInput) :
    RejectsFirst cfg (register cfg call input) := by
  rw [register]
  split
  · exact .throw _
  · apply FailsFirstE.bind (read_within rfl)
    intro existing
    cases existing with
    | some vehicle => exact .throw _
    | none =>
      apply toIso_rejectsFirst
      intro iso
      exact await_last_rejectsFirst cfg _

theorem associateDriver_rejectsFirst (vehicleId : String) (driverId : Option String) :
    RejectsFirst cfg (associateDriver call vehicleId driverId) := by
  rw [associateDriver]
  split
  · exact .throw _
  · apply FailsFirstE.bind (read_within rfl)
    intro found
    cases found with
    | none => exact .throw _
    | some vehicle =>
      dsimp only
      split
      · exact .throw _
      · apply toIso_rejectsFirst
        intro iso
        exact await_last_rejectsFirst cfg _

end VehicleService

/-! ## Deliveries -/

namespace DeliveryService

theorem create_rejectsFirst (input : CreateDeliveryInput) (geocoded : Option GeoPoint) :
    RejectsFirst cfg (create cfg call input geocoded) := by
  unfold create
  split
  · exact .throw _
  · apply FailsFirstE.bind (read_within rfl)
    intro answered
    cases geocoded with
    | none => exact .throw _
    | some destination =>
      apply toIso_rejectsFirst
      intro iso
      exact await_last_rejectsFirst cfg _

theorem transition_rejectsFirst (id : String) (event : DeliveryEvent) (reason : Option String) :
    RejectsFirst cfg (transition call id event reason) := by
  apply FailsFirstE.bind (read_within rfl)
  intro found
  cases found with
  | none => exact .throw _
  | some current =>
    dsimp only
    split
    · exact .throw _
    · split
      · exact .throw _
      · apply toIso_rejectsFirst
        intro iso
        exact await_last_rejectsFirst cfg _

end DeliveryService

/-! ## Assignments -/

namespace AssignmentService

theorem linkDeliveries_neverRejects (assignmentId : String) (now : Instant)
    (toLink : List Delivery) : NeverRejects cfg (linkDeliveries assignmentId now toLink) := by
  induction toLink with
  | nil => exact .pure _
  | cons delivery rest ih => exact .bind (await_neverRejects cfg _) fun _ => ih

/-- A list of ids that names one delivery twice is resolved before anything is written, too. -/
theorem create_rejectsFirst (driverId : String) (deliveryIds : List String) :
    RejectsFirst cfg (create cfg call driverId deliveryIds) := by
  rw [create_eq_bind]
  apply FailsFirstE.bind (createChecks_within call driverId deliveryIds)
  intro c
  apply NeverFailsE.failsFirstE
  apply NeverFailsE.bind (await_neverRejects cfg _)
  intro inserted
  apply NeverFailsE.bind (linkDeliveries_neverRejects cfg _ c.now c.toLink)
  intro linked
  exact .bind (await_neverRejects cfg _) fun _ => .pure _

theorem accept_rejectsFirst (assignmentId : String) :
    RejectsFirst cfg (accept call assignmentId) := by
  apply FailsFirstE.bind (requireAssignment_within assignmentId)
  intro assignment
  apply FailsFirstE.bind (.ofResult _)
  intro t
  exact await_last_rejectsFirst cfg _

theorem reassign_rejectsFirst (deliveryId targetAssignmentId : String) :
    RejectsFirst cfg (reassign call deliveryId targetAssignmentId) := by
  apply FailsFirstE.bind (read_within rfl)
  intro found
  cases found with
  | none => exact .throw _
  | some delivery =>
    dsimp only
    split
    · exact .throw _
    · split
      · exact .pure _
      · apply FailsFirstE.bind (requireAssignment_within targetAssignmentId)
        intro target
        split
        · apply toIso_rejectsFirst
          intro iso
          exact await_last_rejectsFirst cfg _
        · exact .throw _

end AssignmentService

/-! ## Routes -/

namespace RouteService

/-- A publisher that fails after the route is stored fails with an error of its own. -/
theorem createOrUpdateRoute_rejectsFirst (env : Collaborators) (assignmentId : String) :
    RejectsFirst cfg (createOrUpdateRoute cfg call env assignmentId) := by
  apply FailsFirstE.bind (AssignmentService.requireAssignment_within assignmentId)
  intro assignment
  apply FailsFirstE.bind (read_within rfl)
  intro deliveries
  apply FailsFirstE.bind (buildStops_within env _)
  intro built
  apply toIso_rejectsFirst
  intro now
  apply FailsFirstE.bind (read_within rfl)
  intro existing
  apply NeverFailsE.failsFirstE
  apply NeverFailsE.bind (await_neverRejects cfg _)
  intro saved
  apply NeverFailsE.bind (await_neverRejects cfg _)
  intro published
  split
  · exact .throw id
  · exact .pure _

theorem completeIfAllStopsTerminal_rejectsFirst (assignmentId : String) :
    RejectsFirst cfg (completeIfAllStopsTerminal call assignmentId) := by
  apply FailsFirstE.bind (AssignmentService.requireAssignment_within assignmentId)
  intro assignment
  apply FailsFirstE.bind (read_within rfl)
  intro deliveries
  split
  · exact .pure _
  · split
    · apply toIso_rejectsFirst
      intro now
      apply NeverFailsE.failsFirstE
      apply NeverFailsE.bind (await_neverRejects cfg _)
      intro saved
      apply NeverFailsE.bind (await_neverRejects cfg _)
      intro found
      cases found with
      | none => exact .pure _
      | some driver =>
        dsimp only
        split
        · exact .bind (await_neverRejects cfg _) fun _ => .pure _
        · exact .pure _
    · exact .pure _

end RouteService

/-! ## Requests -/

theorem ignore_rejectsFirst {α : Type} {p : Service α} (hp : RejectsFirst cfg p) :
    RejectsFirst cfg (ignore p) :=
  hp.bind_neverFails fun _ => .pure _

theorem Op.code_rejectsFirst (op : Op) : RejectsFirst cfg (op.code cfg call) := by
  cases op with
  | createDriver input =>
    exact ignore_rejectsFirst cfg (DriverService.create_rejectsFirst cfg call input)
  | updateDriver id changes =>
    exact ignore_rejectsFirst cfg (DriverService.update_rejectsFirst cfg call id changes)
  | deactivateDriver id =>
    exact ignore_rejectsFirst cfg (DriverService.deactivate_rejectsFirst cfg call id)
  | setAvailability id target =>
    exact ignore_rejectsFirst cfg (DriverService.changeStatus_rejectsFirst cfg call id _ _)
  | beginDelivery id =>
    exact ignore_rejectsFirst cfg (DriverService.changeStatus_rejectsFirst cfg call id _ _)
  | completeDelivery id =>
    exact ignore_rejectsFirst cfg (DriverService.changeStatus_rejectsFirst cfg call id _ _)
  | registerVehicle input =>
    exact ignore_rejectsFirst cfg (VehicleService.register_rejectsFirst cfg call input)
  | associateDriver vehicleId driverId =>
    exact ignore_rejectsFirst cfg
      (VehicleService.associateDriver_rejectsFirst cfg call vehicleId driverId)
  | createDelivery input geocoded =>
    exact ignore_rejectsFirst cfg (DeliveryService.create_rejectsFirst cfg call input geocoded)
  | transition id event reason =>
    exact ignore_rejectsFirst cfg (DeliveryService.transition_rejectsFirst cfg call id event reason)
  | createAssignment driverId deliveryIds =>
    exact ignore_rejectsFirst cfg
      (AssignmentService.create_rejectsFirst cfg call driverId deliveryIds)
  | accept assignmentId =>
    exact ignore_rejectsFirst cfg (AssignmentService.accept_rejectsFirst cfg call assignmentId)
  | reassign deliveryId targetAssignmentId =>
    exact ignore_rejectsFirst cfg
      (AssignmentService.reassign_rejectsFirst cfg call deliveryId targetAssignmentId)
  | createOrUpdateRoute env assignmentId =>
    exact ignore_rejectsFirst cfg
      (RouteService.createOrUpdateRoute_rejectsFirst cfg call env assignmentId)
  | reoptimize env assignmentId =>
    exact ignore_rejectsFirst cfg
      (RouteService.createOrUpdateRoute_rejectsFirst cfg call env assignmentId)
  | completeIfAllStopsTerminal assignmentId =>
    exact ignore_rejectsFirst cfg
      (RouteService.completeIfAllStopsTerminal_rejectsFirst cfg call assignmentId)

/-! ## Zones -/

namespace ZoneService

theorem isPolygonInvalid_reads (check : Except Unit GeometryCheck) (ring : Option Ring) :
    CallsOnlyE ZoneOp.Reads (isPolygonInvalid check ring) := by
  cases ring with
  | none => exact .pure _
  | some ring =>
    unfold isPolygonInvalid
    dsimp only
    split
    · exact .pure _
    · apply CallsOnlyE.bind (.performE trivial)
      intro answered
      cases check with
      | error e => exact .throw _
      | ok answer => exact .pure _

theorem create_rejectsFirst (newId : String) (now : Int) (input : CreateZoneInput)
    (check : Except Unit GeometryCheck) :
    FailsFirstE zoneMemory Thrown.IsDomainError ZoneOp.Reads (create newId now input check) := by
  apply FailsFirstE.bind (isPolygonInvalid_reads check _)
  intro polygonInvalid
  split
  · apply FailsFirstE.bind (.ofResult _)
    intro createdAt
    apply NeverFailsE.failsFirstE
    exact .bind (.performE _) fun _ => .pure _
  · exact .throw _

end ZoneService

theorem zoneMemory_reads {op : ZoneOp} (h : op.Reads) (zones : InsertionMap String Zone) :
    (zoneMemory op zones).2 = zones := by
  cases op with
  | insertZone zone => exact h.elim
  | checkGeometry => rfl

/-! ## Calls of all services -/

/-- The repositories of the management service. -/
structure Stores where
  repos : Repos
  zones : InsertionMap String Zone

/-- A call of one of the services. -/
inductive ServiceCall where
  | request (op : Op)
  | listDrivers (status : Option DriverStatus)
  | listVehicles
  | createZone (newId : String) (input : CreateZoneInput) (check : Except Unit GeometryCheck)

/-- `list` of the driver repository. -/
def DriverRepository.list (r : DriverRepository) (status : Option DriverStatus) : List Driver :=
  match status with
  | none => r.byId.values
  | some status => r.byId.values.filter fun d => d.status = status

/-- What a call returns. -/
inductive Reply where
  | done
  | drivers (list : List Driver)
  | vehicles (list : List Vehicle)
  | zone (zone : Zone)

/-- A call run to its end. -/
def ServiceCall.run (c : ServiceCall) (s : Stores) : Except Thrown Reply × Stores :=
  match c with
  | .request op =>
    let r := runE (memory cfg) (op.code cfg call) s.repos
    (r.1.map fun _ => .done, { s with repos := r.2 })
  | .listDrivers status => (.ok (.drivers (s.repos.drivers.list status)), s)
  | .listVehicles => (.ok (.vehicles s.repos.vehicles.byId.values), s)
  | .createZone newId input check =>
    let r := runE zoneMemory (ZoneService.create newId call.now input check) s.zones
    (r.1.map .zone, { s with zones := r.2 })

theorem map_eq_error {ε α β : Type} {f : α → β} {r : Except ε α} {e : ε} (h : r.map f = .error e) :
    r = .error e := by
  cases r with
  | ok a => exact absurd h (by simp [Except.map])
  | error e' => simpa [Except.map] using h

/-- From any state of the repositories, a call that ends in a domain error leaves all of them, their
indexes included, as they were. -/
theorem rejected_unchanged (c : ServiceCall) (s : Stores) (envelope : ErrorEnvelope)
    (httpStatus : Nat) (h : (c.run cfg call s).1 = .error (.domainError envelope httpStatus)) :
    (c.run cfg call s).2 = s := by
  cases c with
  | request op =>
    have hrepos := (Op.code_rejectsFirst cfg call op).unchanged
      (fun op repos hop => Within.reads_only cfg hop repos) (map_eq_error h) trivial
    show { s with repos := _ } = s
    rw [hrepos]
  | listDrivers status => rfl
  | listVehicles => rfl
  | createZone newId input check =>
    have hzones := (ZoneService.create_rejectsFirst newId call.now input check).unchanged
      (fun op zones hop => zoneMemory_reads hop zones) (map_eq_error h) trivial
    show { s with zones := _ } = s
    rw [hzones]

/-- A driver on the way with a parcel, a free driver, their vehicles, and a parcel not yet taken. -/
def busyStores : Stores where
  repos :=
    { freeRepos with
      drivers := freeRepos.drivers.save .unary
        { freeDriver with id := "e", email := "e@fleet.example", status := .onDelivery }
      lastStamp := InsertionMap.empty.set "e" 0
      vehicles := freeRepos.vehicles.save .unary
        { driversVan with id := "w", identifier := "j", driverId := some "e" }
      deliveries := freeRepos.deliveries.set "p"
        { newParcel "p" with status := .assigned, assignmentId := some "a" }
      assignments := InsertionMap.empty.set "a"
        ⟨"a", "e", "w", .pending, none, ⟨0, validTime_zero⟩⟩ }
  zones := .empty

/-- The free driver is given both parcels: the second one is taken, so neither is linked, no
assignment is stored and the driver's record stays as it is. -/
theorem takenParcel_unchanged :
    ((ServiceCall.request (.createAssignment "d" ["q", "p"])).run .unary ⟨0, 1⟩ busyStores).2 =
      busyStores :=
  rejected_unchanged .unary ⟨0, 1⟩ _ _ ⟨.alreadyAssigned, ["deliveryId"]⟩ 409 rfl

end FleetCommand.Management
