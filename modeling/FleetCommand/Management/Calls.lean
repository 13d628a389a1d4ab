import FleetCommand.Management.Effects
import FleetCommand.Management.System

/-!
# The management service: the writes each method makes

For the methods that write drivers, vehicles or deliveries: a condition `C` on repository calls that
reads meet holds of every call of the method exactly when it holds of the method's writes, and these
are made exactly when the method's checks pass. `C` is read in the state the call is made in, so a
law of every write follows from the writes alone.
-/

set_option autoImplicit false

namespace FleetCommand.Management

open Resumption

variable (cfg : Config) (call : Call) {C : RepoOp → Repos → Prop}

/-- A condition that every call that only reads meets. -/
def ReadsMeet (C : RepoOp → Repos → Prop) : Prop := ∀ op s, op.writes = none → C op s

/-- A condition that every call meets that does not write the part. -/
def Spares (part : Part) (C : RepoOp → Repos → Prop) : Prop :=
  ∀ op s, op.writes ≠ some part → C op s

theorem Spares.reads {part : Part} (hC : Spares part C) : ReadsMeet C :=
  fun op s h => hC op s (by rw [h]; simp)

theorem Spares.other {part part' : Part} (hC : Spares part C) {op : RepoOp}
    (h : op.writes = some part') (hne : part' ≠ part) (s : Repos) : C op s :=
  hC op s fun hop => hne (Option.some.inj (h.symm.trans hop))

/-- A method that only reads. -/
theorem ReadsMeet.everyCall {α : Type} (hC : ReadsMeet C) {p : Service α} (hp : StaysWithin [] p)
    (s : Repos) : EveryCallE (memory cfg) C p s := by
  apply CallsOnlyE.everyCallE _ _ hp
  intro op s hop
  apply hC
  rw [Option.eq_none_iff_forall_ne_some]
  intro part hpart
  exact absurd (hop part hpart) List.not_mem_nil

/-- A method that does not write the part. -/
theorem Spares.everyCall {α : Type} {part : Part} {parts : List Part} (hC : Spares part C)
    {p : Service α} (hp : StaysWithin parts p) (hpart : part ∉ parts) (s : Repos) :
    EveryCallE (memory cfg) C p s :=
  CallsOnlyE.everyCallE _ (fun op s hop => hC op s (hop.not_writes hpart)) hp s

theorem everyCallE_ignore {α : Type} (p : Service α) (s : Repos) :
    EveryCallE (memory cfg) C (ignore p) s ↔ EveryCallE (memory cfg) C p s := by
  rw [ignore, everyCallE_bind]
  rcases runE (memory cfg) p s with ⟨result, s'⟩
  cases result <;> simp

/-- A method that ends with one call. -/
theorem everyCallE_await_pure {α : Type} (op : RepoOp) (f : op.Resp → α) (s : Repos) :
    EveryCallE (memory cfg) C (await op >>= fun r => pure (f r)) s ↔ C op s :=
  (everyCallE_performE_bind (memory cfg) C op _ s).trans (and_iff_left trivial)

/-- Reading the clock before the rest of a method. -/
theorem everyCallE_toIso {α : Type} (ms : Int) (f : Instant → Service α) (s : Repos) :
    EveryCallE (memory cfg) C (ofResult (toIso ms) >>= f) s ↔
      ∀ hnow : ValidTime ms, EveryCallE (memory cfg) C (f ⟨ms, hnow⟩) s := by
  rw [everyCallE_bind, runE_ofResult]
  by_cases hnow : ValidTime ms
  · rw [toIso_of_valid hnow]
    simp [hnow]
  · rw [toIso_of_not_valid hnow]
    simp [hnow]

/-! ## Drivers -/

namespace DriverService

/-- The record `create` inserts. -/
def created (input : CreateDriverInput) (iso : Instant) : Driver where
  id := cfg.driverId.gen call.seq
  name := input.name.getD ""
  email := input.email.getD ""
  phone := input.phone.getD ""
  licenseNumber := input.licenseNumber.getD ""
  status := .offline
  active := true
  createdAt := iso
  updatedAt := iso

theorem everyCall_create (hC : ReadsMeet C) (input : CreateDriverInput) (s : Repos) :
    EveryCallE (memory cfg) C (create cfg call input) s ↔
      (validateDriverInput input = none →
        s.drivers.findByEmail cfg (input.email.getD "") = none → ∀ hnow : ValidTime call.now,
        C (.insertNewDriver call.now (created cfg call input ⟨call.now, hnow⟩)) s) := by
  rw [create]
  cases validateDriverInput input with
  | some envelope => simp
  | none =>
    dsimp only
    rw [everyCallE_performE_bind, and_iff_right (hC _ s rfl)]
    simp only [memory]
    cases s.drivers.findByEmail cfg (input.email.getD "") with
    | some existing => simp
    | none =>
      dsimp only
      rw [everyCallE_toIso]
      simp only [forall_const]
      exact forall_congr' fun hnow => everyCallE_await_pure cfg _ _ s

/-- A method that reads a driver and goes on with it. -/
theorem everyCall_requireDriver_bind {α : Type} (hC : ReadsMeet C) (id : String)
    (f : Driver → Service α) (s : Repos) :
    EveryCallE (memory cfg) C (requireDriver id >>= f) s ↔
      ∀ d, s.drivers.byId.get? id = some d → EveryCallE (memory cfg) C (f d) s := by
  have hreads : EveryCallE (memory cfg) C (requireDriver id) s :=
    hC.everyCall cfg (requireDriver_within id) s
  rw [everyCallE_bind, and_iff_right hreads, runE_requireDriver]
  cases s.drivers.byId.get? id <;> simp

theorem everyCall_stampAndSave (next : Driver) (s : Repos) :
    EveryCallE (memory cfg) C (stampAndSave call next) s ↔
      C (.stampAndSaveDriver call.now next) s :=
  (everyCallE_performE_bind (memory cfg) C _ _ s).trans (and_iff_left trivial)

/-- The record `update` stamps and saves. -/
def updated (current : Driver) (changes : DriverUpdate) : Driver :=
  { current with
    name := changes.name.getD current.name
    phone := changes.phone.getD current.phone
    licenseNumber := changes.licenseNumber.getD current.licenseNumber
    status := changes.status.getD current.status }

theorem everyCall_update (hC : ReadsMeet C) (id : String) (changes : DriverUpdate)
    (s : Repos) :
    EveryCallE (memory cfg) C (update call id changes) s ↔
      ∀ d, s.drivers.byId.get? id = some d →
        C (.stampAndSaveDriver call.now (updated d changes)) s := by
  rw [update, everyCall_requireDriver_bind cfg hC]
  simp only [everyCall_stampAndSave, updated]

theorem everyCall_deactivate (hC : ReadsMeet C) (id : String) (s : Repos) :
    EveryCallE (memory cfg) C (deactivate call id) s ↔
      ∀ d, s.drivers.byId.get? id = some d →
        C (.stampAndSaveDriver call.now { d with active := false }) s := by
  rw [deactivate, everyCall_requireDriver_bind cfg hC]
  simp only [everyCall_stampAndSave]

theorem everyCall_changeStatus (hC : ReadsMeet C) (id : String)
    (allowed : DriverStatus → Bool) (target : DriverStatus) (s : Repos) :
    EveryCallE (memory cfg) C (changeStatus call id allowed target) s ↔
      ∀ d, s.drivers.byId.get? id = some d → allowed d.status = true →
        C (.stampAndSaveDriver call.now { d with status := target }) s := by
  rw [changeStatus, everyCall_requireDriver_bind cfg hC]
  refine forall₂_congr fun d _ => ?_
  split
  next hallowed => rw [everyCall_stampAndSave, forall_prop_of_true hallowed]
  next hnot => exact iff_of_true trivial fun h => absurd h hnot

end DriverService

/-! ## Vehicles -/

namespace VehicleService

/-- The record `register` inserts. -/
def registered (input : RegisterVehicleInput) (iso : Instant) : Vehicle where
  id := cfg.vehicleId.gen call.seq
  identifier := input.identifier.getD ""
  type := input.type.getD ""
  capacityKg := input.capacityKg.getD .nan
  driverId := none
  associatedAt := none
  createdAt := iso

theorem everyCall_register (hC : ReadsMeet C) (input : RegisterVehicleInput) (s : Repos) :
    EveryCallE (memory cfg) C (register cfg call input) s ↔
      (validateVehicleInput input = none →
        s.vehicles.findByIdentifier cfg (input.identifier.getD "") = none →
        ∀ hnow : ValidTime call.now,
        C (.insertVehicle (registered cfg call input ⟨call.now, hnow⟩)) s) := by
  rw [register]
  cases validateVehicleInput input with
  | some envelope => simp
  | none =>
    dsimp only
    rw [everyCallE_performE_bind, and_iff_right (hC _ s rfl)]
    simp only [memory]
    cases s.vehicles.findByIdentifier cfg (input.identifier.getD "") with
    | some existing => simp
    | none =>
      dsimp only
      rw [everyCallE_toIso]
      simp only [forall_const]
      exact forall_congr' fun hnow => everyCallE_await_pure cfg _ _ s

/-- The checks of `associateDriver` against the vehicle it finds. -/
def Associable (s : Repos) (vehicleId : String) (driverId : Option String) (v : Vehicle) : Prop :=
  isMissing driverId = false ∧ s.vehicles.byId.get? vehicleId = some v ∧
    ¬ (truthy v.driverId ∧ v.driverId ≠ driverId)

theorem everyCall_associateDriver (hC : ReadsMeet C) (vehicleId : String)
    (driverId : Option String) (s : Repos) :
    EveryCallE (memory cfg) C (associateDriver call vehicleId driverId) s ↔
      ∀ v, Associable s vehicleId driverId v → ∀ hnow : ValidTime call.now,
        C (.saveVehicle
          { v with driverId := driverId, associatedAt := some ⟨call.now, hnow⟩ }) s := by
  rw [associateDriver]
  simp only [Associable]
  split
  next hmissing => simp [hmissing]
  next hpresent =>
    rw [everyCallE_performE_bind, and_iff_right (hC _ s rfl)]
    simp only [memory]
    cases s.vehicles.byId.get? vehicleId with
    | none => simp
    | some v =>
      dsimp only
      split
      next hconflict => simp [hconflict]
      next hfree =>
        rw [everyCallE_toIso]
        constructor
        · rintro h v' ⟨-, hv', -⟩ hnow
          obtain rfl := Option.some.inj hv'
          exact (everyCallE_await_pure cfg _ _ s).1 (h hnow)
        · intro h hnow
          exact (everyCallE_await_pure cfg _ _ s).2
            (h v ⟨by simpa using hpresent, rfl, hfree⟩ hnow)

end VehicleService

/-! ## Deliveries -/

namespace DeliveryService

/-- The record `create` inserts. -/
def created (input : CreateDeliveryInput) (destination : GeoPoint) (iso : Instant) : Delivery where
  id := cfg.deliveryId.gen call.seq
  address := input.address.getD ""
  recipientName := input.recipientName.getD ""
  recipientContact := input.recipientContact.getD ""
  weightKg := input.weightKg.getD .nan
  destination := destination
  status := .created
  trackingToken := cfg.trackingToken call.seq
  assignmentId := none
  failureReason := none
  completedAt := none
  createdAt := iso
  updatedAt := iso

theorem everyCall_create (hC : ReadsMeet C) (input : CreateDeliveryInput)
    (geocoded : Option GeoPoint) (s : Repos) :
    EveryCallE (memory cfg) C (create cfg call input geocoded) s ↔
      (validateDeliveryInput input = none → ∀ destination, geocoded = some destination →
        ∀ hnow : ValidTime call.now,
        C (.insertDelivery (created cfg call input destination ⟨call.now, hnow⟩)) s) := by
  unfold create
  cases validateDeliveryInput input with
  | some envelope => simp
  | none =>
    dsimp only
    rw [everyCallE_performE_bind, and_iff_right (hC _ s rfl), forall_prop_of_true rfl]
    simp only [memory]
    cases geocoded with
    | none => simp
    | some destination =>
      simp only [Option.some.injEq, forall_eq']
      rw [everyCallE_toIso]
      exact forall_congr' fun hnow => everyCallE_await_pure cfg _ _ s

theorem everyCall_transition (hC : ReadsMeet C) (id : String) (event : DeliveryEvent)
    (reason : Option String) (s : Repos) :
    EveryCallE (memory cfg) C (transition call id event reason) s ↔
      ∀ d, s.deliveries.get? id = some d → ∀ target, nextStatus d.status event = some target →
        (event = .fail → isValidFailureReason reason = true) → ∀ hnow : ValidTime call.now,
        C (.saveDelivery (transitioned d target reason ⟨call.now, hnow⟩)) s := by
  rw [transition, everyCallE_performE_bind, and_iff_right (hC _ s rfl)]
  simp only [memory]
  cases s.deliveries.get? id with
  | none => simp
  | some d =>
    simp only [Option.some.injEq, forall_eq']
    cases nextStatus d.status event with
    | none => simp
    | some target =>
      simp only [Option.some.injEq, forall_eq']
      split
      next hreason => simp [hreason]
      next hvalid =>
        have hvalid' : event = .fail → isValidFailureReason reason = true := by simpa using hvalid
        rw [forall_prop_of_true hvalid', everyCallE_toIso]
        exact forall_congr' fun hnow => everyCallE_await_pure cfg _ _ s

end DeliveryService

/-! ## Deliveries of assignments -/

namespace AssignmentService

theorem everyCall_reassign (hC : ReadsMeet C) (deliveryId targetAssignmentId : String) (s : Repos)
    (hsave : ∀ d, s.deliveries.get? deliveryId = some d → ∀ id iso,
      C (.saveDelivery { d with assignmentId := some id, updatedAt := iso }) s) :
    EveryCallE (memory cfg) C (reassign call deliveryId targetAssignmentId) s := by
  rw [reassign, everyCallE_performE_bind, and_iff_right (hC _ s rfl)]
  simp only [memory]
  cases hd : s.deliveries.get? deliveryId with
  | none => exact trivial
  | some d =>
    dsimp only
    split
    · exact trivial
    · split
      · exact trivial
      · rw [everyCallE_bind, and_iff_right (hC.everyCall cfg (requireAssignment_within _) s),
          runE_requireAssignment]
        cases s.assignments.get? targetAssignmentId with
        | none => exact trivial
        | some target =>
          dsimp only
          split
          · rw [everyCallE_toIso]
            intro hnow
            exact (everyCallE_await_pure cfg _ _ s).2 (hsave d hd _ _)
          · exact trivial

theorem everyCall_linkDeliveries {assignmentId : String} {now : Instant} {toLink : List Delivery}
    (hsave : ∀ d ∈ toLink, ∀ s, C (.saveDelivery (linked assignmentId now d)) s) (s : Repos) :
    EveryCallE (memory cfg) C (linkDeliveries assignmentId now toLink) s := by
  induction toLink generalizing s with
  | nil => exact trivial
  | cons d rest ih =>
    rw [linkDeliveries, everyCallE_performE_bind]
    exact ⟨hsave d List.mem_cons_self s, ih (fun e he => hsave e (List.mem_cons_of_mem d he)) _⟩

/-- Every call of `create`: the checks only read. -/
theorem everyCall_create_iff (hC : ReadsMeet C) (driverId : String) (deliveryIds : List String)
    (s : Repos) :
    EveryCallE (memory cfg) C (create cfg call driverId deliveryIds) s ↔
      ∀ c, runE (memory cfg) (createChecks call driverId deliveryIds) s = (.ok c, s) →
        EveryCallE (memory cfg) C (createWrites cfg call driverId c) s := by
  have hreads : EveryCallE (memory cfg) C (createChecks call driverId deliveryIds) s :=
    hC.everyCall cfg (createChecks_within call driverId deliveryIds) s
  rw [create_eq_bind, everyCallE_bind, and_iff_right hreads]
  obtain ⟨e, hchecks⟩ | ⟨c, hchecks, -⟩ := createChecks_cases cfg call driverId deliveryIds s
  · rw [hchecks]
    simp
  · rw [hchecks]
    simp

/-- The deliveries `create` saves are those it found, linked. -/
theorem everyCall_create_deliveries (hC : Spares .deliveries C) (driverId : String)
    (deliveryIds : List String) (s : Repos)
    (hsave : ∀ id d, s.deliveries.get? id = some d → ∀ assignmentId now s',
      C (.saveDelivery (linked assignmentId now d)) s') :
    EveryCallE (memory cfg) C (create cfg call driverId deliveryIds) s := by
  rw [everyCall_create_iff cfg call hC.reads]
  intro c hchecks
  have hc := passed_of_runE cfg call hchecks
  rw [createWrites, everyCallE_performE_bind, and_iff_right (hC.other rfl (by decide) s),
    everyCallE_bind, runE_linkDeliveries]
  refine ⟨everyCall_linkDeliveries cfg ?_ _,
    (everyCallE_await_pure cfg _ _ _).2 (hC.other rfl (by decide) _)⟩
  intro d hd s'
  obtain ⟨id, -, hstored, -⟩ := exists_assignable hc.toLink hd
  exact hsave id d hstored _ _ s'

end AssignmentService

/-! ## Drivers of assignments -/

/-- A condition on storing a driver that looks at the stored drivers only. -/
def DriversOnly (C : RepoOp → Repos → Prop) : Prop :=
  ∀ (d : Driver) (s s' : Repos), s.drivers = s'.drivers → C (.saveDriver d) s → C (.saveDriver d) s'

theorem DriversOnly.iff (h : DriversOnly C) (d : Driver) (s s' : Repos)
    (hs : s.drivers = s'.drivers) : C (.saveDriver d) s ↔ C (.saveDriver d) s' :=
  ⟨h d s s' hs, h d s' s hs.symm⟩

namespace AssignmentService

/-- The checks of `create`, against the driver it finds. -/
structure Creatable (s : Repos) (driverId : String) (deliveryIds : List String) (driver : Driver) :
    Prop where
  nonempty : deliveryIds ≠ []
  found : s.drivers.byId.get? driverId = some driver
  eligible : driver.active = true ∧ isEligibleStatus driver.status = true
  vehicle : (s.vehicles.findByDriverId driverId).isSome
  assignable : ∀ id ∈ deliveryIds, ∃ d, Assignable s.deliveries id d

theorem resolveAssignableDeliveries_ok {ids : List String} {s : Repos}
    (h : ∀ id ∈ ids, ∃ d, Assignable s.deliveries id d) :
    ∃ toLink, runE (memory cfg) (resolveAssignableDeliveries ids) s = (.ok toLink, s) := by
  induction ids with
  | nil => exact ⟨[], rfl⟩
  | cons id ids ih =>
    obtain ⟨d, hfound, hfree, hnext⟩ := h id List.mem_cons_self
    obtain ⟨toLink, hrest⟩ := ih fun id hid => h id (List.mem_cons_of_mem _ hid)
    refine ⟨d :: toLink, ?_⟩
    simp only [resolveAssignableDeliveries, await, runE_bind, runE_performE, memory, hfound]
    rw [if_neg (by simp [hfree]), if_neg hnext, runE_bind, hrest]
    rfl

/-- What `create` does once its checks have passed: only the last write is of a driver. -/
theorem everyCall_saves {α : Type} (hC : Spares .drivers C) (hlocal : DriversOnly C)
    (assignment : Assignment) (now : Instant) (toLink : List Delivery) (d : Driver) (a : α)
    (s : Repos) :
    EveryCallE (memory cfg) C (do
      await (.insertAssignment assignment)
      linkDeliveries assignment.id now toLink
      await (.saveDriver d)
      return a) s ↔ C (.saveDriver d) s := by
  rw [everyCallE_performE_bind, and_iff_right (hC.other rfl (by decide) s), everyCallE_bind,
    and_iff_right (hC.everyCall cfg
      (linkDeliveries_within (List.mem_singleton_self Part.deliveries) _ _ _) (by decide) _),
    runE_linkDeliveries]
  exact (everyCallE_await_pure cfg _ _ _).trans (hlocal.iff d _ s rfl)

theorem exists_assigned {deliveries : InsertionMap String Delivery} {ids : List String}
    {toLink : List Delivery} (h : List.Forall₂ (Assignable deliveries) ids toLink) {id : String}
    (hid : id ∈ ids) : ∃ d, Assignable deliveries id d := by
  induction h with
  | nil => exact absurd hid List.not_mem_nil
  | cons hfirst _ ih =>
    rcases List.mem_cons.1 hid with rfl | hid
    · exact ⟨_, hfirst⟩
    · exact ih hid

/-- The checks of `create` pass for a driver that can be assigned. -/
theorem createChecks_ok {driverId : String} {deliveryIds : List String} {s : Repos}
    {driver : Driver} (h : Creatable s driverId deliveryIds driver) (hnow : ValidTime call.now) :
    ∃ vehicle toLink, runE (memory cfg) (createChecks call driverId deliveryIds) s =
      (.ok ⟨driver, vehicle, toLink, ⟨call.now, hnow⟩⟩, s) := by
  obtain ⟨vehicle, hvehicle⟩ := Option.isSome_iff_exists.1 h.vehicle
  obtain ⟨toLink, hresolve⟩ := resolveAssignableDeliveries_ok cfg h.assignable
  refine ⟨vehicle, toLink, ?_⟩
  rw [createChecks, if_neg h.nonempty, runE_bind, runE_requireEligibleDriver, h.found]
  dsimp only
  rw [if_pos h.eligible]
  simp only [await, runE_bind, runE_performE, memory, hvehicle, hresolve, runE_ofResult,
    toIso_of_valid hnow]
  rfl

theorem Passed.creatable {s : Repos} {driverId : String} {deliveryIds : List String} {c : Checked}
    (h : Passed call s driverId deliveryIds c) : Creatable s driverId deliveryIds c.driver where
  nonempty := h.nonempty
  found := h.driver
  eligible := h.eligible
  vehicle := by
    rw [h.vehicle]
    rfl
  assignable _ hid := exists_assigned h.toLink hid

theorem everyCall_create (hC : Spares .drivers C) (hlocal : DriversOnly C) (driverId : String)
    (deliveryIds : List String) (s : Repos) :
    EveryCallE (memory cfg) C (create cfg call driverId deliveryIds) s ↔
      ∀ driver, Creatable s driverId deliveryIds driver → ∀ hnow : ValidTime call.now,
        C (.saveDriver { driver with status := .onDelivery, updatedAt := ⟨call.now, hnow⟩ }) s := by
  rw [everyCall_create_iff cfg call hC.reads]
  constructor
  · intro h driver hcreatable hnow
    obtain ⟨vehicle, toLink, hchecks⟩ := createChecks_ok cfg call hcreatable hnow
    exact (everyCall_saves cfg hC hlocal _ _ toLink _ _ s).1 (h _ hchecks)
  · intro h c hchecks
    have hc := passed_of_runE cfg call hchecks
    refine (everyCall_saves cfg hC hlocal _ _ c.toLink _ _ s).2 ?_
    obtain ⟨hnow, hat⟩ := toIso_ok hc.now
    rw [hat]
    exact h c.driver (hc.creatable call) hnow

end AssignmentService

namespace RouteService

/-- The checks of `completeIfAllStopsTerminal`, against the driver it releases. -/
structure Completes (s : Repos) (assignmentId : String) (driver : Driver) : Prop where
  terminal : AllStopsTerminal s assignmentId
  found : ∃ a, s.assignments.get? assignmentId = some a ∧
    s.drivers.byId.get? a.driverId = some driver
  busy : driver.status = .onDelivery

theorem everyCall_completeIfAllStopsTerminal (hC : Spares .drivers C) (hlocal : DriversOnly C)
    (assignmentId : String) (s : Repos) :
    EveryCallE (memory cfg) C (completeIfAllStopsTerminal call assignmentId) s ↔
      ∀ hnow : ValidTime call.now, ∀ driver, Completes s assignmentId driver →
        C (.saveDriver { driver with status := .available, updatedAt := ⟨call.now, hnow⟩ }) s := by
  have hreads : EveryCallE (memory cfg) C (AssignmentService.requireAssignment assignmentId) s :=
    hC.reads.everyCall cfg (AssignmentService.requireAssignment_within _) s
  rw [completeIfAllStopsTerminal, everyCallE_bind, and_iff_right hreads,
    AssignmentService.runE_requireAssignment]
  cases ha : s.assignments.get? assignmentId with
  | none =>
    refine iff_of_true trivial fun hnow driver h => ?_
    obtain ⟨a, hfound, -⟩ := h.found
    exact absurd (ha.symm.trans hfound) (by simp)
  | some a =>
    have hdriver : ∀ {driver}, Completes s assignmentId driver →
        s.drivers.byId.get? a.driverId = some driver := by
      intro driver h
      obtain ⟨a', hfound, hd⟩ := h.found
      obtain rfl := Option.some.inj (ha.symm.trans hfound)
      exact hd
    dsimp only
    rw [everyCallE_performE_bind, and_iff_right (hC.reads _ s rfl)]
    have hlist : (memory cfg (.listDeliveriesByAssignmentId assignmentId) s).1 =
        listByAssignmentId s.deliveries assignmentId := rfl
    rcases Decidable.em (listByAssignmentId s.deliveries assignmentId = []) with hempty | hsome
    · rw [if_pos (hlist.trans hempty)]
      exact iff_of_true trivial fun hnow driver h => absurd hempty h.terminal.1
    · rw [if_neg fun hempty => hsome (hlist.symm.trans hempty)]
      split
      next hall =>
        rw [everyCallE_toIso]
        refine forall_congr' fun hnow => ?_
        -- the assignment is saved before its driver is read
        rw [everyCallE_performE_bind, and_iff_right (hC.other rfl (by decide) _),
          everyCallE_performE_bind, and_iff_right (hC.reads _ _ rfl)]
        simp only [memory]
        cases hd : s.drivers.byId.get? a.driverId with
        | none =>
          exact iff_of_true trivial fun driver h => absurd (hd.symm.trans (hdriver h)) (by simp)
        | some driver =>
          dsimp only
          split
          next hbusy =>
            have hcompletes : Completes s assignmentId driver :=
              ⟨⟨hsome, List.all_eq_true.1 hall⟩, ⟨a, ha, hd⟩, hbusy⟩
            refine (everyCallE_await_pure cfg _ _ _).trans ?_
            rw [hlocal.iff _ _ s]
            · constructor
              · intro h driver' h'
                obtain rfl := Option.some.inj (hd.symm.trans (hdriver h'))
                exact h
              · intro h
                exact h driver hcompletes
            · rfl
          next hfree =>
            refine iff_of_true trivial fun driver' h => absurd ?_ hfree
            obtain rfl := Option.some.inj (hd.symm.trans (hdriver h))
            exact h.busy
      next hnot =>
        exact iff_of_true trivial fun hnow driver h =>
          absurd (List.all_eq_true.2 h.terminal.2) hnot

end RouteService

end FleetCommand.Management
