import FleetCommand.Management.AssignmentRace
import FleetCommand.Management.Calls
import FleetCommand.Management.Zones

/-!
# Creating an assignment

`AssignmentService.create`, run alone with a new id, succeeds exactly when its preconditions hold
(`CanAssign`), and then links exactly the listed deliveries to one new assignment, makes the driver
busy and leaves every other record as it is (`Assigned`). The zones are a repository beside the ones
the service calls.
-/

set_option autoImplicit false

namespace FleetCommand.Management

open Resumption AssignmentService

/-- The preconditions of an assignment of a driver with some deliveries. -/
structure CanAssign (s : Repos) (driverId : String) (deliveryIds : List String) : Prop where
  nonempty : deliveryIds ≠ []
  driver : ∃ d, s.drivers.byId.get? driverId = some d ∧ d.active = true ∧ d.status = .available
  vehicle : ∃ id v, s.vehicles.byId.get? id = some v ∧ v.driverId = some driverId
  deliveries : ∀ id ∈ deliveryIds, ∃ d, s.deliveries.get? id = some d ∧
    truthy d.assignmentId = false ∧ d.status = .created

/-- What creating the assignment `a` makes of the repositories. -/
structure Assigned (s s' : Repos) (driverId : String) (deliveryIds : List String) (a : Assignment) :
    Prop where
  pending : a.status = .pending ∧ a.acceptedAt = none
  names : a.driverId = driverId ∧ ∃ id v, s.vehicles.byId.get? id = some v ∧
    v.driverId = some driverId ∧ a.vehicleId = v.id
  inserted : s.assignments.get? a.id = none ∧ s'.assignments.get? a.id = some a
  assignments : ∀ id, id ≠ a.id → s'.assignments.get? id = s.assignments.get? id
  linked : ∀ id ∈ deliveryIds, ∃ d, s.deliveries.get? id = some d ∧ s'.deliveries.get? id =
    some { d with status := .assigned, assignmentId := some a.id, updatedAt := a.createdAt }
  deliveries : ∀ id, id ∉ deliveryIds → s'.deliveries.get? id = s.deliveries.get? id
  busy : ∃ d, s.drivers.byId.get? driverId = some d ∧ s'.drivers.byId.get? driverId =
    some { d with status := .onDelivery, updatedAt := a.createdAt }
  drivers : ∀ id, id ≠ driverId → s'.drivers.byId.get? id = s.drivers.byId.get? id
  vehicles : s'.vehicles = s.vehicles
  routes : s'.routes = s.routes ∧ s'.publishCalls = s.publishCalls

/-- All repositories: those the service calls, and the zones. -/
def allMemory (cfg : Config) : Handler RepoOp.Resp (Repos × InsertionMap String Zone) :=
  Prog.beside (memory cfg) _

/-! ## The preconditions -/

theorem nextStatus_assign_ne_none_iff {status : DeliveryStatus} :
    nextStatus status .assign ≠ none ↔ status = .created := by
  cases status <;> simp [nextStatus]

theorem isEligibleStatus_iff {status : DriverStatus} :
    isEligibleStatus status = true ↔ status = .available := by
  simp [isEligibleStatus]

/-- The vehicle found for a driver is a stored one with the driver. -/
theorem VehicleRepository.findByDriverId_some {r : VehicleRepository} {driverId : String}
    {v : Vehicle} (h : r.findByDriverId driverId = some v) :
    ∃ id, r.byId.get? id = some v ∧ v.driverId = some driverId := by
  have hdriver : v.driverId = some driverId := by simpa using List.find?_some h
  obtain ⟨id, hid⟩ := (InsertionMap.mem_values_iff _ v).1 (List.mem_of_find?_eq_some h)
  exact ⟨id, hid, hdriver⟩

theorem VehicleRepository.findByDriverId_isSome_iff {r : VehicleRepository} {driverId : String} :
    (r.findByDriverId driverId).isSome ↔
      ∃ id v, r.byId.get? id = some v ∧ v.driverId = some driverId := by
  constructor
  · intro h
    obtain ⟨v, hv⟩ := Option.isSome_iff_exists.1 h
    obtain ⟨id, hid⟩ := findByDriverId_some hv
    exact ⟨id, v, hid⟩
  · rintro ⟨id, v, hid, hdriver⟩
    rw [findByDriverId, List.find?_isSome]
    exact ⟨v, (InsertionMap.mem_values_iff _ v).2 ⟨id, hid⟩, decide_eq_true hdriver⟩

variable {cfg : Config} {call : Call} {s : Repos} {driverId : String} {deliveryIds : List String}

/-- The checks of `create` are the preconditions. -/
theorem exists_creatable_iff :
    (∃ driver, Creatable s driverId deliveryIds driver) ↔ CanAssign s driverId deliveryIds := by
  constructor
  · rintro ⟨d, hids, hfound, ⟨hactive, hstatus⟩, hvehicle, hassignable⟩
    refine ⟨hids, ⟨d, hfound, hactive, isEligibleStatus_iff.1 hstatus⟩,
      VehicleRepository.findByDriverId_isSome_iff.1 hvehicle, fun id hid => ?_⟩
    obtain ⟨p, hp, hfree, hnext⟩ := hassignable id hid
    exact ⟨p, hp, hfree, nextStatus_assign_ne_none_iff.1 hnext⟩
  · rintro ⟨hids, ⟨d, hfound, hactive, hstatus⟩, hvehicle, hdeliveries⟩
    refine ⟨d, hids, hfound, ⟨hactive, isEligibleStatus_iff.2 hstatus⟩,
      VehicleRepository.findByDriverId_isSome_iff.2 hvehicle, fun id hid => ?_⟩
    obtain ⟨p, hp, hfree, hcreated⟩ := hdeliveries id hid
    exact ⟨p, hp, hfree, nextStatus_assign_ne_none_iff.2 hcreated⟩

/-! ## The call -/

theorem create_ok (hnow : ValidTime call.now) {driver : Driver}
    (h : Creatable s driverId deliveryIds driver) :
    ∃ a, (runE (memory cfg) (create cfg call driverId deliveryIds) s).1 = .ok a := by
  obtain ⟨vehicle, toLink, hchecks⟩ := createChecks_ok cfg call h hnow
  rw [create_eq_bind, runE_bind, hchecks]
  simp only [createWrites, await, runE_bind, runE_performE, memory, runE_linkDeliveries]
  exact ⟨_, rfl⟩

/-- The deliveries resolved are those listed, in order. -/
theorem map_id_resolved (hkeyed : s.Keyed) {toLink : List Delivery}
    (h : List.Forall₂ (Assignable s.deliveries) deliveryIds toLink) :
    toLink.map Delivery.id = deliveryIds := by
  induction h with
  | nil => rfl
  | cons hfirst _ ih => rw [List.map_cons, ih, hkeyed.deliveries _ _ hfirst.1]

/-- The deliveries after the loop that links those resolved; an id may be listed twice. -/
theorem get?_linked (hkeyed : s.Keyed) {toLink : List Delivery}
    (h : List.Forall₂ (Assignable s.deliveries) deliveryIds toLink) (assignmentId : String)
    (now : Instant) (id : String) :
    (toLink.foldl (fun m d => m.set d.id (linked assignmentId now d)) s.deliveries).get? id =
      if id ∈ deliveryIds then (s.deliveries.get? id).map (linked assignmentId now)
      else s.deliveries.get? id := by
  rw [InsertionMap.get?_foldl_set Delivery.id, ← map_id_resolved hkeyed h]
  cases hfind : toLink.reverse.find? fun d => d.id = id with
  | none =>
    have hnot : id ∉ toLink.map Delivery.id := by simpa using hfind
    rw [if_neg hnot]
    rfl
  | some d =>
    have hid : d.id = id := by simpa using List.find?_some hfind
    have hd : d ∈ toLink := List.mem_reverse.1 (List.mem_of_find?_eq_some hfind)
    have hfound : s.deliveries.get? id = some d := by
      obtain ⟨id', -, hfound, -⟩ := exists_assignable h hd
      rwa [← hkeyed.deliveries id' d hfound, hid] at hfound
    rw [if_pos (hid ▸ List.mem_map_of_mem hd), hfound]
    rfl

/-- A created delivery is assigned by linking it. -/
theorem linked_of_created {d : Delivery} (h : d.status = .created) (assignmentId : String)
    (now : Instant) : linked assignmentId now d =
      { d with status := .assigned, assignmentId := some assignmentId, updatedAt := now } := by
  rw [linked, h]
  rfl

/-- A successful call had its preconditions met and did what it should. -/
theorem create_assigned (hkeyed : s.Keyed)
    (hfresh : s.assignments.get? (cfg.assignmentId.gen call.seq) = none) {a : Assignment}
    {s' : Repos} (h : runE (memory cfg) (create cfg call driverId deliveryIds) s = (.ok a, s')) :
    CanAssign s driverId deliveryIds ∧ Assigned s s' driverId deliveryIds a := by
  obtain ⟨e, herror⟩ | ⟨driver, vehicle, toLink, now, assignment, hdriver, hactive, hstatus,
    hvehicle, hids, hassignable, -, rfl, hrun⟩ := create_cases cfg call driverId deliveryIds s
  · exact absurd (congrArg Prod.fst (herror.symm.trans h)) nofun
  obtain ⟨rfl, rfl⟩ : _ = a ∧ _ = s' := by
    have heq := hrun.symm.trans h
    exact ⟨Except.ok.inj (congrArg Prod.fst heq), congrArg Prod.snd heq⟩
  obtain ⟨id, hid, hdrives⟩ := VehicleRepository.findByDriverId_some hvehicle
  have hown : driver.id = driverId := hkeyed.drivers driverId driver hdriver
  have hcan : CanAssign s driverId deliveryIds := exists_creatable_iff.1
    ⟨driver, hids, hdriver, ⟨hactive, isEligibleStatus_iff.2 hstatus⟩, by rw [hvehicle]; rfl,
      fun id hid => exists_assigned hassignable hid⟩
  refine ⟨hcan, ⟨⟨rfl, rfl⟩, ⟨rfl, id, vehicle, hid, hdrives, rfl⟩, ⟨hfresh, ?_⟩, ?_, ?_, ?_, ?_,
    ?_, rfl, rfl, rfl⟩⟩
  · exact InsertionMap.get?_set_self _ _ _
  · intro id hne
    exact InsertionMap.get?_set_of_ne _ hne _
  · intro id hid
    obtain ⟨d, hd, -, hcreated⟩ := hcan.deliveries id hid
    refine ⟨d, hd, ?_⟩
    dsimp only
    rw [get?_linked hkeyed hassignable, if_pos hid, hd, Option.map_some, linked_of_created hcreated]
  · intro id hid
    dsimp only
    rw [get?_linked hkeyed hassignable, if_neg hid]
  · refine ⟨driver, hdriver, ?_⟩
    rw [← hown]
    exact InsertionMap.get?_set_self _ _ _
  · intro id hne
    exact InsertionMap.get?_set_of_ne _ (hown ▸ hne) _

variable (cfg call s driverId deliveryIds)

/-- Creating an assignment succeeds exactly when its preconditions hold, and then does what it
should; the zones are as before. -/
theorem create_succeeds_iff (zones : InsertionMap String Zone) (hkeyed : s.Keyed)
    (hfresh : s.assignments.get? (cfg.assignmentId.gen call.seq) = none)
    (hclock : ValidTime call.now) :
    ((∃ a, (runE (allMemory cfg) (create cfg call driverId deliveryIds) (s, zones)).1 = .ok a) ↔
      CanAssign s driverId deliveryIds) ∧
    ∀ a s' zones', runE (allMemory cfg) (create cfg call driverId deliveryIds) (s, zones) =
      (.ok a, s', zones') → Assigned s s' driverId deliveryIds a ∧ zones' = zones := by
  simp only [allMemory, runE_beside]
  constructor
  · constructor
    · rintro ⟨a, ha⟩
      exact (create_assigned hkeyed hfresh (Prod.ext ha rfl)).1
    · intro h
      obtain ⟨driver, hcreatable⟩ := exists_creatable_iff.2 h
      exact create_ok hclock hcreatable
  · intro a s' zones' h
    obtain ⟨hresult, hs', hzones⟩ : _ ∧ _ ∧ _ := by simpa only [Prod.mk.injEq] using h
    exact ⟨(create_assigned hkeyed hfresh (Prod.ext hresult hs')).2, hzones.symm⟩

/-- The free driver takes a delivery, listed twice. -/
theorem create_succeeds_iff_free :
    ((∃ a, (runE (allMemory .unary) (create .unary ⟨0, 0⟩ "d" ["p", "p"])
        (freeRepos, InsertionMap.empty)).1 = .ok a) ↔ CanAssign freeRepos "d" ["p", "p"]) ∧
    ∀ a s' zones', runE (allMemory .unary) (create .unary ⟨0, 0⟩ "d" ["p", "p"])
        (freeRepos, InsertionMap.empty) = (.ok a, s', zones') →
      Assigned freeRepos s' "d" ["p", "p"] a ∧ zones' = InsertionMap.empty :=
  create_succeeds_iff .unary ⟨0, 0⟩ freeRepos "d" ["p", "p"] .empty freeRepos_keyed rfl
    validTime_zero

end FleetCommand.Management
