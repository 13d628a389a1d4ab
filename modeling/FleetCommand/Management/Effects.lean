import FleetCommand.Management.Footprints

/-!
# The management service: what each method does

For the methods that write drivers or assignments: the result of a call that runs alone, and the
state it leaves.
-/

set_option autoImplicit false

namespace FleetCommand.Management

open Resumption

variable (cfg : Config) (call : Call)

/-! ## Drivers -/

theorem Repos.stampAndSave_cases (s : Repos) (now : Int) (d : Driver) :
    (∃ lastStamp iso, s.stampAndSave cfg now d = (.ok { d with updatedAt := iso },
      { s with lastStamp := lastStamp, drivers := s.drivers.save cfg { d with updatedAt := iso } })) ∨
    ∃ lastStamp e, s.stampAndSave cfg now d = (.error e, { s with lastStamp := lastStamp }) := by
  rw [Repos.stampAndSave]
  dsimp only
  split
  · exact Or.inl ⟨_, _, rfl⟩
  · exact Or.inr ⟨_, _, rfl⟩

namespace DriverService

/-- What is inserted is a new driver, active and offline. -/
theorem create_cases (input : CreateDriverInput) (s : Repos) :
    (runE (memory cfg) (create cfg call input) s).2 = s ∨
    ∃ d : Driver, d.id = cfg.driverId.gen call.seq ∧ d.status = .offline ∧ d.active = true ∧
      runE (memory cfg) (create cfg call input) s = (.ok d,
        { s with
          lastStamp := s.lastStamp.set d.id call.now
          drivers := s.drivers.save cfg d }) := by
  rw [create]
  split
  · exact Or.inl rfl
  · simp only [await, runE_bind, runE_performE, memory]
    cases s.drivers.findByEmail cfg (input.email.getD "") with
    | some existing => exact Or.inl rfl
    | none =>
      simp only [runE_bind, runE_ofResult]
      cases toIso call.now with
      | error e => exact Or.inl rfl
      | ok iso => exact Or.inr ⟨_, rfl, rfl, rfl, rfl⟩

theorem runE_requireDriver (id : String) (s : Repos) :
    runE (memory cfg) (requireDriver id) s = match s.drivers.byId.get? id with
      | some driver => (.ok driver, s)
      | none => (.error (domainError .notFound ["id"] 404), s) := by
  simp only [requireDriver, await, runE_bind, runE_performE, memory]
  cases s.drivers.byId.get? id <;> rfl

theorem runE_stampAndSave (next : Driver) (s : Repos) :
    runE (memory cfg) (stampAndSave call next) s = s.stampAndSave cfg call.now next := by
  simp only [stampAndSave, await, runE_bind, runE_performE, memory, runE_ofResult]

theorem runE_update (id : String) (changes : DriverUpdate) (s : Repos) :
    runE (memory cfg) (update call id changes) s = match s.drivers.byId.get? id with
      | some current => s.stampAndSave cfg call.now
        { current with
          name := changes.name.getD current.name
          phone := changes.phone.getD current.phone
          licenseNumber := changes.licenseNumber.getD current.licenseNumber
          status := changes.status.getD current.status }
      | none => (.error (domainError .notFound ["id"] 404), s) := by
  simp only [update, runE_bind, runE_requireDriver, runE_stampAndSave]
  cases s.drivers.byId.get? id <;> rfl

theorem runE_deactivate (id : String) (s : Repos) :
    runE (memory cfg) (deactivate call id) s = match s.drivers.byId.get? id with
      | some current => s.stampAndSave cfg call.now { current with active := false }
      | none => (.error (domainError .notFound ["id"] 404), s) := by
  simp only [deactivate, runE_bind, runE_requireDriver, runE_stampAndSave]
  cases s.drivers.byId.get? id <;> rfl

theorem runE_changeStatus (id : String) (allowed : DriverStatus → Bool) (target : DriverStatus)
    (s : Repos) :
    runE (memory cfg) (changeStatus call id allowed target) s = match s.drivers.byId.get? id with
      | some current =>
        if allowed current.status then
          s.stampAndSave cfg call.now { current with status := target }
        else (.error (domainError .invalidTransition ["status"] 409), s)
      | none => (.error (domainError .notFound ["id"] 404), s) := by
  simp only [changeStatus, runE_bind, runE_requireDriver]
  cases s.drivers.byId.get? id with
  | none => rfl
  | some current =>
    dsimp only
    split
    · exact runE_stampAndSave cfg call _ s
    · rfl

end DriverService

/-! ## Assignments -/

namespace AssignmentService

theorem runE_requireAssignment (id : String) (s : Repos) :
    runE (memory cfg) (requireAssignment id) s = match s.assignments.get? id with
      | some assignment => (.ok assignment, s)
      | none => (.error (domainError .notFound ["assignmentId"] 404), s) := by
  simp only [requireAssignment, await, runE_bind, runE_performE, memory]
  cases s.assignments.get? id <;> rfl

theorem runE_requireEligibleDriver (driverId : String) (s : Repos) :
    runE (memory cfg) (requireEligibleDriver driverId) s = match s.drivers.byId.get? driverId with
      | some driver =>
        if driver.active ∧ isEligibleStatus driver.status then (.ok driver, s)
        else (.error (domainError .unavailableDriver ["driverId"] 409), s)
      | none => (.error (domainError .notFound ["driverId"] 404), s) := by
  simp only [requireEligibleDriver, await, runE_bind, runE_performE, memory]
  cases s.drivers.byId.get? driverId with
  | none => rfl
  | some driver =>
    dsimp only
    split <;> rfl

/-- Stored under the id, without an assignment, and in a status from which it can be assigned. -/
def Assignable (deliveries : InsertionMap String Delivery) (id : String) (d : Delivery) : Prop :=
  deliveries.get? id = some d ∧ truthy d.assignmentId = false ∧ nextStatus d.status .assign ≠ none

/-- Resolving reads only; what it answers are the assignable deliveries of the ids, in order. -/
theorem resolveAssignableDeliveries_cases (ids : List String) (s : Repos) :
    (∃ e, runE (memory cfg) (resolveAssignableDeliveries ids) s = (.error e, s)) ∨
    ∃ toLink, runE (memory cfg) (resolveAssignableDeliveries ids) s = (.ok toLink, s) ∧
      List.Forall₂ (Assignable s.deliveries) ids toLink := by
  -- on the ids: the first that cannot be assigned ends the call
  induction ids with
  | nil => exact Or.inr ⟨[], rfl, .nil⟩
  | cons id ids ih =>
    simp only [resolveAssignableDeliveries, await, runE_bind, runE_performE, memory]
    cases hfound : s.deliveries.get? id with
    | none => exact Or.inl ⟨_, rfl⟩
    | some delivery =>
      dsimp only
      split
      · exact Or.inl ⟨_, rfl⟩
      next hfree =>
        split
        · exact Or.inl ⟨_, rfl⟩
        next hnext =>
          rw [runE_bind]
          obtain ⟨e, hrun⟩ | ⟨toLink, hrun, hrest⟩ := ih
          · exact Or.inl ⟨e, by rw [hrun]⟩
          · exact Or.inr ⟨delivery :: toLink, by rw [hrun]; rfl,
              .cons ⟨hfound, by simpa using hfree, hnext⟩ hrest⟩

theorem exists_assignable {deliveries : InsertionMap String Delivery} {ids : List String}
    {toLink : List Delivery} (h : List.Forall₂ (Assignable deliveries) ids toLink) {d : Delivery}
    (hd : d ∈ toLink) : ∃ id ∈ ids, Assignable deliveries id d := by
  induction h with
  | nil => exact absurd hd List.not_mem_nil
  | cons hfirst _ ih =>
    rcases List.mem_cons.1 hd with rfl | hd
    · exact ⟨_, List.mem_cons_self, hfirst⟩
    · obtain ⟨id, hid, hassignable⟩ := ih hd
      exact ⟨id, List.mem_cons_of_mem _ hid, hassignable⟩

theorem runE_linkDeliveries (assignmentId : String) (now : Instant) (toLink : List Delivery)
    (s : Repos) :
    runE (memory cfg) (linkDeliveries assignmentId now toLink) s = (.ok (),
      { s with
        deliveries := toLink.foldl
          (fun m d => m.set d.id (linked assignmentId now d)) s.deliveries }) := by
  induction toLink generalizing s with
  | nil => rfl
  | cons delivery rest ih =>
    simp only [linkDeliveries, await, runE_bind, runE_performE, memory, ih, List.foldl_cons]
    rfl

/-- What the checks of `create` found. -/
structure Passed (s : Repos) (driverId : String) (deliveryIds : List String) (c : Checked) :
    Prop where
  driver : s.drivers.byId.get? driverId = some c.driver
  eligible : c.driver.active = true ∧ isEligibleStatus c.driver.status = true
  vehicle : s.vehicles.findByDriverId driverId = some c.vehicle
  nonempty : deliveryIds ≠ []
  toLink : List.Forall₂ (Assignable s.deliveries) deliveryIds c.toLink
  now : toIso call.now = .ok c.now

/-- The checks of `create` leave the state as it is. -/
theorem createChecks_cases (driverId : String) (deliveryIds : List String) (s : Repos) :
    (∃ e, runE (memory cfg) (createChecks call driverId deliveryIds) s = (.error e, s)) ∨
    ∃ c, runE (memory cfg) (createChecks call driverId deliveryIds) s = (.ok c, s) ∧
      Passed call s driverId deliveryIds c := by
  rw [createChecks]
  split
  · exact Or.inl ⟨_, rfl⟩
  next hids =>
    rw [runE_bind, runE_requireEligibleDriver]
    cases hdriver : s.drivers.byId.get? driverId with
    | none => exact Or.inl ⟨_, rfl⟩
    | some driver =>
      rcases Decidable.em (driver.active ∧ isEligibleStatus driver.status) with heligible | hnot
      · simp only [if_pos heligible, await, runE_bind, runE_performE, memory]
        cases hvehicle : s.vehicles.findByDriverId driverId with
        | none => exact Or.inl ⟨_, rfl⟩
        | some vehicle =>
          rw [runE_bind]
          obtain ⟨e, hresolve⟩ | ⟨toLink, hresolve, hassignable⟩ :=
            resolveAssignableDeliveries_cases cfg deliveryIds s
          · exact Or.inl ⟨e, by rw [hresolve]⟩
          · rw [hresolve]
            simp only [runE_bind, runE_ofResult]
            cases hnow : toIso call.now with
            | error e => exact Or.inl ⟨e, rfl⟩
            | ok now =>
              exact Or.inr ⟨_, rfl, hdriver, heligible, hvehicle, hids, hassignable, hnow⟩
      · simp only [if_neg hnot]
        exact Or.inl ⟨_, rfl⟩

theorem passed_of_runE {driverId : String} {deliveryIds : List String} {s : Repos} {c : Checked}
    (h : runE (memory cfg) (createChecks call driverId deliveryIds) s = (.ok c, s)) :
    Passed call s driverId deliveryIds c := by
  obtain ⟨e, hchecks⟩ | ⟨c', hchecks, hc⟩ := createChecks_cases cfg call driverId deliveryIds s
  · exact absurd (congrArg Prod.fst (hchecks.symm.trans h)) (by simp)
  · obtain rfl : c' = c := Except.ok.inj (congrArg Prod.fst (hchecks.symm.trans h))
    exact hc

/-- Creating an assignment writes nothing or everything: the new assignment, its deliveries and its
driver. -/
theorem create_cases (driverId : String) (deliveryIds : List String) (s : Repos) :
    (∃ e, runE (memory cfg) (create cfg call driverId deliveryIds) s = (.error e, s)) ∨
    ∃ (driver : Driver) (vehicle : Vehicle) (toLink : List Delivery) (now : Instant)
      (assignment : Assignment),
      s.drivers.byId.get? driverId = some driver ∧ driver.active = true ∧
      driver.status = .available ∧ s.vehicles.findByDriverId driverId = some vehicle ∧
      deliveryIds ≠ [] ∧ List.Forall₂ (Assignable s.deliveries) deliveryIds toLink ∧
      toIso call.now = .ok now ∧
      assignment = ⟨cfg.assignmentId.gen call.seq, driverId, vehicle.id, .pending, none, now⟩ ∧
      runE (memory cfg) (create cfg call driverId deliveryIds) s = (.ok assignment,
        { s with
          assignments := s.assignments.set assignment.id assignment
          deliveries := toLink.foldl
            (fun m d => m.set d.id (linked assignment.id now d)) s.deliveries
          drivers := s.drivers.save cfg
            { driver with status := .onDelivery, updatedAt := now } }) := by
  rw [create_eq_bind, runE_bind]
  -- every check comes before the first write, so a failed check leaves the state as it is
  obtain ⟨e, hchecks⟩ | ⟨c, hchecks, hc⟩ := createChecks_cases cfg call driverId deliveryIds s
  · exact Or.inl ⟨e, by rw [hchecks]⟩
  · rw [hchecks]
    simp only [createWrites, await, runE_bind, runE_performE, memory, runE_linkDeliveries]
    exact Or.inr ⟨c.driver, c.vehicle, c.toLink, c.now, _, hc.driver, hc.eligible.1,
      of_decide_eq_true hc.eligible.2, hc.vehicle, hc.nonempty, hc.toLink, hc.now, rfl, rfl⟩

theorem runE_accept (assignmentId : String) (s : Repos) :
    runE (memory cfg) (accept call assignmentId) s = match s.assignments.get? assignmentId with
      | none => (.error (domainError .notFound ["assignmentId"] 404), s)
      | some assignment => match acceptedAt call assignment with
        | .error e => (.error e, s)
        | .ok t =>
          let next := { assignment with status := .accepted, acceptedAt := some t }
          (.ok next, { s with assignments := s.assignments.set next.id next }) := by
  simp only [accept, await, runE_bind, runE_requireAssignment, runE_ofResult]
  cases s.assignments.get? assignmentId with
  | none => rfl
  | some assignment =>
    dsimp only
    cases acceptedAt call assignment <;> rfl

end AssignmentService

/-! ## Routes -/

namespace RouteService

/-- The deliveries of an assignment are there and all in a terminal status. -/
def AllStopsTerminal (s : Repos) (assignmentId : String) : Prop :=
  listByAssignmentId s.deliveries assignmentId ≠ [] ∧
    ∀ d ∈ listByAssignmentId s.deliveries assignmentId, isTerminal d.status = true

instance (s : Repos) (assignmentId : String) : Decidable (AllStopsTerminal s assignmentId) :=
  inferInstanceAs (Decidable (_ ∧ _))

/-- The repositories once an assignment is complete: its driver is released if on delivery. -/
def completed (s : Repos) (assignment : Assignment) (now : Instant) : Repos :=
  let done : Assignment := { assignment with status := .complete }
  match s.drivers.byId.get? assignment.driverId with
  | some driver =>
    if driver.status = .onDelivery then
      { s with
        assignments := s.assignments.set done.id done
        drivers := s.drivers.save cfg { driver with status := .available, updatedAt := now } }
    else { s with assignments := s.assignments.set done.id done }
  | none => { s with assignments := s.assignments.set done.id done }

theorem completed_of_busy {s : Repos} {a : Assignment} {d : Driver}
    (hd : s.drivers.byId.get? a.driverId = some d) (hbusy : d.status = .onDelivery)
    (now : Instant) :
    completed cfg s a now =
      { s with
        assignments := s.assignments.set a.id { a with status := .complete }
        drivers := s.drivers.save cfg { d with status := .available, updatedAt := now } } := by
  simp only [completed, hd, if_pos hbusy]

theorem completed_of_not_busy {s : Repos} {a : Assignment} {d : Driver}
    (hd : s.drivers.byId.get? a.driverId = some d) (hfree : d.status ≠ .onDelivery)
    (now : Instant) :
    completed cfg s a now =
      { s with assignments := s.assignments.set a.id { a with status := .complete } } := by
  simp only [completed, hd, if_neg hfree]

theorem runE_completeIfAllStopsTerminal (assignmentId : String) (s : Repos) :
    runE (memory cfg) (completeIfAllStopsTerminal call assignmentId) s =
      match s.assignments.get? assignmentId with
      | none => (.error (domainError .notFound ["assignmentId"] 404), s)
      | some assignment =>
        if AllStopsTerminal s assignmentId then match toIso call.now with
          | .error e => (.error e, s)
          | .ok now => (.ok true, completed cfg s assignment now)
        else (.ok false, s) := by
  simp only [completeIfAllStopsTerminal, await, runE_bind, AssignmentService.runE_requireAssignment,
    runE_performE, memory]
  cases s.assignments.get? assignmentId with
  | none => rfl
  | some assignment =>
    dsimp only
    split
    next hempty =>
      -- an assignment without deliveries is never complete
      rw [if_neg fun h => h.1 hempty]
      rfl
    next hsome =>
      split
      next hall =>
        rw [if_pos ⟨hsome, List.all_eq_true.1 hall⟩]
        simp only [runE_bind, runE_ofResult]
        cases toIso call.now with
        | error e => rfl
        | ok now =>
          simp only [runE_performE, memory, completed]
          cases s.drivers.byId.get? assignment.driverId with
          | none => rfl
          | some driver =>
            dsimp only
            split <;> rfl
      next hnot =>
        rw [if_neg fun h => hnot (List.all_eq_true.2 h.2)]
        rfl

end RouteService

end FleetCommand.Management
