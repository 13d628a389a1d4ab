import FleetCommand.Management.References

/-!
# Completing assignments

Once drivers and vehicles are registered, only `create` and `completeIfAllStopsTerminal` change a
driver's status, so the driver of every assignment is on delivery or available (`Staffed`).
Completing an assignment whose linked deliveries are all terminal then leaves its driver available
(`no_driver_stranded`). An assignment that `reassign` has left without a delivery is not completed:
the call answers false and changes nothing (`emptied_assignment_open`).
-/

set_option autoImplicit false

namespace FleetCommand.Management

open Resumption

variable {cfg : Config} {s s' : Repos}

/-- The driver of every assignment is stored, and is on delivery or available. -/
def Staffed (s : Repos) : Prop :=
  ∀ k a, s.assignments.get? k = some a → ∃ d, s.drivers.byId.get? a.driverId = some d ∧
    (d.status = .onDelivery ∨ d.status = .available)

namespace Staffed

theorem of_empty (h : ∀ k, s.assignments.get? k = none) : Staffed s := by
  intro k a ha
  rw [h k] at ha
  exact absurd ha (by simp)

theorem frame (h : Staffed s) (hdrivers : s'.drivers = s.drivers)
    (hassignments : s'.assignments = s.assignments) : Staffed s' := by
  intro k a ha
  rw [hassignments] at ha
  rw [hdrivers]
  exact h k a ha

/-- Saving a driver that is on delivery or available. -/
theorem saveDriver (h : Staffed s) {d : Driver} (hd : d.status = .onDelivery ∨ d.status = .available)
    (hdrivers : s'.drivers = s.drivers.save cfg d) (hassignments : s'.assignments = s.assignments) :
    Staffed s' := by
  intro k a ha
  rw [hassignments] at ha
  rw [hdrivers, DriverRepository.save, InsertionMap.get?_set]
  split
  · exact ⟨d, rfl, hd⟩
  · exact h k a ha

/-- Storing an assignment whose driver is on delivery or available. -/
theorem saveAssignment (h : Staffed s) {a : Assignment} {d : Driver}
    (hd : s.drivers.byId.get? a.driverId = some d)
    (hstatus : d.status = .onDelivery ∨ d.status = .available) (hdrivers : s'.drivers = s.drivers)
    (hassignments : s'.assignments = s.assignments.set a.id a) : Staffed s' := by
  intro k b hb
  rw [hdrivers]
  rw [hassignments, InsertionMap.get?_set] at hb
  split at hb
  · obtain rfl := Option.some.inj hb
    exact ⟨d, hd, hstatus⟩
  · exact h k b hb

/-- Storing a changed assignment with its driver kept. -/
theorem changeAssignment (h : Staffed s) {k : String} {a b : Assignment}
    (ha : s.assignments.get? k = some a) (hdriver : b.driverId = a.driverId)
    (hdrivers : s'.drivers = s.drivers) (hassignments : s'.assignments = s.assignments.set b.id b) :
    Staffed s' := by
  obtain ⟨d, hd, hstatus⟩ := h k a ha
  exact h.saveAssignment (hdriver ▸ hd) hstatus hdrivers hassignments

end Staffed

/-- What completing a staffed assignment leaves: the assignment complete and its
driver available. -/
theorem completed_spec {n : Nat} (href : Referenced cfg n s) (h : Staffed s) {k : String}
    {a : Assignment} (ha : s.assignments.get? k = some a) (now : Instant) :
    Staffed (RouteService.completed cfg s a now) ∧
    (RouteService.completed cfg s a now).assignments.get? k =
      some { a with status := .complete } ∧
    ∃ d, (RouteService.completed cfg s a now).drivers.byId.get? a.driverId = some d ∧
      d.status = .available := by
  obtain ⟨d, hd, hstatus⟩ := h k a ha
  have hid : d.id = a.driverId := href.driver_id hd
  have hk : k = a.id := (href.assignment_id ha).symm
  subst hk
  have hdone : Staffed
      { s with assignments := s.assignments.set a.id { a with status := .complete } } :=
    h.changeAssignment (b := { a with status := .complete }) ha rfl rfl rfl
  rcases hstatus with hbusy | hfree
  · -- the driver is released
    rw [RouteService.completed_of_busy cfg hd hbusy]
    refine ⟨?_, InsertionMap.get?_set_self .., { d with status := .available, updatedAt := now }, ?_,
      rfl⟩
    · exact hdone.saveDriver (d := { d with status := .available, updatedAt := now }) (Or.inr rfl) rfl
        rfl
    · rw [← hid]
      exact InsertionMap.get?_set_self ..
  · rw [RouteService.completed_of_not_busy cfg hd (by rw [hfree]; decide)]
    exact ⟨hdone, InsertionMap.get?_set_self .., d, hd, hfree⟩

/-! ## Runs -/

/-- The methods of the driver and the vehicle service. -/
def Op.registers : Op → Bool
  | .createDriver _ | .updateDriver _ _ | .deactivateDriver _ | .setAvailability _ _
  | .beginDelivery _ | .completeDelivery _ | .registerVehicle _ | .associateDriver _ _ => true
  | _ => false

/-- The methods of the delivery and the assignment service, and the completion check. -/
def Op.dispatches : Op → Bool
  | .createDelivery _ _ | .transition _ _ _ | .createAssignment _ _ | .accept _ | .reassign _ _
  | .completeIfAllStopsTerminal _ => true
  | _ => false

/-- A request to the driver or the vehicle service. -/
abbrev Registration := { r : Request // r.op.registers = true }

/-- A request to the delivery or the assignment service, or a completion check. -/
abbrev Dispatch := { r : Request // r.op.dispatches = true }

/-- The system once drivers and vehicles are registered. -/
def registered (cfg : Config) (rs : List Registration) : System :=
  Runs.run (fun s r => step cfg s r.1) System.new rs

/-- The system once drivers and vehicles are registered and work has been dispatched. -/
def dispatched (cfg : Config) (rs : List Registration) (ds : List Dispatch) : System :=
  Runs.run (fun s d => step cfg s d.1) (registered cfg rs) ds

theorem registration_no_assignments (s : System) (r : Registration)
    (h : ∀ k, s.repos.assignments.get? k = none) (k : String) :
    (step cfg s r.1).repos.assignments.get? k = none := by
  obtain ⟨⟨op, now⟩, hr⟩ := r
  have hframe : (step cfg s ⟨op, now⟩).repos.assignments = s.repos.assignments := by
    apply step_assignments
    cases op <;> simp_all [Op.registers, Op.parts]
  rw [hframe]
  exact h k

/-- A dispatch request keeps the assignments staffed. -/
theorem Staffed.step {s : System} (href : Referenced cfg s.calls s.repos) (h : Staffed s.repos)
    (d : Dispatch) : Staffed (step cfg s d.1).repos := by
  obtain ⟨⟨op, now⟩, hd⟩ := d
  dsimp only
  cases op with
  | createAssignment driverId deliveryIds =>
    rw [step_repos (p := AssignmentService.create cfg ⟨now, s.calls⟩ driverId deliveryIds) rfl]
    obtain ⟨e, hs⟩ | ⟨d, v, toLink, iso, a, hd, -, -, -, -, -, -, rfl, hs⟩ :=
      AssignmentService.create_cases cfg ⟨now, s.calls⟩ driverId deliveryIds s.repos
    · rw [hs]
      exact h
    · have hid : d.id = driverId := href.driver_id hd
      rw [hs]
      -- first the driver, put on delivery, then its assignment
      have hsaved : Staffed { s.repos with
          drivers := s.repos.drivers.save cfg { d with status := .onDelivery, updatedAt := iso } } :=
        h.saveDriver (d := { d with status := .onDelivery, updatedAt := iso }) (Or.inl rfl) rfl rfl
      refine hsaved.saveAssignment (d := { d with status := .onDelivery, updatedAt := iso })
        (a := ⟨cfg.assignmentId.gen s.calls, driverId, v.id, .pending, none, iso⟩) ?_ (Or.inl rfl)
        rfl rfl
      rw [← hid]
      exact InsertionMap.get?_set_self ..
  | accept assignmentId =>
    rw [step_repos (p := AssignmentService.accept ⟨now, s.calls⟩ assignmentId) rfl,
      AssignmentService.runE_accept]
    cases ha : s.repos.assignments.get? assignmentId with
    | none => exact h
    | some a =>
      dsimp only
      cases AssignmentService.acceptedAt ⟨now, s.calls⟩ a with
      | error e => exact h
      | ok t =>
        exact h.changeAssignment (b := { a with status := .accepted, acceptedAt := some t }) ha rfl
          rfl rfl
  | completeIfAllStopsTerminal assignmentId =>
    rw [step_repos (p := RouteService.completeIfAllStopsTerminal ⟨now, s.calls⟩ assignmentId) rfl,
      RouteService.runE_completeIfAllStopsTerminal]
    cases ha : s.repos.assignments.get? assignmentId with
    | none => exact h
    | some a =>
      dsimp only
      split
      · cases toIso now with
        | error e => exact h
        | ok iso => exact (completed_spec href h ha iso).1
      · exact h
  | createDelivery input geocoded =>
    exact h.frame (step_drivers (by simp [Op.parts])) (step_assignments (by simp [Op.parts]))
  | transition id event reason =>
    exact h.frame (step_drivers (by simp [Op.parts])) (step_assignments (by simp [Op.parts]))
  | reassign deliveryId target =>
    exact h.frame (step_drivers (by simp [Op.parts])) (step_assignments (by simp [Op.parts]))
  | _ => exact absurd hd (by simp [Op.dispatches])

theorem registered_no_assignments (cfg : Config) (rs : List Registration) :
    Referenced cfg (registered cfg rs).calls (registered cfg rs).repos ∧
    ∀ k, (registered cfg rs).repos.assignments.get? k = none := by
  refine Runs.run_invariant (I := fun s : System => Referenced cfg s.calls s.repos ∧
    ∀ k, s.repos.assignments.get? k = none) ?_ ⟨.new, fun _ => rfl⟩ rs
  exact fun s r h => ⟨h.1.step r.1, registration_no_assignments s r h.2⟩

theorem dispatched_staffed (cfg : Config) (rs : List Registration) (ds : List Dispatch) :
    Referenced cfg (dispatched cfg rs ds).calls (dispatched cfg rs ds).repos ∧
    Staffed (dispatched cfg rs ds).repos := by
  obtain ⟨href, hnone⟩ := registered_no_assignments cfg rs
  refine Runs.run_invariant (I := fun s : System => Referenced cfg s.calls s.repos ∧
    Staffed s.repos) ?_ ⟨href, .of_empty hnone⟩ ds
  exact fun s d h => ⟨h.1.step d.1, h.2.step h.1 d⟩

/-- The completion check of an assignment, at any point of a run: with at least one linked delivery,
all of them terminal, and a clock that reads a time, it completes the assignment and leaves its
driver available; with none it answers false and changes nothing. -/
theorem no_driver_stranded (cfg : Config) (rs : List Registration) (ds : List Dispatch)
    (assignmentId : String) (a : Assignment)
    (ha : (dispatched cfg rs ds).repos.assignments.get? assignmentId = some a) (call : Call) :
    let s := (dispatched cfg rs ds).repos
    let linkedTo := listByAssignmentId s.deliveries assignmentId
    let r := runE (memory cfg) (RouteService.completeIfAllStopsTerminal call assignmentId) s
    (linkedTo ≠ [] → (∀ d ∈ linkedTo, isTerminal d.status = true) → ValidTime call.now →
      r.1 = .ok true ∧ r.2.assignments.get? assignmentId = some { a with status := .complete } ∧
      ∃ d, r.2.drivers.byId.get? a.driverId = some d ∧ d.status = .available) ∧
    (linkedTo = [] → r = (.ok false, s)) := by
  intro s linkedTo r
  obtain ⟨href, hstaffed⟩ := dispatched_staffed cfg rs ds
  have hr : r = _ := RouteService.runE_completeIfAllStopsTerminal cfg call assignmentId
    (dispatched cfg rs ds).repos
  rw [ha] at hr
  dsimp only at hr
  constructor
  · intro hsome hall hvalid
    rw [if_pos ⟨hsome, hall⟩, toIso_of_valid hvalid] at hr
    rw [hr]
    exact ⟨rfl, (completed_spec href hstaffed ha _).2⟩
  · intro hnone
    rw [hr, if_neg fun h => h.1 hnone]

/-- The requests that register a driver with a vehicle and put it on shift. -/
def shift (name : String) (driverId vehicleId : String) : List Registration :=
  [⟨⟨.createDriver ⟨some name, some name, some "p", some "l"⟩, 0⟩, rfl⟩,
    ⟨⟨.setAvailability driverId .available, 0⟩, rfl⟩,
    ⟨⟨.registerVehicle ⟨some name, some "van", some (.fin 1)⟩, 0⟩, rfl⟩,
    ⟨⟨.associateDriver vehicleId (some driverId), 0⟩, rfl⟩]

/-- A delivery to create. -/
def parcel : Dispatch :=
  ⟨⟨.createDelivery ⟨some "a", some "r", some "c", some (.fin 1)⟩ (some ⟨.fin 0, .fin 0⟩), 0⟩, rfl⟩

/-- One assignment, whose only delivery is cancelled. -/
def cancelledRun : List Dispatch :=
  [parcel, ⟨⟨.createAssignment "d" ["ppppp"], 0⟩, rfl⟩, ⟨⟨.transition "ppppp" .cancel none, 0⟩, rfl⟩]

/-- The completion check completes the assignment and releases the driver. -/
theorem cancelledRun_completed :
    let s := (dispatched .unary (shift "n" "d" "vvv") cancelledRun).repos
    let r := runE (memory .unary) (RouteService.completeIfAllStopsTerminal ⟨0, 7⟩ "aaaaaa") s
    r.1 = .ok true ∧
    r.2.assignments.get? "aaaaaa" = some ⟨"aaaaaa", "d", "vvv", .complete, none, ⟨0, by decide⟩⟩ ∧
    ∃ d, r.2.drivers.byId.get? "d" = some d ∧ d.status = .available :=
  (no_driver_stranded .unary (shift "n" "d" "vvv") cancelledRun "aaaaaa"
    ⟨"aaaaaa", "d", "vvv", .pending, none, ⟨0, by decide⟩⟩ (by decide +kernel) ⟨0, 7⟩).1
    (by decide +kernel) (by decide +kernel) (by decide)

/-- Two drivers with an assignment of one delivery each; the first delivery is moved to the second
assignment. -/
def emptiedRun : List Dispatch :=
  [parcel, parcel, ⟨⟨.createAssignment "d" ["ppppppppp"], 0⟩, rfl⟩,
    ⟨⟨.createAssignment "ddddd" ["pppppppppp"], 0⟩, rfl⟩,
    ⟨⟨.reassign "ppppppppp" "aaaaaaaaaaaa", 0⟩, rfl⟩]

/-- The first assignment is pending with no delivery linked to it, so no linked delivery is open;
the completion check answers false, and the driver stays on delivery. -/
theorem emptied_assignment_open :
    let s := (dispatched .unary (shift "n" "d" "vvv" ++ shift "m" "ddddd" "vvvvvvv") emptiedRun).repos
    let r := runE (memory .unary) (RouteService.completeIfAllStopsTerminal ⟨0, 13⟩ "aaaaaaaaaaa") s
    (∃ a, s.assignments.get? "aaaaaaaaaaa" = some a ∧ a.driverId = "d" ∧ a.status = .pending) ∧
    (∀ d ∈ listByAssignmentId s.deliveries "aaaaaaaaaaa", isTerminal d.status = true) ∧
    r.1 = .ok false ∧
    ∃ d, r.2.drivers.byId.get? "d" = some d ∧ d.status = .onDelivery := by
  refine ⟨⟨⟨"aaaaaaaaaaa", "d", "vvv", .pending, none, ⟨0, by decide⟩⟩, ?_, rfl, rfl⟩, ?_, ?_,
    ⟨"d", "n", "n", "p", "l", .onDelivery, true, ⟨0, by decide⟩, ⟨0, by decide⟩⟩, ?_, rfl⟩
  · decide +kernel
  · decide +kernel
  · decide +kernel
  · decide +kernel

end FleetCommand.Management
