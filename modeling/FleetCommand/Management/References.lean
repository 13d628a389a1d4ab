import FleetCommand.Management.Effects
import FleetCommand.Management.System

/-!
# References between records

The invariant of every sequential run that ties assignments to drivers (`Referenced`): both are
stored under the ids issued to them, and the driver of every assignment is stored. Repository
updates keep it, and so does every request (`Referenced.step`).
-/

set_option autoImplicit false

namespace FleetCommand.Management

open Resumption

variable {cfg : Config} {n : Nat} {s : Repos}

/-- Drivers and assignments are stored under the ids issued to them, and every assignment's driver
is stored. -/
structure Referenced (cfg : Config) (n : Nat) (s : Repos) : Prop where
  drivers : Issued cfg.driverId Driver.id n s.drivers.byId
  assignments : Issued cfg.assignmentId Assignment.id n s.assignments
  driverOf : ∀ k a, s.assignments.get? k = some a → (s.drivers.byId.get? a.driverId).isSome

namespace Referenced

theorem new : Referenced cfg n .new where
  drivers := .empty
  assignments := .empty
  driverOf k a ha := absurd ha (by simp [Repos.new])

theorem frame (h : Referenced cfg n s) {s' : Repos} (hdrivers : s'.drivers = s.drivers)
    (hassignments : s'.assignments = s.assignments) : Referenced cfg (n + 1) s' where
  drivers := hdrivers ▸ h.drivers.mono (Nat.le_succ n)
  assignments := hassignments ▸ h.assignments.mono (Nat.le_succ n)
  driverOf k a ha := by
    rw [hassignments] at ha
    rw [hdrivers]
    exact h.driverOf k a ha

/-- The id of a record found is the id it was looked up by. -/
theorem driver_id (h : Referenced cfg n s) {id : String} {d : Driver}
    (hd : s.drivers.byId.get? id = some d) : d.id = id :=
  (h.drivers id d hd).1

theorem assignment_id (h : Referenced cfg n s) {id : String} {a : Assignment}
    (ha : s.assignments.get? id = some a) : a.id = id :=
  (h.assignments id a ha).1

theorem driver_stored (h : Referenced cfg n s) {id : String} {d : Driver}
    (hd : s.drivers.byId.get? id = some d) : s.drivers.byId.get? d.id = some d := by
  rw [h.driver_id hd, hd]

theorem assignment_stored (h : Referenced cfg n s) {id : String} {a : Assignment}
    (ha : s.assignments.get? id = some a) : s.assignments.get? a.id = some a := by
  rw [h.assignment_id ha, ha]

theorem isSome_save (d : Driver) {id : String} (hid : (s.drivers.byId.get? id).isSome) :
    ((s.drivers.save cfg d).byId.get? id).isSome := by
  rw [DriverRepository.save, InsertionMap.get?_set]
  split
  · rfl
  · exact hid

/-- A driver saved leaves every assignment its driver. -/
theorem of_save (h : Referenced cfg n s) {d : Driver}
    (hsaved : Issued cfg.driverId Driver.id (n + 1) (s.drivers.save cfg d).byId) {s' : Repos}
    (hdrivers : s'.drivers = s.drivers.save cfg d) (hassignments : s'.assignments = s.assignments) :
    Referenced cfg (n + 1) s' where
  drivers := by
    rw [hdrivers]
    exact hsaved
  assignments := hassignments ▸ h.assignments.mono (Nat.le_succ n)
  driverOf k a ha := by
    rw [hassignments] at ha
    rw [hdrivers]
    exact isSome_save d (h.driverOf k a ha)

theorem saveDriver (h : Referenced cfg n s) {d d₀ : Driver}
    (hd : s.drivers.byId.get? d.id = some d₀) {s' : Repos}
    (hdrivers : s'.drivers = s.drivers.save cfg d) (hassignments : s'.assignments = s.assignments) :
    Referenced cfg (n + 1) s' :=
  h.of_save ((h.drivers.set_stored hd).mono (Nat.le_succ n)) hdrivers hassignments

theorem insertDriver (h : Referenced cfg n s) {d : Driver} (hd : d.id = cfg.driverId.gen n)
    {s' : Repos} (hdrivers : s'.drivers = s.drivers.save cfg d)
    (hassignments : s'.assignments = s.assignments) : Referenced cfg (n + 1) s' :=
  h.of_save (h.drivers.set_new hd) hdrivers hassignments

theorem saveAssignment (h : Referenced cfg n s) {a a₀ : Assignment}
    (ha : s.assignments.get? a.id = some a₀) (hdriver : a.driverId = a₀.driverId) {s' : Repos}
    (hdrivers : s'.drivers = s.drivers) (hassignments : s'.assignments = s.assignments.set a.id a) :
    Referenced cfg (n + 1) s' where
  drivers := hdrivers ▸ h.drivers.mono (Nat.le_succ n)
  assignments := by
    rw [hassignments]
    exact (h.assignments.set_stored ha).mono (Nat.le_succ n)
  driverOf k b hb := by
    rw [hassignments, InsertionMap.get?_set] at hb
    rw [hdrivers]
    split at hb
    · obtain rfl := Option.some.inj hb
      rw [hdriver]
      exact h.driverOf _ _ ha
    · exact h.driverOf k b hb

theorem insertAssignment (h : Referenced cfg n s) {a : Assignment} {d d₀ : Driver}
    (ha : a.id = cfg.assignmentId.gen n) (hd : s.drivers.byId.get? a.driverId = some d₀)
    (hdriver : d.id = a.driverId) {s' : Repos} (hdrivers : s'.drivers = s.drivers.save cfg d)
    (hassignments : s'.assignments = s.assignments.set a.id a) : Referenced cfg (n + 1) s' where
  drivers := by
    rw [hdrivers]
    exact (h.drivers.set_stored (hdriver ▸ hd)).mono (Nat.le_succ n)
  assignments := by
    rw [hassignments]
    exact h.assignments.set_new ha
  driverOf k b hb := by
    rw [hassignments, InsertionMap.get?_set] at hb
    rw [hdrivers]
    split at hb
    · obtain rfl := Option.some.inj hb
      exact isSome_save d (Option.isSome_iff_exists.2 ⟨d₀, hd⟩)
    · exact isSome_save d (h.driverOf k b hb)

end Referenced

/-! ## Requests -/

theorem Referenced.stampAndSave (h : Referenced cfg n s) {d d₀ : Driver}
    (hd : s.drivers.byId.get? d.id = some d₀) (now : Int) :
    Referenced cfg (n + 1) (s.stampAndSave cfg now d).2 := by
  obtain ⟨lastStamp, iso, hs⟩ | ⟨lastStamp, e, hs⟩ := s.stampAndSave_cases cfg now d
  · rw [hs]
    exact h.saveDriver (d := { d with updatedAt := iso }) hd rfl rfl
  · rw [hs]
    exact h.frame rfl rfl

theorem Referenced.changeStatus (h : Referenced cfg n s) (call : Call) (id : String)
    (allowed : DriverStatus → Bool) (target : DriverStatus) :
    Referenced cfg (n + 1)
      (runE (memory cfg) (DriverService.changeStatus call id allowed target) s).2 := by
  rw [DriverService.runE_changeStatus]
  cases hd : s.drivers.byId.get? id with
  | none => exact h.frame rfl rfl
  | some d =>
    dsimp only
    split
    · have hstored := h.driver_stored hd
      apply h.stampAndSave
      exact hstored
    · exact h.frame rfl rfl

theorem Referenced.completed (h : Referenced cfg n s) {a : Assignment}
    (ha : s.assignments.get? a.id = some a) (now : Instant) :
    Referenced cfg (n + 1) (RouteService.completed cfg s a now) := by
  -- first the assignment, then its driver
  have hdone : Referenced cfg (n + 1)
      { s with assignments := s.assignments.set a.id { a with status := .complete } } :=
    h.saveAssignment (a := { a with status := .complete }) ha rfl rfl rfl
  rw [RouteService.completed]
  dsimp only
  split
  next d hd =>
    have hid := h.driver_id hd
    split
    · -- the driver of the assignment, saved under its own id
      constructor
      · exact (h.drivers.set_stored (b := { d with status := .available, updatedAt := now })
          (hid ▸ hd)).mono (Nat.le_succ n)
      · exact hdone.assignments
      · intro k b hb
        exact isSome_save _ (hdone.driverOf k b hb)
    · exact hdone
  · exact hdone

theorem Referenced.step {s : System} (h : Referenced cfg s.calls s.repos) (r : Request) :
    Referenced cfg (step cfg s r).calls (step cfg s r).repos := by
  obtain ⟨op, now⟩ := r
  show Referenced cfg (s.calls + 1) _
  cases op with
  | createDriver input =>
    rw [step_repos (p := DriverService.create cfg ⟨now, s.calls⟩ input) rfl]
    obtain hs | ⟨d, hid, -, -, hs⟩ := DriverService.create_cases cfg ⟨now, s.calls⟩ input s.repos
    · rw [hs]
      exact h.frame rfl rfl
    · rw [hs]
      exact h.insertDriver hid rfl rfl
  | updateDriver id changes =>
    rw [step_repos (p := DriverService.update ⟨now, s.calls⟩ id changes) rfl,
      DriverService.runE_update]
    cases hd : s.repos.drivers.byId.get? id with
    | none => exact h.frame rfl rfl
    | some d =>
      have hstored := h.driver_stored hd
      apply h.stampAndSave
      exact hstored
  | deactivateDriver id =>
    rw [step_repos (p := DriverService.deactivate ⟨now, s.calls⟩ id) rfl,
      DriverService.runE_deactivate]
    cases hd : s.repos.drivers.byId.get? id with
    | none => exact h.frame rfl rfl
    | some d =>
      have hstored := h.driver_stored hd
      apply h.stampAndSave
      exact hstored
  | setAvailability id target =>
    rw [step_repos (p := DriverService.setAvailability ⟨now, s.calls⟩ id target) rfl]
    exact h.changeStatus _ id _ _
  | beginDelivery id =>
    rw [step_repos (p := DriverService.beginDelivery ⟨now, s.calls⟩ id) rfl]
    exact h.changeStatus _ id _ _
  | completeDelivery id =>
    rw [step_repos (p := DriverService.completeDelivery ⟨now, s.calls⟩ id) rfl]
    exact h.changeStatus _ id _ _
  | createAssignment driverId deliveryIds =>
    rw [step_repos (p := AssignmentService.create cfg ⟨now, s.calls⟩ driverId deliveryIds) rfl]
    obtain ⟨e, hs⟩ | ⟨d, v, toLink, iso, a, hd, -, -, -, -, -, -, rfl, hs⟩ :=
      AssignmentService.create_cases cfg ⟨now, s.calls⟩ driverId deliveryIds s.repos
    · rw [hs]
      exact h.frame rfl rfl
    · have hid : d.id = driverId := h.driver_id hd
      rw [hs]
      exact h.insertAssignment (d := { d with status := .onDelivery, updatedAt := iso }) rfl hd hid
        rfl rfl
  | accept assignmentId =>
    rw [step_repos (p := AssignmentService.accept ⟨now, s.calls⟩ assignmentId) rfl,
      AssignmentService.runE_accept]
    cases ha : s.repos.assignments.get? assignmentId with
    | none => exact h.frame rfl rfl
    | some a =>
      dsimp only
      split
      · exact h.frame rfl rfl
      next t _ =>
        have hstored := h.assignment_stored ha
        exact h.saveAssignment (a := { a with status := .accepted, acceptedAt := some t })
          hstored rfl rfl rfl
  | completeIfAllStopsTerminal assignmentId =>
    rw [step_repos (p := RouteService.completeIfAllStopsTerminal ⟨now, s.calls⟩ assignmentId) rfl,
      RouteService.runE_completeIfAllStopsTerminal]
    cases ha : s.repos.assignments.get? assignmentId with
    | none => exact h.frame rfl rfl
    | some a =>
      dsimp only
      split
      · split
        · exact h.frame rfl rfl
        · exact h.completed (h.assignment_stored ha) _
      · exact h.frame rfl rfl
  -- the other methods write neither drivers nor assignments
  | _ => exact h.frame (step_drivers (by simp [Op.parts])) (step_assignments (by simp [Op.parts]))

end FleetCommand.Management
