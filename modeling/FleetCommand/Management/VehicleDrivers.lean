import FleetCommand.Lib.Runs
import FleetCommand.Management.UniqueKeys

/-!
# The vehicles of a driver

`VehicleService.associateDriver` looks at the vehicle it is asked about and at no other, so a driver
can be given a second vehicle, which the unique index on the vehicles' driver ids forbids. Along a
sequential run no driver has two vehicles exactly when every association that is accepted is of a
driver no other vehicle has (`one_vehicle_each_iff`).
-/

set_option autoImplicit false

namespace FleetCommand.Management

open Resumption Runs VehicleService

variable {cfg : Config} {s : Repos}

/-- No two vehicles have the same driver. -/
def OneVehicleEach (s : Repos) : Prop :=
  ∀ id id' v v', s.vehicles.byId.get? id = some v → s.vehicles.byId.get? id' = some v' →
    v.driverId ≠ none → v.driverId = v'.driverId → id = id'

/-- A vehicle other than `vehicleId` has the driver. -/
def DrivesAnother (s : Repos) (vehicleId : String) (driverId : Option String) : Prop :=
  ∃ id v, s.vehicles.byId.get? id = some v ∧ v.driverId = driverId ∧ id ≠ vehicleId

/-- An association that passes the service's checks is of a driver that no other vehicle has. -/
def TakesFreeDriver (s : System) (r : Request) : Prop :=
  match r.op with
  | .associateDriver vehicleId driverId =>
    ∀ v, Associable s.repos vehicleId driverId v → ValidTime r.now →
      ¬ DrivesAnother s.repos vehicleId driverId
  | _ => True

/-! ## One request -/

theorem OneVehicleEach.new : OneVehicleEach .new := by
  intro id id' v v' hv
  exact absurd hv (by simp [Repos.new])

theorem OneVehicleEach.of_eq (h : OneVehicleEach s) {s' : Repos} (hs : s'.vehicles = s.vehicles) :
    OneVehicleEach s' := by
  intro id id' v v' hv hv'
  rw [hs] at hv hv'
  exact h id id' v v' hv hv'

/-- A vehicle without a driver adds no pair. -/
theorem OneVehicleEach.insert (h : OneVehicleEach s) {v : Vehicle} (hv : v.driverId = none)
    {s' : Repos} (hs : s'.vehicles = s.vehicles.save cfg v) : OneVehicleEach s' := by
  intro id id' w w' hw hw' hset heq
  rw [hs, VehicleRepository.save, InsertionMap.get?_set] at hw hw'
  split at hw
  · obtain rfl := Option.some.inj hw
    exact absurd hv hset
  · split at hw'
    · obtain rfl := Option.some.inj hw'
      exact absurd (heq.trans hv) hset
    · exact h id id' w w' hw hw' hset heq

/-- A vehicle replaced by one with a driver: the driver must be on no other vehicle. -/
theorem oneVehicleEach_save_iff (h : OneVehicleEach s) {v : Vehicle} (hv : v.driverId ≠ none)
    {s' : Repos} (hs : s'.vehicles = s.vehicles.save cfg v) :
    OneVehicleEach s' ↔ ¬ DrivesAnother s v.id v.driverId := by
  constructor
  · rintro h' ⟨id, w, hw, hdriver, hne⟩
    have hsaved : s'.vehicles.byId.get? v.id = some v := by
      rw [hs, VehicleRepository.save, InsertionMap.get?_set_self]
    have hother : s'.vehicles.byId.get? id = some w := by
      rw [hs, VehicleRepository.save, InsertionMap.get?_set_of_ne _ hne, hw]
    exact hne (h' v.id id v w hsaved hother hv hdriver.symm).symm
  · intro hfree id id' w w' hw hw' hset heq
    rw [hs, VehicleRepository.save, InsertionMap.get?_set] at hw hw'
    -- the vehicle saved on either side, on both, or on neither
    split at hw
    next hid =>
      obtain rfl := Option.some.inj hw
      by_contra hne
      rw [if_neg fun hid' => hne (hid.trans hid'.symm)] at hw'
      exact hfree ⟨id', w', hw', heq.symm, fun hid' => hne (hid.trans hid'.symm)⟩
    next hid =>
      split at hw'
      next hid' =>
        obtain rfl := Option.some.inj hw'
        exact absurd ⟨id, w, hw, heq, hid⟩ hfree
      next => exact h id id' w w' hw hw' hset heq

/-- Registering a vehicle leaves the vehicles as they are or adds one without a driver. -/
theorem VehicleService.register_cases (call : Call) (input : RegisterVehicleInput) (s : Repos) :
    (runE (memory cfg) (register cfg call input) s).2 = s ∨
    ∃ v : Vehicle, v.driverId = none ∧ (runE (memory cfg) (register cfg call input) s).2 =
      { s with vehicles := s.vehicles.save cfg v } := by
  rw [register]
  split
  · exact Or.inl rfl
  · simp only [await, runE_bind, runE_performE, memory]
    cases s.vehicles.findByIdentifier cfg (input.identifier.getD "") with
    | some existing => exact Or.inl rfl
    | none =>
      simp only [runE_bind, runE_ofResult]
      cases toIso call.now with
      | error e => exact Or.inl rfl
      | ok iso => exact Or.inr ⟨_, rfl, rfl⟩

/-- Associating a driver saves the vehicle when the checks pass, and leaves the vehicles as they are
otherwise. -/
theorem VehicleService.associateDriver_cases (call : Call) (vehicleId : String)
    (driverId : Option String) (s : Repos) :
    (runE (memory cfg) (associateDriver call vehicleId driverId) s).2 = s ∧
      (∀ v, Associable s vehicleId driverId v → ¬ ValidTime call.now) ∨
    ∃ v iso, Associable s vehicleId driverId v ∧ ValidTime call.now ∧
      (runE (memory cfg) (associateDriver call vehicleId driverId) s).2 = { s with
        vehicles := s.vehicles.save cfg
          { v with driverId := driverId, associatedAt := some iso } } := by
  rw [associateDriver]
  split
  next hmissing => exact Or.inl ⟨rfl, fun v h => absurd (hmissing.symm.trans h.1) (by simp)⟩
  next hpresent =>
    simp only [await, runE_bind, runE_performE, memory]
    cases hv : s.vehicles.byId.get? vehicleId with
    | none => exact Or.inl ⟨rfl, fun v h => absurd (hv.symm.trans h.2.1) (by simp)⟩
    | some v =>
      dsimp only
      split
      next hconflict =>
        refine Or.inl ⟨rfl, fun v' h => absurd hconflict ?_⟩
        obtain rfl := Option.some.inj (hv.symm.trans h.2.1)
        exact h.2.2
      next hfree =>
        simp only [runE_bind, runE_ofResult]
        by_cases hnow : ValidTime call.now
        · rw [toIso_of_valid hnow]
          exact Or.inr ⟨v, _, ⟨by simpa using hpresent, hv, hfree⟩, hnow, rfl⟩
        · rw [toIso_of_not_valid hnow]
          exact Or.inl ⟨rfl, fun _ _ => hnow⟩

/-- One request. -/
theorem oneVehicleEach_step_iff {s : System} (hkeyed : VehiclesKeyed cfg s.calls s.repos)
    (h : OneVehicleEach s.repos) (r : Request) :
    OneVehicleEach (step cfg s r).repos ↔ TakesFreeDriver s r := by
  obtain ⟨op, now⟩ := r
  cases op with
  | registerVehicle input =>
    refine iff_of_true ?_ trivial
    rw [step_repos (p := register cfg ⟨now, s.calls⟩ input) rfl]
    obtain hs | ⟨v, hv, hs⟩ := @register_cases cfg ⟨now, s.calls⟩ input s.repos
    · rw [hs]
      exact h
    · rw [hs]
      exact h.insert hv rfl
  | associateDriver vehicleId driverId =>
    rw [step_repos (p := associateDriver ⟨now, s.calls⟩ vehicleId driverId) rfl]
    obtain ⟨hs, hrejected⟩ | ⟨v, iso, hv, hnow, hs⟩ :=
      @associateDriver_cases cfg ⟨now, s.calls⟩ vehicleId driverId s.repos
    · rw [hs]
      exact iff_of_true h fun v hv hnow => absurd hnow (hrejected v hv)
    · have hid : v.id = vehicleId := (hkeyed.issued _ v hv.2.1).1
      have hset : driverId ≠ none := by
        rintro rfl
        exact absurd hv.1 (by simp [isMissing])
      rw [hs, @oneVehicleEach_save_iff cfg s.repos h
        { v with driverId := driverId, associatedAt := some iso } hset _ rfl]
      dsimp only
      rw [hid]
      exact ⟨fun hfree _ _ _ => hfree, fun hfree => hfree v hv hnow⟩
  -- the other methods write no vehicle
  | _ => exact iff_of_true (h.of_eq (step_vehicles (by simp [Op.parts]))) trivial

/-! ## Runs -/

/-- Along a sequential run no driver has two vehicles exactly when every association the service
accepts is of a driver no other vehicle has. -/
theorem one_vehicle_each_iff (cfg : Config) (rs : List Request) :
    Always (step cfg) (fun s => OneVehicleEach s.repos) .new rs ↔
      AllSteps (step cfg) TakesFreeDriver .new rs := by
  apply always_iff_allSteps (I := fun s : System => VehiclesKeyed cfg s.calls s.repos)
  · intro s r hkeyed
    exact hkeyed.step r
  · intro s r hkeyed h
    exact oneVehicleEach_step_iff hkeyed h r
  · exact VehiclesKeyed.new
  · exact OneVehicleEach.new

/-- Two vehicles are registered and given to one driver. -/
def givenTwice : List Request :=
  [⟨.registerVehicle ⟨some "x", some "van", some (.fin 1)⟩, 0⟩,
    ⟨.registerVehicle ⟨some "y", some "van", some (.fin 1)⟩, 0⟩,
    ⟨.associateDriver "v" (some "d"), 0⟩,
    ⟨.associateDriver "vv" (some "d"), 0⟩]

/-- Both vehicles have the driver. -/
theorem givenTwice_shared :
    ¬ Always (step .unary) (fun s => OneVehicleEach s.repos) .new givenTwice := by
  intro h
  have hdrivers : ((run (step .unary) .new givenTwice).repos.vehicles.byId.get? "v").map
        Vehicle.driverId = some (some "d") ∧
      ((run (step .unary) .new givenTwice).repos.vehicles.byId.get? "vv").map
        Vehicle.driverId = some (some "d") := by
    decide +kernel
  obtain ⟨hfirst, hsecond⟩ := hdrivers
  obtain ⟨v, hv, hdriver⟩ := Option.map_eq_some_iff.1 hfirst
  obtain ⟨v', hv', hdriver'⟩ := Option.map_eq_some_iff.1 hsecond
  have hid := h.last "v" "vv" v v' hv hv' (by simp [hdriver]) (hdriver.trans hdriver'.symm)
  exact absurd hid (by decide)

end FleetCommand.Management
