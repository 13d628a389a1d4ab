import FleetCommand.Lib.SecondaryIndex
import FleetCommand.Management.Calls

/-!
# Unique emails and identifiers

Along every sequential run the email index of the drivers and the identifier index of the vehicles
are exact, so no two records share a key, and a call that creates a record is rejected as a
duplicate exactly when its key is taken (`keys_exact`).

Each request's writes are of two kinds (`ProperDriverWrite`, `ProperVehicleWrite`): a record under a
fresh id whose key was looked up and not found, or a stored record with its key unchanged.
-/

set_option autoImplicit false

namespace FleetCommand.Management

open Resumption Runs SecondaryIndex

variable {cfg : Config} {n : Nat} {s : Repos}

/-! ## Drivers -/

/-- The key of a driver. -/
def emailKey (cfg : Config) (d : Driver) : String := cfg.toLowerCase d.email

/-- What holds of a write of a driver when request number `n` makes it. -/
def ProperDriverWrite (cfg : Config) (n : Nat) : RepoOp → Repos → Prop
  | .insertNewDriver _ d, s => d.id = cfg.driverId.gen n ∧ s.drivers.byId.get? d.id = none ∧
      s.drivers.emailIndex.get? (emailKey cfg d) = none
  | .saveDriver d, s | .stampAndSaveDriver _ d, s =>
      ∃ d₀, s.drivers.byId.get? d.id = some d₀ ∧ emailKey cfg d = emailKey cfg d₀
  | _, _ => True

theorem properDriverWrite_spares : Spares .drivers (ProperDriverWrite cfg n) := by
  intro op s hwrites
  cases op with
  | insertNewDriver now d => exact absurd rfl hwrites
  | saveDriver d => exact absurd rfl hwrites
  | stampAndSaveDriver now d => exact absurd rfl hwrites
  | _ => trivial

theorem properDriverWrite_local : DriversOnly (ProperDriverWrite cfg n) := by
  rintro d s s' hs ⟨d₀, hfound, hkey⟩
  exact ⟨d₀, hs ▸ hfound, hkey⟩

/-- Drivers are stored under the ids issued to them, and the email index is exact. -/
structure DriversKeyed (cfg : Config) (n : Nat) (s : Repos) : Prop where
  issued : Issued cfg.driverId Driver.id n s.drivers.byId
  exact : Exact (emailKey cfg) s.drivers.byId s.drivers.emailIndex

namespace DriversKeyed

theorem new : DriversKeyed cfg n .new := ⟨.empty, .empty⟩

theorem succ (h : DriversKeyed cfg n s) : DriversKeyed cfg (n + 1) s :=
  ⟨h.issued.mono (Nat.le_succ n), h.exact⟩

theorem of_eq (h : DriversKeyed cfg n s) {s' : Repos} (hs : s'.drivers = s.drivers) :
    DriversKeyed cfg n s' := by
  constructor
  · rw [hs]
    exact h.issued
  · rw [hs]
    exact h.exact

theorem save (h : DriversKeyed cfg n s) {d d₀ : Driver} (hd : s.drivers.byId.get? d.id = some d₀)
    (hkey : emailKey cfg d = emailKey cfg d₀) {s' : Repos}
    (hs : s'.drivers = s.drivers.save cfg d) : DriversKeyed cfg n s' := by
  constructor
  · rw [hs]
    exact h.issued.set_stored hd
  · rw [hs]
    exact h.exact.replace hd hkey

theorem id_of_found (h : DriversKeyed cfg n s) {id : String} {d : Driver}
    (hd : s.drivers.byId.get? id = some d) : s.drivers.byId.get? d.id = some d := by
  rw [(h.issued id d hd).1, hd]

/-- The id in the index is one a generator issued, so the lookup by email is the index's. -/
theorem findByEmail_eq_none_iff (h : DriversKeyed cfg n s) (email : String) :
    s.drivers.findByEmail cfg email = none ↔
      s.drivers.emailIndex.get? (cfg.toLowerCase email) = none := by
  rw [DriverRepository.findByEmail]
  cases hindex : s.drivers.emailIndex.get? (cfg.toLowerCase email) with
  | none => simp
  | some id =>
    obtain ⟨d, hd, -⟩ := (h.exact _ id).1 hindex
    obtain ⟨-, k, -, rfl⟩ := h.issued id d hd
    simp [cfg.driverId.nonempty k, hd]

theorem findByEmail_ne_none_iff (h : DriversKeyed cfg n s) (email : String) :
    s.drivers.findByEmail cfg email ≠ none ↔
      ∃ id d, s.drivers.byId.get? id = some d ∧ emailKey cfg d = cfg.toLowerCase email := by
  rw [ne_eq, h.findByEmail_eq_none_iff, h.exact.get?_eq_none_iff]
  push Not
  rfl

/-- A proper write keeps the index exact. -/
theorem memory (h : DriversKeyed cfg (n + 1) s) {op : RepoOp} (hop : ProperDriverWrite cfg n op s) :
    DriversKeyed cfg (n + 1) (memory cfg op s).2 := by
  by_cases hwrites : op.writes = some .drivers
  · cases op with
    | insertNewDriver now d =>
      obtain ⟨hid, hnew, hkey⟩ := hop
      exact ⟨h.issued.set_last hid, h.exact.insert hnew hkey⟩
    | saveDriver d =>
      obtain ⟨d₀, hd, hkey⟩ := hop
      exact h.save hd hkey rfl
    | stampAndSaveDriver now d =>
      obtain ⟨d₀, hd, hkey⟩ := hop
      obtain ⟨lastStamp, iso, hs⟩ | ⟨lastStamp, e, hs⟩ := s.stampAndSave_cases cfg now d
      · rw [Management.memory, hs]
        exact h.save (d := { d with updatedAt := iso }) hd hkey rfl
      · rw [Management.memory, hs]
        exact h.of_eq rfl
    | _ => exact absurd hwrites (by simp [RepoOp.writes])
  · exact h.of_eq (memory_drivers cfg hwrites s)

end DriversKeyed

/-! ## Vehicles -/

/-- The key of a vehicle. -/
def vehicleKey (cfg : Config) (v : Vehicle) : String := identifierKey cfg v.identifier

/-- What holds of a write of a vehicle when request number `n` makes it. -/
def ProperVehicleWrite (cfg : Config) (n : Nat) : RepoOp → Repos → Prop
  | .insertVehicle v, s => v.id = cfg.vehicleId.gen n ∧ s.vehicles.byId.get? v.id = none ∧
      s.vehicles.identifierIndex.get? (vehicleKey cfg v) = none
  | .saveVehicle v, s => ∃ v₀, s.vehicles.byId.get? v.id = some v₀ ∧
      vehicleKey cfg v = vehicleKey cfg v₀
  | _, _ => True

theorem properVehicleWrite_spares : Spares .vehicles (ProperVehicleWrite cfg n) := by
  intro op s hwrites
  cases op with
  | insertVehicle v => exact absurd rfl hwrites
  | saveVehicle v => exact absurd rfl hwrites
  | _ => trivial

/-- Vehicles are stored under the ids issued to them, and the identifier index is exact. -/
structure VehiclesKeyed (cfg : Config) (n : Nat) (s : Repos) : Prop where
  issued : Issued cfg.vehicleId Vehicle.id n s.vehicles.byId
  exact : Exact (vehicleKey cfg) s.vehicles.byId s.vehicles.identifierIndex

namespace VehiclesKeyed

theorem new : VehiclesKeyed cfg n .new := ⟨.empty, .empty⟩

theorem succ (h : VehiclesKeyed cfg n s) : VehiclesKeyed cfg (n + 1) s :=
  ⟨h.issued.mono (Nat.le_succ n), h.exact⟩

theorem of_eq (h : VehiclesKeyed cfg n s) {s' : Repos} (hs : s'.vehicles = s.vehicles) :
    VehiclesKeyed cfg n s' := by
  constructor
  · rw [hs]
    exact h.issued
  · rw [hs]
    exact h.exact

theorem id_of_found (h : VehiclesKeyed cfg n s) {id : String} {v : Vehicle}
    (hv : s.vehicles.byId.get? id = some v) : s.vehicles.byId.get? v.id = some v := by
  rw [(h.issued id v hv).1, hv]

theorem findByIdentifier_eq_none_iff (h : VehiclesKeyed cfg n s) (identifier : String) :
    s.vehicles.findByIdentifier cfg identifier = none ↔
      s.vehicles.identifierIndex.get? (identifierKey cfg identifier) = none := by
  rw [VehicleRepository.findByIdentifier]
  cases hindex : s.vehicles.identifierIndex.get? (identifierKey cfg identifier) with
  | none => simp
  | some id =>
    obtain ⟨v, hv, -⟩ := (h.exact _ id).1 hindex
    obtain ⟨-, k, -, rfl⟩ := h.issued id v hv
    simp [cfg.vehicleId.nonempty k, hv]

theorem findByIdentifier_ne_none_iff (h : VehiclesKeyed cfg n s) (identifier : String) :
    s.vehicles.findByIdentifier cfg identifier ≠ none ↔
      ∃ id v, s.vehicles.byId.get? id = some v ∧ vehicleKey cfg v = identifierKey cfg identifier := by
  rw [ne_eq, h.findByIdentifier_eq_none_iff, h.exact.get?_eq_none_iff]
  push Not
  rfl

/-- A proper write keeps the index exact. -/
theorem memory (h : VehiclesKeyed cfg (n + 1) s) {op : RepoOp}
    (hop : ProperVehicleWrite cfg n op s) : VehiclesKeyed cfg (n + 1) (memory cfg op s).2 := by
  by_cases hwrites : op.writes = some .vehicles
  · cases op with
    | insertVehicle v =>
      obtain ⟨hid, hnew, hkey⟩ := hop
      exact ⟨h.issued.set_last hid, h.exact.insert hnew hkey⟩
    | saveVehicle v =>
      obtain ⟨v₀, hv, hkey⟩ := hop
      exact ⟨h.issued.set_stored hv, h.exact.replace hv hkey⟩
    | _ => exact absurd hwrites (by simp [RepoOp.writes])
  · exact h.of_eq (memory_vehicles cfg hwrites s)

end VehiclesKeyed

/-! ## Requests -/

/-- Every write of a driver a request makes is proper. -/
theorem DriversKeyed.code {s : System} (h : DriversKeyed cfg s.calls s.repos) (r : Request) :
    EveryCallE (Management.memory cfg) (ProperDriverWrite cfg s.calls) (s.code cfg r) s.repos := by
  obtain ⟨op, now⟩ := r
  have hspares : Spares .drivers (ProperDriverWrite cfg s.calls) := properDriverWrite_spares
  cases op with
  | createDriver input =>
    refine (everyCallE_ignore cfg _ _).2
      ((DriverService.everyCall_create cfg _ hspares.reads input s.repos).2 ?_)
    intro _ hnone hnow
    exact ⟨rfl, h.issued.fresh, (h.findByEmail_eq_none_iff _).1 hnone⟩
  | updateDriver id changes =>
    refine (everyCallE_ignore cfg _ _).2
      ((DriverService.everyCall_update cfg _ hspares.reads id changes s.repos).2 ?_)
    intro d hd
    exact ⟨d, h.id_of_found hd, rfl⟩
  | deactivateDriver id =>
    refine (everyCallE_ignore cfg _ _).2
      ((DriverService.everyCall_deactivate cfg _ hspares.reads id s.repos).2 ?_)
    intro d hd
    exact ⟨d, h.id_of_found hd, rfl⟩
  | setAvailability id target =>
    refine (everyCallE_ignore cfg _ _).2
      ((DriverService.everyCall_changeStatus cfg _ hspares.reads id _ target s.repos).2 ?_)
    intro d hd _
    exact ⟨d, h.id_of_found hd, rfl⟩
  | beginDelivery id =>
    refine (everyCallE_ignore cfg _ _).2
      ((DriverService.everyCall_changeStatus cfg _ hspares.reads id _ _ s.repos).2 ?_)
    intro d hd _
    exact ⟨d, h.id_of_found hd, rfl⟩
  | completeDelivery id =>
    refine (everyCallE_ignore cfg _ _).2
      ((DriverService.everyCall_changeStatus cfg _ hspares.reads id _ _ s.repos).2 ?_)
    intro d hd _
    exact ⟨d, h.id_of_found hd, rfl⟩
  | createAssignment driverId deliveryIds =>
    refine (everyCallE_ignore cfg _ _).2 ((AssignmentService.everyCall_create cfg _ hspares
      properDriverWrite_local driverId deliveryIds s.repos).2 ?_)
    intro d hd hnow
    exact ⟨d, h.id_of_found hd.found, rfl⟩
  | completeIfAllStopsTerminal assignmentId =>
    refine (everyCallE_ignore cfg _ _).2 ((RouteService.everyCall_completeIfAllStopsTerminal cfg _
      hspares properDriverWrite_local assignmentId s.repos).2 ?_)
    intro hnow d hd
    obtain ⟨a, -, hfound⟩ := hd.found
    exact ⟨d, h.id_of_found hfound, rfl⟩
  -- the other methods write no driver
  | _ =>
    exact hspares.everyCall cfg (Op.code_within cfg _ _) (by simp [Op.parts]) s.repos

/-- Every write of a vehicle a request makes is proper. -/
theorem VehiclesKeyed.code {s : System} (h : VehiclesKeyed cfg s.calls s.repos) (r : Request) :
    EveryCallE (Management.memory cfg) (ProperVehicleWrite cfg s.calls) (s.code cfg r) s.repos := by
  obtain ⟨op, now⟩ := r
  have hspares : Spares .vehicles (ProperVehicleWrite cfg s.calls) := properVehicleWrite_spares
  cases op with
  | registerVehicle input =>
    refine (everyCallE_ignore cfg _ _).2
      ((VehicleService.everyCall_register cfg _ hspares.reads input s.repos).2 ?_)
    intro _ hnone hnow
    exact ⟨rfl, h.issued.fresh, (h.findByIdentifier_eq_none_iff _).1 hnone⟩
  | associateDriver vehicleId driverId =>
    refine (everyCallE_ignore cfg _ _).2
      ((VehicleService.everyCall_associateDriver cfg _ hspares.reads vehicleId driverId s.repos).2 ?_)
    rintro v ⟨-, hv, -⟩ hnow
    exact ⟨v, h.id_of_found hv, rfl⟩
  -- the other methods write no vehicle
  | _ =>
    exact hspares.everyCall cfg (Op.code_within cfg _ _) (by simp [Op.parts]) s.repos

theorem DriversKeyed.step {s : System} (h : DriversKeyed cfg s.calls s.repos) (r : Request) :
    DriversKeyed cfg (step cfg s r).calls (step cfg s r).repos :=
  (h.code r).runE _ (fun _ _ hop hs => hs.memory hop) h.succ

theorem VehiclesKeyed.step {s : System} (h : VehiclesKeyed cfg s.calls s.repos) (r : Request) :
    VehiclesKeyed cfg (step cfg s r).calls (step cfg s r).repos :=
  (h.code r).runE _ (fun _ _ hop hs => hs.memory hop) h.succ

theorem driversKeyed_run (rs : List Request) :
    DriversKeyed cfg (run (step cfg) .new rs).calls (run (step cfg) .new rs).repos :=
  run_invariant (I := fun s : System => DriversKeyed cfg s.calls s.repos)
    (fun _ r h => h.step r) .new rs

theorem vehiclesKeyed_run (rs : List Request) :
    VehiclesKeyed cfg (run (step cfg) .new rs).calls (run (step cfg) .new rs).repos :=
  run_invariant (I := fun s : System => VehiclesKeyed cfg s.calls s.repos)
    (fun _ r h => h.step r) .new rs

/-! ## Duplicates -/

/-- What `create` throws for an email that is taken. -/
def duplicateEmail : Thrown := domainError .duplicate ["email"] 409

/-- What `register` throws for an identifier that is taken. -/
def duplicateIdentifier : Thrown := domainError .duplicate ["identifier"] 409

theorem DriverService.create_duplicate_iff (call : Call) {input : CreateDriverInput}
    (hinput : validateDriverInput input = none) (s : Repos) :
    (runE (memory cfg) (DriverService.create cfg call input) s).1 = .error duplicateEmail ↔
      s.drivers.findByEmail cfg (input.email.getD "") ≠ none := by
  rw [DriverService.create, hinput]
  simp only [await, runE_bind, runE_performE, memory]
  cases s.drivers.findByEmail cfg (input.email.getD "") with
  | some existing => simp [duplicateEmail]
  | none =>
    simp only [runE_bind, runE_ofResult]
    cases hnow : toIso call.now with
    | error e => simp [toIso_error hnow, duplicateEmail, domainError]
    | ok iso => simp

theorem VehicleService.register_duplicate_iff (call : Call) {input : RegisterVehicleInput}
    (hinput : validateVehicleInput input = none) (s : Repos) :
    (runE (memory cfg) (VehicleService.register cfg call input) s).1 = .error duplicateIdentifier ↔
      s.vehicles.findByIdentifier cfg (input.identifier.getD "") ≠ none := by
  rw [VehicleService.register, hinput]
  simp only [await, runE_bind, runE_performE, memory]
  cases s.vehicles.findByIdentifier cfg (input.identifier.getD "") with
  | some existing => simp [duplicateIdentifier]
  | none =>
    simp only [runE_bind, runE_ofResult]
    cases hnow : toIso call.now with
    | error e => simp [toIso_error hnow, duplicateIdentifier, domainError]
    | ok iso => simp

/-- The two indexes are exact, no two records share a key, and a valid input is rejected as a
duplicate exactly when its key is taken. -/
structure KeysExact (cfg : Config) (s : Repos) : Prop where
  emailIndex : ∀ key id, s.drivers.emailIndex.get? key = some id ↔
    ∃ d, s.drivers.byId.get? id = some d ∧ cfg.toLowerCase d.email = key
  identifierIndex : ∀ key id, s.vehicles.identifierIndex.get? key = some id ↔
    ∃ v, s.vehicles.byId.get? id = some v ∧ cfg.toLowerCase (trim v.identifier) = key
  uniqueEmail : ∀ id id' d d', s.drivers.byId.get? id = some d → s.drivers.byId.get? id' = some d' →
    cfg.toLowerCase d.email = cfg.toLowerCase d'.email → id = id'
  uniqueIdentifier : ∀ id id' v v', s.vehicles.byId.get? id = some v →
    s.vehicles.byId.get? id' = some v' →
    cfg.toLowerCase (trim v.identifier) = cfg.toLowerCase (trim v'.identifier) → id = id'
  create : ∀ call input, validateDriverInput input = none →
    ((runE (memory cfg) (DriverService.create cfg call input) s).1 = .error duplicateEmail ↔
      ∃ id d, s.drivers.byId.get? id = some d ∧
        cfg.toLowerCase d.email = cfg.toLowerCase (input.email.getD ""))
  register : ∀ call input, validateVehicleInput input = none →
    ((runE (memory cfg) (VehicleService.register cfg call input) s).1 =
        .error duplicateIdentifier ↔
      ∃ id v, s.vehicles.byId.get? id = some v ∧
        cfg.toLowerCase (trim v.identifier) = cfg.toLowerCase (trim (input.identifier.getD "")))

theorem KeysExact.of_keyed (hd : DriversKeyed cfg n s) (hv : VehiclesKeyed cfg n s) :
    KeysExact cfg s where
  emailIndex := hd.exact
  identifierIndex := hv.exact
  uniqueEmail _ _ _ _ h h' hkey := hd.exact.unique h h' hkey
  uniqueIdentifier _ _ _ _ h h' hkey := hv.exact.unique h h' hkey
  create call _ hinput :=
    (DriverService.create_duplicate_iff call hinput s).trans (hd.findByEmail_ne_none_iff _)
  register call _ hinput :=
    (VehicleService.register_duplicate_iff call hinput s).trans (hv.findByIdentifier_ne_none_iff _)

/-- After every sequential run the secondary indexes are exact. -/
theorem keys_exact (cfg : Config) (rs : List Request) :
    KeysExact cfg (run (step cfg) .new rs).repos :=
  .of_keyed (driversKeyed_run rs) (vehiclesKeyed_run rs)

end FleetCommand.Management
