import FleetCommand.Lib.Runs
import FleetCommand.Management.UniqueKeys

/-!
# Update stamps of drivers

The driver service stamps a change later than the record it changes, whatever its clock reads. The
assignment and the route service save drivers with a reading of their own clock, so along a run
every save of a driver is stamped later than what it replaces exactly when those readings are
(`saves_later_iff`).
-/

set_option autoImplicit false

namespace FleetCommand.Management

open Resumption Runs

variable (cfg : Config)

/-- The record a repository call stores as a driver. -/
def storedDriver : RepoOp → Repos → Option Driver
  | .insertNewDriver _ d, _ => some d
  | .saveDriver d, _ => some d
  | .stampAndSaveDriver now d, s => (s.stampAndSave cfg now d).1.toOption
  | _, _ => none

/-- A stored driver is stamped later than the record it replaces. -/
def SavesLater (op : RepoOp) (s : Repos) : Prop :=
  ∀ d ∈ storedDriver cfg op s, ∀ d₀ ∈ s.drivers.byId.get? d.id, d₀.updatedAt.ms < d.updatedAt.ms

instance (op : RepoOp) (s : Repos) : Decidable (SavesLater cfg op s) :=
  inferInstanceAs (Decidable (∀ d ∈ storedDriver cfg op s, ∀ d₀ ∈ s.drivers.byId.get? d.id, _))

/-- Every save of a driver in a request is stamped later than what it replaces. -/
abbrev RequestSavesLater (s : System) (r : Request) : Prop :=
  EveryCallE (memory cfg) (SavesLater cfg) (s.code cfg r) s.repos

/-- The clock readings the assignment and the route service store are later than the stamp of the
driver they save. -/
def ClockAhead (s : System) (r : Request) : Prop :=
  match r.op with
  | .createAssignment driverId deliveryIds =>
    ∀ d, AssignmentService.Creatable s.repos driverId deliveryIds d → ValidTime r.now →
      d.updatedAt.ms < r.now
  | .completeIfAllStopsTerminal assignmentId =>
    ∀ d, RouteService.Completes s.repos assignmentId d → ValidTime r.now → d.updatedAt.ms < r.now
  | _ => True

/-! ## One write -/

section Write

variable {cfg} {s : Repos}

theorem savesLater_spares : Spares .drivers (SavesLater cfg) := by
  intro op s hwrites
  cases op with
  | insertNewDriver now d => exact absurd rfl hwrites
  | saveDriver d => exact absurd rfl hwrites
  | stampAndSaveDriver now d => exact absurd rfl hwrites
  | _ => exact fun d hd => absurd hd (by simp [storedDriver])

theorem savesLater_local : DriversOnly (SavesLater cfg) := by
  intro d s s' hs h d' hd' d₀ hd₀
  rw [← hs] at hd₀
  exact h d' hd' d₀ hd₀

theorem savesLater_save_iff {d : Driver} (d₀ : Driver) (hd : s.drivers.byId.get? d.id = some d₀) :
    SavesLater cfg (.saveDriver d) s ↔ d₀.updatedAt.ms < d.updatedAt.ms := by
  simp [SavesLater, storedDriver, hd]

theorem lt_nextStampFor (lastStamp : InsertionMap String Int) (now : Int) (d : Driver) :
    d.updatedAt.ms < nextStampFor lastStamp now d := by
  rw [nextStampFor]
  split <;> omega

/-- The driver service's stamp is later than that of the record it is computed from. -/
theorem savesLater_stampAndSave {d : Driver} (d₀ : Driver) (hd : s.drivers.byId.get? d.id = some d₀)
    (hstamp : d.updatedAt = d₀.updatedAt) (now : Int) :
    SavesLater cfg (.stampAndSaveDriver now d) s := by
  intro d' hd' d₁ hd₁
  rw [storedDriver, Repos.stampAndSave] at hd'
  by_cases hvalid : ValidTime (nextStampFor s.lastStamp now d)
  · simp only [toIso_of_valid hvalid, Except.toOption, Option.mem_some_iff] at hd'
    subst hd'
    obtain rfl := Option.some.inj (hd.symm.trans hd₁)
    rw [← hstamp]
    exact lt_nextStampFor s.lastStamp now d
  · simp only [toIso_of_not_valid hvalid, Except.toOption] at hd'
    exact absurd hd' (by simp)

/-- The three status methods of the driver service stamp later than what they replace. -/
theorem changeStatus_savesLater {n : Nat} (h : DriversKeyed cfg n s) (call : Call) (id : String)
    (allowed : DriverStatus → Bool) (target : DriverStatus) :
    EveryCallE (memory cfg) (SavesLater cfg) (DriverService.changeStatus call id allowed target)
      s := by
  have hspares : Spares .drivers (SavesLater cfg) := savesLater_spares
  rw [DriverService.everyCall_changeStatus cfg call hspares.reads]
  intro d hd _
  refine savesLater_stampAndSave d ?_ ?_ call.now
  · exact h.id_of_found hd
  · rfl

end Write

/-! ## One request -/

/-- One request: only the two saves outside the driver service can be stamped too early. -/
theorem requestSavesLater_iff {s : System} (h : DriversKeyed cfg s.calls s.repos) (r : Request) :
    RequestSavesLater cfg s r ↔ ClockAhead s r := by
  obtain ⟨op, now⟩ := r
  have hspares : Spares .drivers (SavesLater cfg) := savesLater_spares
  cases op with
  | createDriver input =>
    refine iff_of_true ((everyCallE_ignore cfg _ _).2
      ((DriverService.everyCall_create cfg _ hspares.reads input s.repos).2 ?_)) trivial
    intro _ _ hnow d hd d₀ hd₀
    -- the id is new, so nothing is replaced
    obtain rfl := Option.some.inj hd
    exact absurd (h.issued.fresh.symm.trans hd₀) (by simp)
  | updateDriver id changes =>
    refine iff_of_true ((everyCallE_ignore cfg _ _).2
      ((DriverService.everyCall_update cfg _ hspares.reads id changes s.repos).2 ?_)) trivial
    intro d hd
    refine savesLater_stampAndSave d ?_ ?_ now
    · exact h.id_of_found hd
    · rfl
  | deactivateDriver id =>
    refine iff_of_true ((everyCallE_ignore cfg _ _).2
      ((DriverService.everyCall_deactivate cfg _ hspares.reads id s.repos).2 ?_)) trivial
    intro d hd
    refine savesLater_stampAndSave d ?_ ?_ now
    · exact h.id_of_found hd
    · rfl
  | setAvailability id target =>
    exact iff_of_true ((everyCallE_ignore cfg _ _).2 (changeStatus_savesLater h _ id _ _)) trivial
  | beginDelivery id =>
    exact iff_of_true ((everyCallE_ignore cfg _ _).2 (changeStatus_savesLater h _ id _ _)) trivial
  | completeDelivery id =>
    exact iff_of_true ((everyCallE_ignore cfg _ _).2 (changeStatus_savesLater h _ id _ _)) trivial
  | createAssignment driverId deliveryIds =>
    refine (everyCallE_ignore cfg _ _).trans ((AssignmentService.everyCall_create cfg _ hspares
      savesLater_local driverId deliveryIds s.repos).trans ?_)
    refine forall₂_congr fun d hd => forall_congr' fun hnow => ?_
    refine savesLater_save_iff d ?_
    exact h.id_of_found hd.found
  | completeIfAllStopsTerminal assignmentId =>
    refine (everyCallE_ignore cfg _ _).trans ((RouteService.everyCall_completeIfAllStopsTerminal cfg
      _ hspares savesLater_local assignmentId s.repos).trans ?_)
    constructor
    · intro hsaves d hd hnow
      obtain ⟨a, -, hfound⟩ := hd.found
      have hsave := hsaves hnow d hd
      rwa [savesLater_save_iff d] at hsave
      exact h.id_of_found hfound
    · intro hahead hnow d hd
      obtain ⟨a, -, hfound⟩ := hd.found
      rw [savesLater_save_iff d]
      · exact hahead d hd hnow
      · exact h.id_of_found hfound
  -- the other methods write no driver
  | _ =>
    exact iff_of_true
      (hspares.everyCall cfg (Op.code_within cfg _ _) (by simp [Op.parts]) s.repos) trivial

/-! ## Runs -/

/-- Along a sequential run every save of a driver is stamped later than the record it replaces
exactly when the two services that stamp with a clock reading read a later time. -/
theorem saves_later_iff (rs : List Request) :
    AllSteps (step cfg) (RequestSavesLater cfg) .new rs ↔
      AllSteps (step cfg) ClockAhead .new rs := by
  apply allSteps_congr (I := fun s : System => DriversKeyed cfg s.calls s.repos)
  · intro s r h
    exact h.step r
  · intro s r h
    exact requestSavesLater_iff cfg h r
  · exact DriversKeyed.new

/-- A driver goes on delivery while the clock repeats the instant the driver was created at. -/
def clockRepeats : List Request :=
  [⟨.createDriver ⟨some "n", some "e", some "p", some "l"⟩, 0⟩,
    ⟨.setAvailability "d" .available, 0⟩,
    ⟨.registerVehicle ⟨some "x", some "van", some (.fin 1)⟩, 0⟩,
    ⟨.associateDriver "vvv" (some "d"), 0⟩,
    ⟨.createDelivery ⟨some "a", some "r", some "c", some (.fin 1)⟩ (some ⟨.fin 0, .fin 0⟩), 0⟩,
    ⟨.createAssignment "d" ["ppppp"], 0⟩]

/-- The availability change was stamped 1; the assignment stores 0. -/
theorem clockRepeats_earlier :
    ¬ AllSteps (step .unary) (RequestSavesLater .unary) .new clockRepeats := by
  decide +kernel

end FleetCommand.Management
