import FleetCommand.Lib.Runs
import FleetCommand.Management.Calls
import FleetCommand.Management.Lifecycle
import Mathlib.Data.List.TakeWhile

/-!
# Validated records and the schema's checks

The records the services store against the CHECK constraints of the first migration. The validators
look for blank fields and at the weight; the lengths of a delivery's texts and the sign of a
vehicle's capacity are checked by the schema only. So every record a create, a registration or a
transition of a run stores passes the checks exactly when the inputs accepted keep to those limits
(`stores_checked_iff`).
-/

set_option autoImplicit false

namespace FleetCommand.Management

open Resumption Runs

/-! ## The schema -/

/-- `btrim(s)`: removes spaces at both ends. -/
def btrim (s : String) : String :=
  String.ofList ((s.toList.dropWhile (· = ' ')).reverse.dropWhile (· = ' ')).reverse

/-- `length(btrim(s)) > 0`. -/
def NonBlank (s : String) : Prop := 0 < (btrim s).length

/-- `length(s) BETWEEN 1 AND n`. -/
def LengthWithin (n : Nat) (s : String) : Prop := 1 ≤ s.length ∧ s.length ≤ n

/-- `x > 0` in a `numeric` column, whose order has `NaN` on top. -/
def JsNumber.AboveZero : JsNumber → Prop
  | .nan => True
  | .posInf => True
  | .negInf => False
  | .fin q => 0 < q

/-- `x <= 1000` in a `numeric` column. -/
def JsNumber.AtMostThousand : JsNumber → Prop
  | .nan => False
  | .posInf => False
  | .negInf => True
  | .fin q => q ≤ 1000

/-- The checks of the table `Driver`. -/
structure Driver.SatisfiesChecks (d : Driver) : Prop where
  name : NonBlank d.name
  phone : NonBlank d.phone
  licenseNumber : NonBlank d.licenseNumber

/-- The checks of the table `Vehicle`. -/
structure Vehicle.SatisfiesChecks (v : Vehicle) : Prop where
  identifier : NonBlank v.identifier
  capacityKg : v.capacityKg.AboveZero

/-- The checks of the table `Delivery`. -/
structure Delivery.SatisfiesChecks (d : Delivery) : Prop where
  address : LengthWithin 255 d.address
  recipientName : LengthWithin 100 d.recipientName
  recipientContact : LengthWithin 50 d.recipientContact
  weightKg : d.weightKg.AboveZero ∧ d.weightKg.AtMostThousand
  failureReason : ∀ reason, d.failureReason = some reason → LengthWithin 500 reason

/-- A record inserted or saved satisfies the checks of its table. -/
def StoresChecked : RepoOp → Repos → Prop
  | .insertNewDriver _ d, _ => d.SatisfiesChecks
  | .insertVehicle v, _ => v.SatisfiesChecks
  | .insertDelivery d, _ => d.SatisfiesChecks
  | .saveDelivery d, _ => d.SatisfiesChecks
  | _, _ => True

/-- Every record a create, a registration or a transition stores satisfies the checks. -/
def RequestStoresChecked (cfg : Config) (s : System) (r : Request) : Prop :=
  match r.op with
  | .createDriver _ | .registerVehicle _ | .createDelivery _ _ | .transition _ _ _ =>
    EveryCallE (memory cfg) StoresChecked (s.code cfg r) s.repos
  | _ => True

/-- The input of a registration or of the creation of a delivery, where the service accepts it,
keeps to the limits that only the schema checks. -/
def KeepsLimits (cfg : Config) (s : System) (r : Request) : Prop :=
  match r.op with
  | .registerVehicle input =>
    validateVehicleInput input = none →
      s.repos.vehicles.findByIdentifier cfg (input.identifier.getD "") = none → ValidTime r.now →
      ∃ capacityKg, input.capacityKg = some capacityKg ∧ capacityKg.AboveZero
  | .createDelivery input geocoded =>
    validateDeliveryInput input = none → geocoded ≠ none → ValidTime r.now →
      (input.address.getD "").length ≤ 255 ∧ (input.recipientName.getD "").length ≤ 100 ∧
      (input.recipientContact.getD "").length ≤ 50
  | _ => True

/-! ## Texts -/

theorem dropWhile_ne_nil {α : Type} {p : α → Bool} {l : List α} :
    l.dropWhile p ≠ [] ↔ ∃ a ∈ l, p a = false := by
  rw [ne_eq, List.dropWhile_eq_nil_iff]
  simp

/-- Trimming characters at both ends leaves something exactly when there is another character. -/
theorem trimEnds_ne_nil {α : Type} {p : α → Bool} {l : List α} :
    ((l.dropWhile p).reverse.dropWhile p).reverse ≠ [] ↔ ∃ a ∈ l, p a = false := by
  rw [ne_eq, List.reverse_eq_nil_iff, ← ne_eq, dropWhile_ne_nil]
  simp only [List.mem_reverse]
  constructor
  · rintro ⟨a, ha, hp⟩
    exact ⟨a, (List.dropWhile_sublist p).mem ha, hp⟩
  · intro h
    obtain ⟨b, hb⟩ := List.exists_mem_of_ne_nil _ (dropWhile_ne_nil.2 h)
    -- the first character left is not one of those trimmed
    refine ⟨(l.dropWhile p).head (dropWhile_ne_nil.2 h), List.head_mem _, ?_⟩
    simpa using List.head_dropWhile_not p (dropWhile_ne_nil.2 h)

theorem nonBlank_iff {s : String} : NonBlank s ↔ ∃ c ∈ s.toList, c ≠ ' ' := by
  rw [NonBlank, btrim, String.length_ofList, List.length_pos_iff, trimEnds_ne_nil]
  simp

theorem isMissing_eq_false_iff {s : String} :
    isMissing (some s) = false ↔ ∃ c ∈ s.toList, isWhiteSpace c = false := by
  have hlength : ∀ t : String, jsLength t = 0 ↔ t.toList = [] := by
    intro t
    rw [jsLength]
    cases t.toList <;> simp
  rw [isMissing, decide_eq_false_iff_not, hlength, trim, String.toList_ofList, ← ne_eq,
    trimEnds_ne_nil]

/-- A field that is not missing is not blank for the schema. -/
theorem nonBlank_of_present {field : Option String} (h : isMissing field = false) :
    NonBlank (field.getD "") := by
  cases field with
  | none => exact absurd h (by simp [isMissing])
  | some s =>
    obtain ⟨c, hc, hspace⟩ := isMissing_eq_false_iff.1 h
    refine nonBlank_iff.2 ⟨c, hc, ?_⟩
    rintro rfl
    exact absurd hspace (by decide)

theorem length_pos_of_present {field : Option String} (h : isMissing field = false) :
    1 ≤ (field.getD "").length := by
  obtain ⟨c, hc, -⟩ := nonBlank_iff.1 (nonBlank_of_present h)
  rw [← String.length_toList]
  exact List.length_pos_of_mem hc

/-- A valid failure reason has between 1 and 500 characters: a character is one code unit or two. -/
theorem lengthWithin_of_valid {reason : String} (h : isValidFailureReason (some reason) = true) :
    LengthWithin 500 reason := by
  rw [isValidFailureReason, Bool.and_eq_true, decide_eq_true_iff, decide_eq_true_iff] at h
  simp only [failureReasonMin, failureReasonMax, jsLength] at h
  have hcount := List.countP_le_length (p := fun c : Char => decide (0x10000 ≤ c.toNat))
    (l := reason.toList)
  rw [LengthWithin, ← String.length_toList]
  omega

/-! ## Inputs -/

theorem toError_flagged_eq_none_iff {fields : List (String × Bool)} :
    toError (flagged fields) = none ↔ ∀ field ∈ fields, field.2 = false := by
  rw [toError, flagged]
  simp

theorem validateDriverInput_eq_none_iff {input : CreateDriverInput} :
    validateDriverInput input = none ↔ isMissing input.name = false ∧
      isMissing input.email = false ∧ isMissing input.phone = false ∧
      isMissing input.licenseNumber = false := by
  rw [validateDriverInput, toError_flagged_eq_none_iff]
  simp

theorem validateVehicleInput_eq_none_iff {input : RegisterVehicleInput} :
    validateVehicleInput input = none ↔ isMissing input.identifier = false ∧
      isMissing input.type = false ∧ isMissingNumber input.capacityKg = false := by
  rw [validateVehicleInput, toError_flagged_eq_none_iff]
  simp

theorem validateDeliveryInput_eq_none_iff {input : CreateDeliveryInput} :
    validateDeliveryInput input = none ↔ isMissing input.address = false ∧
      isMissing input.recipientName = false ∧ isMissing input.recipientContact = false ∧
      isMissingNumber input.weightKg = false ∧ isValidWeight input.weightKg = true := by
  rw [validateDeliveryInput, toError_flagged_eq_none_iff]
  cases isMissingNumber input.weightKg <;> simp

variable {cfg : Config} {call : Call}

theorem created_satisfiesChecks {input : CreateDriverInput} (h : validateDriverInput input = none)
    (iso : Instant) : (DriverService.created cfg call input iso).SatisfiesChecks := by
  obtain ⟨hname, -, hphone, hlicense⟩ := validateDriverInput_eq_none_iff.1 h
  exact ⟨nonBlank_of_present hname, nonBlank_of_present hphone, nonBlank_of_present hlicense⟩

theorem registered_satisfiesChecks_iff {input : RegisterVehicleInput}
    (h : validateVehicleInput input = none) (iso : Instant) :
    (VehicleService.registered cfg call input iso).SatisfiesChecks ↔
      ∃ capacityKg, input.capacityKg = some capacityKg ∧ capacityKg.AboveZero := by
  obtain ⟨hidentifier, -, hcapacity⟩ := validateVehicleInput_eq_none_iff.1 h
  cases hinput : input.capacityKg with
  | none => exact absurd hcapacity (by simp [hinput, isMissingNumber])
  | some capacityKg =>
    have hstored : (VehicleService.registered cfg call input iso).capacityKg = capacityKg := by
      rw [VehicleService.registered, hinput]
      rfl
    constructor
    · intro hchecks
      exact ⟨capacityKg, rfl, hstored ▸ hchecks.capacityKg⟩
    · rintro ⟨x, hx, habove⟩
      obtain rfl := Option.some.inj hx
      exact ⟨nonBlank_of_present hidentifier, hstored.symm ▸ habove⟩

/-- A valid weight is within the bounds of the column. -/
theorem bounds_of_validWeight {weightKg : Option JsNumber} (h : isValidWeight weightKg = true) :
    (weightKg.getD .nan).AboveZero ∧ (weightKg.getD .nan).AtMostThousand := by
  cases weightKg with
  | none => exact absurd h (by simp [isValidWeight])
  | some weight =>
    cases weight with
    | fin q => simpa [isValidWeight, JsNumber.AboveZero, JsNumber.AtMostThousand] using h
    | nan => exact absurd h (by simp [isValidWeight])
    | posInf => exact absurd h (by simp [isValidWeight])
    | negInf => exact absurd h (by simp [isValidWeight])

theorem delivery_satisfiesChecks_iff {input : CreateDeliveryInput}
    (h : validateDeliveryInput input = none) (destination : GeoPoint) (iso : Instant) :
    (DeliveryService.created cfg call input destination iso).SatisfiesChecks ↔
      (input.address.getD "").length ≤ 255 ∧ (input.recipientName.getD "").length ≤ 100 ∧
        (input.recipientContact.getD "").length ≤ 50 := by
  obtain ⟨haddress, hname, hcontact, -, hweight⟩ := validateDeliveryInput_eq_none_iff.1 h
  constructor
  · intro hchecks
    exact ⟨hchecks.address.2, hchecks.recipientName.2, hchecks.recipientContact.2⟩
  · rintro ⟨hle, hle', hle''⟩
    constructor
    · exact ⟨length_pos_of_present haddress, hle⟩
    · exact ⟨length_pos_of_present hname, hle'⟩
    · exact ⟨length_pos_of_present hcontact, hle''⟩
    · exact bounds_of_validWeight hweight
    · intro reason hreason
      exact absurd hreason (by simp [DeliveryService.created])

/-- A transition keeps the fields the schema checks; a reason it adds is valid. -/
theorem transitioned_satisfiesChecks {d : Delivery} (hd : d.SatisfiesChecks)
    {target : DeliveryStatus} {reason : Option String}
    (hreason : target = .failed → isValidFailureReason reason = true) (iso : Instant) :
    (DeliveryService.transitioned d target reason iso).SatisfiesChecks where
  address := hd.address
  recipientName := hd.recipientName
  recipientContact := hd.recipientContact
  weightKg := hd.weightKg
  failureReason r hr := by
    simp only [DeliveryService.transitioned] at hr
    split at hr
    next htarget =>
      subst hr
      exact lengthWithin_of_valid (hreason htarget)
    next => exact hd.failureReason r hr

theorem linked_satisfiesChecks {d : Delivery} (hd : d.SatisfiesChecks) (assignmentId : String)
    (now : Instant) : (AssignmentService.linked assignmentId now d).SatisfiesChecks :=
  ⟨hd.address, hd.recipientName, hd.recipientContact, hd.weightKg, hd.failureReason⟩

/-! ## One request -/

/-- Every stored delivery satisfies the checks. -/
def DeliveriesChecked (s : Repos) : Prop :=
  ∀ id d, s.deliveries.get? id = some d → d.SatisfiesChecks

/-- A delivery that is stored satisfies the checks. -/
def StoresCheckedDelivery : RepoOp → Repos → Prop
  | .insertDelivery d, _ => d.SatisfiesChecks
  | .saveDelivery d, _ => d.SatisfiesChecks
  | _, _ => True

theorem storesChecked_reads : ReadsMeet StoresChecked := by
  intro op s hreads
  cases op <;> trivial

theorem storesCheckedDelivery_spares : Spares .deliveries StoresCheckedDelivery := by
  intro op s hwrites
  cases op with
  | insertDelivery d => exact absurd rfl hwrites
  | saveDelivery d => exact absurd rfl hwrites
  | _ => trivial

theorem DeliveriesChecked.set {s : Repos} (h : DeliveriesChecked s) {d : Delivery}
    (hd : d.SatisfiesChecks) {s' : Repos} (hs : s'.deliveries = s.deliveries.set d.id d) :
    DeliveriesChecked s' := by
  intro id e he
  rw [hs, InsertionMap.get?_set] at he
  split at he
  · obtain rfl := Option.some.inj he
    exact hd
  · exact h id e he

theorem DeliveriesChecked.memory {s : Repos} (h : DeliveriesChecked s) {op : RepoOp}
    (hop : StoresCheckedDelivery op s) : DeliveriesChecked (memory cfg op s).2 := by
  by_cases hwrites : op.writes = some .deliveries
  · cases op with
    | insertDelivery d => exact h.set hop rfl
    | saveDelivery d => exact h.set hop rfl
    | _ => exact absurd hwrites (by simp [RepoOp.writes])
  · intro id d hd
    rw [memory_deliveries cfg hwrites] at hd
    exact h id d hd

/-- Where the inputs keep to the limits, every delivery a request stores satisfies the checks. -/
theorem storesCheckedDelivery_code {s : System} (h : DeliveriesChecked s.repos) {r : Request}
    (hr : KeepsLimits cfg s r) :
    EveryCallE (memory cfg) StoresCheckedDelivery (s.code cfg r) s.repos := by
  obtain ⟨op, now⟩ := r
  have hspares := storesCheckedDelivery_spares
  cases op with
  | createDelivery input geocoded =>
    refine (everyCallE_ignore cfg _ _).2
      ((DeliveryService.everyCall_create cfg _ hspares.reads input geocoded s.repos).2 ?_)
    intro hvalid destination hgeocoded hnow
    exact (delivery_satisfiesChecks_iff hvalid destination _).2
      (hr hvalid (by simp [hgeocoded]) hnow)
  | transition id event reason =>
    refine (everyCallE_ignore cfg _ _).2
      ((DeliveryService.everyCall_transition cfg _ hspares.reads id event reason s.repos).2 ?_)
    intro d hd target hnext hreason hnow
    -- only `fail` leads to `Failed`
    have hfail := (Registered.status_of_edge hnext).2.2.2
    exact transitioned_satisfiesChecks (h id d hd) (fun htarget => hreason (hfail htarget)) _
  | createAssignment driverId deliveryIds =>
    refine (everyCallE_ignore cfg _ _).2 (AssignmentService.everyCall_create_deliveries cfg _ hspares
      driverId deliveryIds s.repos ?_)
    intro id d hd assignmentId now' s'
    exact linked_satisfiesChecks (h id d hd) assignmentId now'
  | reassign deliveryId targetAssignmentId =>
    refine (everyCallE_ignore cfg _ _).2 (AssignmentService.everyCall_reassign cfg _ hspares.reads
      deliveryId targetAssignmentId s.repos ?_)
    intro d hd id iso
    have hchecks := h deliveryId d hd
    exact ⟨hchecks.address, hchecks.recipientName, hchecks.recipientContact, hchecks.weightKg,
      hchecks.failureReason⟩
  -- the other methods write no delivery
  | _ => exact hspares.everyCall cfg (Op.code_within cfg _ _) (by simp [Op.parts]) s.repos

theorem DeliveriesChecked.step {s : System} (h : DeliveriesChecked s.repos) {r : Request}
    (hr : KeepsLimits cfg s r) : DeliveriesChecked (step cfg s r).repos :=
  (storesCheckedDelivery_code h hr).runE _ (fun _ _ hop hs => hs.memory hop) h

/-- What is stored tells what was accepted. -/
theorem keepsLimits_of_storesChecked {s : System} {r : Request}
    (h : RequestStoresChecked cfg s r) : KeepsLimits cfg s r := by
  obtain ⟨op, now⟩ := r
  cases op with
  | registerVehicle input =>
    intro hvalid hnew hnow
    have hstored := (VehicleService.everyCall_register cfg _ storesChecked_reads input s.repos).1
      ((everyCallE_ignore cfg _ _).1 h) hvalid hnew hnow
    exact (registered_satisfiesChecks_iff hvalid _).1 hstored
  | createDelivery input geocoded =>
    intro hvalid hgeocoded hnow
    obtain ⟨destination, hdestination⟩ := Option.ne_none_iff_exists'.1 hgeocoded
    have hstored := (DeliveryService.everyCall_create cfg _ storesChecked_reads input geocoded
      s.repos).1 ((everyCallE_ignore cfg _ _).1 h) hvalid destination hdestination hnow
    exact (delivery_satisfiesChecks_iff hvalid destination _).1 hstored
  | _ => trivial

/-- What is accepted within the limits is stored within the checks. -/
theorem storesChecked_of_keepsLimits {s : System} (hchecked : DeliveriesChecked s.repos)
    {r : Request} (h : KeepsLimits cfg s r) : RequestStoresChecked cfg s r := by
  obtain ⟨op, now⟩ := r
  have hreads := storesChecked_reads
  cases op with
  | createDriver input =>
    refine (everyCallE_ignore cfg _ _).2
      ((DriverService.everyCall_create cfg _ hreads input s.repos).2 ?_)
    intro hvalid _ hnow
    exact created_satisfiesChecks hvalid _
  | registerVehicle input =>
    refine (everyCallE_ignore cfg _ _).2
      ((VehicleService.everyCall_register cfg _ hreads input s.repos).2 ?_)
    intro hvalid hnew hnow
    exact (registered_satisfiesChecks_iff hvalid _).2 (h hvalid hnew hnow)
  | createDelivery input geocoded =>
    refine (everyCallE_ignore cfg _ _).2
      ((DeliveryService.everyCall_create cfg _ hreads input geocoded s.repos).2 ?_)
    intro hvalid destination hgeocoded hnow
    exact (delivery_satisfiesChecks_iff hvalid destination _).2 (h hvalid (by simp [hgeocoded]) hnow)
  | transition id event reason =>
    refine (everyCallE_ignore cfg _ _).2
      ((DeliveryService.everyCall_transition cfg _ hreads id event reason s.repos).2 ?_)
    intro d hd target hnext hreason hnow
    have hfail := (Registered.status_of_edge hnext).2.2.2
    exact transitioned_satisfiesChecks (hchecked id d hd)
      (fun htarget => hreason (hfail htarget)) _
  | _ => trivial

/-! ## Runs -/

/-- Along a sequential run every record a create, a registration or a transition stores satisfies
the checks of the schema exactly when every accepted input keeps to the limits. -/
theorem stores_checked_iff (cfg : Config) (rs : List Request) :
    AllSteps (step cfg) (RequestStoresChecked cfg) .new rs ↔
      AllSteps (step cfg) (KeepsLimits cfg) .new rs := by
  constructor
  · exact AllSteps.imp fun s r => keepsLimits_of_storesChecked
  · intro h
    have hnew : DeliveriesChecked System.new.repos := by
      intro id d hd
      exact absurd hd (by simp [System.new, Repos.new])
    have hchecked : Always (step cfg) (fun s => DeliveriesChecked s.repos) .new rs :=
      always_of_allSteps (I := fun s : System => DeliveriesChecked s.repos)
        (fun _ _ hs hr => hs.step hr) hnew h
    exact AllSteps.imp_of_always (fun s r hs hr => storesChecked_of_keepsLimits hs hr) hchecked h

/-- A vehicle of capacity zero is registered. -/
theorem capacityZero_stored :
    ¬ AllSteps (step .unary) (RequestStoresChecked .unary) .new
      [⟨.registerVehicle ⟨some "x", some "van", some (.fin 0)⟩, 0⟩] := by
  rintro ⟨h, -⟩
  have hstored := (VehicleService.everyCall_register .unary _ storesChecked_reads
    ⟨some "x", some "van", some (.fin 0)⟩ Repos.new).1 ((everyCallE_ignore .unary _ _).1 h)
    (by decide) rfl validTime_zero
  have hpositive : (0 : ℚ) < 0 := hstored.capacityKg
  exact absurd hpositive (by decide)

end FleetCommand.Management
