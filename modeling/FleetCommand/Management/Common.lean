import Mathlib.Data.Rat.Defs
import Mathlib.Data.String.Basic

/-!
# The management service: shared values

Statuses, errors, times and the input validators. A string field of a request is an `Option String`,
`none` for `undefined` and `null`; a number is a `JsNumber`. An ISO-8601 timestamp is the instant it
names: `toIso` is the only source of timestamps, and it throws outside the range of time values.
-/

set_option autoImplicit false

namespace FleetCommand.Management

/-- The status of a driver. -/
inductive DriverStatus where
  | offline
  | available
  | onDelivery
  | onBreak
  deriving DecidableEq

/-- The status of a delivery. -/
inductive DeliveryStatus where
  | created
  | assigned
  | inTransit
  | arrived
  | completed
  | failed
  | cancelled
  deriving DecidableEq

/-- The status of an assignment. -/
inductive AssignmentStatus where
  | pending
  | accepted
  | complete
  deriving DecidableEq

/-- The statuses a delivery ends in. -/
def terminalDeliveryStatuses : List DeliveryStatus := [.completed, .failed, .cancelled]

/-! ## Errors -/

/-- The error codes of the envelope. -/
inductive ErrorCode where
  | validationError
  | duplicate
  | conflict
  | invalidTransition
  | unavailableDriver
  | alreadyAssigned
  | geocodingFailure
  | overLimit
  | notFound
  deriving DecidableEq

/-- The error code as text. -/
def ErrorCode.value : ErrorCode → String
  | .validationError => "validation-error"
  | .duplicate => "duplicate"
  | .conflict => "conflict"
  | .invalidTransition => "invalid-transition"
  | .unavailableDriver => "unavailable-driver"
  | .alreadyAssigned => "already-assigned"
  | .geocodingFailure => "geocoding-failure"
  | .overLimit => "over-limit"
  | .notFound => "not-found"

/-- An error code and the offending field names. -/
structure ErrorEnvelope where
  error : ErrorCode
  fields : List String
  deriving DecidableEq

/-- The envelope of an error. -/
def makeError (error : ErrorCode) (fields : List String) : ErrorEnvelope := ⟨error, fields⟩

/-- What a service call can throw: a domain error with its HTTP status, the `RangeError` of an
invalid time value, or what an injected collaborator throws. -/
inductive Thrown where
  | domainError (envelope : ErrorEnvelope) (httpStatus : Nat)
  | rangeError
  | other
  deriving DecidableEq

/-- `DomainError.of`. -/
def domainError (error : ErrorCode) (fields : List String) (httpStatus : Nat) : Thrown :=
  .domainError (makeError error fields) httpStatus

/-! ## Times -/

/-- The distance of the last valid time value from the epoch, in milliseconds. -/
def maxTime : Int := 8640000000000000

/-- A time that `Date` can hold. -/
def ValidTime (ms : Int) : Prop := -maxTime ≤ ms ∧ ms ≤ maxTime

instance (ms : Int) : Decidable (ValidTime ms) := inferInstanceAs (Decidable (_ ∧ _))

theorem validTime_zero : ValidTime 0 := by decide

/-- A timestamp: a valid time value, in milliseconds since the epoch. -/
structure Instant where
  ms : Int
  valid : ValidTime ms
  deriving DecidableEq

/-- `new Date(ms).toISOString()`. -/
def toIso (ms : Int) : Except Thrown Instant :=
  if h : ValidTime ms then .ok ⟨ms, h⟩ else .error .rangeError

theorem toIso_of_valid {ms : Int} (h : ValidTime ms) : toIso ms = .ok ⟨ms, h⟩ := dif_pos h

theorem toIso_of_not_valid {ms : Int} (h : ¬ ValidTime ms) : toIso ms = .error .rangeError :=
  dif_neg h

theorem toIso_ok {ms : Int} {t : Instant} (h : toIso ms = .ok t) :
    ∃ hms : ValidTime ms, t = ⟨ms, hms⟩ := by
  by_cases hms : ValidTime ms
  · rw [toIso_of_valid hms] at h
    exact ⟨hms, (Except.ok.inj h).symm⟩
  · rw [toIso_of_not_valid hms] at h
    exact absurd h (by simp)

theorem toIso_error {ms : Int} {e : Thrown} (h : toIso ms = .error e) : e = .rangeError := by
  by_cases hms : ValidTime ms
  · rw [toIso_of_valid hms] at h
    exact absurd h (by simp)
  · rw [toIso_of_not_valid hms] at h
    exact (Except.error.inj h).symm

/-! ## Values -/

/-- A number; the sign of zero is not told apart. -/
inductive JsNumber where
  | nan
  | posInf
  | negInf
  | fin (q : ℚ)
  deriving DecidableEq

/-- A coordinate in degrees. -/
structure GeoPoint where
  lat : JsNumber
  lng : JsNumber
  deriving DecidableEq

/-- The characters `trim` removes. -/
def isWhiteSpace (c : Char) : Bool :=
  c.toNat ∈ [0x09, 0x0A, 0x0B, 0x0C, 0x0D, 0x20, 0xA0, 0x1680, 0x2028, 0x2029, 0x202F, 0x205F, 0x3000,
    0xFEFF] || (0x2000 ≤ c.toNat && c.toNat ≤ 0x200A)

/-- `s.trim()`. -/
def trim (s : String) : String :=
  String.ofList ((s.toList.dropWhile isWhiteSpace).reverse.dropWhile isWhiteSpace).reverse

/-- `s.length`: UTF-16 code units, two for a character beyond the first plane. -/
def jsLength (s : String) : Nat := s.toList.length + s.toList.countP fun c => 0x10000 ≤ c.toNat

/-- Whether an optional string is truthy. -/
def truthy (s : Option String) : Bool :=
  match s with
  | some s => s ≠ ""
  | none => false

/-! ## Validators -/

/-- `isMissing` of a string field. -/
def isMissing (value : Option String) : Bool :=
  match value with
  | some s => jsLength (trim s) = 0
  | none => true

/-- `isMissing` of a number field. -/
def isMissingNumber (value : Option JsNumber) : Bool :=
  match value with
  | some n => n = .nan
  | none => true

/-- Greater than 0 and at most 1000. -/
def isValidWeight (value : Option JsNumber) : Bool :=
  match value with
  | some (.fin q) => 0 < q && q ≤ 1000
  | _ => false

/-- The names of the flagged fields, in order. -/
def flagged (fields : List (String × Bool)) : List String := (fields.filter Prod.snd).map Prod.fst

/-- `FieldCollector.toError`. -/
def toError (fields : List String) : Option ErrorEnvelope :=
  if fields = [] then none else some (makeError .validationError fields)

/-- The create payload of a driver. -/
structure CreateDriverInput where
  name : Option String
  email : Option String
  phone : Option String
  licenseNumber : Option String

/-- The required fields of a driver. -/
def validateDriverInput (input : CreateDriverInput) : Option ErrorEnvelope :=
  toError (flagged [("name", isMissing input.name), ("email", isMissing input.email),
    ("phone", isMissing input.phone), ("licenseNumber", isMissing input.licenseNumber)])

/-- The create payload of a delivery. -/
structure CreateDeliveryInput where
  address : Option String
  recipientName : Option String
  recipientContact : Option String
  weightKg : Option JsNumber

/-- The required fields of a delivery, and the range of its weight. -/
def validateDeliveryInput (input : CreateDeliveryInput) : Option ErrorEnvelope :=
  toError (flagged [("address", isMissing input.address),
    ("recipientName", isMissing input.recipientName),
    ("recipientContact", isMissing input.recipientContact),
    ("weightKg", isMissingNumber input.weightKg),
    ("weightKg", !isMissingNumber input.weightKg && !isValidWeight input.weightKg)])

/-- The registration payload of a vehicle. -/
structure RegisterVehicleInput where
  identifier : Option String
  type : Option String
  capacityKg : Option JsNumber

/-- The checks `VehicleService.register` makes itself. -/
def validateVehicleInput (input : RegisterVehicleInput) : Option ErrorEnvelope :=
  toError (flagged [("identifier", isMissing input.identifier), ("type", isMissing input.type),
    ("capacityKg", isMissingNumber input.capacityKg)])

end FleetCommand.Management
