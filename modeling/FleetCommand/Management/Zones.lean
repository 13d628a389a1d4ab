import FleetCommand.Lib.Rejection
import FleetCommand.Management.Footprints

/-!
# The management service: zones

`ZoneService.create` and the zone repository. The polygon of a request is raw input: an array or
not, of positions that are arrays or not, of numbers or not; `toRing` coerces it. What the geometry
validator answers, or that it fails, is an argument.
-/

set_option autoImplicit false

namespace FleetCommand.Management

open Resumption

/-- The bounds on names, labels and vertices. -/
def zoneNameMax : Nat := 100
def arrivalLabelMin : Nat := 1
def arrivalLabelMax : Nat := 100
def zoneMinVertices : Nat := 3
def zoneMaxVertices : Nat := 1000

/-- A `[lng, lat]` position. -/
structure Position where
  lng : JsNumber
  lat : JsNumber
  deriving DecidableEq

/-- An exterior ring, expected closed. -/
abbrev Ring := List Position

/-- A zone. -/
structure Zone where
  id : String
  name : String
  polygon : Ring
  arrivalLabel : Option String
  createdAt : Instant
  deriving DecidableEq

/-- An array element of a raw position: a number, or something else (`none`). -/
abbrev RawNumber := Option JsNumber

/-- An element of a raw polygon: an array, or something else (`none`). -/
abbrev RawPosition := Option (List RawNumber)

/-- The create payload of a zone; `polygon` is an array, or something else (`none`). -/
structure CreateZoneInput where
  name : Option String
  polygon : Option (List RawPosition)
  arrivalLabel : Option String

/-- What the geometry validator answers about a ring. -/
structure GeometryCheck where
  isClosed : Bool
  isValid : Bool

/-- A number of vertices within the bounds. -/
def isValidVertexCount (count : Nat) : Bool := zoneMinVertices ≤ count && count ≤ zoneMaxVertices

/-- The boundary vertices of a ring, its closing position not counted. -/
def distinctVertexCount (ring : Ring) : Nat :=
  if 2 ≤ ring.length ∧ ring.head? = ring.getLast? then ring.length - 1 else ring.length

/-- The first two elements of a raw position, when they are numbers and not `NaN`. -/
def toPosition : RawPosition → Option Position
  | some (some lng :: some lat :: _) =>
    if lng = .nan ∨ lat = .nan then none else some ⟨lng, lat⟩
  | _ => none

/-- The ring of a raw polygon; `none` when it is malformed. -/
def toRing (polygon : Option (List RawPosition)) : Option Ring :=
  polygon.bind fun positions => positions.mapM toPosition

/-- The length of a string, 0 for anything else. -/
def strLen (value : Option String) : Nat :=
  match value with
  | some s => jsLength s
  | none => 0

/-! ## The zone repository -/

/-- An awaited call: an insertion, or a question to the geometry validator. -/
inductive ZoneOp where
  | insertZone (zone : Zone)
  | checkGeometry

/-- What the calls answer. -/
@[reducible] def ZoneOp.Resp : ZoneOp → Type
  | .insertZone _ => Unit
  | .checkGeometry => Unit

/-- The in-memory zone repository. -/
def zoneMemory : Handler ZoneOp.Resp (InsertionMap String Zone)
  | .insertZone zone, zones => ((), zones.set zone.id zone)
  | .checkGeometry, zones => ((), zones)

/-- A program of the zone service. -/
abbrev ZoneProg (α : Type) := ExceptT Thrown (Prog ZoneOp.Resp) α

/-- An awaited call of the zone service. -/
abbrev awaitZone (op : ZoneOp) : ZoneProg op.Resp := performE op

/-- A call of the validator. -/
def ZoneOp.Reads : ZoneOp → Prop
  | .insertZone _ => False
  | .checkGeometry => True

namespace ZoneService

/-- `check` is what the validator answers, or that it fails. -/
def isPolygonInvalid (check : Except Unit GeometryCheck) : Option Ring → ZoneProg Bool
  | none => return true
  | some ring =>
    if isValidVertexCount (distinctVertexCount ring) = false then return true
    else do
      awaitZone .checkGeometry
      match check with
      | .error _ => throw .other
      | .ok answer => return !answer.isClosed || !answer.isValid

/-- The offending fields, in order. -/
def invalidFields (input : CreateZoneInput) (polygonInvalid : Bool) : List String :=
  flagged [("name", isMissing input.name || zoneNameMax < strLen input.name),
    ("arrivalLabel", input.arrivalLabel.isSome &&
      (strLen input.arrivalLabel < arrivalLabelMin || arrivalLabelMax < strLen input.arrivalLabel)),
    ("polygon", polygonInvalid)]

/-- `newId` is the generated id. -/
def create (newId : String) (now : Int) (input : CreateZoneInput)
    (check : Except Unit GeometryCheck) : ZoneProg Zone := do
  let polygonInvalid ← isPolygonInvalid check (toRing input.polygon)
  match invalidFields input polygonInvalid, toRing input.polygon with
  | [], some ring => do
    let createdAt ← ofResult (toIso now)
    let zone : Zone := ⟨newId, input.name.getD "", ring, input.arrivalLabel, createdAt⟩
    awaitZone (.insertZone zone)
    return zone
  | fields, _ => throw (.domainError (makeError .validationError fields) 400)

end ZoneService

end FleetCommand.Management
