import FleetCommand.Ingestion.Service
import FleetCommand.Lib.GoJson

/-!
# The ingestion endpoint

`Handler`: a posted body is decoded into a `PingRequest` and ingested, and the outcome becomes the
response. A body that does not decode is answered without a call of the service.
-/

set_option autoImplicit false

namespace FleetCommand.Ingestion

open Resumption GoJson

variable {K N Text : Type}

/-! ## Decoding a ping -/

/-- Number literals `N`: how a double and an integer are written, and the float a literal is read
as, if it is in range. A double is written so that it is read back. -/
structure Literals (K N : Type) where
  double : K → N
  int : Int → N
  parseFloat : N → Option K
  parseFloat_double : ∀ x, parseFloat (double x) = some x

variable (lits : Literals K N)

/-- A string; no other value is one. -/
def decodeText (_ : String) : Json N → Option String
  | .str s => some s
  | _ => none

/-- A number that parses to a `float64`. -/
def decodeFloat (_ : K) : Json N → Option K
  | .num n => lits.parseFloat n
  | _ => none

variable [IntCast K]

/-- A field that points to a text. -/
def textField {σ : Type} (name : String) (get : σ → Option String)
    (set : σ → Option String → σ) : Field N σ :=
  .at name get set (pointer "" decodeText)

/-- A field that points to a float. -/
def floatField {σ : Type} (name : String) (get : σ → Option K) (set : σ → Option K → σ) : Field N σ :=
  .at name get set (pointer ((0 : Int) : K) (decodeFloat lits))

/-- The fields of the telemetry. -/
def telemetryFields : List (Field N (Telemetry K)) :=
  [floatField lits "speed" Telemetry.speed fun t v => { t with speed := v },
    floatField lits "heading" Telemetry.heading fun t v => { t with heading := v },
    floatField lits "battery" Telemetry.battery fun t v => { t with battery := v }]

/-- Telemetry with nothing in it. -/
def Telemetry.zero : Telemetry K := ⟨none, none, none⟩

/-- The fields of a ping request. -/
def pingFields : List (Field N (PingRequest K)) :=
  [textField "vehicleId" PingRequest.vehicleID fun r v => { r with vehicleID := v },
    floatField lits "lat" PingRequest.lat fun r v => { r with lat := v },
    floatField lits "lng" PingRequest.lng fun r v => { r with lng := v },
    textField "timestamp" PingRequest.timestamp fun r v => { r with timestamp := v },
    .at "telemetry" PingRequest.telemetry (fun r v => { r with telemetry := v })
      (pointer .zero (decodeStruct (telemetryFields lits)))]

/-- A request with nothing in it. -/
def PingRequest.zero : PingRequest K := ⟨none, none, none, none, none⟩

/-- Decoding a body into a fresh `PingRequest`. -/
def decodePing (body : Json N) : Option (PingRequest K) := decodeStruct (pingFields lits) .zero body

/-! ## The handler -/

/-- The status code of a response and its body; absent members of the body are empty here. -/
structure PingResponse where
  code : Nat
  accepted : Bool
  pingID : String
  error : String
  fields : List String
  deriving DecidableEq

/-- An HTTP request. -/
structure HttpRequest (Text : Type) where
  method : String
  body : Text

variable [LT K] [DecidableLT K] (codec : Json.Codec N Text)

/-- The response to what `Ingest` returns. -/
def respond : Return → PingResponse
  | (_, some _) => ⟨500, false, "", "internal-error", []⟩
  | (res, none) => match res.status with
    | .accepted => ⟨200, true, res.pingID, "", []⟩
    | .invalid => ⟨400, false, "", "validation-error", res.fields⟩
    | .stale => ⟨409, false, "", "stale-ping", []⟩

/-- The handler for one request; `c` is what the environment decides, and its `req` is not read. -/
def handler (c : Call K) (r : HttpRequest Text) : StoreProg K PingResponse :=
  if r.method ≠ "POST" then return ⟨405, false, "", "method-not-allowed", []⟩
  else match (codec.decode r.body).bind (decodePing lits) with
    | none => return ⟨400, false, "", "validation-error", ["body"]⟩
    | some req => do
      let ret ← ingest { c with req := req }
      return respond ret

end FleetCommand.Ingestion
