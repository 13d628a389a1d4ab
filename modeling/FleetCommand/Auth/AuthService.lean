import FleetCommand.Auth.Jwt
import FleetCommand.Auth.Rbac
import Mathlib.Data.Rat.Floor

/-!
# The authentication service

Login, refresh and the tracking tokens of delivery links. Every token is signed by `issue`; an
access token, a refresh token and a tracking token differ in their `type` claim only, which each
method checks for itself. A method gets the reading of the clock and the users at the moment of its
call.
-/

set_option autoImplicit false

namespace FleetCommand.Auth

/-- A persisted user credential record. -/
structure UserRecord where
  id : String
  email : String
  role : Role
  passwordHash : String

/-- `findByEmail`. -/
abbrev UserRepository := String → Option UserRecord

/-- The secret and the lifetimes of the tokens. -/
structure AuthConfig where
  secret : String
  accessTtlSeconds : ℚ
  refreshTtlSeconds : ℚ
  trackingTtlSeconds : ℚ

/-- The configuration of a new service: 15 minutes, 7 days and 24 hours where nothing is given. -/
def AuthConfig.new (secret : String)
    (accessTtlSeconds refreshTtlSeconds trackingTtlSeconds : Option ℚ) :
    AuthConfig where
  secret := secret
  accessTtlSeconds := accessTtlSeconds.getD (15 * 60)
  refreshTtlSeconds := refreshTtlSeconds.getD (7 * 24 * 60 * 60)
  trackingTtlSeconds := trackingTtlSeconds.getD (24 * 60 * 60)

/-- What a method throws. -/
inductive AuthThrown where
  | authError (envelope : ErrorEnvelope) (httpStatus : Nat)
  | rangeError
  | typeError
  deriving DecidableEq

/-! ## Times -/

/-- `Math.floor(now / 1000)`. -/
def nowSeconds (now : ℚ) : ℚ := (now / 1000).floor

/-- A number of milliseconds that a `Date` holds. -/
def IsTime (ms : ℚ) : Prop := -(Management.maxTime : ℚ) ≤ ms ∧ ms ≤ Management.maxTime

instance (ms : ℚ) : Decidable (IsTime ms) := inferInstanceAs (Decidable (_ ∧ _))

/-- `new Date(ms).toISOString()`; its result is the instant it names, in whole milliseconds. -/
def toIso (ms : ℚ) : Except AuthThrown Int :=
  if IsTime ms then .ok (ms.num.tdiv ms.den) else .error .rangeError

/-! ## Tokens -/

section Service

variable (rt : Runtime) (cfg : AuthConfig)

/-- An object literal: the members whose value is `undefined` are not written. -/
def objectOf (members : List (String × Option (Json ℚ))) : Json ℚ :=
  .obj (members.filterMap fun m => m.2.map fun v => (m.1, v))

/-- When a token issued now for the given time expires, in seconds. -/
def expiry (now ttlSeconds : ℚ) : ℚ := nowSeconds now + ttlSeconds

/-- `{ sub, iat, exp, type, ...extra }`. -/
def tokenMembers (now : ℚ) (sub : Option (Json ℚ)) (type : TokenKind) (ttlSeconds : ℚ)
    (extra : List (String × Option (Json ℚ))) : List (String × Option (Json ℚ)) :=
  [("sub", sub), ("iat", some (.num (nowSeconds now))),
    ("exp", some (.num (expiry now ttlSeconds))), ("type", some (.str type.value))] ++ extra

/-- The signed token and its expiry. -/
def issue (now : ℚ) (sub : Option (Json ℚ)) (type : TokenKind) (ttlSeconds : ℚ)
    (extra : List (String × Option (Json ℚ))) : String × ℚ :=
  (signJwt rt (objectOf (tokenMembers now sub type ttlSeconds extra)) cfg.secret,
    expiry now ttlSeconds)

/-- The claims of a valid token; an invalid or expired one is answered with 401. -/
def verifyToken (now : ℚ) (token : String) : Except AuthThrown (Json ℚ) :=
  match verifyJwt rt token cfg.secret now with
  | .ok claims => .ok claims
  | .error .expired => .error (.authError (makeError .authenticationFailed) 401)
  | .error (.invalid _) => .error (.authError (makeError .authenticationFailed) 401)
  | .error .typeError => .error .typeError

/-- `claims.type === kind`. -/
def hasType (claims : Json ℚ) (kind : TokenKind) : Bool :=
  match claims.member? "type" with
  | some (.str type) => type == kind.value
  | _ => false

/-! ## Methods -/

/-- What a login returns. -/
structure LoginResult where
  token : String
  refreshToken : String
  role : Role
  expiresAt : Int

/-- An access and a refresh token for the right password, and otherwise 401. -/
def login (users : UserRepository) (now : ℚ) (email password : String) :
    Except AuthThrown LoginResult :=
  let found := users email
  -- the check runs for an unknown user too
  let ok := rt.verifyPassword password ((found.map UserRecord.passwordHash).getD rt.dummyHash)
  match found with
  | none => .error (.authError (makeError .authenticationFailed) 401)
  | some user =>
    if ok = false then .error (.authError (makeError .authenticationFailed) 401)
    else do
      let role := [("role", some (Json.str user.role.value))]
      let access := issue rt cfg now (some (.str user.id)) .access cfg.accessTtlSeconds role
      let refresh := issue rt cfg now (some (.str user.id)) .refresh cfg.refreshTtlSeconds role
      let expiresAt ← toIso (access.2 * 1000)
      return ⟨access.1, refresh.1, user.role, expiresAt⟩

/-- What a refresh returns. -/
structure RefreshResult where
  token : String
  expiresAt : Int

/-- A new access token for a valid refresh token. -/
def refresh (now : ℚ) (refreshToken : String) : Except AuthThrown RefreshResult := do
  let claims ← verifyToken rt cfg now refreshToken
  if hasType claims .refresh = false then
    throw (.authError (makeError .authenticationFailed) 401)
  else
    let access := issue rt cfg now (claims.member? "sub") .access cfg.accessTtlSeconds
      [("role", claims.member? "role")]
    let expiresAt ← toIso (access.2 * 1000)
    return ⟨access.1, expiresAt⟩

/-- A token with which a customer sees one delivery. -/
def issueTrackingToken (now : ℚ) (deliveryId : String) : String :=
  (issue rt cfg now (some (.str deliveryId)) .tracking cfg.trackingTtlSeconds
    [("role", some (.str Role.customer.value)),
      ("scope", some (.str (deliveryScope deliveryId)))]).1

/-- The delivery id is the token's `sub`, which is not checked. -/
structure TrackingScope where
  deliveryId : Option (Json ℚ)
  scope : String

/-- The scope of a valid tracking token; any other valid token is answered with 403. -/
def resolveTrackingToken (now : ℚ) (token : String) : Except AuthThrown TrackingScope := do
  let claims ← verifyToken rt cfg now token
  match hasType claims .tracking, claims.member? "scope" with
  | true, some (.str scope) => return ⟨claims.member? "sub", scope⟩
  | _, _ => throw (.authError (makeError .authorizationDenied) 403)

end Service

end FleetCommand.Auth
