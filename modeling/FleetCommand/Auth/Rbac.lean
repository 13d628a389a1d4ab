import Mathlib.Data.List.Basic

/-!
# Authorization

The role matrix: `authorize` decides from the caller's role, the action and the resource with its
owner or link scope.
-/

set_option autoImplicit false

namespace FleetCommand.Auth

/-- The role of an account. -/
inductive Role where
  | administrator
  | dispatcher
  | driver
  | customer
  deriving DecidableEq

/-- The role as text. -/
def Role.value : Role → String
  | .administrator => "Administrator"
  | .dispatcher => "Dispatcher"
  | .driver => "Driver"
  | .customer => "Customer"

/-- The error codes authentication and authorization answer with. -/
inductive ErrorCode where
  | authenticationFailed
  | authorizationDenied
  deriving DecidableEq

/-- The error code as text. -/
def ErrorCode.value : ErrorCode → String
  | .authenticationFailed => "authentication-failed"
  | .authorizationDenied => "authorization-denied"

/-- An error code; its list of offending fields is empty. -/
structure ErrorEnvelope where
  error : ErrorCode
  fields : List String
  deriving DecidableEq

/-- The envelope of an error, which names no field. -/
def makeError (error : ErrorCode) : ErrorEnvelope := ⟨error, []⟩

/-- The resource types guarded by the management path. -/
inductive ResourceType where
  | driver
  | vehicle
  | zone
  | delivery
  | assignment
  deriving DecidableEq

/-- What is asked for. -/
inductive Action where
  | create
  | update
  | deactivate
  | read
  deriving DecidableEq

/-- The authenticated caller. -/
structure Principal where
  role : Role
  userId : Option String
  trackingScope : Option String

/-- The resource being accessed, with its ownership and scope context. -/
structure ResourceRef where
  type : ResourceType
  ownerDriverId : Option String
  deliveryId : Option String

/-- Whether it is allowed. -/
inductive AuthDecision where
  | allow
  | deny (error : ErrorEnvelope)
  deriving DecidableEq

/-- The refusal. -/
def deny : AuthDecision := .deny (makeError .authorizationDenied)

/-- Resource types administrators and dispatchers may create. -/
def dispatchable : List ResourceType := [.delivery, .assignment]

/-- A dispatcher reads everything and creates what is dispatched. -/
def authorizeDispatcher (action : Action) (resource : ResourceRef) : AuthDecision :=
  if action = .read then .allow
  else if action = .create ∧ resource.type ∈ dispatchable then .allow
  else deny

/-- A driver reads the assignments and deliveries of its own. -/
def authorizeDriver (principal : Principal) (action : Action) (resource : ResourceRef) :
    AuthDecision :=
  if action ≠ .read then deny
  else if ¬ (resource.type = .assignment ∨ resource.type = .delivery) then deny
  else if principal.userId ≠ none ∧ resource.ownerDriverId = principal.userId then .allow
  else deny

/-- The tracking scope of a delivery. -/
def deliveryScope (deliveryId : String) : String := "delivery:" ++ deliveryId

/-- A customer reads the delivery of its tracking token. -/
def authorizeCustomer (principal : Principal) (action : Action) (resource : ResourceRef) :
    AuthDecision :=
  if action ≠ .read then deny
  else if resource.type ≠ .delivery then deny
  else match principal.trackingScope, resource.deliveryId with
    | some trackingScope, some deliveryId =>
      if trackingScope = deliveryScope deliveryId then .allow else deny
    | _, _ => deny

/-- The decision by role; an administrator may do everything. -/
def authorize (principal : Principal) (action : Action) (resource : ResourceRef) : AuthDecision :=
  match principal.role with
  | .administrator => .allow
  | .dispatcher => authorizeDispatcher action resource
  | .driver => authorizeDriver principal action resource
  | .customer => authorizeCustomer principal action resource

theorem deliveryScope_inj {id id' : String} : deliveryScope id = deliveryScope id' ↔ id = id' := by
  rw [deliveryScope, deliveryScope, String.append_right_inj]

/-- The scope of a link admits its holder to reading its delivery, and to nothing else. -/
theorem authorize_customer_scope_iff (userId : Option String) (deliveryId : String)
    (action : Action) (resource : ResourceRef) :
    authorize ⟨.customer, userId, some (deliveryScope deliveryId)⟩ action resource = .allow ↔
      action = .read ∧ resource.type = .delivery ∧ resource.deliveryId = some deliveryId := by
  have hdeny : deny ≠ .allow := by decide
  rw [authorize, authorizeCustomer]
  split_ifs with haction htype
  · exact iff_of_false hdeny fun h => haction h.1
  · exact iff_of_false hdeny fun h => htype h.2.1
  · rw [ne_eq, not_not] at haction htype
    rw [and_iff_right haction, and_iff_right htype]
    cases hid : resource.deliveryId with
    | none => exact iff_of_false hdeny nofun
    | some id =>
      simp only [deliveryScope_inj, Option.some.injEq]
      by_cases heq : deliveryId = id
      · simp [heq]
      · simp [heq, hdeny, Ne.symm heq]

end FleetCommand.Auth
