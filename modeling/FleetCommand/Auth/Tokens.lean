import FleetCommand.Auth.AuthService
import FleetCommand.Lib.JsonText

/-!
# Token kinds and scopes

`Issued` is a token as it was handed out: its kind, its subject and role and its expiry. Every token
a run of the service hands out verifies to claims that say just this, until it expires
(`issued_carried`), so the methods that check the kind keep the kinds apart: only refresh tokens are
refreshed, into access tokens of the same subject and role; only tracking tokens resolve, to their
delivery and a scope that admits to reading that delivery.

Refreshing needs one thing more: the expiry of the new access token must be a time that a `Date`
holds, or writing it as ISO text throws.
-/

set_option autoImplicit false

namespace FleetCommand.Auth

/-! ## Object literals -/

theorem member?_objectOf_cons (name : String) (v : Option (Json ℚ))
    (members : List (String × Option (Json ℚ))) (name' : String) :
    (objectOf ((name, v) :: members)).member? name' =
      ((objectOf members).member? name').or (if name = name' then v else none) := by
  cases v with
  | none => simp [objectOf, Json.member?]
  | some v =>
    have hwritten : objectOf ((name, some v) :: members) =
        .obj ((name, v) :: members.filterMap fun m => m.2.map fun v => (m.1, v)) := rfl
    rw [hwritten, objectOf, Json.member?, Json.member?, List.findRev?]
    cases (members.filterMap fun m => m.2.map fun v => (m.1, v)).findRev? fun m => m.1 == name' with
    | some m => rfl
    | none => by_cases h : name = name' <;> simp [h]

theorem member?_objectOf_of_not_mem {members : List (String × Option (Json ℚ))} {name : String}
    (h : name ∉ members.map Prod.fst) : (objectOf members).member? name = none := by
  induction members with
  | nil => rfl
  | cons m members ih =>
    obtain ⟨name', v⟩ := m
    rw [List.map_cons, List.mem_cons, not_or] at h
    rw [member?_objectOf_cons, ih h.2, if_neg (Ne.symm h.1), Option.or_none]

/-- A member of an object literal with distinct names. -/
theorem member?_objectOf {members : List (String × Option (Json ℚ))}
    (hnames : (members.map Prod.fst).Nodup) {name : String} {v : Option (Json ℚ)}
    (h : (name, v) ∈ members) : (objectOf members).member? name = v := by
  induction members with
  | nil => exact absurd h List.not_mem_nil
  | cons m members ih =>
    obtain ⟨name', v'⟩ := m
    rw [List.map_cons, List.nodup_cons] at hnames
    rw [member?_objectOf_cons]
    rcases List.mem_cons.1 h with heq | hmem
    · obtain ⟨rfl, rfl⟩ : name = name' ∧ v = v' := by simpa using heq
      rw [member?_objectOf_of_not_mem hnames.1, if_pos rfl, Option.none_or]
    · rw [ih hnames.2 hmem]
      have hne : name' ≠ name := fun heq =>
        hnames.1 (List.mem_map.2 ⟨_, hmem, heq.symm⟩)
      rw [if_neg hne, Option.or_none]

/-! ## What a token carries -/

/-- A token as it was handed out; `expires` is in seconds. -/
structure Issued where
  token : String
  kind : TokenKind
  subject : Option (Json ℚ)
  role : Option (Json ℚ)
  expires : ℚ

/-- What a token is refused with that has expired or is of another kind. -/
def refusedError : AuthThrown := .authError (makeError .authenticationFailed) 401

variable (rt : Runtime) (cfg : AuthConfig)

/-- The token verifies to the claims until it expires, and they say what it was handed out as. -/
structure Issued.Carries (i : Issued) (claims : Json ℚ) : Prop where
  verify : ∀ now, verifyToken rt cfg now i.token =
    if i.expires * 1000 ≤ now then .error refusedError else .ok claims
  type : claims.member? "type" = some (.str i.kind.value)
  subject : claims.member? "sub" = i.subject
  role : claims.member? "role" = i.role
  scope : i.kind = .tracking → ∃ deliveryId, i.subject = some (.str deliveryId) ∧
    claims.member? "scope" = some (.str (deliveryScope deliveryId))

/-- What one method call of the service hands out. -/
inductive AuthOp where
  | login (email password : String)
  | refresh (refreshToken : String)
  | issueTrackingToken (deliveryId : String)

/-- A call, with the reading of the clock and the users at its moment. -/
structure AuthCall where
  op : AuthOp
  now : ℚ
  users : UserRepository

/-- The tokens a call hands out. A refreshed token has the subject and role of the token given. -/
def AuthCall.issued (c : AuthCall) : List Issued :=
  match c.op with
  | .login email password =>
    match login rt cfg c.users c.now email password, c.users email with
    | .ok result, some user =>
      [⟨result.token, .access, some (.str user.id), some (.str user.role.value),
          expiry c.now cfg.accessTtlSeconds⟩,
        ⟨result.refreshToken, .refresh, some (.str user.id), some (.str user.role.value),
          expiry c.now cfg.refreshTtlSeconds⟩]
    | _, _ => []
  | .refresh refreshToken =>
    match refresh rt cfg c.now refreshToken, verifyToken rt cfg c.now refreshToken with
    | .ok result, .ok claims =>
      [⟨result.token, .access, claims.member? "sub", claims.member? "role",
        expiry c.now cfg.accessTtlSeconds⟩]
    | _, _ => []
  | .issueTrackingToken deliveryId =>
    [⟨issueTrackingToken rt cfg c.now deliveryId, .tracking, some (.str deliveryId),
      some (.str Role.customer.value), expiry c.now cfg.trackingTtlSeconds⟩]

/-- The tokens of a run. -/
def issuedBy (calls : List AuthCall) : List Issued := calls.flatMap (AuthCall.issued rt cfg)

variable {rt cfg}

/-- A token verifies to the claims it was issued with, until it expires. -/
theorem verifyToken_issue (now : ℚ) (sub : Option (Json ℚ)) (kind : TokenKind) (ttl : ℚ)
    {extra : List (String × Option (Json ℚ))}
    (hnames : ((tokenMembers now sub kind ttl extra).map Prod.fst).Nodup) (now' : ℚ) :
    verifyToken rt cfg now' (issue rt cfg now sub kind ttl extra).1 =
      if expiry now ttl * 1000 ≤ now' then .error refusedError
      else .ok (objectOf (tokenMembers now sub kind ttl extra)) := by
  have hexp : (objectOf (tokenMembers now sub kind ttl extra)).member? "exp" =
      some (.num (expiry now ttl)) := member?_objectOf hnames (by simp [tokenMembers])
  rw [verifyToken, issue, verifyJwt_signJwt, checkExpiry_of_exp hexp]
  split_ifs <;> rfl

/-- Access and refresh tokens carry the subject and the role they are issued for. -/
theorem issue_carries (now : ℚ) (sub role : Option (Json ℚ)) {kind : TokenKind} (ttl : ℚ)
    (hkind : kind ≠ .tracking) :
    (Issued.mk (issue rt cfg now sub kind ttl [("role", role)]).1 kind sub role
      (expiry now ttl)).Carries rt cfg
        (objectOf (tokenMembers now sub kind ttl [("role", role)])) := by
  have hnames : ((tokenMembers now sub kind ttl [("role", role)]).map Prod.fst).Nodup := by
    simp [tokenMembers]
  exact ⟨verifyToken_issue now sub kind ttl hnames,
    member?_objectOf hnames (by simp [tokenMembers]),
    member?_objectOf hnames (by simp [tokenMembers]),
    member?_objectOf hnames (by simp [tokenMembers]),
    fun h => absurd h hkind⟩

/-- A tracking token carries its delivery and the scope of it. -/
theorem issueTrackingToken_carries (now : ℚ) (deliveryId : String) :
    ∃ claims, (Issued.mk (issueTrackingToken rt cfg now deliveryId) .tracking
      (some (.str deliveryId)) (some (.str Role.customer.value))
      (expiry now cfg.trackingTtlSeconds)).Carries rt cfg claims := by
  have hnames : ((tokenMembers now (some (.str deliveryId)) .tracking cfg.trackingTtlSeconds
      [("role", some (.str Role.customer.value)),
        ("scope", some (.str (deliveryScope deliveryId)))]).map Prod.fst).Nodup := by
    simp [tokenMembers]
  exact ⟨_, verifyToken_issue now _ .tracking cfg.trackingTtlSeconds hnames,
    member?_objectOf hnames (by simp [tokenMembers]),
    member?_objectOf hnames (by simp [tokenMembers]),
    member?_objectOf hnames (by simp [tokenMembers]),
    fun _ => ⟨deliveryId, rfl, member?_objectOf hnames (by simp [tokenMembers])⟩⟩

/-! ## The methods on a token -/

/-- The check of the kind, on the claims of a token that carries one. -/
theorem hasType_eq {claims : Json ℚ} {kind : TokenKind} (kind' : TokenKind)
    (h : claims.member? "type" = some (.str kind.value)) :
    hasType claims kind' = decide (kind = kind') := by
  rw [hasType, h]
  cases kind <;> cases kind' <;> decide

theorem ok_bind {α β : Type} (a : α) (f : α → Except AuthThrown β) : (Except.ok a >>= f) = f a :=
  rfl

theorem toIso_of_isTime {ms : ℚ} (h : IsTime ms) : toIso ms = .ok (ms.num.tdiv ms.den) := if_pos h

theorem toIso_of_not_isTime {ms : ℚ} (h : ¬ IsTime ms) : toIso ms = .error .rangeError := if_neg h

variable {i : Issued} {claims : Json ℚ}

/-- Refreshing a token: only a refresh token that has not expired gets a new access token, and then
for the same subject and role. -/
theorem Issued.Carries.refresh_eq (h : i.Carries rt cfg claims) (now : ℚ) :
    refresh rt cfg now i.token =
      if now < i.expires * 1000 ∧ i.kind = .refresh then
        (toIso (expiry now cfg.accessTtlSeconds * 1000)).map fun expiresAt =>
          ⟨(issue rt cfg now i.subject .access cfg.accessTtlSeconds [("role", i.role)]).1,
            expiresAt⟩
      else .error refusedError := by
  rw [refresh, h.verify]
  by_cases hnow : now < i.expires * 1000
  · rw [if_neg hnow.not_ge, ok_bind, h.subject, h.role, hasType_eq .refresh h.type]
    by_cases hkind : i.kind = .refresh
    · rw [decide_eq_true hkind, if_neg nofun, if_pos ⟨hnow, hkind⟩]
      rfl
    · rw [decide_eq_false hkind, if_pos rfl, if_neg fun hand => hkind hand.2]
      rfl
  · rw [if_pos (not_lt.1 hnow), if_neg fun hand => hnow hand.1]
    rfl

/-- Resolving a token: only a tracking token that has not expired has a delivery and a scope. -/
theorem Issued.Carries.resolveTrackingToken_eq (h : i.Carries rt cfg claims) (now : ℚ) :
    (∃ deliveryId, i.kind = .tracking ∧ i.subject = some (.str deliveryId) ∧
      now < i.expires * 1000 ∧ resolveTrackingToken rt cfg now i.token =
        .ok ⟨some (.str deliveryId), deliveryScope deliveryId⟩) ∨
    ¬ (i.kind = .tracking ∧ now < i.expires * 1000) ∧
      ∃ error, resolveTrackingToken rt cfg now i.token = .error error := by
  rw [resolveTrackingToken, h.verify]
  by_cases hnow : now < i.expires * 1000
  · rw [if_neg hnow.not_ge, ok_bind, h.subject, hasType_eq .tracking h.type]
    by_cases hkind : i.kind = .tracking
    · obtain ⟨deliveryId, hsubject, hscope⟩ := h.scope hkind
      refine Or.inl ⟨deliveryId, hkind, hsubject, hnow, ?_⟩
      rw [decide_eq_true hkind, hscope, hsubject]
      rfl
    · refine Or.inr ⟨fun hand => hkind hand.1, .authError (makeError .authorizationDenied) 403, ?_⟩
      rw [decide_eq_false hkind]
      rfl
  · refine Or.inr ⟨fun hand => hnow hand.2, refusedError, ?_⟩
    rw [if_pos (not_lt.1 hnow)]
    rfl

/-! ## Every token of a run -/

/-- A login that finds its user hands out the two tokens of that user. -/
theorem login_eq {users : UserRepository} {now : ℚ} {email password : String} {user : UserRecord}
    (hfound : users email = some user) :
    login rt cfg users now email password =
      if rt.verifyPassword password user.passwordHash = false then .error refusedError
      else (toIso (expiry now cfg.accessTtlSeconds * 1000)).map fun expiresAt =>
        ⟨(issue rt cfg now (some (.str user.id)) .access cfg.accessTtlSeconds
            [("role", some (.str user.role.value))]).1,
          (issue rt cfg now (some (.str user.id)) .refresh cfg.refreshTtlSeconds
            [("role", some (.str user.role.value))]).1, user.role, expiresAt⟩ := by
  rw [login, hfound]
  rfl

theorem map_eq_ok {ε α β : Type} {x : Except ε α} {f : α → β} {b : β} (h : x.map f = .ok b) :
    ∃ a, x = .ok a ∧ f a = b := by
  cases x with
  | error e => exact absurd h nofun
  | ok a => exact ⟨a, rfl, Except.ok.inj h⟩

/-- Every token a call hands out carries what it was handed out as. -/
theorem AuthCall.issued_carried (c : AuthCall) :
    ∀ i ∈ c.issued rt cfg, ∃ claims, i.Carries rt cfg claims := by
  obtain ⟨op, now, users⟩ := c
  intro i hi
  cases op with
  | login email password =>
    simp only [AuthCall.issued] at hi
    split at hi
    next result user hlogin hfound =>
      rw [login_eq hfound] at hlogin
      split at hlogin
      next => exact absurd hlogin nofun
      next =>
        obtain ⟨expiresAt, -, rfl⟩ := map_eq_ok hlogin
        obtain rfl | rfl : i = _ ∨ i = _ := by simpa using hi
        · exact ⟨_, issue_carries _ _ _ _ (by decide)⟩
        · exact ⟨_, issue_carries _ _ _ _ (by decide)⟩
    next => exact absurd hi List.not_mem_nil
  | refresh refreshToken =>
    simp only [AuthCall.issued] at hi
    split at hi
    next result claims hrefresh hverify =>
      rw [Auth.refresh, hverify, ok_bind] at hrefresh
      split at hrefresh
      next => exact absurd hrefresh nofun
      next =>
        obtain ⟨expiresAt, -, rfl⟩ := map_eq_ok hrefresh
        obtain rfl := List.mem_singleton.1 hi
        exact ⟨_, issue_carries _ _ _ _ (by decide)⟩
    next => exact absurd hi List.not_mem_nil
  | issueTrackingToken deliveryId =>
    obtain rfl := List.mem_singleton.1 hi
    exact issueTrackingToken_carries now deliveryId

variable (rt cfg)

/-- What the methods make of a token, at any time: it is refreshed when it is a refresh token that
has not expired (and the new expiry can be written), into an access token for the same subject and
role; it resolves when it is a tracking token that has not expired, to the delivery it was issued
for and a scope that admits a customer to reading that delivery and to nothing else. -/
def Issued.KindKept (i : Issued) : Prop :=
  ∀ now,
    ((∃ result, refresh rt cfg now i.token = .ok result) ↔
      i.kind = .refresh ∧ now < i.expires * 1000 ∧
        IsTime (expiry now cfg.accessTtlSeconds * 1000)) ∧
    (∀ result, refresh rt cfg now i.token = .ok result → ∃ claims,
      (Issued.mk result.token .access i.subject i.role
        (expiry now cfg.accessTtlSeconds)).Carries rt cfg claims) ∧
    ((∃ scope, resolveTrackingToken rt cfg now i.token = .ok scope) ↔
      i.kind = .tracking ∧ now < i.expires * 1000) ∧
    ∀ scope, resolveTrackingToken rt cfg now i.token = .ok scope → ∃ deliveryId,
      i.subject = some (.str deliveryId) ∧ scope.deliveryId = some (.str deliveryId) ∧
      ∀ userId action resource,
        authorize ⟨.customer, userId, some scope.scope⟩ action resource = .allow ↔
          action = .read ∧ resource.type = .delivery ∧ resource.deliveryId = some deliveryId

variable {rt cfg}

theorem Issued.Carries.kindKept (h : i.Carries rt cfg claims) : i.KindKept rt cfg := by
  intro now
  have hrefresh := h.refresh_eq now
  refine ⟨?_, ?_, ?_, ?_⟩
  · rw [hrefresh, ← and_assoc, and_comm (a := i.kind = .refresh)]
    split
    next hok =>
      rw [and_iff_right hok]
      by_cases htime : IsTime (expiry now cfg.accessTtlSeconds * 1000)
      · rw [toIso_of_isTime htime]
        exact iff_of_true ⟨_, rfl⟩ htime
      · rw [toIso_of_not_isTime htime]
        exact iff_of_false nofun htime
    next hrefused => exact iff_of_false nofun fun hand => hrefused hand.1
  · intro result hresult
    rw [hrefresh] at hresult
    split at hresult
    next =>
      obtain ⟨expiresAt, -, rfl⟩ := map_eq_ok hresult
      exact ⟨_, issue_carries _ _ _ _ (by decide)⟩
    next => exact absurd hresult nofun
  · obtain ⟨deliveryId, hkind, -, hnow, hok⟩ | ⟨hrefused, error, herror⟩ :=
      h.resolveTrackingToken_eq now
    · exact iff_of_true ⟨_, hok⟩ ⟨hkind, hnow⟩
    · rw [herror]
      exact iff_of_false nofun hrefused
  · intro scope hscope
    obtain ⟨deliveryId, -, hsubject, -, hok⟩ | ⟨-, error, herror⟩ := h.resolveTrackingToken_eq now
    · obtain rfl := Except.ok.inj (hok.symm.trans hscope)
      exact ⟨deliveryId, hsubject, rfl,
        fun userId action resource =>
          authorize_customer_scope_iff userId deliveryId action resource⟩
    · exact absurd (herror.symm.trans hscope) nofun

variable (rt cfg)

/-- The kind of every token of a run is kept. -/
def KindsKept (tokens : List Issued) : Prop := ∀ i ∈ tokens, i.KindKept rt cfg

/-- In every run of logins, refreshes and tracking tokens, by any users and at any times, every
token handed out keeps its kind, at all times. -/
theorem token_kinds_kept (calls : List AuthCall) : KindsKept rt cfg (issuedBy rt cfg calls) := by
  intro i hi
  obtain ⟨c, -, hc⟩ := List.mem_flatMap.1 hi
  obtain ⟨claims, hcarries⟩ := c.issued_carried i hc
  exact hcarries.kindKept

/-! ## At the end of time -/

variable {rt cfg} in
/-- A login with the right password hands out a refresh token. -/
theorem AuthCall.exists_refreshToken {email password : String} {now : ℚ} {users : UserRepository}
    {user : UserRecord} (hfound : users email = some user)
    (hpassword : rt.verifyPassword password user.passwordHash = true)
    (htime : IsTime (expiry now cfg.accessTtlSeconds * 1000)) :
    ∃ i ∈ (AuthCall.mk (.login email password) now users).issued rt cfg,
      i.kind = .refresh ∧ i.expires = expiry now cfg.refreshTtlSeconds := by
  simp only [AuthCall.issued, login_eq hfound, hfound, hpassword, toIso_of_isTime htime]
  exact ⟨_, List.mem_cons_of_mem _ List.mem_cons_self, rfl, rfl⟩

/-- A platform: some text form of JSON, a constant MAC, and every password right. -/
noncomputable def somePlatform : Runtime where
  hmacSha256 _ _ := []
  json := Classical.choice Json.nonempty_codec_string
  replaceInvalid _ := ""
  verifyPassword _ _ := true
  dummyHash := ""

/-- A configuration with the default lifetimes. -/
def defaultConfig : AuthConfig := .new "secret" none none none

/-- A login a quarter of an hour and 100 seconds before the last time a `Date` holds. -/
def lateLogin : AuthCall where
  op := .login "user" "password"
  now := 8639999999000000
  users _ := some ⟨"u", "user", .dispatcher, ""⟩

theorem lateLogin_expiry : IsTime (expiry lateLogin.now defaultConfig.accessTtlSeconds * 1000) := by
  decide +kernel

theorem lastTime_expiry :
    ¬ IsTime (expiry Management.maxTime defaultConfig.accessTtlSeconds * 1000) := by
  decide +kernel

/-- The refresh token of the late login has not expired at the last time, and is not refreshed. -/
theorem lateLogin_notRefreshed :
    ¬ ∀ i ∈ issuedBy somePlatform defaultConfig [lateLogin], ∀ now,
      (∃ result, refresh somePlatform defaultConfig now i.token = .ok result) ↔
        i.kind = .refresh ∧ now < i.expires * 1000 := by
  intro hclaim
  obtain ⟨i, hi, hkind, hexpires⟩ : ∃ i ∈ lateLogin.issued somePlatform defaultConfig,
      i.kind = .refresh ∧ i.expires = expiry lateLogin.now defaultConfig.refreshTtlSeconds :=
    AuthCall.exists_refreshToken rfl rfl lateLogin_expiry
  obtain ⟨claims, hcarries⟩ := lateLogin.issued_carried i hi
  have hcurrent : (Management.maxTime : ℚ) < i.expires * 1000 := by
    rw [hexpires]
    decide +kernel
  have haccepted := (hclaim i (List.mem_flatMap.2 ⟨_, List.mem_singleton_self _, hi⟩) _).2
    ⟨hkind, hcurrent⟩
  exact lastTime_expiry ((hcarries.kindKept _).1.1 haccepted).2.2

end FleetCommand.Auth
