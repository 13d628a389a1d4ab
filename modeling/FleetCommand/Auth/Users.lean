import FleetCommand.Auth.Tokens
import FleetCommand.Lib.Hex
import FleetCommand.Lib.InsertionMap

/-!
# Registered users

The stored form of a password and its check, and the in-memory user repository, which keeps the last
registration of each email whatever its case. A hash is written and read back as text; what scrypt
derives is left to the platform. So a login, after any registrations, is granted for the user who
registered the email last, and only for a password from which scrypt derives what it derived from
the registered one (`login_registered`).
-/

set_option autoImplicit false

namespace FleetCommand.Auth

/-! ## Passwords -/

/-- The length of the derived key in bytes. -/
def keyLen : Nat := 64

/-- The length of a salt in bytes. -/
def saltBytes : Nat := 16

/-- `scryptSync` for keys of the length the code asks for. -/
structure Scrypt where
  derive : String → List UInt8 → List UInt8
  length_derive : ∀ password salt, (derive password salt).length = keyLen

/-- `randomBytes(SALT_BYTES)`. -/
structure Salt where
  bytes : List UInt8
  length_eq : bytes.length = saltBytes

/-- `bytes.toString('hex')`. -/
def hexText (bytes : List UInt8) : String := String.ofList (Hex.encode bytes)

/-- The stored form of a password: the salt and the derived key in hex. -/
def hashPassword (scrypt : Scrypt) (salt : Salt) (password : String) : String :=
  "scrypt" ++ "$" ++ hexText salt.bytes ++ "$" ++ hexText (scrypt.derive password salt.bytes)

/-- `stored.split('$')`. -/
def splitHash (stored : String) : List String := (stored.toList.splitOn '$').map String.ofList

/-- The check of a password; a malformed stored value is refused. -/
def verifyPassword (scrypt : Scrypt) (password stored : String) : Bool :=
  match splitHash stored with
  | [pre, saltHex, hashHex] =>
    if pre ≠ "scrypt" then false
    else
      let salt := Hex.decode saltHex.toList
      let expected := Hex.decode hashHex.toList
      if salt.length = 0 ∨ expected.length ≠ keyLen then false
      else scrypt.derive password salt = expected
  | _ => false

/-- The stored parts are found again. -/
theorem splitHash_hashPassword (scrypt : Scrypt) (salt : Salt) (password : String) :
    splitHash (hashPassword scrypt salt password) =
      ["scrypt", hexText salt.bytes, hexText (scrypt.derive password salt.bytes)] := by
  have hparts : (hashPassword scrypt salt password).toList = ['$'].intercalate
      ["scrypt".toList, Hex.encode salt.bytes, Hex.encode (scrypt.derive password salt.bytes)] := by
    simp [hashPassword, hexText, List.intercalate, List.intersperse]
  rw [splitHash, hparts, List.splitOn_intercalate]
  · simp [hexText]
  · simpa using ⟨Hex.not_mem_encode _, Hex.not_mem_encode _⟩
  · simp

/-- A password passes against a hash when scrypt derives the same from it. -/
theorem verifyPassword_hashPassword (scrypt : Scrypt) (salt : Salt) (password password' : String) :
    verifyPassword scrypt password' (hashPassword scrypt salt password) =
      decide (scrypt.derive password' salt.bytes = scrypt.derive password salt.bytes) := by
  have hsalt : ¬ (salt.bytes.length = 0 ∨
      (scrypt.derive password salt.bytes).length ≠ keyLen) := by
    rw [salt.length_eq, scrypt.length_derive]
    decide
  simp only [verifyPassword, splitHash_hashPassword, hexText, String.toList_ofList,
    Hex.decode_encode, ne_eq, not_true_eq_false, if_false, if_neg hsalt]

/-! ## The in-memory repository -/

/-- An account to register, with the salt drawn for its password. -/
structure Registration where
  id : String
  email : String
  password : String
  role : Role
  salt : Salt

section Repository

variable (toLowerCase : String → String) (scrypt : Scrypt)

/-- The record of a registered account. -/
def Registration.record (r : Registration) : UserRecord where
  id := r.id
  email := r.email
  role := r.role
  passwordHash := hashPassword scrypt r.salt r.password

/-- The accounts by email in lower case. -/
abbrev InMemoryUserRepository := InsertionMap String UserRecord

/-- The repository with an account added; an account of the same email is replaced. -/
def InMemoryUserRepository.register (users : InMemoryUserRepository) (r : Registration) :
    InMemoryUserRepository :=
  users.set (toLowerCase r.email) (r.record scrypt)

/-- The lookup by email, whatever its case. -/
def InMemoryUserRepository.findByEmail (users : InMemoryUserRepository) : UserRepository :=
  fun email => users.get? (toLowerCase email)

/-- The repository after some registrations. -/
def registered (rs : List Registration) : InMemoryUserRepository :=
  rs.foldl (InMemoryUserRepository.register toLowerCase scrypt) .empty

/-- The last registration of an email, whatever its case. -/
def lastRegistration (rs : List Registration) (email : String) : Option Registration :=
  rs.reverse.find? fun r => toLowerCase r.email = toLowerCase email

theorem findByEmail_registered (rs : List Registration) (email : String) :
    (registered toLowerCase scrypt rs).findByEmail toLowerCase email =
      (lastRegistration toLowerCase rs email).map (Registration.record scrypt) := by
  rw [InMemoryUserRepository.findByEmail, registered]
  have hlast := InsertionMap.get?_foldl_set (fun r : Registration => toLowerCase r.email)
    (Registration.record scrypt) rs .empty (toLowerCase email)
  rw [InsertionMap.get?_empty, Option.or_none] at hlast
  exact hlast

end Repository

/-! ## Logging in -/

section Login

variable (scrypt : Scrypt)

/-- The platform with the code's check of passwords. -/
def withPasswords (rt : Runtime) (dummySalt : Salt) : Runtime :=
  { rt with
    verifyPassword := verifyPassword scrypt
    dummyHash := hashPassword scrypt dummySalt "::unmatchable-sentinel::" }

/-- Scrypt takes the password for the registered one. -/
def Registration.Accepts (r : Registration) (password : String) : Prop :=
  scrypt.derive password r.salt.bytes = scrypt.derive r.password r.salt.bytes

/-- The result of a login is for the registered user: the role, and two tokens that verify, until
they expire, to that user and role. -/
structure SessionOf (rt : Runtime) (cfg : AuthConfig) (now : ℚ) (r : Registration)
    (result : LoginResult) : Prop where
  role : result.role = r.role
  access : ∃ claims, (Issued.mk result.token .access (some (.str r.id))
    (some (.str r.role.value)) (expiry now cfg.accessTtlSeconds)).Carries rt cfg claims
  refresh : ∃ claims, (Issued.mk result.refreshToken .refresh (some (.str r.id))
    (some (.str r.role.value)) (expiry now cfg.refreshTtlSeconds)).Carries rt cfg claims

/-- A login after any registrations. It is granted to the last registration of the email, with a
password that scrypt takes for the registered one, as far as the expiry can be written; and refused
otherwise. -/
theorem login_registered (toLowerCase : String → String) (rt : Runtime) (cfg : AuthConfig)
    (dummySalt : Salt) (rs : List Registration) (now : ℚ) (email password : String) :
    let platform := withPasswords scrypt rt dummySalt
    let users := (registered toLowerCase scrypt rs).findByEmail toLowerCase
    let last := lastRegistration toLowerCase rs email
    (∀ r, last = some r → r.Accepts scrypt password →
      IsTime (expiry now cfg.accessTtlSeconds * 1000) →
      ∃ result, login platform cfg users now email password = .ok result ∧
        SessionOf platform cfg now r result) ∧
    (∀ r, last = some r → r.Accepts scrypt password →
      ¬ IsTime (expiry now cfg.accessTtlSeconds * 1000) →
      login platform cfg users now email password = .error .rangeError) ∧
    ((∀ r, last = some r → ¬ r.Accepts scrypt password) →
      login platform cfg users now email password = .error refusedError) := by
  intro platform users last
  have hfound : users email = last.map (Registration.record scrypt) :=
    findByEmail_registered toLowerCase scrypt rs email
  have hcheck : ∀ r : Registration,
      platform.verifyPassword password (r.record scrypt).passwordHash = true ↔
        r.Accepts scrypt password := by
    intro r
    have hhash := verifyPassword_hashPassword scrypt r.salt r.password password
    exact (Bool.eq_iff_iff.1 hhash).trans decide_eq_true_iff
  have huser : ∀ r, last = some r → users email = some (r.record scrypt) := by
    intro r hr
    rw [hfound, hr, Option.map_some]
  refine ⟨fun r hr haccepts htime => ?_, fun r hr haccepts htime => ?_, fun hno => ?_⟩
  · rw [login_eq (huser r hr), (hcheck r).2 haccepts, if_neg (by simp), toIso_of_isTime htime]
    exact ⟨_, rfl, rfl, ⟨_, issue_carries now _ _ _ (by decide)⟩,
      ⟨_, issue_carries now _ _ _ (by decide)⟩⟩
  · rw [login_eq (huser r hr), (hcheck r).2 haccepts, if_neg (by simp), toIso_of_not_isTime htime]
    rfl
  · cases hlast : last with
    | none =>
      rw [login, hfound, hlast]
      rfl
    | some r =>
      have hrefused := (hcheck r).not.2 (hno r hlast)
      rw [login_eq (huser r hlast), if_pos (Bool.eq_false_of_not_eq_true hrefused)]

end Login

end FleetCommand.Auth
