import FleetCommand.Lib.Base64
import FleetCommand.Lib.Json
import FleetCommand.Management.Common

/-!
# Session tokens

`signJwt` and `verifyJwt`. What the code takes from its platform is a `Runtime`: the MAC, an
arbitrary function of key and input; the JSON text form, where parsing inverts writing; what
`toString('utf8')` makes of bytes that are no UTF-8; and the password check. Numbers in JSON and
clock readings are exact rationals.

A signed token verifies to its claims until it expires (`verifyJwt_signJwt`): the three parts hold
no period, so splitting finds them again, and the payload decodes to the JSON it was written from.
Conversely a token is accepted only with a signature of its first two parts (`verifyJwt_ok`).
-/

set_option autoImplicit false

namespace FleetCommand.Auth

/-- What the service takes from the platform. -/
structure Runtime where
  /-- `createHmac('sha256', key).update(input).digest()`. -/
  hmacSha256 : String → String → List UInt8
  json : Json.Codec ℚ String
  /-- `toString('utf8')` of bytes that are no UTF-8. -/
  replaceInvalid : List UInt8 → String
  verifyPassword : String → String → Bool
  /-- The hash of no password. -/
  dummyHash : String

/-! ## Base64url -/

/-- `Buffer.from(s)`. -/
def utf8Bytes (s : String) : List UInt8 := s.toByteArray.data.toList

/-- `bytes.toString('utf8')`. -/
def utf8Text (rt : Runtime) (bytes : List UInt8) : String :=
  (String.fromUTF8? ⟨bytes.toArray⟩).getD (rt.replaceInvalid bytes)

theorem utf8Text_utf8Bytes (rt : Runtime) (s : String) : utf8Text rt (utf8Bytes s) = s := by
  have hbytes : (⟨(utf8Bytes s).toArray⟩ : ByteArray) = s.toByteArray := rfl
  rw [utf8Text, hbytes, String.fromUTF8?, dif_pos s.isValidUTF8]
  rfl

theorem utf8Bytes_injective : Function.Injective utf8Bytes := by
  intro s s' h
  exact String.toByteArray_inj.1 (ByteArray.ext (Array.ext' h))

/-- The replacement of the two characters that are not safe in a URL. -/
def toUrlSafe (c : Char) : Char := if c = '+' then '-' else if c = '/' then '_' else c

/-- The replacement back. -/
def ofUrlSafe (c : Char) : Char := if c = '-' then '+' else if c = '_' then '/' else c

/-- The UTF-16 code units of a character, a surrogate pair beyond the first plane. -/
def codeUnits (c : Char) : List Nat :=
  if c.toNat < 0x10000 then [c.toNat]
  else [0xD800 + (c.toNat - 0x10000) / 0x400, 0xDC00 + (c.toNat - 0x10000) % 0x400]

/-- `Buffer.from(text, 'base64')`: the decoder reads the low byte of every code unit. -/
def base64Bytes (text : List Char) : List UInt8 :=
  Base64.decode ((text.flatMap codeUnits).map UInt8.ofNat)

/-- The URL-safe base64 text of bytes, without padding. -/
def base64UrlEncode (input : List UInt8) : String :=
  String.ofList (((Base64.encode input).map toUrlSafe).rdropWhile (· == '='))

/-- The bytes of a URL-safe base64 text, padded to a multiple of four code units first. -/
def base64UrlDecode (input : String) : List UInt8 :=
  let pad := List.replicate ((4 - Management.jsLength input % 4) % 4) '='
  base64Bytes (input.toList.map ofUrlSafe ++ pad)

/-- A character of the first plane is read by its low byte. -/
theorem map_codeUnits {text : List Char} (h : ∀ c ∈ text, c.toNat < 0x10000) :
    (text.flatMap codeUnits).map UInt8.ofNat = text.map Base64.byteOf := by
  induction text with
  | nil => rfl
  | cons c text ih =>
    obtain ⟨hc, htext⟩ := List.forall_mem_cons.1 h
    rw [List.flatMap_cons, List.map_append, ih htext, codeUnits, if_pos hc]
    rfl

theorem base64Bytes_padded (bytes : List UInt8) (n : Nat) :
    base64Bytes ((Base64.sextets bytes).map Base64.charOf ++ List.replicate n '=') = bytes := by
  have hplane : ∀ c ∈ (Base64.sextets bytes).map Base64.charOf ++ List.replicate n '=',
      c.toNat < 0x10000 := by
    intro c hc
    rcases List.mem_append.1 hc with hc | hc
    · obtain ⟨v, hv, rfl⟩ := List.mem_map.1 hc
      exact (Base64.charOf_toNat_lt (Base64.lt_of_mem_sextets bytes v hv)).trans (by decide)
    · rw [List.eq_of_mem_replicate hc]
      decide
  rw [base64Bytes, map_codeUnits hplane, Base64.decode_padded]

theorem ofUrlSafe_toUrlSafe {c : Char} (h : c ∉ ['.', '-', '_', '=']) :
    ofUrlSafe (toUrlSafe c) = c := by
  obtain ⟨-, hminus, hunder, -⟩ : c ≠ '.' ∧ c ≠ '-' ∧ c ≠ '_' ∧ c ≠ '=' := by simpa using h
  rw [toUrlSafe]
  split
  next hplus => rw [hplus]; rfl
  next =>
    split
    next hslash => rw [hslash]; rfl
    next => rw [ofUrlSafe, if_neg hminus, if_neg hunder]

/-- The URL-safe characters are none of those that separate or pad. -/
theorem toUrlSafe_ne {c : Char} (h : c ∉ ['.', '-', '_', '=']) :
    toUrlSafe c ∉ ['.', '+', '/', '='] := by
  obtain ⟨hdot, -, -, heq⟩ : c ≠ '.' ∧ c ≠ '-' ∧ c ≠ '_' ∧ c ≠ '=' := by simpa using h
  rw [toUrlSafe]
  split
  next => decide
  next hplus =>
    split
    next => decide
    next hslash => simp [hdot, hplus, hslash, heq]

/-- Dropping the padding leaves the characters of the values. -/
theorem toList_base64UrlEncode (input : List UInt8) :
    (base64UrlEncode input).toList = ((Base64.sextets input).map Base64.charOf).map toUrlSafe := by
  have hpadding : (Base64.padding input.length).map toUrlSafe = Base64.padding input.length := by
    rw [Base64.padding, List.map_replicate]
    rfl
  rw [base64UrlEncode, String.toList_ofList, Base64.encode, List.map_append, hpadding,
    Base64.padding]
  induction (3 - input.length % 3) % 3 with
  | zero =>
    rw [List.replicate_zero, List.append_nil, List.rdropWhile_eq_self_iff]
    intro hne
    obtain ⟨c, hc, hlast⟩ := List.mem_map.1 (List.getLast_mem hne)
    obtain ⟨v, hv, rfl⟩ := List.mem_map.1 hc
    have hsafe := toUrlSafe_ne (Base64.charOf_ne (Base64.lt_of_mem_sextets input v hv))
    rw [← hlast]
    intro heq
    rw [beq_iff_eq] at heq
    exact hsafe (by simp [heq])
  | succ n ih =>
    rw [List.replicate_succ', ← List.append_assoc, List.rdropWhile_concat_pos _ _ _ (by rfl)]
    exact ih

theorem base64UrlDecode_encode (input : List UInt8) :
    base64UrlDecode (base64UrlEncode input) = input := by
  have hsafe : (((Base64.sextets input).map Base64.charOf).map toUrlSafe).map ofUrlSafe =
      (Base64.sextets input).map Base64.charOf := by
    rw [List.map_map]
    refine (List.map_congr_left fun c hc => ?_).trans (List.map_id _)
    obtain ⟨v, hv, rfl⟩ := List.mem_map.1 hc
    exact ofUrlSafe_toUrlSafe (Base64.charOf_ne (Base64.lt_of_mem_sextets input v hv))
  rw [base64UrlDecode, toList_base64UrlEncode, hsafe]
  exact base64Bytes_padded input _

/-- No character that separates or pads is in an encoded part. -/
theorem not_mem_base64UrlEncode (input : List UInt8) {c : Char}
    (h : c ∈ ['.', '+', '/', '=']) : c ∉ (base64UrlEncode input).toList := by
  rw [toList_base64UrlEncode, List.map_map, List.mem_map]
  rintro ⟨v, hv, rfl⟩
  exact toUrlSafe_ne (Base64.charOf_ne (Base64.lt_of_mem_sextets input v hv)) h

/-! ## Signing and verifying -/

/-- What a token is for. -/
inductive TokenKind where
  | access
  | refresh
  | tracking
  deriving DecidableEq

/-- The `type` claim of a token. -/
def TokenKind.value : TokenKind → String
  | .access => "access"
  | .refresh => "refresh"
  | .tracking => "tracking"

/-- What `verifyJwt` throws: `TokenInvalidError`, `TokenExpiredError`, or the `TypeError` of reading
a property of `null`. -/
inductive TokenError where
  | invalid (message : String)
  | expired
  | typeError
  deriving DecidableEq

/-- The header of every token. -/
def header : Json ℚ := .obj [("alg", .str "HS256"), ("typ", .str "JWT")]

/-- `token.split('.')`. -/
def splitParts (token : String) : List String := (token.toList.splitOn '.').map String.ofList

variable (rt : Runtime)

/-- The encoded MAC of the signing input. -/
def sign (signingInput secret : String) : String :=
  base64UrlEncode (rt.hmacSha256 secret signingInput)

/-- `base64UrlEncode(JSON.stringify(value))`. -/
def encodePart (value : Json ℚ) : String := base64UrlEncode (utf8Bytes (rt.json.encode value))

/-- `JSON.parse(base64UrlDecode(part).toString('utf8'))`. -/
def decodePart (part : String) : Option (Json ℚ) :=
  rt.json.decode (utf8Text rt (base64UrlDecode part))

/-- The signed token of some claims: header, claims and signature, joined by periods. -/
def signJwt (claims : Json ℚ) (secret : String) : String :=
  let signingInput := encodePart rt header ++ "." ++ encodePart rt claims
  signingInput ++ "." ++ sign rt signingInput secret

/-- The check of the parsed claims: `exp` is a number and the time is before it. -/
def checkExpiry (claims : Json ℚ) (nowMs : ℚ) : Except TokenError (Json ℚ) :=
  match claims with
  | .null => .error .typeError
  | claims =>
    match claims.member? "exp" with
    | some (.num exp) => if exp * 1000 ≤ nowMs then .error .expired else .ok claims
    | _ => .error (.invalid "missing exp")

/-- The claims of a token with three parts, the right signature and an expiry to come. -/
def verifyJwt (token secret : String) (nowMs : ℚ) : Except TokenError (Json ℚ) :=
  match splitParts token with
  | [header, payload, signature] =>
    let expected := sign rt (header ++ "." ++ payload) secret
    if utf8Bytes signature ≠ utf8Bytes expected then .error (.invalid "signature mismatch")
    else match decodePart rt payload with
      | none => .error (.invalid "unparseable claims")
      | some claims => checkExpiry claims nowMs
  | _ => .error (.invalid "malformed token")

variable {rt}

theorem decodePart_encodePart (value : Json ℚ) :
    decodePart rt (encodePart rt value) = some value := by
  rw [decodePart, encodePart, base64UrlDecode_encode, utf8Text_utf8Bytes, rt.json.decode_encode]

/-- Three parts without a period are found again. -/
theorem splitParts_join {a b c : String} (ha : '.' ∉ a.toList) (hb : '.' ∉ b.toList)
    (hc : '.' ∉ c.toList) : splitParts (a ++ "." ++ b ++ "." ++ c) = [a, b, c] := by
  have hparts : (a ++ "." ++ b ++ "." ++ c).toList =
      ['.'].intercalate [a.toList, b.toList, c.toList] := by
    simp [List.intercalate, List.intersperse]
  rw [splitParts, hparts, List.splitOn_intercalate]
  · simp
  · simpa using ⟨ha, hb, hc⟩
  · simp

/-- A signed token verifies to its claims, up to their expiry. -/
theorem verifyJwt_signJwt (claims : Json ℚ) (secret : String) (nowMs : ℚ) :
    verifyJwt rt (signJwt rt claims secret) secret nowMs = checkExpiry claims nowMs := by
  have hdot : ∀ bytes, '.' ∉ (base64UrlEncode bytes).toList :=
    fun bytes => not_mem_base64UrlEncode bytes (by simp)
  have hsplit : splitParts (signJwt rt claims secret) = [encodePart rt header, encodePart rt claims,
      sign rt (encodePart rt header ++ "." ++ encodePart rt claims) secret] :=
    splitParts_join (hdot _) (hdot _) (hdot _)
  simp only [verifyJwt, hsplit, ne_eq, not_true_eq_false, if_false, decodePart_encodePart]

/-- Claims with a numeric expiry are current before it. -/
theorem checkExpiry_of_exp {claims : Json ℚ} {exp : ℚ} (h : claims.member? "exp" = some (.num exp))
    (nowMs : ℚ) :
    checkExpiry claims nowMs = if exp * 1000 ≤ nowMs then .error .expired else .ok claims := by
  cases claims with
  | null => exact absurd h (by simp [Json.member?])
  | _ => simp only [checkExpiry, h]

/-! ## What is accepted -/

theorem checkExpiry_ok {claims claims' : Json ℚ} {nowMs : ℚ}
    (h : checkExpiry claims nowMs = .ok claims') : claims' = claims := by
  unfold checkExpiry at h
  split at h
  · exact absurd h nofun
  · split at h
    · split at h
      · exact absurd h nofun
      · exact (Except.ok.inj h).symm
    · exact absurd h nofun

/-- The parts found, joined, are the token. -/
theorem join_of_splitParts {token a b c : String} (h : splitParts token = [a, b, c]) :
    token = a ++ "." ++ b ++ "." ++ c := by
  have hparts : token.toList.splitOn '.' = [a.toList, b.toList, c.toList] := by
    have htoList := congrArg (List.map String.toList) h
    simpa [splitParts, Function.comp_def] using htoList
  have hjoin : ['.'].intercalate (token.toList.splitOn '.') = token.toList :=
    List.intercalate_splitOn '.'
  rw [hparts] at hjoin
  apply String.toList_injective
  rw [← hjoin]
  simp [List.intercalate, List.intersperse]

/-- An accepted token has three parts; the third signs the first two, and the second holds the
claims. -/
theorem verifyJwt_ok {token secret : String} {nowMs : ℚ} {claims : Json ℚ}
    (h : verifyJwt rt token secret nowMs = .ok claims) :
    ∃ header payload signature, splitParts token = [header, payload, signature] ∧
      signature = sign rt (header ++ "." ++ payload) secret ∧
      decodePart rt payload = some claims := by
  rw [verifyJwt] at h
  split at h
  next header payload signature hparts =>
    dsimp only at h
    split at h
    next => exact absurd h nofun
    next hsame =>
      split at h
      next => exact absurd h nofun
      next parsed hparsed =>
        refine ⟨header, payload, signature, hparts, utf8Bytes_injective (not_not.1 hsame), ?_⟩
        rw [hparsed, checkExpiry_ok h]
  next => exact absurd h nofun

variable (rt)

end FleetCommand.Auth
