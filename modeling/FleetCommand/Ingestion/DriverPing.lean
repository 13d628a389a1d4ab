import FleetCommand.Ingestion.Http
import FleetCommand.Ingestion.SequentialRun
import Mathlib.Data.List.TakeWhile

/-!
# Pings of the driver app

`LocationPing` names the shared ping contract as what it produces, but writes the timestamp as epoch
milliseconds and the telemetry beside the coordinates. The endpoint decodes the timestamp into a
text, so it answers every such ping with a validation error of the body and stores nothing
(`run_handler_toJson`). A ping in the form of the contract is accepted as it was sent
(`run_handler_payload`).
-/

set_option autoImplicit false

namespace FleetCommand.Ingestion

open Resumption GoJson

variable {K N Text : Type} (lits : Literals K N)

/-! ## The driver app and the contract -/

/-- A timestamped location ping produced by the device; the timestamp is in epoch milliseconds. -/
structure LocationPing (K : Type) where
  vehicleId : String
  lat : K
  lng : K
  timestamp : Int
  speed : Option K
  heading : Option K
  battery : Option K

/-- A member that is written only when its value is present. -/
def memberIf (name : String) : Option K → List (String × Json N)
  | none => []
  | some x => [(name, .num (lits.double x))]

/-- The telemetry that is there. -/
def telemetryMembers (speed heading battery : Option K) : List (String × Json N) :=
  memberIf lits "speed" speed ++ memberIf lits "heading" heading ++ memberIf lits "battery" battery

/-- `toJson` of a ping of the driver app: the telemetry is beside the coordinates. -/
def LocationPing.toJson (p : LocationPing K) : Json N :=
  .obj ([("vehicleId", .str p.vehicleId), ("lat", .num (lits.double p.lat)),
    ("lng", .num (lits.double p.lng)), ("timestamp", .num (lits.int p.timestamp))] ++
    telemetryMembers lits p.speed p.heading p.battery)

/-- The ping of the shared contract; the timestamp is in ISO-8601. -/
structure PingPayload (K : Type) where
  vehicleId : String
  lat : K
  lng : K
  timestamp : String
  telemetry : Option (Telemetry K)

/-- The document of a payload. -/
def PingPayload.json (p : PingPayload K) : Json N :=
  .obj ([("vehicleId", .str p.vehicleId), ("lat", .num (lits.double p.lat)),
    ("lng", .num (lits.double p.lng)), ("timestamp", .str p.timestamp)] ++
    match p.telemetry with
    | none => []
    | some t => [("telemetry", .obj (telemetryMembers lits t.speed t.heading t.battery))])

/-! ## What the endpoint makes of them -/

section Decode

variable [IntCast K]

/-- The timestamp of a driver ping is no text. -/
theorem decodePing_toJson (p : LocationPing K) : decodePing lits (p.toJson lits) = none := by
  have hfield : field? (pingFields lits) "timestamp" =
      some (textField "timestamp" PingRequest.timestamp fun r v => { r with timestamp := v }) := rfl
  exact decodeMembers_eq_none _ (m := ("timestamp", .num (lits.int p.timestamp)))
    (List.mem_append_left _ (by simp)) hfield fun r => rfl

/-! ### A payload of the contract -/

section Members

variable {σ : Type} {fields : List (Field N σ)} {name : String} (s : σ)

omit [IntCast K] in
theorem decodeMember_text {get : σ → Option String} {set : σ → Option String → σ}
    (h : field? fields name = some (textField name get set)) (v : String) :
    decodeMember fields s (name, .str v) = some (set s (some v)) := by
  rw [decodeMember, h]
  rfl

theorem decodeMember_float {get : σ → Option K} {set : σ → Option K → σ}
    (h : field? fields name = some (floatField lits name get set)) (x : K) :
    decodeMember fields s (name, .num (lits.double x)) = some (set s (some x)) := by
  rw [decodeMember, h]
  simp [floatField, Field.at, pointer, decodeFloat, lits.parseFloat_double]

/-- An absent value leaves its field nil. -/
theorem decodeMembers_memberIf {get : σ → Option K} {set : σ → Option K → σ}
    (h : field? fields name = some (floatField lits name get set)) (hnil : set s none = s)
    (v : Option K) : decodeMembers fields s (memberIf lits name v) = some (set s v) := by
  cases v with
  | none => rw [memberIf, decodeMembers_nil, hnil]
  | some x => rw [memberIf, decodeMembers_cons_of_some (decodeMember_float lits s h x),
      decodeMembers_nil]

end Members

theorem decodeMembers_telemetry (t : Telemetry K) :
    decodeMembers (telemetryFields lits) .zero
      (telemetryMembers lits t.speed t.heading t.battery) = some t := by
  rw [telemetryMembers, decodeMembers_append, decodeMembers_append,
    decodeMembers_memberIf lits Telemetry.zero rfl rfl t.speed, Option.bind_some,
    decodeMembers_memberIf lits _ rfl rfl t.heading, Option.bind_some,
    decodeMembers_memberIf lits _ rfl rfl t.battery]

/-- A payload of the contract decodes to the request that says the same. -/
theorem decodePing_payload (p : PingPayload K) :
    decodePing lits (p.json lits) =
      some ⟨some p.vehicleId, some p.lat, some p.lng, some p.timestamp, p.telemetry⟩ := by
  rw [decodePing, PingPayload.json, decodeStruct, List.cons_append, List.cons_append,
    List.cons_append, List.cons_append, List.nil_append,
    decodeMembers_cons_of_some (decodeMember_text _ rfl p.vehicleId),
    decodeMembers_cons_of_some (decodeMember_float lits _ rfl p.lat),
    decodeMembers_cons_of_some (decodeMember_float lits _ rfl p.lng),
    decodeMembers_cons_of_some (decodeMember_text _ rfl p.timestamp)]
  cases htelemetry : p.telemetry with
  | none => rfl
  | some t =>
    have hmember : decodeMember (pingFields lits)
        ⟨some p.vehicleId, some p.lat, some p.lng, some p.timestamp, none⟩
        ("telemetry", .obj (telemetryMembers lits t.speed t.heading t.battery)) =
        some ⟨some p.vehicleId, some p.lat, some p.lng, some p.timestamp, some t⟩ := by
      have hdecoded := decodeMembers_telemetry lits t
      show ((decodeMembers (telemetryFields lits) .zero
        (telemetryMembers lits t.speed t.heading t.battery)).map some).map _ = _
      rw [hdecoded]
      rfl
    exact decodeMembers_cons_of_some hmember []

end Decode

/-! ## The answers -/

section Answers

variable [LT K] [DecidableLT K] [IntCast K] (codec : Json.Codec N Text) (c : Call K)

/-- The endpoint answers every driver ping with a validation error and stores nothing. -/
theorem run_handler_toJson (p : LocationPing K) (s : State K) :
    (handler lits codec c ⟨"POST", codec.encode (p.toJson lits)⟩).run memory s =
      (⟨400, false, "", "validation-error", ["body"]⟩, s) := by
  rw [handler, if_neg (not_not_intro rfl), codec.decode_encode, Option.bind_some,
    decodePing_toJson]
  rfl

omit [LT K] [DecidableLT K] [IntCast K] in
theorem digit?_isSome_not_isSpace {ch : Char} (h : (digit? ch).isSome) : isSpace ch = false := by
  rw [digit?] at h
  split at h
  next hdigit =>
    have hlow : 48 ≤ ch.toNat := Nat.le_of_ble_eq_true (Nat.ble_eq_true_of_le hdigit.1)
    have hhigh : ch.toNat ≤ 57 := hdigit.2
    simp only [isSpace, Bool.or_eq_false_iff, Bool.and_eq_false_iff, decide_eq_false_iff_not,
      beq_eq_false_iff_ne]
    omega
  next => exact absurd h (by simp)

omit [LT K] [DecidableLT K] [IntCast K] in
/-- A timestamp that parses starts with a digit, so it is not blank. -/
theorem trimSpace_ne_of_parseTimestamp {text : String} {t : Time}
    (h : parseTimestamp text = some t) : trimSpace text ≠ "" := by
  rw [parseTimestamp] at h
  obtain ⟨year, hyear, -⟩ := Option.bind_eq_some_iff.1 h
  have hfirst : ∃ ch rest, text.toList = ch :: rest ∧ isSpace ch = false := by
    rcases htext : text.toList with - | ⟨ch, rest⟩
    · rw [htext] at hyear
      exact absurd hyear (by simp [getYear])
    · refine ⟨ch, rest, rfl, digit?_isSome_not_isSpace ?_⟩
      rw [htext] at hyear
      rcases rest with - | ⟨b, - | ⟨d, - | ⟨e, rest⟩⟩⟩
      · exact absurd hyear (by simp [getYear])
      · exact absurd hyear (by simp [getYear])
      · exact absurd hyear (by simp [getYear])
      · rw [getYear] at hyear
        obtain ⟨x, hx, -⟩ := Option.bind_eq_some_iff.1 hyear
        exact Option.isSome_iff_exists.2 ⟨x, hx⟩
  obtain ⟨ch, rest, htext, hspace⟩ := hfirst
  intro hblank
  rw [trimSpace, htext, List.dropWhile_cons_of_neg (by simp [hspace])] at hblank
  have hnil := congrArg String.toList hblank
  rw [String.toList_ofList, String.toList_empty, List.reverse_eq_nil_iff,
    List.dropWhile_eq_nil_iff] at hnil
  have hch := hnil ch (List.mem_reverse.2 List.mem_cons_self)
  exact Bool.false_ne_true (hspace.symm.trans hch)

/-- A valid ping in the form of the contract is accepted on empty stores, and stored as it was
sent. -/
theorem run_handler_payload (p : PingPayload K) (hvehicle : trimSpace p.vehicleId ≠ "")
    (hlat : ¬ p.lat < latMin ∧ ¬ latMax < p.lat) (hlng : ¬ p.lng < lngMin ∧ ¬ lngMax < p.lng)
    {t : Time} (htimestamp : parseTimestamp p.timestamp = some t) (hpersist : c.persistErr = none) :
    ∃ s : State K,
      (handler lits codec c ⟨"POST", codec.encode (p.json lits)⟩).run memory State.new =
        (⟨200, true, c.newID, "", []⟩, s) ∧
      s.store.persisted = [⟨c.newID, p.vehicleId, c.driverForVehicle.getD "", p.lat, p.lng, t, c.now,
        p.telemetry⟩] := by
  let sent : Call K := { c with
    req := ⟨some p.vehicleId, some p.lat, some p.lng, some p.timestamp, p.telemetry⟩ }
  have hvalid : validate sent.req = [] := by
    rw [validate_eq_nil_iff]
    exact ⟨⟨_, rfl, hvehicle⟩, ⟨_, rfl, hlat⟩, ⟨_, rfl, hlng⟩, _, t, rfl,
      trimSpace_ne_of_parseTimestamp htimestamp, htimestamp⟩
  have hts : sent.ts = t := by
    rw [Call.ts, Option.bind_some, htimestamp, Option.getD_some]
  have hverdict : verdict sent none = (⟨.accepted, c.newID, []⟩, none) := by
    rw [verdict, if_neg (not_not_intro hvalid)]
    simp only [isStale, Bool.false_eq_true, if_false]
    rw [show sent.persistErr = none from hpersist]
  have haccepts : Accepts (State.new : State K) sent := ⟨hvalid, rfl, hpersist⟩
  refine ⟨State.new.record sent, ?_, ?_⟩
  · rw [handler, if_neg (not_not_intro rfl), codec.decode_encode, Option.bind_some,
      decodePing_payload]
    show (ingest sent >>= fun ret => pure (respond ret)).run memory State.new = _
    have hmark : (State.new : State K).hwm.latest sent.vehicleID = none := rfl
    rw [Prog.run_bind, run_ingest, if_pos haccepts, hmark, hverdict]
    rfl
  · show [sent.stored] = _
    rw [Call.stored, hts]
    rfl

/-! ## The ping as it was sent -/

/-- The pings a device can produce: a vehicle, coordinates in range, and an event time of the years
1970 to 9999. -/
structure LocationPing.Valid (p : LocationPing K) : Prop where
  vehicleId : trimSpace p.vehicleId ≠ ""
  lat : ¬ p.lat < latMin ∧ ¬ latMax < p.lat
  lng : ¬ p.lng < lngMin ∧ ¬ lngMax < p.lng
  timestamp : 0 ≤ p.timestamp ∧ p.timestamp < 253402300800000

/-- The endpoint accepts a driver ping on empty stores, and what it stores says the same. -/
def AcceptedAsSent (p : LocationPing K) : Prop :=
  let (response, s) :=
    (handler lits codec c ⟨"POST", codec.encode (p.toJson lits)⟩).run memory State.new
  response.accepted = true ∧ ∃ stored, s.store.persisted = [stored] ∧
    stored.vehicleID = p.vehicleId ∧ stored.timestamp = p.timestamp * 1000000 ∧
    stored.lat = p.lat ∧ stored.lng = p.lng ∧
    stored.telemetry.bind Telemetry.speed = p.speed ∧
    stored.telemetry.bind Telemetry.heading = p.heading ∧
    stored.telemetry.bind Telemetry.battery = p.battery

/-- No driver ping is accepted as it was sent, whatever it holds. -/
theorem locationPing_not_accepted (p : LocationPing K) : ¬ AcceptedAsSent lits codec c p := by
  rw [AcceptedAsSent, run_handler_toJson]
  rintro ⟨haccepted, -⟩
  exact Bool.false_ne_true haccepted

end Answers

/-- Literals that keep doubles and integers apart. -/
def tagged : Literals Int (Int ⊕ Int) where
  double := .inl
  int := .inr
  parseFloat n := some (n.elim id id)
  parseFloat_double _ := rfl

/-- A ping of 2024-01-01T00:00:30.5Z. -/
def newYearPing : LocationPing Int := ⟨"V", 47, -122, 1704067230500, none, none, some 80⟩

theorem newYearPing_refused : newYearPing.Valid ∧ ∀ c : Call Int,
    ¬ AcceptedAsSent tagged (Json.Codec.document _) c newYearPing := by
  constructor
  · exact ⟨by decide, by decide, by decide, by decide⟩
  · intro c
    rw [AcceptedAsSent, run_handler_toJson]
    rintro ⟨haccepted, -⟩
    exact Bool.false_ne_true haccepted

end FleetCommand.Ingestion
