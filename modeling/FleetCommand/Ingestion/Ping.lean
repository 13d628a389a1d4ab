import Mathlib.Data.Int.Cast.Defs
import Mathlib.Data.List.Basic

/-!
# Location pings: the wire payload and its validation

`PingRequest`, `parseTimestamp` and `validate` of the ingestion service. The coordinate type is a
parameter `K` with an order and integer constants: nothing here computes with coordinates, it only
compares them with the bounds. An instant is its distance from the Unix epoch in nanoseconds.

`parseTimestamp` follows Go's `time.Parse` for the layouts `RFC3339Nano` and `RFC3339`. Both accept
the same strings: the hour may have one digit, the fraction may follow a comma and have any number
of digits, of which nine count, and an offset may be up to `24:60`.
-/

set_option autoImplicit false

namespace FleetCommand.Ingestion

/-- An instant: nanoseconds since the Unix epoch. -/
abbrev Time := Int

/-- The optional vehicle operational data of a ping. -/
structure Telemetry (K : Type) where
  speed : Option K
  heading : Option K
  battery : Option K
  deriving DecidableEq

/-- The wire payload a client posts for one ping; a nil pointer is an absent field. -/
structure PingRequest (K : Type) where
  vehicleID : Option String
  lat : Option K
  lng : Option K
  timestamp : Option String
  telemetry : Option (Telemetry K)
  deriving DecidableEq

/-! ## Timestamps -/

/-- The value of a decimal digit. -/
def digit? (c : Char) : Option Nat :=
  if '0' ≤ c ∧ c ≤ '9' then some (c.toNat - '0'.toNat) else none

/-- Two decimal digits; where `fixed` is false a single digit is accepted too. -/
def getnum (fixed : Bool) : List Char → Option (Nat × List Char)
  | c :: d :: cs => match digit? c, digit? d with
    | some x, some y => some (10 * x + y, cs)
    | some x, none => if fixed then none else some (x, d :: cs)
    | none, _ => none
  | [c] => match digit? c with
    | some x => if fixed then none else some (x, [])
    | none => none
  | [] => none

/-- Four decimal digits. -/
def getYear : List Char → Option (Nat × List Char)
  | a :: b :: c :: d :: cs => do
    let a ← digit? a
    let b ← digit? b
    let c ← digit? c
    let d ← digit? d
    return (1000 * a + 100 * b + 10 * c + d, cs)
  | _ => none

/-- The text after the character `c`. -/
def skip (c : Char) : List Char → Option (List Char)
  | d :: cs => if c = d then some cs else none
  | [] => none

/-- The digits of a fraction and the text after them. -/
def spanDigits : List Char → List Nat × List Char
  | c :: cs => match digit? c with
    | some x => (x :: (spanDigits cs).1, (spanDigits cs).2)
    | none => ([], c :: cs)
  | [] => ([], [])

/-- An optional fraction of a second in nanoseconds: a period or a comma and at least one digit. -/
def getFraction : List Char → Nat × List Char
  | p :: c :: cs =>
    if p = '.' ∨ p = ',' then
      match spanDigits (c :: cs) with
      | ([], _) => (0, p :: c :: cs)
      | (ds, rest) => (((ds ++ List.replicate 9 0).take 9).foldl (fun n d => 10 * n + d) 0, rest)
    else (0, p :: c :: cs)
  | cs => (0, cs)

/-- A zone designator, `Z` or `±hh:mm`, as an offset in seconds; nothing may follow it. -/
def getZone : List Char → Option Int
  | ['Z'] => some 0
  | sign :: cs => do
    let (hr, cs) ← getnum true cs
    let cs ← skip ':' cs
    let (mm, cs) ← getnum true cs
    if hr ≤ 24 ∧ mm ≤ 60 ∧ cs = [] then
      if sign = '+' then some ((hr * 60 + mm) * 60 : Nat)
      else if sign = '-' then some (-((hr * 60 + mm) * 60 : Nat))
      else none
    else none
  | [] => none

/-- A leap year. -/
def isLeap (year : Nat) : Bool := year % 4 == 0 && (year % 100 != 0 || year % 400 == 0)

/-- The days of a month. -/
def daysIn (month year : Nat) : Nat :=
  if month = 2 then (if isLeap year then 29 else 28)
  else if month = 4 ∨ month = 6 ∨ month = 9 ∨ month = 11 then 30
  else 31

/-- Days from 1970-01-01 to the first day of the year. -/
def daysBeforeYear (year : Nat) : Int :=
  let y : Int := (year : Int) - 1
  365 * (year : Int) + y / 4 - y / 100 + y / 400 - 719527

/-- The days of a year before a month. -/
def daysBeforeMonth (month year : Nat) : Nat :=
  ((List.range month).drop 1).foldl (fun n m => n + daysIn m year) 0

/-- `time.Date` in UTC. -/
def date (year month day hour min sec nsec : Nat) : Time :=
  (((daysBeforeYear year + daysBeforeMonth month year + (day - 1 : Nat)) * 86400 +
    (hour * 3600 + min * 60 + sec : Nat)) * 1000000000) + nsec

/-- Parses an ISO-8601 event timestamp; `none` when it is not well formed. -/
def parseTimestamp (s : String) : Option Time := do
  let (year, cs) ← getYear s.toList
  let (month, cs) ← getnum true (← skip '-' cs)
  let (day, cs) ← getnum true (← skip '-' cs)
  let (hour, cs) ← getnum false (← skip 'T' cs)
  let (min, cs) ← getnum true (← skip ':' cs)
  let (sec, cs) ← getnum true (← skip ':' cs)
  let (nsec, cs) := getFraction cs
  let offset ← getZone cs
  if 1 ≤ month ∧ month ≤ 12 ∧ 1 ≤ day ∧ day ≤ daysIn month year ∧ hour < 24 ∧ min < 60 ∧ sec < 60
  then some (date year month day hour min sec nsec - offset * 1000000000)
  else none

example : parseTimestamp "2024-01-01T00:00:30.5Z" = some 1704067230500000000 := by decide

/-! ## Validation -/

/-- `unicode.IsSpace`. -/
def isSpace (c : Char) : Bool :=
  let n := c.toNat
  (9 ≤ n && n ≤ 13) || n == 0x20 || n == 0x85 || n == 0xA0 || n == 0x1680 ||
    (0x2000 ≤ n && n ≤ 0x200A) || n == 0x2028 || n == 0x2029 || n == 0x202F || n == 0x205F ||
    n == 0x3000

/-- `strings.TrimSpace`. -/
def trimSpace (s : String) : String :=
  String.ofList (((s.toList.dropWhile isSpace).reverse.dropWhile isSpace).reverse)

/-- Offending field names without duplicates, in the order first reported; the source's `seen` map
is membership in `order`. -/
structure FieldSet where
  order : List String
  nodup : order.Nodup

namespace FieldSet

/-- No field. -/
def new : FieldSet := ⟨[], List.nodup_nil⟩

/-- A field is named once. -/
def add (f : FieldSet) (name : String) : FieldSet :=
  if h : name ∈ f.order then f
  else ⟨f.order ++ [name], by
    rw [List.nodup_append]
    exact ⟨f.nodup, by simp, fun a ha b hb hab => h (by
      rw [List.mem_singleton] at hb
      rwa [← hb, ← hab])⟩⟩

/-- `add` under a condition. -/
def addIf (f : FieldSet) (b : Bool) (name : String) : FieldSet := if b then f.add name else f

theorem mem_add (f : FieldSet) (name other : String) :
    other ∈ (f.add name).order ↔ other ∈ f.order ∨ other = name := by
  rw [add]
  split
  next h =>
    constructor
    · exact Or.inl
    · rintro (h' | rfl)
      · exact h'
      · exact h
  next => simp

theorem mem_addIf (f : FieldSet) (b : Bool) (name other : String) :
    other ∈ (f.addIf b name).order ↔ other ∈ f.order ∨ b = true ∧ other = name := by
  cases b <;> simp [addIf, mem_add]

end FieldSet

section Validate

variable {K : Type} [LT K] [DecidableLT K] [IntCast K]

/-- The ranges of the coordinates. -/
def latMin : K := ((-90 : Int) : K)
def latMax : K := ((90 : Int) : K)
def lngMin : K := ((-180 : Int) : K)
def lngMax : K := ((180 : Int) : K)

/-- A missing or blank text field. -/
def missingText (v : Option String) : Bool :=
  match v with
  | none => true
  | some s => trimSpace s == ""

/-- A present coordinate outside its bounds. -/
def outOfRange (lo hi : K) (v : Option K) : Bool :=
  match v with
  | none => false
  | some x => decide (x < lo) || decide (hi < x)

/-- A timestamp that is missing, blank or not well formed. -/
def timestampMissing (v : Option String) : Bool :=
  missingText v || match v with
    | none => true
    | some s => (parseTimestamp s).isNone

theorem missingText_eq_false_iff (v : Option String) :
    missingText v = false ↔ ∃ s, v = some s ∧ trimSpace s ≠ "" := by
  cases v <;> simp [missingText]

theorem timestampMissing_eq_false_iff (v : Option String) :
    timestampMissing v = false ↔
      ∃ s t, v = some s ∧ trimSpace s ≠ "" ∧ parseTimestamp s = some t := by
  cases v with
  | none => simp [timestampMissing]
  | some s =>
    cases h : parseTimestamp s <;> simp [timestampMissing, missingText, h]

omit [IntCast K] in
theorem present_in_range_iff (lo hi : K) (v : Option K) :
    (v.isNone = false ∧ outOfRange lo hi v = false) ↔ ∃ x, v = some x ∧ ¬ x < lo ∧ ¬ hi < x := by
  cases v <;> simp [outOfRange]

/-- The offending fields of a ping; none means the ping is structurally valid. -/
def validate (p : PingRequest K) : List String :=
  FieldSet.new
    |>.addIf (missingText p.vehicleID) "vehicleId"
    |>.addIf p.lat.isNone "lat"
    |>.addIf p.lng.isNone "lng"
    |>.addIf (timestampMissing p.timestamp) "timestamp"
    |>.addIf (outOfRange latMin latMax p.lat) "lat"
    |>.addIf (outOfRange lngMin lngMax p.lng) "lng"
    |>.order

/-- A ping is valid exactly when the vehicle id is not blank, both coordinates are present and in
range and the timestamp parses. -/
theorem validate_eq_nil_iff (p : PingRequest K) :
    validate p = [] ↔
      (∃ v, p.vehicleID = some v ∧ trimSpace v ≠ "") ∧
      (∃ x, p.lat = some x ∧ ¬ x < latMin ∧ ¬ latMax < x) ∧
      (∃ y, p.lng = some y ∧ ¬ y < lngMin ∧ ¬ lngMax < y) ∧
      ∃ s t, p.timestamp = some s ∧ trimSpace s ≠ "" ∧ parseTimestamp s = some t := by
  have hmem : ∀ f, f ∈ validate p ↔
      (missingText p.vehicleID = true ∧ f = "vehicleId") ∨ (p.lat.isNone = true ∧ f = "lat") ∨
      (p.lng.isNone = true ∧ f = "lng") ∨ (timestampMissing p.timestamp = true ∧ f = "timestamp") ∨
      (outOfRange latMin latMax p.lat = true ∧ f = "lat") ∨
      (outOfRange lngMin lngMax p.lng = true ∧ f = "lng") := by
    intro f
    simp only [validate, FieldSet.mem_addIf, FieldSet.new, List.not_mem_nil, false_or, or_assoc]
  have hnil : validate p = [] ↔
      missingText p.vehicleID = false ∧ p.lat.isNone = false ∧ p.lng.isNone = false ∧
      timestampMissing p.timestamp = false ∧ outOfRange latMin latMax p.lat = false ∧
      outOfRange lngMin lngMax p.lng = false := by
    rw [List.eq_nil_iff_forall_not_mem]
    simp only [hmem, not_or, not_and, ← Bool.not_eq_true]
    constructor
    · intro h
      exact ⟨fun hb => (h _).1 hb rfl, fun hb => (h _).2.1 hb rfl, fun hb => (h _).2.2.1 hb rfl,
        fun hb => (h _).2.2.2.1 hb rfl, fun hb => (h _).2.2.2.2.1 hb rfl,
        fun hb => (h _).2.2.2.2.2 hb rfl⟩
    · rintro ⟨h1, h2, h3, h4, h5, h6⟩ f
      exact ⟨fun hb => absurd hb h1, fun hb => absurd hb h2, fun hb => absurd hb h3,
        fun hb => absurd hb h4, fun hb => absurd hb h5, fun hb => absurd hb h6⟩
  rw [hnil, ← missingText_eq_false_iff, ← timestampMissing_eq_false_iff, ← present_in_range_iff,
    ← present_in_range_iff]
  constructor
  · rintro ⟨hv, hlat, hlng, hts, hlat', hlng'⟩
    exact ⟨hv, ⟨hlat, hlat'⟩, ⟨hlng, hlng'⟩, hts⟩
  · rintro ⟨hv, ⟨hlat, hlat'⟩, ⟨hlng, hlng'⟩, hts⟩
    exact ⟨hv, hlat, hlng, hts, hlat', hlng'⟩

end Validate

end FleetCommand.Ingestion
