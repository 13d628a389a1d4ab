import FleetCommand.Lib.StableSort
import FleetCommand.Management.Common
import Mathlib.Algebra.Order.Ring.Int

/-!
# The management service: vehicle tracks

`ReportingService.getVehicleTrack` over the in-memory ping repository. Timestamps are strings, as in
the source, and `dateParse` is what `Date.parse` makes of them: a time value, or nothing for `NaN`.
A track is the stable time-sorted list of the pings of the vehicle in the range
(`getVehicleTrack_eq`).
-/

set_option autoImplicit false

namespace FleetCommand.Management

open StableSort

/-- A closed time range, as timestamps. -/
structure TimeRange where
  «from» : String
  «to» : String

/-- A stored ping. -/
structure LocationPing where
  id : String
  vehicleId : String
  driverId : Option String
  lat : JsNumber
  lng : JsNumber
  timestamp : String
  receivedAt : Option String
  speed : Option JsNumber
  heading : Option JsNumber
  battery : Option JsNumber
  deriving DecidableEq

/-- The stored pings, in the order of insertion. -/
abbrev LocationPingRepository := List LocationPing

/-- The pings of a vehicle, in the order of insertion. -/
def LocationPingRepository.listByVehicleId (pings : LocationPingRepository) (vehicleId : String) :
    List LocationPing :=
  pings.filter fun p => p.vehicleId = vehicleId

variable (dateParse : String → Option ℤ)

/-- The ends of a range in milliseconds; an unparseable or inverted range is rejected. -/
def parseRange (range : TimeRange) : Except Thrown (ℤ × ℤ) :=
  match dateParse range.«from», dateParse range.«to» with
  | some fromMs, some toMs =>
    if fromMs > toMs then .error (domainError .validationError ["from", "to"] 400)
    else .ok (fromMs, toMs)
  | _, _ => .error (domainError .validationError ["from", "to"] 400)

/-- An item with its place and its time; `none` is `NaN`. -/
structure Timed (T : Type) where
  item : T
  index : ℕ
  t : Option ℤ

/-- The comparator of `stableSortByTime`; a difference that is `NaN` sorts as zero. -/
def Timed.compare {T : Type} (a b : Timed T) : ℤ :=
  match a.t, b.t with
  | some s, some t => if s = t then (a.index : ℤ) - b.index else s - t
  | _, _ => 0

/-- A copy of the items sorted by time; items with one time keep their order. Only times that parse
are sorted here: with a `NaN` among them the comparator is no order, and the result would be the
sorting engine's own. -/
def stableSortByTime {T : Type} (items : List T) (time : T → String) : List T :=
  (sortBy Timed.compare
    (items.zipIdx.map fun p => ⟨p.1, p.2, dateParse (time p.1)⟩)).map Timed.item

/-- The timestamp parses to a time in the closed range. -/
def InRange (fromMs toMs : ℤ) (timestamp : String) : Bool :=
  match dateParse timestamp with
  | some t => fromMs ≤ t && t ≤ toMs
  | none => false

/-- The pings of a vehicle within a range, in the order of their times. -/
def getVehicleTrack (pings : LocationPingRepository) (vehicleId : String) (range : TimeRange) :
    Except Thrown (List LocationPing) := do
  let (fromMs, toMs) ← parseRange dateParse range
  let inRange := (pings.listByVehicleId vehicleId).filter fun p =>
    InRange dateParse fromMs toMs p.timestamp
  return stableSortByTime dateParse inRange LocationPing.timestamp

/-! ## The track -/

/-- The time a timestamp parses to, for timestamps that parse. -/
def timeOf (timestamp : String) : ℤ := (dateParse timestamp).getD 0

variable {dateParse}

theorem timeOf_eq {timestamp : String} {t : ℤ} (h : dateParse timestamp = some t) :
    timeOf dateParse timestamp = t := by
  rw [timeOf, h, Option.getD_some]

theorem inRange_iff {fromMs toMs : ℤ} {timestamp : String} :
    InRange dateParse fromMs toMs timestamp = true ↔
      ∃ t, dateParse timestamp = some t ∧ fromMs ≤ t ∧ t ≤ toMs := by
  rw [InRange]
  cases dateParse timestamp <;> simp

/-- Of two items, the first before the second, the comparator looks at the times. -/
theorem Timed.compare_le_zero_iff {T : Type} {a b : Timed T} {s t : ℤ} (ha : a.t = some s)
    (hb : b.t = some t) (hindex : a.index < b.index) : a.compare b ≤ 0 ↔ s ≤ t := by
  rw [compare, ha, hb]
  dsimp only
  split
  next h => exact iff_of_true (by omega) h.le
  next h => omega

/-- Where every timestamp parses the sort is the stable sort by time. -/
theorem stableSortByTime_isStableSort {T : Type} {items : List T} {time : T → String}
    (hparse : ∀ x ∈ items, (dateParse (time x)).isSome) :
    IsStableSort (fun x => timeOf dateParse (time x)) items
      (stableSortByTime dateParse items time) := by
  let timed : List (Timed T) := items.zipIdx.map fun p => ⟨p.1, p.2, dateParse (time p.1)⟩
  have hitems : timed.map Timed.item = items := by
    simp [timed, Function.comp_def]
  have hsort : IsStableSort (fun x : Timed T => timeOf dateParse (time x.item)) timed
      (sortBy Timed.compare timed) := by
    apply sortBy_isStableSort
    rw [List.pairwise_map]
    refine List.Pairwise.imp_of_mem ?_ (List.pairwise_iff_getElem.2 ?_ : items.zipIdx.Pairwise
      fun p q => p.2 < q.2)
    · intro p q hp hq hindex
      obtain ⟨s, hs⟩ := Option.isSome_iff_exists.1 (hparse p.1 (List.fst_mem_of_mem_zipIdx hp))
      obtain ⟨t, ht⟩ := Option.isSome_iff_exists.1 (hparse q.1 (List.fst_mem_of_mem_zipIdx hq))
      rw [Timed.compare_le_zero_iff hs ht hindex]
      simp only [timeOf_eq hs, timeOf_eq ht]
    · intro i j hi hj hij
      simpa using hij
  have hmap : IsStableSort (fun x => timeOf dateParse (time x)) (timed.map Timed.item)
      (stableSortByTime dateParse items time) := hsort.map Timed.item
  rwa [hitems] at hmap

/-- The pings of a track, and their order. -/
theorem getVehicleTrack_eq (pings : LocationPingRepository) (vehicleId : String) {range : TimeRange}
    {fromMs toMs : ℤ} (hfrom : dateParse range.«from» = some fromMs)
    (hto : dateParse range.«to» = some toMs) (hle : fromMs ≤ toMs) :
    ∃ track, getVehicleTrack dateParse pings vehicleId range = .ok track ∧
      IsStableSort (fun p => timeOf dateParse p.timestamp)
        ((pings.listByVehicleId vehicleId).filter fun p => InRange dateParse fromMs toMs p.timestamp)
        track := by
  have hrange : parseRange dateParse range = .ok (fromMs, toMs) := by
    rw [parseRange, hfrom, hto]
    exact if_neg (not_lt.2 hle)
  refine ⟨_, by rw [getVehicleTrack, hrange]; rfl, stableSortByTime_isStableSort ?_⟩
  intro p hp
  obtain ⟨t, ht, -⟩ := inRange_iff.1 (List.mem_filter.1 hp).2
  exact Option.isSome_iff_exists.2 ⟨t, ht⟩

end FleetCommand.Management
