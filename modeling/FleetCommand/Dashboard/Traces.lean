import FleetCommand.Management.Reporting
import Mathlib.Data.Rat.Cast.Order

/-!
# Path traces

`windowTrace` of the dashboard's map: the pings of the last `windowMs`, in time order. On the pings
of a vehicle it returns the track the reporting service returns for the same closed range
(`track_eq_windowTrace`): both are the stable sort by time of the pings in the range. Numbers are
exact rationals.
-/

set_option autoImplicit false

namespace FleetCommand.Dashboard

open Management StableSort

/-- ISO-8601 or epoch-ms timestamp. -/
inductive TraceTime where
  | iso (s : String)
  | epoch (ms : JsNumber)
  deriving DecidableEq

/-- A single position sample for a path trace. -/
structure TracePing where
  lat : JsNumber
  lng : JsNumber
  timestamp : TraceTime
  deriving DecidableEq

/-- The hour a trace shows. -/
def traceWindowMs : ℚ := 60 * 60 * 1000

variable (dateParse : String → Option ℤ)

/-- `new Date(s).getTime()` parses as `Date.parse` does. -/
def toEpoch : TraceTime → JsNumber
  | .iso s => match dateParse s with
    | some t => .fin t
    | none => .nan
  | .epoch ms => ms

/-- The time of a timestamp, when it is finite and in the closed window. -/
def timeInWindow (cutoff now : ℚ) (timestamp : TraceTime) : Option ℚ :=
  match toEpoch dateParse timestamp with
  | .fin t => if cutoff ≤ t ∧ t ≤ now then some t else none
  | _ => none

/-- The pings in the window in time order. They are of any type with a timestamp, as a ping with
more fields is a `TracePing` too. -/
def windowTrace {P : Type} (timestamp : P → TraceTime) (pings : List P) (now windowMs : ℚ) :
    List P :=
  let cutoff := now - windowMs
  let timed := pings.filterMap fun p =>
    (timeInWindow dateParse cutoff now (timestamp p)).map fun t => (p, t)
  (sortBy (fun a b => a.2 - b.2) timed).map Prod.fst

/-! ## The window -/

/-- The time of a timestamp, for finite times. -/
def epochOf (timestamp : TraceTime) : ℚ :=
  match toEpoch dateParse timestamp with
  | .fin t => t
  | _ => 0

/-- The time is finite and in the closed window. -/
def InWindow (cutoff now : ℚ) (timestamp : TraceTime) : Bool :=
  (timeInWindow dateParse cutoff now timestamp).isSome

variable {dateParse} {P : Type}

theorem timeInWindow_eq_some {cutoff now t : ℚ} {timestamp : TraceTime}
    (h : timeInWindow dateParse cutoff now timestamp = some t) :
    epochOf dateParse timestamp = t := by
  unfold timeInWindow at h
  unfold epochOf
  split at h
  next q hq =>
    split at h
    · exact Option.some.inj h
    · exact absurd h nofun
  next => exact absurd h nofun

variable (dateParse) in
/-- The trace is the stable sort by time of the pings in the window. -/
theorem windowTrace_isStableSort (timestamp : P → TraceTime) (pings : List P) (now windowMs : ℚ) :
    IsStableSort (fun p => epochOf dateParse (timestamp p))
      (pings.filter fun p => InWindow dateParse (now - windowMs) now (timestamp p))
      (windowTrace dateParse timestamp pings now windowMs) := by
  let timed := pings.filterMap fun p =>
    (timeInWindow dateParse (now - windowMs) now (timestamp p)).map fun t => (p, t)
  have htime : ∀ x ∈ timed, epochOf dateParse (timestamp x.1) = x.2 := by
    intro x hx
    obtain ⟨p, -, hp⟩ := List.mem_filterMap.1 hx
    obtain ⟨t, ht, rfl⟩ := Option.map_eq_some_iff.1 hp
    exact timeInWindow_eq_some ht
  have hpings : timed.map Prod.fst =
      pings.filter fun p => InWindow dateParse (now - windowMs) now (timestamp p) := by
    rw [List.map_filterMap, ← List.filterMap_eq_filter]
    congr
    funext p
    simp only [InWindow, Option.guard]
    obtain h | ⟨t, h⟩ := Option.eq_none_or_eq_some
      (timeInWindow dateParse (now - windowMs) now (timestamp p)) <;> simp [h]
  have hsort : IsStableSort (fun x : P × ℚ => epochOf dateParse (timestamp x.1)) timed
      (sortBy (fun a b => a.2 - b.2) timed) := by
    apply sortBy_isStableSort
    refine List.pairwise_of_forall_mem_list fun a ha b hb => ?_
    rw [htime a ha, htime b hb]
    exact sub_nonpos
  have hmap : IsStableSort (fun p => epochOf dateParse (timestamp p)) (timed.map Prod.fst)
      (windowTrace dateParse timestamp pings now windowMs) := hsort.map Prod.fst
  rwa [hpings] at hmap

/-- For a timestamp in text the window is the range of the reporting service. -/
theorem inWindow_iso {fromMs toMs : ℤ} {s : String} :
    InWindow dateParse fromMs toMs (.iso s) = InRange dateParse fromMs toMs s := by
  rw [InWindow, timeInWindow, InRange, toEpoch]
  cases dateParse s with
  | none => rfl
  | some t =>
    simp only [Int.cast_le]
    by_cases h : fromMs ≤ t ∧ t ≤ toMs
    · simp [h]
    · rw [if_neg h]
      simpa using h

theorem epochOf_iso (s : String) : epochOf dateParse (.iso s) = timeOf dateParse s := by
  rw [epochOf, toEpoch, timeOf]
  cases dateParse s <;> simp

/-! ## The two traces -/

/-- Over the last `w` milliseconds, the track of a vehicle that the reporting service returns is the
trace that the dashboard makes of the vehicle's pings: the stable time-sorted list of the pings whose
timestamp parses to a time in the closed window. -/
theorem track_eq_windowTrace (pings : LocationPingRepository) (vehicleId : String)
    (range : TimeRange) (now w : ℤ) (hw : 0 ≤ w) (hfrom : dateParse range.«from» = some (now - w))
    (hto : dateParse range.«to» = some now) :
    ∃ track, getVehicleTrack dateParse pings vehicleId range = .ok track ∧
      windowTrace dateParse (fun p => .iso p.timestamp) (pings.listByVehicleId vehicleId) now w =
        track ∧
      IsStableSort (fun p => timeOf dateParse p.timestamp) ((pings.listByVehicleId vehicleId).filter
        fun p => InRange dateParse (now - w) now p.timestamp) track := by
  obtain ⟨track, hok, htrack⟩ := getVehicleTrack_eq pings vehicleId hfrom hto (sub_le_self now hw)
  refine ⟨track, hok, ?_, htrack⟩
  have hwindow := windowTrace_isStableSort dateParse
    (fun p : LocationPing => .iso p.timestamp) (pings.listByVehicleId vehicleId) now w
  rw [← Int.cast_sub] at hwindow
  simp only [inWindow_iso, epochOf_iso] at hwindow
  exact hwindow.unique (htrack.strictMono Int.cast_strictMono)

/-- The parse of two timestamps. -/
def parseTwo (s : String) : Option ℤ :=
  if s = "1970-01-01T00:00:00.001Z" then some 1
  else if s = "1970-01-01T00:00:00.002Z" then some 2
  else none

/-- Four pings of a vehicle, stored out of order: two at one time, and one that does not parse. -/
def storedPings : LocationPingRepository :=
  [("p", "1970-01-01T00:00:00.002Z"), ("q", "yesterday"), ("r", "1970-01-01T00:00:00.001Z"),
    ("s", "1970-01-01T00:00:00.002Z")].map fun p =>
      ⟨p.1, "v", none, .fin 0, .fin 0, p.2, none, none, none, none⟩

/-- The range of the stored pings. -/
def storedRange : TimeRange := ⟨"1970-01-01T00:00:00.001Z", "1970-01-01T00:00:00.002Z"⟩

example : (windowTrace parseTwo (fun p => .iso p.timestamp) storedPings 2 1).map LocationPing.id =
    ["r", "p", "s"] := by
  decide +kernel

theorem track_eq_windowTrace_stored :
    ∃ track, getVehicleTrack parseTwo storedPings "v" storedRange = .ok track ∧
      windowTrace parseTwo (fun p => .iso p.timestamp) (storedPings.listByVehicleId "v") (2 : ℤ)
        (1 : ℤ) = track ∧
      IsStableSort (fun p => timeOf parseTwo p.timestamp) ((storedPings.listByVehicleId "v").filter
        fun p => InRange parseTwo (2 - 1) 2 p.timestamp) track :=
  track_eq_windowTrace storedPings "v" storedRange 2 1 (by decide) (by decide) (by decide)

end FleetCommand.Dashboard
