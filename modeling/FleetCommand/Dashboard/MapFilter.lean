import FleetCommand.Dashboard.FleetState

/-!
# Filtering the map

`filterVehicles` on the live fleet. A position event keeps the status and the zones that a vehicle
has on the map, and nothing else writes them (`attributes_run`). So a filter goes by what a
vehicle was first shown with, wherever it has moved since (`filter_shows_iff`).
-/

set_option autoImplicit false

namespace FleetCommand.Dashboard

open Runs

/-- What the map is restricted to. -/
structure MapFilter where
  /-- Restrict to vehicles of this driver status; `none` is any. -/
  driverStatus : Option String := none
  /-- Restrict to vehicles inside this zone; `none` is any. -/
  zoneId : Option String := none

/-- Whether a filter asks for anything: the empty text is as none. -/
def isTruthy : Option String → Bool
  | none => false
  | some text => text ≠ ""

/-- A vehicle with this status and these zones passes the filter. -/
def MapFilter.passes (filter : MapFilter) (driverStatus : String) (zoneIds : Option (List String)) :
    Bool :=
  if isTruthy filter.driverStatus && some driverStatus ≠ filter.driverStatus then false
  else if isTruthy filter.zoneId && !((zoneIds.getD []).any fun z => some z = filter.zoneId) then
    false
  else true

/-- The vehicles that are not inactive and pass the filter. -/
def filterVehicles (vehicles : List VehicleState) (filter : MapFilter) : List VehicleState :=
  vehicles.filter fun v =>
    if v.active = some false then false else filter.passes v.driverStatus v.zoneIds

namespace FleetState

variable (dateParse : String → Option ℤ)

/-- The handler of a position event, in a run. -/
def receive (s : FleetState) (e : Received) : FleetState := s.onPosition dateParse e.event e.now

/-- The vehicles are on the map under their own ids. -/
def Keyed (s : FleetState) : Prop := ∀ id v, s.vehicles.get? id = some v → v.vehicleId = id

/-- The status and the zones a vehicle has on the map. -/
def attributes (id : String) (s : FleetState) : Option (String × Option (List String)) :=
  (s.vehicles.get? id).map fun v => (v.driverStatus, v.zoneIds)

/-- The vehicle is rendered. -/
def active (id : String) (s : FleetState) : Bool :=
  (s.vehicles.get? id).any fun v => v.active ≠ some false

variable {dateParse} {s : FleetState} {e : Received}

theorem get?_receive (s : FleetState) (e : Received) (id : String) :
    (s.receive dateParse e).vehicles.get? id =
      if id = e.event.vehicleId then some (e.event.vehicle (s.vehicles.get? id))
      else s.vehicles.get? id := by
  rw [receive, onPosition, InsertionMap.get?_set]
  split
  next h => rw [h]
  next => rfl

theorem Keyed.receive (h : s.Keyed) (e : Received) : (s.receive dateParse e).Keyed := by
  intro id v hv
  rw [get?_receive] at hv
  split at hv
  next hid =>
    rw [← Option.some.inj hv]
    exact hid.symm
  next => exact h id v hv

theorem keyed_seed (sin : ℚ → ℚ) (now : ℚ) : (seed sin now).Keyed := by
  intro id v hv
  rw [seed, InsertionMap.get?_foldl_set, InsertionMap.get?_empty, Option.or_none,
    Option.map_eq_some_iff] at hv
  obtain ⟨w, hw, rfl⟩ := hv
  simpa using List.find?_some hw

theorem attributes_receive (id : String) (s : FleetState) (e : Received) :
    attributes id (s.receive dateParse e) =
      if id = e.event.vehicleId then some ((attributes id s).getD ("On_Delivery", none))
      else attributes id s := by
  rw [attributes, get?_receive]
  by_cases hid : id = e.event.vehicleId
  · subst hid
    cases hv : s.vehicles.get? e.event.vehicleId <;> simp [hv, attributes, PositionEvent.vehicle]
  · rw [if_neg hid, if_neg hid, attributes]

theorem active_receive (id : String) (s : FleetState) (e : Received) :
    active id (s.receive dateParse e) = (decide (id = e.event.vehicleId) || active id s) := by
  rw [active, get?_receive]
  by_cases hid : id = e.event.vehicleId
  · simp [hid, PositionEvent.vehicle]
  · simp [hid, active]

/-- The vehicle has a position event. -/
def Heard (id : String) (events : List Received) : Prop := ∃ e ∈ events, id = e.event.vehicleId

instance (id : String) (events : List Received) : Decidable (Heard id events) :=
  inferInstanceAs (Decidable (∃ e ∈ events, id = e.event.vehicleId))

theorem heard_cons {id : String} {events : List Received} :
    Heard id (e :: events) ↔ id = e.event.vehicleId ∨ Heard id events := by
  simp [Heard]

/-- Through a run a vehicle keeps its status and zones; a new one has those of its first event. -/
theorem attributes_run (id : String) (s : FleetState) (events : List Received) :
    attributes id (run (receive dateParse) s events) =
      if Heard id events then some ((attributes id s).getD ("On_Delivery", none))
      else attributes id s := by
  induction events generalizing s with
  | nil => rfl
  | cons e events ih =>
    rw [run_cons, ih, attributes_receive]
    simp only [heard_cons]
    by_cases hid : id = e.event.vehicleId <;> by_cases hrest : Heard id events <;>
      simp [hid, hrest]

theorem active_run (id : String) (s : FleetState) (events : List Received) :
    active id (run (receive dateParse) s events) = (decide (Heard id events) || active id s) := by
  induction events generalizing s with
  | nil => rfl
  | cons e events ih =>
    rw [run_cons, ih, active_receive]
    simp only [heard_cons]
    by_cases hid : id = e.event.vehicleId <;> simp [hid]

/-- A filter shows a vehicle that is rendered and has a status and zones that pass. -/
theorem shows_iff (h : s.Keyed) (filter : MapFilter) (id : String) :
    (∃ v ∈ filterVehicles s.vehicles.values filter, v.vehicleId = id) ↔
      active id s = true ∧ ∃ a, attributes id s = some a ∧ filter.passes a.1 a.2 = true := by
  simp only [filterVehicles, List.mem_filter, InsertionMap.mem_values_iff, attributes, active]
  constructor
  · rintro ⟨v, ⟨⟨k, hk⟩, hpasses⟩, rfl⟩
    rw [h k v hk, hk]
    split at hpasses
    next => exact absurd hpasses Bool.false_ne_true
    next hactive => exact ⟨by simpa using hactive, _, rfl, hpasses⟩
  · rintro ⟨hactive, a, ha, hpasses⟩
    obtain ⟨v, hv, rfl⟩ := Option.map_eq_some_iff.1 ha
    rw [hv] at hactive
    refine ⟨v, ⟨⟨id, hv⟩, ?_⟩, h id v hv⟩
    rw [if_neg (by simpa using hactive)]
    exact hpasses

end FleetState

open FleetState

variable (dateParse : String → Option ℤ)

/-- Whatever positions are received, a filter goes by the status and the zones that a vehicle had on
the map at the start: a vehicle that was there is shown exactly when those pass, wherever it has
been since, and one that was not exactly when a position of it was received and the filter lets
through a vehicle on delivery in no zone. -/
theorem filter_shows_iff {s : FleetState} (h : s.Keyed) (events : List Received)
    (filter : MapFilter) (id : String) :
    (∃ v ∈ filterVehicles (run (receive dateParse) s events).vehicles.values filter,
        v.vehicleId = id) ↔
      match s.vehicles.get? id with
      | some v => (v.active ≠ some false ∨ Heard id events) ∧
          filter.passes v.driverStatus v.zoneIds = true
      | none => Heard id events ∧ filter.passes "On_Delivery" none = true := by
  have hkeyed : (run (receive dateParse) s events).Keyed :=
    run_invariant (fun _ e hs => hs.receive e) h events
  -- whether it is active and what it passes by depend on the first record and on being heard
  rw [shows_iff hkeyed, active_run, attributes_run, active, attributes]
  cases hv : s.vehicles.get? id with
  | none => by_cases hheard : Heard id events <;> simp [hheard]
  | some v => by_cases hheard : Heard id events <;> simp [hheard]

/-- A vehicle of the seed leaves for the sea. -/
def vanAtSea : Received := ⟨⟨"VAN-014", .fin 0, .fin 0, "1970-01-01T00:00:00.001Z", none⟩, 1⟩

theorem filter_shows_seed :
    (∃ v ∈ filterVehicles (run (receive parseTwo) (seed id 0) [vanAtSea]).vehicles.values
        ⟨none, some "zone-dt"⟩, v.vehicleId = "VAN-014") ↔
      match (seed id 0).vehicles.get? "VAN-014" with
      | some v => (v.active ≠ some false ∨ Heard "VAN-014" [vanAtSea]) ∧
          MapFilter.passes ⟨none, some "zone-dt"⟩ v.driverStatus v.zoneIds = true
      | none => Heard "VAN-014" [vanAtSea] ∧
          MapFilter.passes ⟨none, some "zone-dt"⟩ "On_Delivery" none = true :=
  filter_shows_iff parseTwo (keyed_seed id 0) [vanAtSea] ⟨none, some "zone-dt"⟩ "VAN-014"

/-- It is still shown as being downtown. -/
example : (filterVehicles (run (receive parseTwo) (seed id 0) [vanAtSea]).vehicles.values
    ⟨none, some "zone-dt"⟩).map (fun v => (v.vehicleId, v.lat)) = [("VAN-014", .fin 0)] := by
  decide +kernel

end FleetCommand.Dashboard
