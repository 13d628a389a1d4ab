import FleetCommand.Dashboard.MapFilter
import FleetCommand.Dashboard.SimulationRuns

/-!
# The simulation on the map

In simulation mode the live fleet receives the position frames of the simulation, in order and all
of them. Where the map has a vehicle after a run is the place received last (`shownPlace_run`),
and that is where the simulation has the vehicle (`map_follows`).
-/

set_option autoImplicit false

namespace FleetCommand.Dashboard

open Management (JsNumber)
open Runs SimVehicle FleetState

/-! ## Places on the map -/

/-- The place of a position event. -/
def PositionEvent.place (p : PositionEvent) : JsNumber × JsNumber := (p.lng, p.lat)

/-- Where the map has a vehicle. -/
def FleetState.shownPlace (id : String) (s : FleetState) : Option (JsNumber × JsNumber) :=
  (s.vehicles.get? id).map fun v => (v.lng, v.lat)

/-- The places received of a vehicle, in order. -/
def placesReceived (id : String) (events : List PositionEvent) : List (JsNumber × JsNumber) :=
  events.filterMap fun p => if p.vehicleId = id then some p.place else none

section Places

variable {dateParse : String → Option ℤ}

theorem shownPlace_receive (id : String) (s : FleetState) (e : Received) :
    shownPlace id (s.receive dateParse e) =
      if e.event.vehicleId = id then some e.event.place else shownPlace id s := by
  rw [shownPlace, get?_receive]
  by_cases hid : id = e.event.vehicleId
  · rw [if_pos hid, if_pos hid.symm]
    rfl
  · rw [if_neg hid, if_neg fun h => hid h.symm, shownPlace]

/-- The map has a vehicle at the place received last. -/
theorem shownPlace_run (id : String) (s : FleetState) (received : List Received) :
    shownPlace id (run (receive dateParse) s received) =
      (placesReceived id (received.map Received.event)).getLast?.or (shownPlace id s) := by
  induction received using List.reverseRecOn with
  | nil => rfl
  | append_singleton received e ih =>
    rw [run_concat, shownPlace_receive, ih, List.map_append]
    by_cases hid : e.event.vehicleId = id <;> simp [hid, placesReceived]

end Places

/-! ## The frames of the simulation -/

/-- The position event of a frame. -/
def SimFrame.positionEvent? : SimFrame ℚ → Option PositionEvent
  | .position vehicleId lat lng timestamp heading speed =>
    some ⟨vehicleId, .fin lat, .fin lng, timestamp,
      some ⟨some (.fin speed), some (.fin heading), none⟩⟩
  | .zoneEvent _ _ _ _ _ => none

theorem placesReceived_frames (id : String) (frames : List (SimFrame ℚ)) :
    placesReceived id (frames.filterMap SimFrame.positionEvent?) =
      (placesOf id frames).map fun p => (.fin p.1, .fin p.2) := by
  rw [placesReceived, placesOf, List.filterMap_filterMap, List.map_filterMap]
  refine List.filterMap_congr fun frame _ => ?_
  cases frame with
  | position vehicleId lat lng _ _ _ =>
    by_cases hid : vehicleId = id <;>
      simp [SimFrame.positionEvent?, SimFrame.place?, PositionEvent.place, hid]
  | zoneEvent _ _ _ _ _ => rfl

variable {geometry : SegmentGeometry ℚ} {fuel : Nat} {vehicles vehicles' : List (SimVehicle ℚ)}
  {frames : List (SimFrame ℚ)}

/-- The last place a run reports of a vehicle is where it has the vehicle. -/
theorem ticks_last_place {t : ℚ × String} {ts : List (ℚ × String)}
    (hids : (vehicles.map SimVehicle.vehicleId).Nodup)
    (h : ticks geometry fuel (t :: ts) vehicles = some (vehicles', frames)) {v : SimVehicle ℚ}
    (hv : v ∈ vehicles) :
    ∃ v' ∈ vehicles', v'.vehicleId = v.vehicleId ∧
      (placesOf v.vehicleId frames).getLast? = some (v'.lng, v'.lat) := by
  induction ts generalizing t vehicles v frames with
  | nil =>
    obtain ⟨moved, first, later, htick, hrest, rfl⟩ := ticks_cons h
    obtain ⟨rfl, rfl⟩ := Prod.mk.inj (Option.some.inj hrest)
    obtain ⟨v', hv', hreports⟩ := tick_reports hids htick hv
    refine ⟨v', hv', hreports.vehicleId, ?_⟩
    rw [List.append_nil, hreports.places]
    rfl
  | cons u ts ih =>
    obtain ⟨moved, first, later, htick, hrest, rfl⟩ := ticks_cons h
    obtain ⟨w, hw, hreports⟩ := tick_reports hids htick hv
    obtain ⟨v', hv', hid, hlast⟩ := ih (tick_ids htick ▸ hids) hrest hw
    rw [hreports.vehicleId] at hid hlast
    refine ⟨v', hv', hid, ?_⟩
    rw [placesOf_append, List.getLast?_append, hlast]
    rfl

theorem ticks_silent {ts : List (ℚ × String)}
    (h : ticks geometry fuel ts vehicles = some (vehicles', frames)) {id : String}
    (hid : id ∉ vehicles.map SimVehicle.vehicleId) : placesOf id frames = [] := by
  induction ts generalizing vehicles frames with
  | nil =>
    obtain ⟨-, rfl⟩ := Prod.mk.inj (Option.some.inj h)
    rfl
  | cons t ts ih =>
    obtain ⟨moved, first, later, htick, hrest, rfl⟩ := ticks_cons h
    rw [placesOf_append, (tick_silent htick hid).1, ih hrest (tick_ids htick ▸ hid)]
    rfl

variable (dateParse : String → Option ℤ)

/-- After a run of ticks whose position frames the live fleet has received, whatever it showed
before and whenever it handled them: every vehicle of the simulation is on the map where the
simulation has it, and every other vehicle where it was. -/
theorem map_follows (hlen : ∀ a b, 0 ≤ geometry.segmentMetres a b)
    (hvehicles : ∀ v ∈ vehicles, v.Moving) (hids : (vehicles.map SimVehicle.vehicleId).Nodup)
    {ts : List (ℚ × String)} (hne : ts ≠ []) (hts : ∀ t ∈ ts, 0 ≤ t.1) :
    ∃ turns, ∀ fuel, turns ≤ fuel → ∃ vehicles' frames,
      ticks geometry fuel ts vehicles = some (vehicles', frames) ∧
      ∀ (s : FleetState) (received : List Received),
        received.map Received.event = frames.filterMap SimFrame.positionEvent? →
        (∀ v ∈ vehicles, ∃ v' ∈ vehicles', v'.vehicleId = v.vehicleId ∧
          shownPlace v.vehicleId (run (receive dateParse) s received) =
            some (.fin v'.lng, .fin v'.lat)) ∧
        ∀ id ∉ vehicles.map SimVehicle.vehicleId,
          shownPlace id (run (receive dateParse) s received) = shownPlace id s := by
  obtain ⟨vehicles', frames, turns, hrun⟩ := ticks_return hlen hts hvehicles
  refine ⟨turns, fun fuel hfuel => ⟨vehicles', frames, hrun fuel hfuel, ?_⟩⟩
  intro s received hreceived
  -- a vehicle is shown at the last place reported of it
  have hplace : ∀ id, shownPlace id (run (receive dateParse) s received) =
      ((placesOf id frames).map fun p => (JsNumber.fin p.1, JsNumber.fin p.2)).getLast?.or
        (shownPlace id s) := by
    intro id
    rw [shownPlace_run, hreceived, placesReceived_frames]
  constructor
  · intro v hv
    obtain ⟨t, rest, rfl⟩ := List.exists_cons_of_ne_nil hne
    obtain ⟨v', hv', hid, hlast⟩ := ticks_last_place hids (hrun fuel hfuel) hv
    refine ⟨v', hv', hid, ?_⟩
    rw [hplace, List.getLast?_map, hlast]
    rfl
  · intro id hid
    rw [hplace, ticks_silent (hrun fuel hfuel) hid]
    rfl

/-- The live fleet receives the frames of the trip, on a map that shows the vehicle elsewhere. -/
def tripReceived : List Received :=
  (tripRun.2.filterMap SimFrame.positionEvent?).map fun event => ⟨event, 0⟩

/-- The vehicle is shown at the end of its trip, and the others of the map are where they were. -/
theorem trip_on_map :
    shownPlace "VAN-014" (run (receive parseTwo) (.seed id 0) tripReceived) =
        some (.fin (-122.31), .fin 47.606) ∧
      shownPlace "TRK-003" (run (receive parseTwo) (.seed id 0) tripReceived) =
        some (.fin (-122.3316), .fin 47.5952) := by
  obtain ⟨turns, hturns⟩ := map_follows parseTwo taxicab_nonneg crossTown_moving
    (List.nodup_singleton _) (List.cons_ne_nil _ _) trip_nonneg
  obtain ⟨vehicles', frames, hrun, hmap⟩ := hturns (max turns 2) (le_max_left _ _)
  obtain ⟨rfl, rfl⟩ := Prod.mk.inj
    (Option.some.inj ((ticks_trip (le_max_right _ _)).symm.trans hrun))
  have hreceived : tripReceived.map Received.event =
      tripRun.2.filterMap SimFrame.positionEvent? := by
    rw [tripReceived, List.map_map]
    exact List.map_id _
  obtain ⟨hshown, hothers⟩ := hmap (.seed id 0) tripReceived hreceived
  obtain ⟨v', hv', -, hplace⟩ := hshown crossTown List.mem_cons_self
  have hend : ∀ v ∈ tripRun.1, v.lng = -122.31 ∧ v.lat = 47.606 := by decide +kernel
  constructor
  · rw [← (hend v' hv').1, ← (hend v' hv').2]
    exact hplace
  · rw [hothers "TRK-003" (by decide)]
    decide +kernel

end FleetCommand.Dashboard
