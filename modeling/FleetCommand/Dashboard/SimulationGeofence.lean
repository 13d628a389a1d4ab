import FleetCommand.Dashboard.SimulationRuns
import FleetCommand.Geofence.Observed
import FleetCommand.Geofence.Rings

/-!
# The simulation against the geofence engine

In simulation mode the dashboard finds the zone events itself. Given the positions the simulation
reports and a catalog of the same zones, the engine produces the same events: away from the edges of
the zones, where the engine's tolerance is no matter, both ask the same of a point
(`containsInclusive_zoneOf`), and both report the changes.
-/

set_option autoImplicit false

namespace FleetCommand.Dashboard

open Observation SimVehicle
open Geofence (PingCall Polygon Point)

variable {K : Type} [Field K] [LinearOrder K]

/-! ## One point in one zone -/

/-- A position, longitude first, as a coordinate of the engine. -/
def pointOf (p : K × K) : Point K := ⟨p.2, p.1⟩

/-- A zone of the simulation as the catalog lists it. -/
def zoneOf (zone : SimZone K) : Geofence.Zone K :=
  ⟨zone.id, some zone.label, ⟨zone.ring.map pointOf⟩⟩

/-- The place is on no edge of the zone, up to the engine's tolerance. -/
def ClearOf (zone : SimZone K) (place : K × K) : Prop :=
  let ring := (zoneOf zone).polygon.ring
  ∀ e ∈ ring.zip (ring.rotate 1), Geofence.onSegment e.1 e.2 (pointOf place) = false

instance (zone : SimZone K) (place : K × K) : Decidable (ClearOf zone place) :=
  inferInstanceAs (Decidable (∀ _ ∈ _, _))

theorem pointInRing_closed (vertices : List (K × K)) (hn : 3 ≤ vertices.length) (lng lat : K) :
    pointInRing lng lat (vertices ++ vertices.take 1) =
      Geofence.insideRing (vertices.map pointOf) ⟨lat, lng⟩ := by
  have hopen : (vertices ++ vertices.take 1).take ((vertices ++ vertices.take 1).length - 1) =
      vertices := by
    have hlength : (vertices ++ vertices.take 1).length - 1 = vertices.length := by
      rw [List.length_append, List.length_take]
      omega
    rw [hlength, List.take_left]
  -- the two tests write the same crossing condition
  have hcrosses (a b : K × K) : Geofence.crosses ⟨lat, lng⟩ (pointOf a) (pointOf b) =
      decide (decide (lat < a.2) ≠ decide (lat < b.2) ∧
        lng < (b.1 - a.1) * (lat - a.2) / (b.2 - a.2) + a.1) := by
    show (if decide (lat < a.2) ≠ decide (lat < b.2) then
      decide (lng < (b.1 - a.1) * (lat - a.2) / (b.2 - a.2) + a.1) else false) = _
    by_cases hpasses : decide (lat < a.2) ≠ decide (lat < b.2)
    · rw [if_pos hpasses]
      exact decide_eq_decide.2 (and_iff_right hpasses).symm
    · rw [if_neg hpasses, eq_comm, decide_eq_false_iff_not]
      exact fun h => hpasses h.1
  rw [pointInRing, hopen, Geofence.insideRing, List.length_map, ← List.map_rotate, List.zip_map,
    List.foldl_map]
  simp only [Prod.map_fst, Prod.map_snd, hcrosses, decide_eq_true_eq]

/-- Off the edges of a closed ring both answer alike. -/
theorem containsInclusive_zoneOf {zone : SimZone K} {vertices : List (K × K)}
    (hring : zone.ring = vertices ++ vertices.take 1) (hn : 3 ≤ vertices.length) {place : K × K}
    (hclear : ClearOf zone place) :
    (zoneOf zone).polygon.containsInclusive (pointOf place) =
      pointInRing place.1 place.2 zone.ring := by
  have hopen : (zoneOf zone).polygon.ring = vertices.map pointOf := by
    have hclosed : (zoneOf zone).polygon = ⟨Geofence.closeRing (vertices.map pointOf)⟩ := by
      rw [zoneOf, hring, List.map_append, List.map_take]
      rfl
    rw [hclosed, Geofence.ring_closeRing]
  -- away from the edges the engine's boundary test does not decide
  have hany : ((vertices.map pointOf).zip ((vertices.map pointOf).rotate 1)).any
      (fun e => Geofence.onSegment e.1 e.2 (pointOf place)) = false := by
    rw [ClearOf, hopen] at hclear
    rw [List.any_eq_false]
    exact fun e he => by simp [hclear e he]
  rw [Polygon.containsInclusive, hopen, hany, hring, pointInRing_closed vertices hn,
    if_neg (by rw [List.length_map]; omega), if_neg Bool.false_ne_true]
  rfl

omit [LinearOrder K] in
theorem simZones_closed {zone : SimZone K} (hzone : zone ∈ simZones) :
    ∃ vertices, zone.ring = vertices ++ vertices.take 1 ∧ 3 ≤ vertices.length := by
  have hfour : zone.ring = zone.ring.take 4 ++ (zone.ring.take 4).take 1 ∧
      3 ≤ (zone.ring.take 4).length := by
    simp only [simZones, List.mem_cons, List.not_mem_nil, or_false] at hzone
    rcases hzone with rfl | rfl
    · exact ⟨rfl, Nat.le_succ 3⟩
    · exact ⟨rfl, Nat.le_succ 3⟩
  exact ⟨_, hfour⟩

/-! ## A run -/

/-- The vehicle and the place of a position frame. -/
def SimFrame.position? : SimFrame K → Option (String × K × K)
  | .position vehicleId lat lng _ _ _ => some (vehicleId, lng, lat)
  | .zoneEvent _ _ _ _ _ => none

/-- The positions of some frames, in order. -/
def positionsOf (frames : List (SimFrame K)) : List (String × K × K) :=
  frames.filterMap SimFrame.position?

/-- The pings of the positions of some frames, on a catalog of the simulation's zones; what else the
environment decides is left open. -/
structure Feeds (cs : List (PingCall K)) (frames : List (SimFrame K)) : Prop where
  positions : cs.map (fun c => (c.ping.vehicleID, c.ping.lng, c.ping.lat)) = positionsOf frames
  catalog : ∀ c ∈ cs, c.zones = .ok (simZones.map zoneOf)

/-- The ping of a position on the simulation's zones, every publication accepted. -/
def pingOf (p : String × K × K) : PingCall K where
  ping := ⟨"", p.1, "", p.2.2, p.2.1, 0⟩
  zones := .ok (simZones.map zoneOf)
  lookup _ := .ok none
  enterOrder := .sorted String
  exitOrder := .sorted String
  publishErr _ := none

omit [LinearOrder K] in
/-- Whatever is reported can be fed to the engine. -/
theorem feeds_pingOf (frames : List (SimFrame K)) :
    Feeds ((positionsOf frames).map pingOf) frames where
  positions := (List.map_map ..).trans (List.map_id _)
  catalog := List.forall_mem_map.2 fun _ _ => rfl

/-- The transition of the engine for a crossing of the simulation. -/
def ZoneEventType.transition : ZoneEventType → Geofence.EventType
  | .enter => .enter
  | .exit => .exit

/-- A ping on the simulation's zones observes what the simulation finds. -/
theorem mem_zonesContaining_simZones {c : PingCall K} {zone : SimZone K} (hzone : zone ∈ simZones)
    (hclear : ∀ other ∈ simZones, ClearOf other (c.ping.lng, c.ping.lat)) :
    zone.id ∈ c.zonesContaining (simZones.map zoneOf) ↔
      pointInRing c.ping.lng c.ping.lat zone.ring = true := by
  have hcontains (other : SimZone K) (hother : other ∈ simZones) :
      (zoneOf other).polygon.containsInclusive c.ping.point =
        pointInRing c.ping.lng c.ping.lat other.ring := by
    obtain ⟨vertices, hring, hn⟩ := simZones_closed hother
    exact containsInclusive_zoneOf hring hn (hclear other hother)
  simp only [PingCall.zonesContaining, List.mem_toFinset, List.mem_map, List.mem_filter]
  constructor
  · rintro ⟨_, ⟨⟨other, hother, rfl⟩, hin⟩, hid⟩
    -- the id is of one zone only
    have hsame : other = zone := List.inj_on_of_nodup_map simZones_nodup hother hzone hid
    rw [hcontains other hother, hsame] at hin
    exact hin
  · intro hin
    exact ⟨zoneOf zone, ⟨⟨zone, hzone, rfl⟩, (hcontains zone hzone).trans hin⟩, rfl⟩

theorem observations_of_feeds {cs : List (PingCall K)} {frames : List (SimFrame K)}
    (hfeeds : Feeds cs frames)
    (hclear : ∀ p ∈ positionsOf frames, ∀ zone ∈ simZones, ClearOf zone p.2) {zone : SimZone K}
    (hzone : zone ∈ simZones) (id : String) :
    cs.filterMap (PingCall.observation id zone.id) = observed id zone frames := by
  let seen (p : String × K × K) : Option Bool :=
    if p.1 = id then some (pointInRing p.2.1 p.2.2 zone.ring) else none
  -- what a ping observes depends on its vehicle and position only
  have hpings : cs.filterMap (PingCall.observation id zone.id) =
      cs.filterMap fun c => seen (c.ping.vehicleID, c.ping.lng, c.ping.lat) := by
    refine List.filterMap_congr fun c hc => ?_
    have hmem : (c.ping.vehicleID, c.ping.lng, c.ping.lat) ∈ positionsOf frames := by
      rw [← hfeeds.positions]
      exact List.mem_map_of_mem hc
    have hin := mem_zonesContaining_simZones hzone (hclear _ hmem)
    simp only [PingCall.observation, hfeeds.catalog c hc, seen]
    split
    next => rw [Option.some.injEq, Bool.eq_iff_iff, decide_eq_true_iff, hin]
    next => rfl
  have hmap : cs.filterMap (fun c => seen (c.ping.vehicleID, c.ping.lng, c.ping.lat)) =
      (positionsOf frames).filterMap seen := by
    rw [← hfeeds.positions, List.filterMap_map]
    rfl
  rw [hpings, hmap, positionsOf, List.filterMap_filterMap, observed, placesOf, List.map_filterMap]
  refine List.filterMap_congr fun frame _ => ?_
  cases frame with
  | position vehicleId lat lng _ _ _ =>
    simp only [SimFrame.position?, SimFrame.place?, Option.bind_some, seen]
    split <;> rfl
  | zoneEvent _ _ _ _ _ => rfl

theorem into_eq_transition (inside : Bool) :
    Geofence.EventType.into inside = (crossingTo inside).transition := by
  cases inside <;> rfl

/-- Fed the positions of a run, each away from the edges of the zones, the engine produces the zone
events of the run: for every vehicle and zone the same transitions in the same order, whatever the
engine publishes with success and whatever state it starts from, when that state has the vehicles in
the zones they are in. -/
theorem simulation_agrees [IsStrictOrderedRing K] [FloorRing K] {geometry : SegmentGeometry K}
    (hlen : ∀ a b, 0 ≤ geometry.segmentMetres a b) {vehicles : List (SimVehicle K)}
    (hvehicles : ∀ v ∈ vehicles, v.Moving) (hids : (vehicles.map SimVehicle.vehicleId).Nodup)
    {ts : List (K × String)} (hts : ∀ t ∈ ts, 0 ≤ t.1) :
    ∃ turns, ∀ fuel, turns ≤ fuel → ∃ vehicles' frames,
      ticks geometry fuel ts vehicles = some (vehicles', frames) ∧
      ∀ (s : Geofence.State) (cs : List (PingCall K)), Feeds cs frames →
        (∀ p ∈ positionsOf frames, ∀ zone ∈ simZones, ClearOf zone p.2) →
        (∀ v ∈ vehicles, ∀ zone ∈ simZones (K := K),
          (zone.id ∈ s.members.insideZones v.vehicleId ↔ zone.id ∈ v.inside)) →
        ∀ v ∈ vehicles, ∀ zone ∈ simZones (K := K),
          Geofence.transitionsOf v.vehicleId zone.id (Geofence.produced s cs) =
            (crossingsOf v.vehicleId zone.id frames).map ZoneEventType.transition := by
  obtain ⟨vehicles', frames, turns, hrun⟩ := ticks_return hlen hts hvehicles
  refine ⟨turns, fun fuel hfuel => ⟨vehicles', frames, hrun fuel hfuel, ?_⟩⟩
  intro s cs hfeeds hclear hstart v hv zone hzone
  obtain ⟨-, hcrossings⟩ := ticks_crossings hids (hrun fuel hfuel) hv hzone
  -- both observe the memberships of the places reported
  have hagrees : Geofence.Agrees v.vehicleId zone.id ⟨decide (zone.id ∈ v.inside), []⟩ s [] :=
    ⟨(decide_eq_decide.2 (hstart v hv zone hzone)).symm, rfl⟩
  have hproduced := (hagrees.run cs).changes
  rw [List.nil_append, observations_of_feeds hfeeds hclear hzone] at hproduced
  rw [hproduced, hcrossings, List.map_map]
  exact List.map_congr_left fun inside _ => into_eq_transition inside

/-- Fed the trip through downtown, the engine has the vehicle enter downtown and leave it, and never
at the depot. -/
theorem trip_agrees :
    let events := Geofence.produced .new ((positionsOf tripRun.2).map pingOf)
    Geofence.transitionsOf "VAN-014" "zone-dt" events = [.enter, .exit] ∧
      Geofence.transitionsOf "VAN-014" "zone-sodo" events = [] := by
  intro events
  obtain ⟨turns, hturns⟩ := simulation_agrees taxicab_nonneg crossTown_moving
    (List.nodup_singleton _) trip_nonneg
  obtain ⟨vehicles', frames, hrun, hagrees⟩ := hturns (max turns 2) (le_max_left _ _)
  obtain rfl : tripRun.2 = frames :=
    congrArg Prod.snd (Option.some.inj ((ticks_trip (le_max_right _ _)).symm.trans hrun))
  have htransitions := hagrees .new _ (feeds_pingOf tripRun.2) (by decide +kernel)
    (by decide +kernel) crossTown List.mem_cons_self
  have hdowntown := htransitions _ List.mem_cons_self
  have hdepot := htransitions _ (List.mem_cons_of_mem _ List.mem_cons_self)
  exact ⟨hdowntown.trans (by decide +kernel), hdepot.trans (by decide +kernel)⟩

end FleetCommand.Dashboard
