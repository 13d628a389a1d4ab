import FleetCommand.Lib.WhileLoop
import Mathlib.Algebra.Order.Floor.Ring
import Mathlib.Data.Finset.Erase
import Mathlib.Data.Finset.Insert
import Mathlib.Data.List.Rotate

/-!
# The fleet simulation

`FleetSimulation.tick`: every vehicle advances along its cyclic route, reports its position and the
zones it has entered and left. Coordinates are exact, in any ordered field; the length and the
bearing of a segment are trigonometric and enter as a `SegmentGeometry`. The loop that advances a
vehicle is a `while` loop, so a tick has a result only where the loops end.
-/

set_option autoImplicit false

namespace FleetCommand.Dashboard

open WhileLoop

variable {K : Type} [Field K] [LinearOrder K]

/-! ## Zones and frames -/

/-- A zone the simulation tracks; the first position of the ring is repeated at its end. -/
structure SimZone (K : Type) where
  id : String
  name : String
  label : String
  ring : List (K × K)

/-- Zones the simulation tracks. -/
def simZones : List (SimZone K) :=
  [⟨"zone-dt", "Downtown Core", "Downtown Core",
      [(-122.3415, 47.6125), (-122.3245, 47.6125), (-122.3245, 47.6005), (-122.3415, 47.6005),
        (-122.3415, 47.6125)]⟩,
    ⟨"zone-sodo", "SODO Depot", "SODO Depot",
      [(-122.3389, 47.5985), (-122.3262, 47.5985), (-122.3262, 47.5905), (-122.3389, 47.5905),
        (-122.3389, 47.5985)]⟩]

/-- Whether the point is inside the ring: the crossed edges are counted, the closing position is
not a vertex of its own. -/
def pointInRing (lng lat : K) (ring : List (K × K)) : Bool :=
  let vertices := ring.take (ring.length - 1)
  (vertices.zip (vertices.rotate (vertices.length - 1))).foldl (fun inside (pi, pj) =>
    if decide (lat < pi.2) ≠ decide (lat < pj.2) ∧
        lng < (pj.1 - pi.1) * (lat - pi.2) / (pj.2 - pi.2) + pi.1 then !inside
    else inside) false

/-- Whether a zone is entered or left. -/
inductive ZoneEventType where
  | enter
  | exit
  deriving DecidableEq

/-- What the simulation emits. -/
inductive SimFrame (K : Type) where
  | position (vehicleId : String) (lat lng : K) (timestamp : String) (heading speed : ℤ)
  | zoneEvent (vehicleId zoneId : String) (type : ZoneEventType) (label timestamp : String)

/-! ## Vehicles -/

/-- A simulated vehicle: its route, its place on it, and the zones it is in. -/
structure SimVehicle (K : Type) where
  vehicleId : String
  driverStatus : String
  /-- Metres per second. -/
  speed : K
  route : List (K × K)
  segIndex : Nat
  segFrac : K
  lng : K
  lat : K
  heading : K
  inside : Finset String

/-- What is computed from `Math.hypot` and `Math.atan2` for two positions. -/
structure SegmentGeometry (K : Type) where
  segmentMetres : K × K → K × K → K
  bearing : K × K → K × K → K

variable (geometry : SegmentGeometry K)

/-- `segmentMetres(a, b) || 1`. -/
def SegmentGeometry.segLen (a b : K × K) : K :=
  if geometry.segmentMetres a b = 0 then 1 else geometry.segmentMetres a b

/-- The position of a route at an index. -/
def routeAt (route : List (K × K)) (i : Nat) : K × K := route.getD i (0, 0)

namespace SimVehicle

/-- The start of the vehicle's segment. -/
def segStart (v : SimVehicle K) : K × K := routeAt v.route v.segIndex

/-- The end of the vehicle's segment, which after the last position is the first. -/
def segEnd (v : SimVehicle K) : K × K := routeAt v.route ((v.segIndex + 1) % v.route.length)

/-- One turn of the loop, with the metres still to go. -/
def turn : SimVehicle K × K → Option (SimVehicle K × K)
  | (v, remaining) =>
    if 0 < remaining then
      let a := v.segStart
      let b := v.segEnd
      let segLen := geometry.segLen a b
      let segRemain := segLen * (1 - v.segFrac)
      if remaining < segRemain then
        some ({ v with segFrac := v.segFrac + remaining / segLen, heading := geometry.bearing a b },
          0)
      else
        some ({ v with
          segIndex := (v.segIndex + 1) % v.route.length
          segFrac := 0
          heading := geometry.bearing a b }, remaining - segRemain)
    else none

/-- The metres of a tick. -/
def tickMetres (v : SimVehicle K) (dtMs : K) : K := v.speed * (dtMs / 1000)

/-- The vehicle's coordinates are those of its place on the route. -/
def place (v : SimVehicle K) : SimVehicle K :=
  let a := v.segStart
  let b := v.segEnd
  { v with lng := a.1 + (b.1 - a.1) * v.segFrac, lat := a.2 + (b.2 - a.2) * v.segFrac }

/-- The vehicle after the loop, when every loop makes at most `fuel` turns. -/
def advance (fuel : Nat) (dtMs : K) (v : SimVehicle K) : Option (SimVehicle K) :=
  (exec (turn geometry) fuel (v, v.tickMetres dtMs)).map fun (v, _) => v.place

/-- One zone of the loop over the zones. -/
def meetZone (now : String) (v : SimVehicle K) (zone : SimZone K) :
    SimVehicle K × List (SimFrame K) :=
  let isIn := pointInRing v.lng v.lat zone.ring
  let was := decide (zone.id ∈ v.inside)
  if isIn && !was then
    ({ v with inside := insert zone.id v.inside },
      [.zoneEvent v.vehicleId zone.id .enter zone.label now])
  else if !isIn && was then
    ({ v with inside := v.inside.erase zone.id },
      [.zoneEvent v.vehicleId zone.id .exit zone.label now])
  else (v, [])

/-- The zones in order. -/
def meetZones (now : String) : List (SimZone K) → SimVehicle K → SimVehicle K × List (SimFrame K)
  | [], v => (v, [])
  | zone :: zones, v =>
    let (v, frames) := v.meetZone now zone
    let (v, later) := v.meetZones now zones
    (v, frames ++ later)

/-- `Math.round`. -/
def mathRound [FloorRing K] (x : K) : ℤ := ⌊x + 0.5⌋

/-- The frames of one vehicle at its new place. -/
def report [FloorRing K] (now : String) (v : SimVehicle K) : SimVehicle K × List (SimFrame K) :=
  let (after, events) := v.meetZones now simZones
  (after, .position v.vehicleId v.lat v.lng now (mathRound v.heading) (mathRound (v.speed * 3.6)) ::
    events)

end SimVehicle

/-- The vehicles of the fleet in order. -/
def tick [FloorRing K] (fuel : Nat) (dtMs : K) (now : String) :
    List (SimVehicle K) → Option (List (SimVehicle K) × List (SimFrame K))
  | [] => some ([], [])
  | v :: vehicles => do
    let v ← v.advance geometry fuel dtMs
    let (v, frames) := v.report now
    let (vehicles, later) ← tick fuel dtMs now vehicles
    return (v :: vehicles, frames ++ later)

end FleetCommand.Dashboard
