import Mathlib.Data.List.Rotate
import Mathlib.Data.Int.Cast.Defs

/-!
# Point-in-polygon containment

`Polygon.containsInclusive` of the geofence service over any coordinate type with the arithmetic and
the comparisons the source uses. No law of arithmetic is assumed, so the definitions read the same
over exact and over rounded numbers.
-/

set_option autoImplicit false

namespace FleetCommand.Geofence

/-- A WGS84 coordinate. Longitude is the x axis and latitude the y axis. -/
structure Point (K : Type) where
  lat : K
  lng : K
  deriving DecidableEq, BEq

/-- A linear ring of vertices, open or closed. -/
structure Polygon (K : Type) where
  vertices : List (Point K)
  deriving DecidableEq

variable {K : Type} [Add K] [Sub K] [Mul K] [Div K] [Neg K] [LT K] [DecidableLT K] [Min K] [Max K]
  [BEq K] [IntCast K]

/-- Bounds floating-point error when deciding whether a point lies on an edge. -/
def boundaryEpsilon : K := ((1 : Int) : K) / ((1000000000 : Int) : K)

/-- The vertices with a duplicated closing vertex removed. -/
def Polygon.ring (poly : Polygon K) : List (Point K) :=
  match poly.vertices.head?, poly.vertices.getLast? with
  | some a, some b =>
    if 2 ≤ poly.vertices.length ∧ (a == b) = true then poly.vertices.dropLast else poly.vertices
  | _, _ => poly.vertices

/-- Whether `p` lies on the closed segment `a`–`b`, up to `boundaryEpsilon`. -/
def onSegment (a b p : Point K) : Bool :=
  let cross := (b.lng - a.lng) * (p.lat - a.lat) - (b.lat - a.lat) * (p.lng - a.lng)
  if boundaryEpsilon < cross ∨ cross < -boundaryEpsilon then false
  else if p.lng < min a.lng b.lng - boundaryEpsilon ∨ max a.lng b.lng + boundaryEpsilon < p.lng then
    false
  else if p.lat < min a.lat b.lat - boundaryEpsilon ∨ max a.lat b.lat + boundaryEpsilon < p.lat then
    false
  else true

/-- Whether a horizontal ray from `p` crosses the edge from `j` to `i`. -/
def crosses (p i j : Point K) : Bool :=
  if decide (p.lat < i.lat) ≠ decide (p.lat < j.lat) then
    decide (p.lng < (j.lng - i.lng) * (p.lat - i.lat) / (j.lat - i.lat) + i.lng)
  else false

/-- The even-odd rule over the edges from each vertex's predecessor to it. -/
def insideRing (ring : List (Point K)) (p : Point K) : Bool :=
  (ring.zip (ring.rotate (ring.length - 1))).foldl
    (fun inside e => if crosses p e.1 e.2 then !inside else inside) false

/-- Whether `p` lies inside the polygon or on its boundary. -/
def Polygon.containsInclusive (poly : Polygon K) (p : Point K) : Bool :=
  let ring := poly.ring
  if ring.length < 3 then false
  else if (ring.zip (ring.rotate 1)).any fun e => onSegment e.1 e.2 p then true
  else insideRing ring p

end FleetCommand.Geofence
