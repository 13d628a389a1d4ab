import FleetCommand.Lib.InsertionMap
import FleetCommand.Lib.UnionFind
import Mathlib.Data.List.FinRange
import Mathlib.Data.List.Perm.Basic

/-!
# The route optimizer

`cluster_stops` puts the stops that are within 25 m of each other, directly or through others, into
one cluster; `solve_tsp` asks the routing solver for an order of the clusters; `optimize` returns
the delivery ids in that order, with the groups. Coordinates are of any type `C` with the arithmetic
of the centroid. The distance between two of them is floating point and enters as a `Geometry`; the
solver is a `Routing`.
-/

set_option autoImplicit false

namespace FleetCommand.Optimizer

/-- A single delivery destination. -/
structure Stop (C : Type) where
  deliveryId : String
  lat : C
  lng : C

/-- The numbers of stops that are optimized. -/
def minStops : Nat := 2
def maxStops : Nat := 50

/-- What is computed from `haversine_m` for two points. -/
structure Geometry (C : Type) where
  /-- The points are at most `GROUP_THRESHOLD_M` apart. -/
  near : C × C → C × C → Bool
  /-- The distance in units of the solver. -/
  dist : C × C → C × C → Int

variable {C : Type} (geometry : Geometry C)

/-! ## Clusters -/

/-- The loop over the pairs of `cluster_stops`: every stop is united with the later ones near it. -/
def uniteNear (stops : List (Stop C)) : UnionFind stops.length :=
  (List.finRange stops.length).foldl (fun uf i =>
    ((List.finRange stops.length).filter (i < ·)).foldl (fun uf j =>
      if geometry.near (stops[i].lat, stops[i].lng) (stops[j].lat, stops[j].lng) then uf.union i j
      else uf) uf) (.new stops.length)

/-- What the second loop of `cluster_stops` has built: the stops of each root, and the roots in the
order they were met. -/
structure Clusters (C : Type) (n : Nat) where
  uf : UnionFind n
  clusters : InsertionMap (Fin n) (List (Stop C))
  order : List (Fin n)

/-- One turn of the second loop. -/
def Clusters.add {n : Nat} (b : Clusters C n) (idx : Fin n) (stop : Stop C) : Clusters C n :=
  let (root, uf) := b.uf.find idx
  match b.clusters.get? root with
  | none => ⟨uf, b.clusters.set root [stop], b.order ++ [root]⟩
  | some cluster => ⟨uf, b.clusters.set root (cluster ++ [stop]), b.order⟩

/-- The groups of the stops that are linked by chains of near ones. -/
def clusterStops (stops : List (Stop C)) : List (List (Stop C)) :=
  let b := (List.finRange stops.length).foldl (fun b idx => b.add idx stops[idx])
    (⟨uniteNear geometry stops, .empty, []⟩ : Clusters C stops.length)
  b.order.map fun root => (b.clusters.get? root).getD []

/-! ## The order of the clusters -/

/-- The mean coordinates of a cluster. -/
def clusterCentroid [Zero C] [Add C] [Div C] [NatCast C] (cluster : List (Stop C)) : C × C :=
  ((cluster.map Stop.lat).foldl (· + ·) 0 / (cluster.length : C),
    (cluster.map Stop.lng).foldl (· + ·) 0 / (cluster.length : C))

/-- The routing solver for one vehicle that starts and ends at node 0: from the number of nodes and
the cost of an arc, the nodes the vehicle visits from its start on, or that no solution is found. -/
structure Routing where
  solve : (count : Nat) → (transit : Nat → Nat → Int) → Option (List Nat)

/-- A solution visits every node exactly once. -/
def Routing.VisitsEachNode (routing : Routing) : Prop :=
  ∀ count transit route, 0 < count → routing.solve count transit = some route →
    route.Perm (List.range count)

variable (routing : Routing)

/-- Node 0 is the origin, and the return to it is free; `nodes[k]` is node `k + 1`. -/
def solveTsp (origin : C × C) (nodes : List (C × C)) : List Nat :=
  match nodes with
  | [] => []
  | [_] => [0]
  | nodes =>
    let points := origin :: nodes
    let transit (fromNode toNode : Nat) : Int :=
      if toNode = 0 then 0
      else geometry.dist (points.getD fromNode origin) (points.getD toNode origin)
    match routing.solve points.length transit with
    | none => List.range nodes.length
    | some route => (route.filter (· ≠ 0)).map (· - 1)

/-! ## The optimizer -/

/-- Raised when the stop count is outside the supported range. -/
structure StopCountError where
  message : String

/-- The delivery ids in visiting order, and the groups of deliveries that share a stop. -/
structure Optimized where
  sequence : List String
  groups : List (List String)

/-- The groups in the order of the route, and their deliveries in sequence. -/
def optimize [Zero C] [Add C] [Div C] [NatCast C] (origin : C × C) (stops : List (Stop C)) :
    Except StopCountError Optimized :=
  if minStops ≤ stops.length ∧ stops.length ≤ maxStops then
    let clusters := clusterStops geometry stops
    let centroids := clusters.map clusterCentroid
    let order := solveTsp geometry routing origin centroids
    let orderedGroups := order.map fun i => (clusters.getD i []).map Stop.deliveryId
    .ok ⟨orderedGroups.flatten, orderedGroups⟩
  else
    .error ⟨s!"optimizer supports {minStops}..{maxStops} stops, got {stops.length}"⟩

end FleetCommand.Optimizer
