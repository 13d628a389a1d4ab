import FleetCommand.Lib.WalkCost
import FleetCommand.Optimizer.Agreement
import Mathlib.Data.List.Permutation
import Mathlib.Data.Rat.Cast.Order

/-!
# The order of the stops as an open route

The routing solver plans closed tours, and a delivery run does not return: `solve_tsp` makes the way
back to the origin free and gives the solver whole units of distance. So the solver's tours of the
nodes are the orders of the clusters (`Tour.order`), the cost of a tour is the length of its order
as an open route but for the rounding, and what the solver loses on the best tour is what the order
loses on the shortest one (`optimize_near_shortest`).
-/

set_option autoImplicit false

namespace FleetCommand.Optimizer

open WalkCost

variable {C : Type} (geometry : Geometry C) (routing : Routing)

/-- Units of the solver in a metre. -/
def distanceScale : Nat := 100

/-- The cost of an arc that `solve_tsp` gives the solver. -/
def transit (origin : C × C) (nodes : List (C × C)) (fromNode toNode : Nat) : Int :=
  if toNode = 0 then 0
  else geometry.dist ((origin :: nodes).getD fromNode origin) ((origin :: nodes).getD toNode origin)

/-- The nodes visited after node 0, each once. -/
def Tour (count : Nat) (visits : List Nat) : Prop := (0 :: visits).Perm (List.range count)

/-- The solver finds a tour, and no tour is cheaper by more than `slack`. -/
def Routing.Finds (slack : Int) (count : Nat) (transit : Nat → Nat → Int) : Prop :=
  ∃ visits, routing.solve count transit = some (0 :: visits) ∧ Tour count visits ∧
    ∀ other, Tour count other → tourCost transit 0 visits ≤ tourCost transit 0 other + slack

/-- The metres from the origin through the nodes in some order. -/
def routeMetres {K : Type} [Zero K] [Add K] (metres : C × C → C × C → K) (origin : C × C)
    (nodes : List (C × C)) (order : List Nat) : K :=
  walkCost metres origin (order.map fun i => nodes.getD i origin)

/-! ## Tours and orders -/

/-- The order of the clusters that a tour stands for. -/
def Tour.order (visits : List Nat) : List Nat := visits.map (· - 1)

section Tours

variable {count : Nat} {visits : List Nat}

theorem Tour.pos (h : Tour (count + 1) visits) : ∀ i ∈ visits, 0 < i := by
  have hnodup : (0 :: visits).Nodup := h.nodup_iff.2 List.nodup_range
  intro i hi
  rcases Nat.eq_zero_or_pos i with rfl | hpos
  · exact absurd hi (List.nodup_cons.1 hnodup).1
  · exact hpos

theorem Tour.perm_succ (h : Tour (count + 1) visits) :
    visits.Perm ((List.range count).map Nat.succ) := by
  rw [Tour, List.range_succ_eq_map] at h
  exact h.cons_inv

theorem Tour.order_perm (h : Tour (count + 1) visits) :
    (Tour.order visits).Perm (List.range count) := by
  have hperm := h.perm_succ.map (· - 1)
  rw [List.map_map] at hperm
  exact hperm.trans (List.Perm.of_eq (List.map_id _))

/-- Every order of the clusters is that of a tour. -/
theorem tour_of_order {order : List Nat} (h : order.Perm (List.range count)) :
    Tour (count + 1) (order.map Nat.succ) ∧ Tour.order (order.map Nat.succ) = order := by
  constructor
  · rw [Tour, List.range_succ_eq_map]
    exact (h.map _).cons 0
  · rw [Tour.order, List.map_map]
    exact List.map_id _

end Tours

section Cost

variable {geometry} {origin : C × C} {nodes : List (C × C)}

/-- A tour costs what its order does as an open route. -/
theorem tourCost_transit {visits : List Nat} (hpos : ∀ i ∈ visits, 0 < i) :
    tourCost (transit geometry origin nodes) 0 visits =
      routeMetres geometry.dist origin nodes (Tour.order visits) := by
  have hsteps : ∀ x, ∀ y ∈ visits, transit geometry origin nodes x y =
      geometry.dist ((origin :: nodes).getD x origin) ((origin :: nodes).getD y origin) :=
    fun x y hy => if_neg (hpos y hy).ne'
  -- the nodes are counted from 1 in the tour and from 0 in the order
  have hpoints : visits.map (fun i => (origin :: nodes).getD i origin) =
      (Tour.order visits).map fun i => nodes.getD i origin := by
    rw [Tour.order, List.map_map]
    refine List.map_congr_left fun i hi => ?_
    obtain ⟨k, rfl⟩ := Nat.exists_eq_succ_of_ne_zero (hpos i hi).ne'
    rfl
  have hfree : ∀ x, transit geometry origin nodes x 0 = 0 := fun x => if_pos rfl
  rw [tourCost_eq hfree, walkCost_congr hsteps, routeMetres, ← hpoints]
  exact (walkCost_map geometry.dist (fun i => (origin :: nodes).getD i origin) 0 visits).symm

variable {routing}

/-- The solver's tour, read as the source does: node 0 left out and the nodes counted from 0. -/
theorem solveTsp_eq_order {visits : List Nat} (hlength : 2 ≤ nodes.length)
    (hsolve : routing.solve (nodes.length + 1) (transit geometry origin nodes) =
      some (0 :: visits)) (hpos : ∀ i ∈ visits, 0 < i) :
    solveTsp geometry routing origin nodes = Tour.order visits := by
  rcases nodes with - | ⟨node, - | ⟨node', nodes⟩⟩
  · exact absurd hlength (Nat.not_le_of_gt Nat.two_pos)
  · exact absurd hlength (Nat.not_le_of_gt Nat.one_lt_two)
  · have hfilter : (0 :: visits).filter (· ≠ 0) = visits := by
      rw [List.filter_cons_of_neg (by simp), List.filter_eq_self]
      exact fun i hi => decide_eq_true (hpos i hi).ne'
    rw [solveTsp.eq_3 _ _ _ _ (by simp) (by simp)]
    unfold transit at hsolve
    simp only [List.length_cons] at hsolve ⊢
    rw [hsolve]
    exact congrArg (List.map (· - 1)) hfilter

end Cost

/-! ## The order the optimizer returns -/

section Optimize

variable {K : Type} [Field K] [LinearOrder K] [IsStrictOrderedRing K]
variable {geometry routing} {metres : C × C → C × C → K} {origin : C × C} {slack : Int}

/-- An order that is short by the solver's units is nearly so in metres. -/
theorem routeMetres_le_of_units
    (hround : ∀ a b, |(geometry.dist a b : K) - distanceScale * metres a b| ≤ 1 / 2)
    {nodes : List (C × C)} {order other : List Nat} (hlength : order.length = other.length)
    (hle : routeMetres geometry.dist origin nodes order ≤
      routeMetres geometry.dist origin nodes other + slack) :
    routeMetres metres origin nodes order ≤
      routeMetres metres origin nodes other + (order.length + slack) / distanceScale := by
  have hunits (l : List (C × C)) : ((walkCost geometry.dist origin l : Int) : K) =
      walkCost (fun a b => (geometry.dist a b : K)) origin l :=
    map_walkCost (Int.castAddHom K) geometry.dist origin l
  have hcast := Int.cast_le (R := K).2 hle
  rw [Int.cast_add, routeMetres, routeMetres, hunits, hunits] at hcast
  -- each leg was rounded by at most half a unit
  have hscale : (0 : K) < distanceScale := Nat.cast_pos.2 (by decide)
  have hmetres := walkCost_le_of_rounded hscale hround origin
    (by rw [List.length_map, List.length_map, hlength]) hcast
  rwa [List.length_map] at hmetres

/-- The order `solve_tsp` returns is one of the nodes, and no other order of them is shorter by more
than the solver's slack and the rounding. -/
theorem solveTsp_near_shortest
    (hround : ∀ a b, |(geometry.dist a b : K) - distanceScale * metres a b| ≤ 1 / 2)
    {nodes : List (C × C)}
    (hfinds : routing.Finds slack (nodes.length + 1) (transit geometry origin nodes)) :
    (solveTsp geometry routing origin nodes).Perm (List.range nodes.length) ∧
    ∀ other : List Nat, other.Perm (List.range nodes.length) →
      routeMetres metres origin nodes (solveTsp geometry routing origin nodes) ≤
        routeMetres metres origin nodes other + (nodes.length + slack) / distanceScale := by
  obtain ⟨visits, hsolve, htour, hbest⟩ := hfinds
  have horder : (solveTsp geometry routing origin nodes).Perm (List.range nodes.length) ∧
      ∀ other : List Nat, other.Perm (List.range nodes.length) →
        routeMetres geometry.dist origin nodes (solveTsp geometry routing origin nodes) ≤
          routeMetres geometry.dist origin nodes other + slack := by
    by_cases hlength : 2 ≤ nodes.length
    · rw [solveTsp_eq_order hlength hsolve htour.pos]
      refine ⟨htour.order_perm, fun other hother => ?_⟩
      obtain ⟨hother', horder⟩ := tour_of_order hother
      have hle := hbest _ hother'
      rw [tourCost_transit htour.pos, tourCost_transit hother'.pos, horder] at hle
      exact hle
    · -- at most one node: there is one order only
      have hslack : 0 ≤ slack := le_add_iff_nonneg_right _ |>.1 (hbest _ htour)
      have hsame : ∀ other : List Nat, other.Perm (List.range nodes.length) →
          solveTsp geometry routing origin nodes = other := by
        intro other hother
        rcases nodes with - | ⟨node, - | ⟨node', nodes⟩⟩
        · exact (List.perm_nil.1 hother).symm
        · exact (List.perm_singleton.1 hother).symm
        · exact absurd (Nat.le_add_left 2 nodes.length) hlength
      refine ⟨List.Perm.of_eq (hsame _ (List.Perm.refl _)), fun other hother => ?_⟩
      rw [hsame other hother]
      exact le_add_of_nonneg_right hslack
  refine ⟨horder.1, fun other hother => ?_⟩
  have hsame := horder.1.length_eq
  have hmetres := routeMetres_le_of_units hround (hsame.trans hother.length_eq.symm)
    (horder.2 other hother)
  rwa [hsame, List.length_range] at hmetres

variable [Zero C] [Add C] [Div C] [NatCast C]

/-- When the solver finds a tour that no other undercuts by more than its slack, the optimizer
returns the clusters in an order that, as an open route from the origin through their centroids, no
other order of them undercuts by more than that slack and a hundredth of a metre a cluster. -/
theorem optimize_near_shortest
    (hround : ∀ a b, |(geometry.dist a b : K) - distanceScale * metres a b| ≤ 1 / 2)
    (origin : C × C) (stops : List (Stop C)) (hmin : minStops ≤ stops.length)
    (hmax : stops.length ≤ maxStops)
    (hfinds : routing.Finds slack ((clusterStops geometry stops).length + 1)
      (transit geometry origin ((clusterStops geometry stops).map clusterCentroid))) :
    let clusters := clusterStops geometry stops
    let nodes := clusters.map clusterCentroid
    ∃ order : List Nat, order.Perm (List.range clusters.length) ∧
      (let groups := order.map fun i => (clusters.getD i []).map Stop.deliveryId
      optimize geometry routing origin stops = .ok ⟨groups.flatten, groups⟩) ∧
      ∀ other : List Nat, other.Perm (List.range clusters.length) →
        routeMetres metres origin nodes order ≤
          routeMetres metres origin nodes other + (clusters.length + slack) / distanceScale := by
  intro clusters nodes
  have hlength : nodes.length = clusters.length := List.length_map _
  rw [← hlength] at hfinds ⊢
  obtain ⟨hperm, hbest⟩ := solveTsp_near_shortest hround hfinds
  exact ⟨_, hperm, if_pos ⟨hmin, hmax⟩, hbest⟩

end Optimize

/-- The distance on the grid in metres. -/
def gridMetres (p q : Int × Int) : ℚ := ((p.1 - q.1).natAbs + (p.2 - q.2).natAbs : Int)

theorem grid_dist_eq (p q : Int × Int) :
    (grid.dist p q : ℚ) - distanceScale * gridMetres p q = 0 := by
  simp only [grid, gridMetres, distanceScale]
  push_cast
  ring

/-- In input order the two stops are nearest first. -/
theorem inOrder_finds : inOrder.Finds 0 ((clusterStops grid twoStops).length + 1)
    (transit grid (0, 0) ((clusterStops grid twoStops).map clusterCentroid)) := by
  have hclusters : (clusterStops grid twoStops).length = 2 := by decide +kernel
  rw [hclusters]
  refine ⟨[1, 2], rfl, List.Perm.refl _, fun other hother => ?_⟩
  have hall : ∀ other ∈ ([1, 2] : List Nat).permutations',
      tourCost (transit grid (0, 0) ((clusterStops grid twoStops).map clusterCentroid)) 0 [1, 2] ≤
        tourCost (transit grid (0, 0) ((clusterStops grid twoStops).map clusterCentroid)) 0 other +
          0 := by
    decide +kernel
  exact hall other (List.mem_permutations'.2 hother.cons_inv)

theorem twoStops_near_shortest :
    let clusters := clusterStops grid twoStops
    let nodes := clusters.map clusterCentroid
    ∃ order : List Nat, order.Perm (List.range clusters.length) ∧
      (let groups := order.map fun i => (clusters.getD i []).map Stop.deliveryId
      optimize grid inOrder (0, 0) twoStops = .ok ⟨groups.flatten, groups⟩) ∧
      ∀ other : List Nat, other.Perm (List.range clusters.length) →
        routeMetres gridMetres (0, 0) nodes order ≤
          routeMetres gridMetres (0, 0) nodes other +
            (clusters.length + (0 : Int)) / distanceScale :=
  optimize_near_shortest (fun p q => by rw [grid_dist_eq, abs_zero]; norm_num) (0, 0) twoStops
    (by decide) (by decide) inOrder_finds

end FleetCommand.Optimizer
