import FleetCommand.Optimizer.Solver

/-!
# Clusters

`cluster_stops` returns the connected components of the stops under proximity: the roots of the
union-find are equal for the stops that proximity connects (`same_uniteNear_iff`), and the loop that
collects the stops by root lists the members of every root in input order (`clusterStops_eq`); a
root is the first of its members, so the components come in the order of their first stops
(`clusterStops_components`). Coordinates are of any type, so proximity is any symmetric relation on
the stops. The solved order is a permutation of the clusters, so `optimize` returns every delivery
id once (`optimize_partitions`).
-/

set_option autoImplicit false

namespace FleetCommand.Optimizer

/-! ## The fibres of a list -/

section Fibres

variable {β κ : Type} [DecidableEq κ]

/-- The members of a list, collected by a key. -/
theorem flatMap_filter_perm (key : β → κ) {order : List κ} (hnodup : order.Nodup) (l : List β)
    (h : ∀ b ∈ l, key b ∈ order) : (order.flatMap fun r => l.filter (key · = r)).Perm l := by
  induction order generalizing l with
  | nil =>
    have hl : l = [] := List.eq_nil_iff_forall_not_mem.2 fun b hb => List.not_mem_nil (h b hb)
    rw [hl]
    exact List.Perm.refl []
  | cons r order ih =>
    obtain ⟨hr, hnodup⟩ := List.nodup_cons.1 hnodup
    -- the members of another key are found in what the first key leaves
    have hrest : (order.flatMap fun r' => l.filter (key · = r')) =
        order.flatMap fun r' => (l.filter fun b => !decide (key b = r)).filter (key · = r') := by
      apply List.flatMap_congr
      intro r' hr'
      rw [List.filter_filter]
      apply List.filter_congr
      intro b _
      rcases eq_or_ne (key b) r' with hb | hb
      · have hne : r' ≠ r := fun hrr => hr (hrr ▸ hr')
        simp [hb, hne]
      · simp [hb]
    rw [List.flatMap_cons, hrest]
    refine List.Perm.trans (List.Perm.append_left _ (ih hnodup _ ?_))
      (List.filter_append_perm (fun b => decide (key b = r)) l)
    intro b hb
    obtain ⟨hb, hkey⟩ := List.mem_filter.1 hb
    have hne : key b ≠ r := by simpa using hkey
    exact (List.mem_cons.1 (h b hb)).resolve_left hne

end Fibres

variable {C : Type} (geometry : Geometry C)

/-! ## Proximity -/

/-- Two stops of a list are at most the threshold apart. -/
def Near (stops : List (Stop C)) (i j : Fin stops.length) : Prop :=
  geometry.near ((stops.get i).lat, (stops.get i).lng) ((stops.get j).lat, (stops.get j).lng) = true

/-- The pairs united, in the order of the loops. -/
def nearPairs (stops : List (Stop C)) : List (Fin stops.length × Fin stops.length) :=
  (List.finRange stops.length).flatMap fun i =>
    (((List.finRange stops.length).filter (i < ·)).filter fun j =>
      geometry.near ((stops.get i).lat, (stops.get i).lng)
        ((stops.get j).lat, (stops.get j).lng)).map fun j => (i, j)

theorem mem_nearPairs_iff (stops : List (Stop C)) (i j : Fin stops.length) :
    (i, j) ∈ nearPairs geometry stops ↔ i < j ∧ Near geometry stops i j := by
  simp [nearPairs, Near, and_comm]

theorem uniteNear_eq (stops : List (Stop C)) :
    uniteNear geometry stops =
      (nearPairs geometry stops).foldl (fun uf p => uf.union p.1 p.2) (.new stops.length) := by
  rw [uniteNear, nearPairs, List.foldl_flatMap]
  congr
  funext uf i
  rw [List.foldl_map]
  simp only [List.foldl_filter, List.get_eq_getElem, Fin.getElem_fin]

/-- The clusters are the connected components: two stops get one root exactly when a chain of stops,
each near the next, leads from one to the other. -/
theorem same_uniteNear_iff (stops : List (Stop C)) (i j : Fin stops.length)
    (hsymm : ∀ i j, Near geometry stops i j → Near geometry stops j i) :
    (uniteNear geometry stops).Same i j ↔ Relation.EqvGen (Near geometry stops) i j := by
  rw [uniteNear_eq, UnionFind.same_foldl_union_iff]
  simp only [mem_nearPairs_iff, UnionFind.Same, UnionFind.root_new]
  constructor
  · intro h
    induction h with
    | rel a b h =>
      rcases h with rfl | ⟨-, h⟩
      · exact .refl a
      · exact .rel a b h
    | refl a => exact .refl a
    | symm a b h ih => exact .symm a b ih
    | trans a b c h h' ih ih' => exact .trans a b c ih ih'
  · intro h
    induction h with
    | rel a b h =>
      -- the loops meet a pair with its smaller index first
      rcases lt_trichotomy a b with hlt | rfl | hlt
      · exact .rel a b (.inr ⟨hlt, h⟩)
      · exact .refl a
      · exact .symm b a (.rel b a (.inr ⟨hlt, hsymm a b h⟩))
    | refl a => exact .refl a
    | symm a b h ih => exact .symm a b ih
    | trans a b c h h' ih ih' => exact .trans a b c ih ih'

/-! ## Collecting the clusters -/

/-- The second loop of `cluster_stops` after the stops `done`, each with its root `key`. -/
structure Collected {n : Nat} (key : Fin n → Fin n) (stop : Fin n → Stop C) (b : Clusters C n)
    (done : List (Fin n)) : Prop where
  root : ∀ i, b.uf.root i = key i
  order : b.order = done.filter fun i => key i = i
  cluster : ∀ r, b.clusters.get? r =
    if r ∈ done.map key then some ((done.filter (key · = r)).map stop) else none

section Collecting

variable {n : Nat} {key : Fin n → Fin n} {stop : Fin n → Stop C} (hle : ∀ i, key i ≤ i)
  (hidem : ∀ i, key (key i) = key i)

include hle hidem

/-- A root is the least member of its cluster, so it has been met unless the loop is at it. -/
theorem key_mem_map_iff {done : List (Fin n)} {i : Fin n} (hdone : ∀ j, j ∈ done ↔ j < i) :
    key i ∈ done.map key ↔ key i ≠ i := by
  constructor
  · intro hmem hself
    obtain ⟨j, hj, hkey⟩ := List.mem_map.1 hmem
    have hij : i ≤ j := (hkey.trans hself) ▸ hle j
    exact absurd ((hdone j).1 hj) (not_lt.2 hij)
  · intro hne
    have hlt : key i < i := lt_of_le_of_ne (hle i) hne
    exact List.mem_map.2 ⟨key i, (hdone _).2 hlt, hidem i⟩

theorem Collected.add {b : Clusters C n} {done : List (Fin n)} {i : Fin n}
    (h : Collected key stop b done) (hdone : ∀ j, j ∈ done ↔ j < i) :
    Collected key stop (b.add i (stop i)) (done ++ [i]) := by
  have hroot : (b.uf.find i).1 = key i := h.root i
  have hcluster := h.cluster (key i)
  have hmet := key_mem_map_iff hle hidem hdone
  rw [Clusters.add]
  dsimp only
  rw [hroot]
  rcases Classical.em (key i ∈ done.map key) with hmem | hmem
  · -- the cluster is there, and the stop joins it
    rw [if_pos hmem] at hcluster
    rw [hcluster]
    constructor
    · intro j
      rw [UnionFind.root_find, h.root]
    · have hne : key i ≠ i := hmet.1 hmem
      rw [h.order, List.filter_append, List.filter_cons_of_neg (by simpa using hne),
        List.filter_nil, List.append_nil]
    · intro r
      rw [InsertionMap.get?_set, List.map_append, List.filter_append, List.map_append]
      rcases eq_or_ne r (key i) with rfl | hr
      · simp
      · rw [if_neg hr, h.cluster]
        simp [hr, hr.symm]
  · -- the first stop of its root, which is the root itself
    rw [if_neg hmem] at hcluster
    rw [hcluster]
    constructor
    · intro j
      rw [UnionFind.root_find, h.root]
    · have hself : key i = i := not_not.1 (mt hmet.2 hmem)
      rw [h.order, hself, List.filter_append, List.filter_cons_of_pos (by simpa using hself),
        List.filter_nil]
    · intro r
      rw [InsertionMap.get?_set, List.map_append, List.filter_append, List.map_append]
      rcases eq_or_ne r (key i) with rfl | hr
      · have hnone : done.filter (key · = key i) = [] := by
          rw [List.filter_eq_nil_iff]
          intro j hj hkey
          exact hmem (of_decide_eq_true hkey ▸ List.mem_map_of_mem hj)
        simp [hnone]
      · rw [if_neg hr, h.cluster]
        simp [hr, hr.symm]

theorem Collected.run (rest : List (Fin n)) {b : Clusters C n} {done : List (Fin n)}
    (h : Collected key stop b done) (hall : done ++ rest = List.finRange n) :
    Collected key stop (rest.foldl (fun b i => b.add i (stop i)) b) (List.finRange n) := by
  induction rest generalizing b done with
  | nil => rwa [← hall, List.append_nil]
  | cons i rest ih =>
    -- the stops before `i` are those below it
    have hsorted : (done ++ i :: rest).Pairwise (· < ·) := hall ▸ List.pairwise_lt_finRange n
    obtain ⟨-, htail, hbelow⟩ := List.pairwise_append.1 hsorted
    have hdone : ∀ j, j ∈ done ↔ j < i := by
      intro j
      constructor
      · exact fun hj => hbelow j hj i List.mem_cons_self
      · intro hlt
        have hj : j ∈ done ++ i :: rest := hall ▸ List.mem_finRange j
        refine (List.mem_append.1 hj).resolve_right fun hlater => ?_
        rcases List.mem_cons.1 hlater with rfl | hlater
        · exact lt_irrefl j hlt
        · exact lt_asymm hlt ((List.pairwise_cons.1 htail).1 j hlater)
    rw [List.append_cons] at hall
    exact ih (h.add hle hidem hdone) hall

end Collecting

/-- The roots, in input order. -/
def roots (stops : List (Stop C)) : List (Fin stops.length) :=
  (List.finRange stops.length).filter fun i => (uniteNear geometry stops).root i = i

/-- The stops of a root, in input order. -/
def membersOf (stops : List (Stop C)) (r : Fin stops.length) : List (Fin stops.length) :=
  (List.finRange stops.length).filter ((uniteNear geometry stops).root · = r)

theorem mem_membersOf_iff {stops : List (Stop C)} {r i : Fin stops.length} :
    i ∈ membersOf geometry stops r ↔ (uniteNear geometry stops).root i = r := by
  simp [membersOf]

theorem mem_roots_iff {stops : List (Stop C)} {r : Fin stops.length} :
    r ∈ roots geometry stops ↔ (uniteNear geometry stops).root r = r := by
  simp [roots]

/-- The clusters: for every root the stops that have it. -/
theorem clusterStops_eq (stops : List (Stop C)) :
    clusterStops geometry stops =
      (roots geometry stops).map fun r => (membersOf geometry stops r).map stops.get := by
  let uf := uniteNear geometry stops
  have hstart : Collected uf.root stops.get ⟨uf, .empty, []⟩ [] :=
    ⟨fun i => rfl, rfl, fun r => by simp⟩
  have hrun := hstart.run uf.root_le uf.root_root (List.finRange stops.length) rfl
  refine (List.map_congr_left fun r hr => ?_).trans (congrArg _ hrun.order)
  have hmem : r ∈ (List.finRange stops.length).map uf.root := by
    obtain ⟨hr, hself⟩ := List.mem_filter.1 ((congrArg (r ∈ ·) hrun.order).mp hr)
    exact List.mem_map.2 ⟨r, hr, of_decide_eq_true hself⟩
  have hcluster := hrun.cluster r
  rw [if_pos hmem] at hcluster
  exact congrArg (Option.getD · []) hcluster

/-- The members of the roots are all stops, each once. -/
theorem members_perm (stops : List (Stop C)) :
    ((roots geometry stops).flatMap (membersOf geometry stops)).Perm
      (List.finRange stops.length) := by
  apply flatMap_filter_perm (uniteNear geometry stops).root
  · exact (List.nodup_finRange _).filter _
  · intro i _
    exact (mem_roots_iff geometry).2 (UnionFind.root_root _ i)

/-- Every stop is in exactly one cluster. -/
theorem clusterStops_flatten_perm (stops : List (Stop C)) :
    (clusterStops geometry stops).flatten.Perm stops := by
  have hstops : (List.finRange stops.length).map stops.get = stops := List.map_get_finRange stops
  rw [clusterStops_eq, ← List.flatMap_def, ← List.map_flatMap]
  exact ((members_perm geometry stops).map _).trans (List.Perm.of_eq hstops)

theorem clusterStops_ne_nil (stops : List (Stop C)) :
    ∀ cluster ∈ clusterStops geometry stops, cluster ≠ [] := by
  rw [clusterStops_eq]
  intro cluster hcluster
  obtain ⟨r, hr, rfl⟩ := List.mem_map.1 hcluster
  have hmem : r ∈ membersOf geometry stops r :=
    (mem_membersOf_iff geometry).2 ((mem_roots_iff geometry).1 hr)
  exact List.ne_nil_of_mem (List.mem_map_of_mem hmem)

/-! ## Connected components -/

/-- The blocks are the connected components of a relation on the indices, each with its members in
increasing order, ordered by their first members. -/
structure AreComponents {n : Nat} (r : Fin n → Fin n → Prop) (blocks : List (List (Fin n))) :
    Prop where
  partition : blocks.flatten.Perm (List.finRange n)
  nonempty : ∀ block ∈ blocks, block ≠ []
  connected : ∀ block ∈ blocks, ∀ i ∈ block, ∀ j, j ∈ block ↔ Relation.ReflTransGen r i j
  increasing : ∀ block ∈ blocks, block.Pairwise (· < ·)
  ordered : blocks.Pairwise fun block block' => ∀ i ∈ block.head?, ∀ j ∈ block'.head?, i < j

theorem membersOf_increasing (stops : List (Stop C)) (r : Fin stops.length) :
    (membersOf geometry stops r).Pairwise (· < ·) :=
  (List.pairwise_lt_finRange _).filter _

/-- The first stop of a root is the root. -/
theorem eq_of_mem_head {stops : List (Stop C)} {r i : Fin stops.length}
    (hr : r ∈ roots geometry stops) (hi : i ∈ (membersOf geometry stops r).head?) : i = r := by
  obtain ⟨rest, hmembers⟩ := List.head?_eq_some_iff.1 hi
  have hsorted := membersOf_increasing geometry stops r
  have hmem : r ∈ membersOf geometry stops r :=
    (mem_membersOf_iff geometry).2 ((mem_roots_iff geometry).1 hr)
  have hroot : (uniteNear geometry stops).root i = r :=
    (mem_membersOf_iff geometry).1 (hmembers ▸ List.mem_cons_self)
  have hle : r ≤ i := hroot ▸ UnionFind.root_le _ i
  rw [hmembers] at hsorted hmem
  rcases List.mem_cons.1 hmem with rfl | hlater
  · rfl
  · exact absurd ((List.pairwise_cons.1 hsorted).1 r hlater) (not_lt.2 hle)

/-- The clusters are the connected components of the stops, whatever symmetric relation proximity
is. -/
theorem clusterStops_components (stops : List (Stop C))
    (hsymm : ∀ i j, Near geometry stops i j → Near geometry stops j i) :
    ∃ blocks : List (List (Fin stops.length)),
      clusterStops geometry stops = blocks.map (List.map stops.get) ∧
      AreComponents (Near geometry stops) blocks := by
  have hchain : Relation.EqvGen (Near geometry stops) =
      Relation.ReflTransGen (Near geometry stops) :=
    have : Std.Symm (Near geometry stops) := ⟨hsymm⟩
    Relation.EqvGen.eqvGen_eq_reflTransGen _
  have hblock : ∀ block ∈ (roots geometry stops).map (membersOf geometry stops),
      ∃ r ∈ roots geometry stops, membersOf geometry stops r = block :=
    fun block hblock => List.mem_map.1 hblock
  refine ⟨(roots geometry stops).map (membersOf geometry stops), ?_, ?_, ?_, ?_, ?_, ?_⟩
  · rw [clusterStops_eq, List.map_map]
    rfl
  · rw [← List.flatMap_def]
    exact members_perm geometry stops
  · intro block h
    obtain ⟨r, hr, rfl⟩ := hblock block h
    exact List.ne_nil_of_mem ((mem_membersOf_iff geometry).2 ((mem_roots_iff geometry).1 hr))
  · intro block h i hi j
    obtain ⟨r, hr, rfl⟩ := hblock block h
    rw [mem_membersOf_iff] at hi ⊢
    rw [← hchain, ← same_uniteNear_iff geometry stops i j hsymm, UnionFind.Same, hi]
    exact eq_comm
  · intro block h
    obtain ⟨r, -, rfl⟩ := hblock block h
    exact membersOf_increasing geometry stops r
  · rw [List.pairwise_map]
    refine List.Pairwise.imp_of_mem ?_ ((List.pairwise_lt_finRange _).filter _)
    intro r r' hr hr' hlt i hi j hj
    rw [eq_of_mem_head geometry hr hi, eq_of_mem_head geometry hr' hj]
    exact hlt

/-- Stops on a line, near each other up to one unit: the first and the third are connected through
the last. -/
def chainedStops : List (Stop Int) := [⟨"p", 0, 0⟩, ⟨"q", 9, 0⟩, ⟨"r", 2, 0⟩, ⟨"s", 1, 0⟩]

/-- Points of a line, near each other up to a distance of one. -/
def unitGeometry : Geometry Int where
  near p q := (p.1 - q.1).natAbs ≤ 1 ∧ p.2 = q.2
  dist p q := p.1 - q.1

example : (clusterStops unitGeometry chainedStops).map (List.map Stop.deliveryId) =
    [["p", "r", "s"], ["q"]] := by
  decide +kernel

theorem clusterStops_components_chained :
    ∃ blocks : List (List (Fin chainedStops.length)),
      clusterStops unitGeometry chainedStops = blocks.map (List.map chainedStops.get) ∧
      AreComponents (Near unitGeometry chainedStops) blocks :=
  clusterStops_components unitGeometry chainedStops (by unfold Near; decide)

/-! ## The solved order -/

variable {routing : Routing}

theorem map_pred_filter_range (n : Nat) :
    ((List.range (n + 1)).filter (· ≠ 0)).map (· - 1) = List.range n := by
  rw [List.range_succ_eq_map, List.filter_cons_of_neg (by simp), List.filter_map, List.map_map]
  simp [Function.comp_def]

/-- The solved order visits every cluster once; so does the fallback. -/
theorem solveTsp_perm (hrouting : routing.VisitsEachNode) (origin : C × C) (nodes : List (C × C)) :
    (solveTsp geometry routing origin nodes).Perm (List.range nodes.length) := by
  rcases nodes with - | ⟨node, - | ⟨node', nodes⟩⟩
  · exact List.Perm.refl []
  · exact List.Perm.refl [0]
  · rw [solveTsp.eq_3 _ _ _ _ (by simp) (by simp)]
    split
    · exact List.Perm.refl _
    next route hroute =>
      have hperm := hrouting _ _ route (Nat.succ_pos _) hroute
      rw [List.length_cons] at hperm
      rw [← map_pred_filter_range]
      exact (hperm.filter _).map _

/-- What the optimizer returns for a permitted number of stops: groups that are not empty and hold
every delivery once, and the groups' members in the groups' order. -/
theorem optimize_partitions [Zero C] [Add C] [Div C] [NatCast C]
    (hrouting : routing.VisitsEachNode) (origin : C × C) (stops : List (Stop C))
    (hmin : minStops ≤ stops.length) (hmax : stops.length ≤ maxStops) :
    ∃ groups : List (List String),
      optimize geometry routing origin stops = .ok ⟨groups.flatten, groups⟩ ∧
      groups.flatten.Perm (stops.map Stop.deliveryId) ∧ ∀ group ∈ groups, group ≠ [] := by
  let clusters := clusterStops geometry stops
  let order := solveTsp geometry routing origin (clusters.map clusterCentroid)
  have horder : order.Perm (List.range clusters.length) := by
    have h := solveTsp_perm geometry hrouting origin (clusters.map clusterCentroid)
    rwa [List.length_map] at h
  have hall : (List.range clusters.length).map (fun i => clusters.getD i []) = clusters := by
    apply List.ext_getElem
    · simp
    · intro i h _
      rw [List.length_map, List.length_range] at h
      simp [h]
  -- the groups are the clusters in another order
  have hgroups : (order.map fun i => (clusters.getD i []).map Stop.deliveryId).Perm
      (clusters.map fun cluster => cluster.map Stop.deliveryId) := by
    have hvisited : (order.map fun i => clusters.getD i []).Perm clusters :=
      (horder.map _).trans (List.Perm.of_eq hall)
    have hids := hvisited.map fun cluster => cluster.map Stop.deliveryId
    rwa [List.map_map] at hids
  refine ⟨order.map fun i => (clusters.getD i []).map Stop.deliveryId, ?_, ?_, ?_⟩
  · rw [optimize, if_pos ⟨hmin, hmax⟩]
  · refine hgroups.flatten.trans ?_
    rw [← List.map_flatten]
    exact (clusterStops_flatten_perm geometry stops).map _
  · intro group hgroup
    obtain ⟨cluster, hcluster, rfl⟩ := List.mem_map.1 (hgroups.mem_iff.1 hgroup)
    intro hnil
    exact clusterStops_ne_nil geometry stops cluster hcluster (List.map_eq_nil_iff.1 hnil)

end FleetCommand.Optimizer
