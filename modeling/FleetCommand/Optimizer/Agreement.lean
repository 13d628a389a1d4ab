import FleetCommand.Management.RouteCoverage
import FleetCommand.Optimizer.Clusters
import Mathlib.Algebra.Ring.Int.Defs

/-!
# The optimizer and the route builder

The route builder gets the optimizer's groups as lists of ids beside the flattened sequence and
finds the stops again through a lookup of each id's group. For groups that are not empty and share
no id the lookup gives the first member (`get?_groupKeys`), and the loop rebuilds the groups one
stop each (`optimizedStops_eq`). The optimizer's groups are such, so what it decides is what the
route gets.
-/

set_option autoImplicit false

namespace FleetCommand.Optimizer

open Resumption Management

/-! ## The group lookup -/

section Lookup

variable {known : InsertionMap String RoutableDelivery}

/-- One turn of the loop of `groupKeys`: a group of known deliveries. -/
def setGroup (m : InsertionMap String String) (first : String) (group : List String) :
    InsertionMap String String :=
  group.foldl (fun m id => m.set id first) m

theorem get?_setGroup (m : InsertionMap String String) (first : String) (group : List String)
    (id : String) :
    (setGroup m first group).get? id = if id ∈ group then some first else m.get? id := by
  induction group generalizing m with
  | nil => simp [setGroup]
  | cons id' group ih =>
    rw [setGroup, List.foldl_cons]
    have h := ih (m.set id' first)
    rw [setGroup] at h
    rw [h, InsertionMap.get?_set]
    rcases eq_or_ne id id' with rfl | hne
    · simp
    · simp [hne]

theorem groupKeys_eq {groups : List (List String)}
    (hknown : ∀ id ∈ groups.flatten, (known.get? id).isSome) :
    groupKeys known groups = groups.foldl (fun m group =>
      match group.head? with
      | none => m
      | some first => setGroup m first group) .empty := by
  rw [groupKeys]
  apply List.foldl_ext
  intro m group hgroup
  have hall : group.filter (fun id => (known.get? id).isSome) = group :=
    List.filter_eq_self.2 fun id hid => hknown id (List.mem_flatten_of_mem hgroup hid)
  dsimp only
  rw [hall]
  rfl

/-- In groups that share no id, the key of a delivery is the first member of its group. -/
theorem get?_groupKeys {groups : List (List String)} (hnodup : groups.flatten.Nodup)
    (hknown : ∀ id ∈ groups.flatten, (known.get? id).isSome) {group : List String}
    (hgroup : group ∈ groups) {id : String} (hid : id ∈ group) :
    (groupKeys known groups).get? id = group.head? := by
  rw [groupKeys_eq hknown]
  clear hknown
  generalize InsertionMap.empty = m
  -- on the groups still to register: a later group without the id leaves its key alone
  have hother : ∀ (rest : List (List String)) (m : InsertionMap String String),
      id ∉ rest.flatten → (rest.foldl (fun m group =>
        match group.head? with
        | none => m
        | some first => setGroup m first group) m).get? id = m.get? id := by
    intro rest
    induction rest with
    | nil => exact fun m _ => rfl
    | cons g rest ih =>
      intro m hnot
      rw [List.flatten_cons, List.mem_append, not_or] at hnot
      rw [List.foldl_cons, ih _ hnot.2]
      cases g.head? with
      | none => rfl
      | some first =>
        dsimp only
        rw [get?_setGroup, if_neg hnot.1]
  induction groups generalizing m with
  | nil => exact absurd hgroup List.not_mem_nil
  | cons g rest ih =>
    rw [List.flatten_cons, List.nodup_append] at hnodup
    obtain ⟨-, hrest, hdisjoint⟩ := hnodup
    rw [List.foldl_cons]
    rcases List.mem_cons.1 hgroup with rfl | hgroup
    · rw [hother _ _ fun hmem => hdisjoint id hid id hmem rfl]
      cases hfirst : group.head? with
      | none => exact absurd (List.head?_eq_none_iff.1 hfirst) (List.ne_nil_of_mem hid)
      | some first =>
        dsimp only
        rw [get?_setGroup, if_pos hid]
    · exact ih hrest hgroup _

theorem get?_byId {deliveries : List RoutableDelivery} {id : String} {delivery : RoutableDelivery}
    (h : (byId deliveries).get? id = some delivery) : delivery ∈ deliveries ∧ delivery.id = id := by
  have key : ∀ (m : InsertionMap String RoutableDelivery),
      (deliveries.foldl (fun m d => m.set d.id d) m).get? id = some delivery →
        m.get? id = some delivery ∨ (delivery ∈ deliveries ∧ delivery.id = id) := by
    clear h
    induction deliveries with
    | nil => exact fun m h => .inl h
    | cons d deliveries ih =>
      intro m h
      rcases ih _ h with h | ⟨hmem, hid⟩
      · rw [InsertionMap.get?_set] at h
        split at h
        next hid => exact .inr ⟨Option.some.inj h ▸ List.mem_cons_self, Option.some.inj h ▸ hid.symm⟩
        next => exact .inl h
      · exact .inr ⟨List.mem_cons_of_mem d hmem, hid⟩
  exact (key .empty h).resolve_left (by simp)

end Lookup

/-! ## The stops of the groups -/

/-- A list of stops has one stop for each group, in order: the group's members in their order, at
the destination of the first. -/
def StopsOf (deliveries : List RoutableDelivery) (groups : List (List String))
    (stops : List RouteStop) : Prop :=
  stops.length = groups.length ∧
    ∀ (i : Nat) (group : List String), groups[i]? = some group →
      ∃ (first : String) (delivery : RoutableDelivery), group.head? = some first ∧
        delivery ∈ deliveries ∧ delivery.id = first ∧
        stops[i]? = some ⟨i, group, delivery.destination.lat, delivery.destination.lng⟩

section Rebuild

variable {known : InsertionMap String RoutableDelivery} {keys : InsertionMap String String}

theorem modify_concat {β : Type} (f : β → β) (l : List β) (b : β) :
    (l ++ [b]).modify l.length f = l ++ [f b] := by
  induction l with
  | nil => rfl
  | cons c l ih => rw [List.cons_append, List.length_cons, List.modify_succ_cons, ih]; rfl

/-- The members of a group after its first join the stop made last. -/
theorem foldl_stopsStep_members (stops : List RouteStop) (stop : RouteStop)
    {stopByKey : InsertionMap String Nat} {first : String} {members : List String}
    (hposition : stopByKey.get? first = some stops.length)
    (hknown : ∀ id ∈ members, (known.get? id).isSome)
    (hkey : ∀ id ∈ members, keys.get? id = some first)
    (hnodup : (stop.deliveryIds ++ members).Nodup) :
    members.foldl (stopsStep known keys) ⟨stops ++ [stop], stopByKey⟩ =
      ⟨stops ++ [{ stop with deliveryIds := stop.deliveryIds ++ members }], stopByKey⟩ := by
  induction members generalizing stop with
  | nil => simp
  | cons id members ih =>
    obtain ⟨delivery, hdelivery⟩ := Option.isSome_iff_exists.1 (hknown id List.mem_cons_self)
    have hnew : id ∉ stop.deliveryIds := fun hmem =>
      (List.nodup_append.1 hnodup).2.2 id hmem id List.mem_cons_self rfl
    have hstep : stopsStep known keys ⟨stops ++ [stop], stopByKey⟩ id =
        ⟨stops ++ [{ stop with deliveryIds := stop.deliveryIds ++ [id] }], stopByKey⟩ := by
      rw [stopsStep, hdelivery]
      dsimp only
      rw [hkey id List.mem_cons_self, Option.getD_some, hposition]
      dsimp only
      rw [modify_concat, RouteStop.addDelivery, if_neg hnew]
    rw [List.append_cons] at hnodup
    rw [List.foldl_cons, hstep,
      ih { stop with deliveryIds := stop.deliveryIds ++ [id] }
        (fun x hx => hknown x (List.mem_cons_of_mem id hx))
        (fun x hx => hkey x (List.mem_cons_of_mem id hx)) hnodup]
    simp

/-- The loop of `optimizedStops` after the members of the groups `done`. -/
structure Rebuilt (known : InsertionMap String RoutableDelivery) (b : StopsBuilt)
    (done : List (List String)) : Prop where
  length_eq : b.stops.length = done.length
  stop : ∀ (i : Nat) (group : List String), done[i]? = some group →
    ∃ (first : String) (delivery : RoutableDelivery), group.head? = some first ∧
      known.get? first = some delivery ∧
      b.stops[i]? = some ⟨i, group, delivery.destination.lat, delivery.destination.lng⟩
  registered : ∀ key, (b.stopByKey.get? key).isSome → key ∈ done.flatten

/-- One group: its first member opens a stop, and the others join it. -/
theorem Rebuilt.group (keys : InsertionMap String String) {b : StopsBuilt}
    {done : List (List String)} (h : Rebuilt known b done) {first : String} {members : List String}
    (hknown : ∀ id ∈ first :: members, (known.get? id).isSome)
    (hkey : ∀ id ∈ first :: members, keys.get? id = some first)
    (hnodup : (first :: members).Nodup) (hfirst : first ∉ done.flatten) :
    Rebuilt known ((first :: members).foldl (stopsStep known keys) b)
      (done ++ [first :: members]) := by
  obtain ⟨delivery, hdelivery⟩ := Option.isSome_iff_exists.1 (hknown first List.mem_cons_self)
  have hfree : b.stopByKey.get? first = none := by
    rw [← Option.not_isSome_iff_eq_none]
    exact fun hsome => hfirst (h.registered first hsome)
  have hopen : stopsStep known keys b first =
      ⟨b.stops ++ [⟨b.stops.length, [first], delivery.destination.lat, delivery.destination.lng⟩],
        b.stopByKey.set first b.stops.length⟩ := by
    rw [stopsStep, hdelivery]
    dsimp only
    rw [hkey first List.mem_cons_self, Option.getD_some, hfree]
  have hjoin := foldl_stopsStep_members b.stops
    ⟨b.stops.length, [first], delivery.destination.lat, delivery.destination.lng⟩
    (InsertionMap.get?_set_self b.stopByKey first b.stops.length)
    (fun id hid => hknown id (List.mem_cons_of_mem first hid))
    (fun id hid => hkey id (List.mem_cons_of_mem first hid)) hnodup
  rw [List.foldl_cons, hopen, hjoin]
  constructor
  · simp [h.length_eq]
  · intro i group hgroup
    rcases Nat.lt_or_ge i done.length with hi | hi
    · rw [List.getElem?_append_left hi] at hgroup
      rw [List.getElem?_append_left (h.length_eq ▸ hi)]
      exact h.stop i group hgroup
    · rw [List.getElem?_append_right hi, List.getElem?_singleton] at hgroup
      split at hgroup
      next hzero =>
        have hlen : i = done.length := by omega
        obtain rfl := Option.some.inj hgroup
        refine ⟨first, delivery, rfl, hdelivery, ?_⟩
        rw [hlen, ← h.length_eq, List.getElem?_concat_length]
        rfl
      next => exact absurd hgroup (by simp)
  · intro key hsome
    rw [InsertionMap.get?_set] at hsome
    rw [List.flatten_append, List.mem_append]
    split at hsome
    next hfirst => exact .inr (by simp [hfirst])
    next => exact .inl (h.registered key hsome)

theorem Rebuilt.run (keys : InsertionMap String String) {groups : List (List String)}
    {b : StopsBuilt} {done : List (List String)}
    (h : Rebuilt known b done) (hnonempty : ∀ group ∈ groups, group ≠ [])
    (hknown : ∀ id ∈ groups.flatten, (known.get? id).isSome)
    (hkey : ∀ group ∈ groups, ∀ id ∈ group, keys.get? id = group.head?)
    (hnodup : (done ++ groups).flatten.Nodup) :
    Rebuilt known (groups.flatten.foldl (stopsStep known keys) b) (done ++ groups) := by
  induction groups generalizing b done with
  | nil => simpa using h
  | cons group groups ih =>
    cases group with
    | nil => exact absurd rfl (hnonempty [] List.mem_cons_self)
    | cons first members =>
      have hparts := hnodup
      rw [List.flatten_append, List.flatten_cons, List.nodup_append, List.nodup_append] at hparts
      obtain ⟨-, ⟨hgroup, -, -⟩, hdisjoint⟩ := hparts
      have hfirst : first ∉ done.flatten := fun hmem =>
        hdisjoint first hmem first (List.mem_append_left _ List.mem_cons_self) rfl
      have hstep := h.group keys
        (fun id hid => hknown id (List.mem_flatten_of_mem List.mem_cons_self hid))
        (hkey _ List.mem_cons_self) hgroup hfirst
      rw [List.append_cons] at hnodup ⊢
      rw [List.flatten_cons, List.foldl_append]
      exact ih hstep (fun g hg => hnonempty g (List.mem_cons_of_mem _ hg))
        (fun id hid => hknown id (by rw [List.flatten_cons]; exact List.mem_append_right _ hid))
        (fun g hg => hkey g (List.mem_cons_of_mem _ hg)) hnodup

end Rebuild

/-- Groups that are not empty, share no id and name deliveries only come out as they are. -/
theorem optimizedStops_stopsOf {groups : List (List String)} {deliveries : List RoutableDelivery}
    (hnonempty : ∀ group ∈ groups, group ≠ []) (hnodup : groups.flatten.Nodup)
    (hknown : ∀ id ∈ groups.flatten, id ∈ deliveries.map RoutableDelivery.id) :
    StopsOf deliveries groups (optimizedStops groups.flatten groups deliveries) := by
  have hidentified : ∀ id ∈ groups.flatten, ((byId deliveries).get? id).isSome :=
    fun id hid => (isSome_get?_byId deliveries id).2 (hknown id hid)
  have hstart : Rebuilt (byId deliveries) ⟨[], .empty⟩ [] :=
    ⟨rfl, fun i group h => absurd h (by simp), fun key h => absurd h (by simp)⟩
  have hrun := hstart.run (groupKeys (byId deliveries) groups) hnonempty hidentified
    (fun group hgroup id hid => get?_groupKeys hnodup hidentified hgroup hid) hnodup
  refine ⟨hrun.length_eq, fun i group hgroup => ?_⟩
  obtain ⟨first, delivery, hfirst, hdelivery, hstop⟩ := hrun.stop i group hgroup
  exact ⟨first, delivery, hfirst, (get?_byId hdelivery).1, (get?_byId hdelivery).2, hstop⟩

/-! ## The agreement -/

section Agreement

variable {C : Type} [Zero C] [Add C] [Div C] [NatCast C] (geometry : Geometry C) {routing : Routing}
variable (cfg : Config) (call : Call)

/-- Stops built from an exact cover. -/
theorem runE_buildStops_of_cover {env : Collaborators} {origin : GeoPoint}
    (horigin : env.origin = .ok (some origin)) {sequence : List String} {groups : List (List String)}
    (hreply : env.optimized = some ⟨sequence, some groups⟩) {deliveries : List RoutableDelivery}
    (hmin : 2 ≤ deliveries.length) (hmax : deliveries.length ≤ 50)
    (hcover : isExactCover sequence (deliveries.map RoutableDelivery.id) = true) (s : Repos) :
    runE (memory cfg) (RouteService.buildStops env deliveries) s =
      (.ok ⟨optimizedStops sequence groups deliveries, true, false⟩, s) := by
  have hseen : env.reply = some ⟨sequence, some groups⟩ := by
    rw [Collaborators.reply, horigin]
    exact hreply
  have hover : ¬ optimizeMaxStops < deliveries.length := Nat.not_lt.2 hmax
  have hunder : ¬ deliveries.length < optimizeMinStops := Nat.not_lt.2 hmin
  rw [RouteService.buildStops, if_neg hover, if_neg hunder, runE_bind, runE_requestOptimization,
    hseen]
  dsimp only
  rw [if_pos hcover]
  rfl

/-- For 2 to 50 stops with distinct delivery ids, wherever they are: the optimizer's sequence passes
the exact cover check, and the route built from its reply is optimized and has one stop for each
group, in order. -/
theorem optimize_agrees (hrouting : routing.VisitsEachNode) (origin : C × C) (stops : List (Stop C))
    (hmin : 2 ≤ stops.length) (hmax : stops.length ≤ 50)
    (hdistinct : (stops.map Stop.deliveryId).Nodup) :
    ∃ reply : Optimized, optimize geometry routing origin stops = .ok reply ∧
      isExactCover reply.sequence (stops.map Stop.deliveryId) = true ∧
      -- the assignment the stops were requested for, and a vehicle location
      ∀ (s : Repos) (assignmentId : String) (assignment : Assignment) (env : Collaborators)
        (location : GeoPoint) (now : Instant),
        s.assignments.get? assignmentId = some assignment →
        (listByAssignmentId s.deliveries assignmentId).map Delivery.id =
          stops.map Stop.deliveryId →
        env.origin = .ok (some location) →
        env.optimized = some ⟨reply.sequence, some reply.groups⟩ →
        toIso call.now = .ok now →
        ∃ route : Route,
          (runE (memory cfg) (RouteService.createOrUpdateRoute cfg call env assignmentId)
            s).2.routes.get? assignmentId = some route ∧
          route.optimized = true ∧
          StopsOf ((listByAssignmentId s.deliveries assignmentId).map fun d =>
            ⟨d.id, d.destination⟩) reply.groups route.stops := by
  obtain ⟨groups, hoptimize, hperm, hnonempty⟩ :=
    optimize_partitions geometry hrouting origin stops hmin hmax
  have hcover : isExactCover groups.flatten (stops.map Stop.deliveryId) = true :=
    isExactCover_of_perm hdistinct hperm
  refine ⟨⟨groups.flatten, groups⟩, hoptimize, hcover, ?_⟩
  intro s assignmentId assignment env location now hassignment hids hlocation hreply hnow
  let deliveries : List RoutableDelivery :=
    (listByAssignmentId s.deliveries assignmentId).map fun d => ⟨d.id, d.destination⟩
  have hrequested : deliveries.map RoutableDelivery.id = stops.map Stop.deliveryId := by
    rw [List.map_map]
    exact hids
  have hlength : deliveries.length = stops.length := by
    calc deliveries.length = (deliveries.map RoutableDelivery.id).length := (List.length_map _).symm
      _ = (stops.map Stop.deliveryId).length := congrArg List.length hrequested
      _ = stops.length := List.length_map _
  have hbuilt := runE_buildStops_of_cover cfg hlocation hreply (hlength ▸ hmin) (hlength ▸ hmax)
    (hrequested ▸ hcover) s
  rw [runE_createOrUpdateRoute cfg call env assignmentId hassignment hbuilt, hnow]
  refine ⟨_, InsertionMap.get?_set_self _ _ _, rfl, ?_⟩
  apply optimizedStops_stopsOf hnonempty (hperm.nodup_iff.2 hdistinct)
  intro id hid
  rw [hrequested]
  exact hperm.mem_iff.1 hid

end Agreement

/-- Points of a grid, near each other up to a distance of 25. -/
def grid : Geometry Int where
  near p q := (p.1 - q.1).natAbs + (p.2 - q.2).natAbs ≤ 25
  dist p q := ((p.1 - q.1).natAbs + (p.2 - q.2).natAbs) * 100

/-- A solver that visits the nodes in input order. -/
def inOrder : Routing := ⟨fun count _ => some (List.range count)⟩

theorem inOrder_visitsEachNode : inOrder.VisitsEachNode := by
  intro count transit route _ hroute
  rw [← Option.some.inj hroute]

/-- Two deliveries, apart from each other. -/
def twoStops : List (Stop Int) := [⟨"p1", 0, 0⟩, ⟨"p2", 100, 0⟩]

/-- The optimizer answers in time, for a vehicle whose location is known. -/
def answering (reply : Optimized) : Collaborators where
  origin := .ok (some ⟨.fin 0, .fin 0⟩)
  optimized := some ⟨reply.sequence, some reply.groups⟩
  publishFails := false

/-- Three deliveries, the third next to the first. -/
def threeStops : List (Stop Int) := [⟨"p1", 0, 0⟩, ⟨"p2", 100, 0⟩, ⟨"p3", 10, 0⟩]

/-- The assignment of the three stops. -/
def threeDeliveries : Repos :=
  let delivery (id : String) (lat : ℚ) : Delivery :=
    { id := id, address := "a", recipientName := "n", recipientContact := "c", weightKg := .fin 1
      destination := ⟨.fin lat, .fin 0⟩, status := .assigned, trackingToken := id
      assignmentId := some "asg", failureReason := none, completedAt := none
      createdAt := ⟨0, validTime_zero⟩, updatedAt := ⟨0, validTime_zero⟩ }
  { twoDeliveries with
    deliveries := ((InsertionMap.empty.set "p1" (delivery "p1" 0)).set "p2"
      (delivery "p2" 100)).set "p3" (delivery "p3" 10) }

/-- The first and the third delivery are one stop of the route. -/
theorem threeStops_agree : ∃ reply, optimize grid inOrder (0, 0) threeStops = .ok reply ∧
    reply.groups = [["p1", "p3"], ["p2"]] ∧
    isExactCover reply.sequence ["p1", "p2", "p3"] = true ∧ ∃ route : Route,
      (runE (memory .unary) (RouteService.createOrUpdateRoute .unary ⟨0, 0⟩ (answering reply) "asg")
        threeDeliveries).2.routes.get? "asg" = some route ∧
      route.optimized = true ∧
      StopsOf ((listByAssignmentId threeDeliveries.deliveries "asg").map fun d =>
        ⟨d.id, d.destination⟩) reply.groups route.stops := by
  obtain ⟨reply, hoptimize, hcover, hroute⟩ := optimize_agrees grid .unary ⟨0, 0⟩
    inOrder_visitsEachNode (0, 0) threeStops (by decide) (by decide) (by decide)
  have hassignment : threeDeliveries.assignments.get? "asg" =
      some ⟨"asg", "drv", "veh", .pending, none, ⟨0, validTime_zero⟩⟩ := by decide
  have hgroups : (optimize grid inOrder (0, 0) threeStops).toOption.map Optimized.groups =
      some [["p1", "p3"], ["p2"]] := by decide +kernel
  rw [hoptimize] at hgroups
  refine ⟨reply, hoptimize, Option.some.inj hgroups, hcover, ?_⟩
  exact hroute threeDeliveries "asg" _ (answering reply) ⟨.fin 0, .fin 0⟩ ⟨0, validTime_zero⟩ hassignment
    (by decide) rfl rfl rfl

end FleetCommand.Optimizer
