import FleetCommand.Management.Routes

/-!
# Route coverage

Whatever the optimizer replies, the stops of a built route cover the deliveries of the assignment.
`isExactCover_iff` says what the check in front of `optimizedStops` decides; `Built` is the
invariant of its loop. `createOrUpdateRoute_covers` puts the branches together.
-/

set_option autoImplicit false

namespace FleetCommand.Management

open Resumption

/-! ## The exact cover check -/

theorem coverLoop_eq_some_iff (expected seen result : Finset String) (sequence : List String) :
    coverLoop expected seen sequence = some result ↔
      (∀ id ∈ sequence, id ∈ expected ∧ id ∉ seen) ∧ sequence.Nodup ∧
        result = seen ∪ sequence.toFinset := by
  induction sequence generalizing seen with
  | nil => simp [coverLoop, eq_comm]
  | cons id rest ih =>
    rw [coverLoop]
    -- the loop stops at an unexpected id, and at one seen before
    rcases Classical.em (id ∈ expected) with hexp | hexp
    · rcases Classical.em (id ∈ seen) with hseen | hseen
      · simp [hexp, hseen]
      · rw [if_neg (not_not_intro hexp), if_neg hseen, ih]
        simp only [List.forall_mem_cons, hexp, hseen, Finset.mem_insert, not_or, List.nodup_cons,
          List.toFinset_cons, Finset.insert_union, Finset.union_insert, not_false_eq_true, true_and]
        constructor
        · rintro ⟨hall, hnodup, rfl⟩
          refine ⟨fun x hx => ⟨(hall x hx).1, (hall x hx).2.2⟩, ⟨?_, hnodup⟩, rfl⟩
          intro hmem
          exact (hall id hmem).2.1 rfl
        · rintro ⟨hall, ⟨hmem, hnodup⟩, rfl⟩
          refine ⟨fun x hx => ⟨(hall x hx).1, ?_, (hall x hx).2⟩, hnodup, rfl⟩
          rintro rfl
          exact hmem hx
    · simp [hexp]

/-- What the check accepts has the expected length, no duplicates and expected ids only, so the
expected ids are distinct and these are all of them. -/
theorem perm_of_isExactCover {sequence expectedIds : List String}
    (h : isExactCover sequence expectedIds = true) :
    expectedIds.Nodup ∧ sequence.Perm expectedIds := by
  rw [isExactCover] at h
  split at h
  · exact absurd h Bool.false_ne_true
  next hlen =>
    have hlen : sequence.length = expectedIds.length := not_not.1 hlen
    split at h
    next seen hseen =>
      obtain ⟨hall, hnodup, rfl⟩ := (coverLoop_eq_some_iff _ _ _ _).1 hseen
      rw [Finset.empty_union, decide_eq_true_eq, List.toFinset_card_of_nodup hnodup, hlen] at h
      -- as many distinct expected ids as expected ids: no id is expected twice
      have hexp : expectedIds.Nodup := by
        have hdedup : expectedIds.dedup.length = expectedIds.length := by
          rw [h, List.card_toFinset]
        have hsub := (List.dedup_sublist expectedIds).eq_of_length hdedup
        rw [← hsub]
        exact List.nodup_dedup expectedIds
      have hsubperm : sequence.Subperm expectedIds :=
        hnodup.subperm fun id hid => List.mem_toFinset.1 (hall id hid).1
      exact ⟨hexp, hsubperm.perm_of_length_le hlen.ge⟩
    next => exact absurd h Bool.false_ne_true

/-- The loop gets through a permutation of distinct ids, and has seen them all. -/
theorem isExactCover_of_perm {sequence expectedIds : List String} (hexp : expectedIds.Nodup)
    (hperm : sequence.Perm expectedIds) : isExactCover sequence expectedIds = true := by
  have hnodup : sequence.Nodup := hperm.nodup_iff.2 hexp
  have hseen : coverLoop expectedIds.toFinset ∅ sequence = some (∅ ∪ sequence.toFinset) := by
    rw [coverLoop_eq_some_iff]
    refine ⟨fun id hid => ⟨List.mem_toFinset.2 (hperm.mem_iff.1 hid), Finset.notMem_empty id⟩,
      hnodup, rfl⟩
  rw [isExactCover, if_neg (not_not_intro hperm.length_eq), hseen]
  simp only [Finset.empty_union, decide_eq_true_eq]
  rw [List.toFinset_eq_of_perm _ _ hperm]

/-- The check accepts the permutations of a list without duplicates, and nothing else. -/
theorem isExactCover_iff (sequence expectedIds : List String) :
    isExactCover sequence expectedIds = true ↔ expectedIds.Nodup ∧ sequence.Perm expectedIds :=
  ⟨perm_of_isExactCover, fun h => isExactCover_of_perm h.1 h.2⟩

/-! ## The loop of `optimizedStops` -/

/-- The delivery ids of all stops, in order. -/
def coveredIds (stops : List RouteStop) : List String := stops.flatMap RouteStop.deliveryIds

/-- Every stop carries its position. -/
def Indexed (stops : List RouteStop) : Prop :=
  ∀ (position : Nat) (stop : RouteStop), stops[position]? = some stop → stop.stopIndex = position

/-- The loop of `optimizedStops` after the ids `done`. -/
structure Built (b : StopsBuilt) (done : List String) : Prop where
  covered : (coveredIds b.stops).Perm done
  indexed : Indexed b.stops
  position : ∀ key i, b.stopByKey.get? key = some i → i < b.stops.length

theorem coveredIds_modify (id : String) {stops : List RouteStop} {i : Nat} (hi : i < stops.length)
    (hid : id ∉ coveredIds stops) :
    (coveredIds (stops.modify i fun stop => stop.addDelivery id)).Perm (coveredIds stops ++ [id]) := by
  induction stops generalizing i with
  | nil => exact absurd hi (Nat.not_lt_zero i)
  | cons stop stops ih =>
    simp only [coveredIds, List.flatMap_cons, List.mem_append, not_or] at hid ih ⊢
    cases i with
    | zero =>
      -- the new id is put at the end of the first stop's ids and has to pass the rest
      rw [List.modify_zero_cons, List.flatMap_cons, RouteStop.addDelivery, if_neg hid.1,
        List.append_assoc, List.append_assoc]
      exact List.Perm.append_left _ List.perm_append_comm
    | succ i =>
      rw [List.modify_succ_cons, List.flatMap_cons, List.append_assoc]
      apply List.Perm.append_left
      apply ih
      · rw [List.length_cons] at hi
        omega
      · exact hid.2

theorem Indexed.modify {stops : List RouteStop} (h : Indexed stops) (i : Nat) (id : String) :
    Indexed (stops.modify i fun stop => stop.addDelivery id) := by
  intro position stop hstop
  rw [List.getElem?_modify, Option.map_eq_map, Option.map_eq_some_iff] at hstop
  obtain ⟨old, hold, rfl⟩ := hstop
  have hindex := h position old hold
  split
  · rw [RouteStop.addDelivery]
    split <;> exact hindex
  · exact hindex

theorem Indexed.append {stops : List RouteStop} (h : Indexed stops) (stop : RouteStop)
    (hstop : stop.stopIndex = stops.length) : Indexed (stops ++ [stop]) := by
  intro position other hother
  -- an old stop, the new one, or past the end
  rcases Nat.lt_trichotomy position stops.length with hlt | heq | hgt
  · rw [List.getElem?_append_left hlt] at hother
    exact h position other hother
  · rw [heq, List.getElem?_concat_length, Option.some.injEq] at hother
    rw [← hother, hstop, heq]
  · rw [List.getElem?_eq_none (by rw [List.length_append, List.length_singleton]; omega)] at hother
    exact absurd hother (by simp)

/-- One turn of the loop: a delivery of the assignment not seen before. -/
theorem Built.step {known : InsertionMap String RoutableDelivery}
    {keys : InsertionMap String String}
    {b : StopsBuilt} {done : List String} (h : Built b done) {id : String}
    (hknown : (known.get? id).isSome) (hnew : id ∉ done) :
    Built (stopsStep known keys b id) (done ++ [id]) := by
  obtain ⟨delivery, hdelivery⟩ := Option.isSome_iff_exists.1 hknown
  have hid : id ∉ coveredIds b.stops := fun hmem => hnew (h.covered.mem_iff.1 hmem)
  rw [stopsStep, hdelivery]
  dsimp only
  split
  next i hi =>
    -- the stop of the group is there: the delivery joins it
    have hlt := h.position _ i hi
    constructor
    · exact (coveredIds_modify id hlt hid).trans (h.covered.append_right [id])
    · exact h.indexed.modify i id
    · intro key j hj
      rw [List.length_modify]
      exact h.position key j hj
  next =>
    constructor
    -- a new stop at the end, registered under the group's key
    · simp only [coveredIds, List.flatMap_append, List.flatMap_cons, List.flatMap_nil,
        List.append_nil]
      exact h.covered.append_right [id]
    · exact h.indexed.append _ rfl
    · intro key j hj
      rw [InsertionMap.get?_set] at hj
      rw [List.length_append, List.length_singleton]
      split at hj
      · obtain rfl := Option.some.inj hj
        omega
      · have hlt := h.position key j hj
        omega

theorem Built.run {known : InsertionMap String RoutableDelivery} {keys : InsertionMap String String}
    {sequence : List String} (hknown : ∀ id ∈ sequence, (known.get? id).isSome) {b : StopsBuilt}
    {done : List String} (h : Built b done) (hnodup : (done ++ sequence).Nodup) :
    Built (sequence.foldl (stopsStep known keys) b) (done ++ sequence) := by
  -- on the ids still to visit: none of them is among those done
  induction sequence generalizing b done with
  | nil => simpa using h
  | cons id rest ih =>
    have hnew : id ∉ done := by
      intro hmem
      exact (List.nodup_append.1 hnodup).2.2 id hmem id List.mem_cons_self rfl
    have hstep : Built (stopsStep known keys b id) (done ++ [id]) :=
      h.step (hknown id List.mem_cons_self) hnew
    rw [List.append_cons] at hnodup ⊢
    exact ih (fun x hx => hknown x (List.mem_cons_of_mem id hx)) hstep hnodup

theorem isSome_get?_byId (deliveries : List RoutableDelivery) (id : String) :
    ((byId deliveries).get? id).isSome ↔ id ∈ deliveries.map RoutableDelivery.id := by
  -- the fold is read with what the map held before it
  have key : ∀ (m : InsertionMap String RoutableDelivery),
      ((deliveries.foldl (fun m d => m.set d.id d) m).get? id).isSome ↔
        (m.get? id).isSome ∨ id ∈ deliveries.map RoutableDelivery.id := by
    induction deliveries with
    | nil => simp
    | cons d deliveries ih =>
      intro m
      rw [List.foldl_cons, ih, InsertionMap.get?_set, List.map_cons, List.mem_cons]
      rcases eq_or_ne id d.id with rfl | hid
      · simp
      · simp [hid]
  rw [byId, key]
  simp

/-- The stops built from an exact cover cover its ids, whatever the groups. -/
theorem optimizedStops_covers {sequence : List String} (groups : List (List String))
    {deliveries : List RoutableDelivery} (hnodup : sequence.Nodup)
    (hknown : ∀ id ∈ sequence, id ∈ deliveries.map RoutableDelivery.id) :
    (coveredIds (optimizedStops sequence groups deliveries)).Perm sequence ∧
    Indexed (optimizedStops sequence groups deliveries) := by
  have hstart : Built ⟨[], .empty⟩ [] :=
    ⟨List.Perm.refl [], fun _ _ h => absurd h (by simp), fun _ _ h => absurd h (by simp)⟩
  have hidentified : ∀ id ∈ sequence, ((byId deliveries).get? id).isSome :=
    fun id hid => (isSome_get?_byId deliveries id).2 (hknown id hid)
  have hrun : Built (sequence.foldl (stopsStep (byId deliveries)
      (groupKeys (byId deliveries) groups)) ⟨[], .empty⟩) ([] ++ sequence) :=
    hstart.run hidentified hnodup
  exact ⟨hrun.covered, hrun.indexed⟩

theorem map_deliveryIds_assignedOrderStops (deliveries : List RoutableDelivery) :
    (assignedOrderStops deliveries).map RouteStop.deliveryIds = deliveries.map fun d => [d.id] := by
  apply List.ext_getElem?
  intro i
  rw [List.getElem?_map, List.getElem?_map, assignedOrderStops, List.getElem?_mapIdx,
    Option.map_map]
  rfl

theorem assignedOrderStops_covers (deliveries : List RoutableDelivery) :
    coveredIds (assignedOrderStops deliveries) = deliveries.map RoutableDelivery.id ∧
    Indexed (assignedOrderStops deliveries) := by
  constructor
  · rw [coveredIds, List.flatMap_def, map_deliveryIds_assignedOrderStops, ← List.flatMap_def]
    exact List.flatMap_pure_eq_map _ _
  · intro position stop hstop
    rw [assignedOrderStops, List.getElem?_mapIdx, Option.map_eq_some_iff] at hstop
    obtain ⟨d, -, rfl⟩ := hstop
    rfl

/-! ## Building the stops -/

/-- The optimizer's sequence is used: there are 2 to 50 deliveries, an origin, and a reply in time
whose sequence has each delivery once and nothing else. -/
def UsesOptimizer (env : Collaborators) (ids : List String) : Prop :=
  2 ≤ ids.length ∧ ids.length ≤ 50 ∧ (∃ origin, env.origin = .ok (some origin)) ∧
    ∃ response, env.optimized = some response ∧ response.sequence.Perm ids

/-- What building the stops of some deliveries guarantees. -/
structure BuiltStops.Covers (env : Collaborators) (deliveries : List RoutableDelivery)
    (built : BuiltStops) : Prop where
  covered : (coveredIds built.stops).Perm (deliveries.map RoutableDelivery.id)
  indexed : Indexed built.stops
  optimized : built.optimized = true ↔
    deliveries.length < 2 ∨ UsesOptimizer env (deliveries.map RoutableDelivery.id)
  assignedOrder : ¬ UsesOptimizer env (deliveries.map RoutableDelivery.id) →
    built.stops =
      deliveries.mapIdx fun i d => ⟨i, [d.id], d.destination.lat, d.destination.lng⟩
  overLimit : built.overLimit = true ↔ 50 < deliveries.length

variable (cfg : Config) (call : Call)

/-- The stops in the assigned order, where the optimizer is not used. -/
theorem covers_assignedOrderStops {env : Collaborators} {deliveries : List RoutableDelivery}
    (hnot : ¬ UsesOptimizer env (deliveries.map RoutableDelivery.id)) {optimized overLimit : Bool}
    (hoptimized : optimized = true ↔ deliveries.length < 2)
    (hover : overLimit = true ↔ 50 < deliveries.length) :
    BuiltStops.Covers env deliveries ⟨assignedOrderStops deliveries, optimized, overLimit⟩ where
  covered := by
    rw [(assignedOrderStops_covers deliveries).1]
  indexed := (assignedOrderStops_covers deliveries).2
  optimized := hoptimized.trans (or_iff_left hnot).symm
  assignedOrder _ := rfl
  overLimit := hover

/-- What the `try` block gets to see of the optimizer: a reply, if there is an origin. -/
def Collaborators.reply (env : Collaborators) : Option OptimizeResponse :=
  match env.origin with
  | .ok (some _) => env.optimized
  | _ => none

theorem runE_requestOptimization (env : Collaborators) (s : Repos) :
    runE (memory cfg) (RouteService.requestOptimization env) s = (.ok env.reply, s) := by
  rw [RouteService.requestOptimization, Collaborators.reply]
  cases env.origin with
  | error e => rfl
  | ok origin => cases origin <;> rfl

theorem usesOptimizer_iff (env : Collaborators) (ids : List String) :
    UsesOptimizer env ids ↔ 2 ≤ ids.length ∧ ids.length ≤ 50 ∧
      ∃ response, env.reply = some response ∧ response.sequence.Perm ids := by
  rw [UsesOptimizer, Collaborators.reply]
  rcases env.origin with e | - | origin <;> simp

/-- The stops of a sequence that passed the check. -/
theorem covers_optimizedStops {env : Collaborators} {deliveries : List RoutableDelivery}
    {response : OptimizeResponse} (hdistinct : (deliveries.map RoutableDelivery.id).Nodup)
    (hmin : 2 ≤ deliveries.length) (hmax : deliveries.length ≤ 50)
    (hreply : env.reply = some response)
    (hcover : isExactCover response.sequence (deliveries.map RoutableDelivery.id) = true) :
    BuiltStops.Covers env deliveries
      ⟨optimizedStops response.sequence (response.groups.getD []) deliveries, true, false⟩ := by
  have hperm := (perm_of_isExactCover hcover).2
  have hused : UsesOptimizer env (deliveries.map RoutableDelivery.id) := by
    rw [usesOptimizer_iff, List.length_map]
    exact ⟨hmin, hmax, response, hreply, hperm⟩
  obtain ⟨hcovers, hindexed⟩ := optimizedStops_covers (response.groups.getD [])
    (hperm.nodup_iff.2 hdistinct) fun id hid => hperm.mem_iff.1 hid
  constructor
  · exact hcovers.trans hperm
  · exact hindexed
  · exact iff_of_true rfl (Or.inr hused)
  · intro hnot
    exact absurd hused hnot
  · simp only [Bool.false_eq_true, false_iff, not_lt]
    exact hmax

/-- Building the stops reads and writes no repository, and what it builds covers the deliveries. -/
theorem buildStops_covers (env : Collaborators) {deliveries : List RoutableDelivery}
    (hdistinct : (deliveries.map RoutableDelivery.id).Nodup) (s : Repos) :
    ∃ built, runE (memory cfg) (RouteService.buildStops env deliveries) s = (.ok built, s) ∧
      BuiltStops.Covers env deliveries built := by
  have huses := usesOptimizer_iff env (deliveries.map RoutableDelivery.id)
  rw [List.length_map] at huses
  -- the branches of the source in order: over the limit, too few, no reply, no cover, a cover
  have hmaxStops : optimizeMaxStops = 50 := rfl
  have hminStops : optimizeMinStops = 2 := rfl
  rw [RouteService.buildStops]
  rcases Nat.lt_or_ge optimizeMaxStops deliveries.length with hmax | hmax
  · rw [if_pos hmax]
    refine ⟨_, rfl, covers_assignedOrderStops ?_ ?_ ?_⟩
    · rw [huses]
      rintro ⟨-, hle, -⟩
      omega
    · simp only [Bool.false_eq_true, false_iff]
      omega
    · simp only [true_iff]
      exact hmax
  have hnot50 : false = true ↔ 50 < deliveries.length := by
    simp only [Bool.false_eq_true, false_iff]
    omega
  rw [if_neg (Nat.not_lt.2 hmax)]
  rcases Nat.lt_or_ge deliveries.length optimizeMinStops with hmin | hmin
  · rw [if_pos hmin]
    refine ⟨_, rfl, covers_assignedOrderStops ?_ ?_ hnot50⟩
    · rw [huses]
      rintro ⟨hle, -⟩
      omega
    · simp only [true_iff]
      exact hmin
  have hnot2 : false = true ↔ deliveries.length < 2 := by
    simp only [Bool.false_eq_true, false_iff]
    omega
  rw [if_neg (Nat.not_lt.2 hmin), runE_bind, runE_requestOptimization]
  dsimp only
  cases hreply : env.reply with
  | none =>
    refine ⟨_, rfl, covers_assignedOrderStops ?_ hnot2 hnot50⟩
    rw [huses, hreply]
    rintro ⟨-, -, response, hresponse, -⟩
    exact absurd hresponse (by simp)
  | some response =>
    dsimp only
    cases hcover : isExactCover response.sequence (deliveries.map RoutableDelivery.id) with
    | false =>
      rw [if_neg Bool.false_ne_true]
      refine ⟨_, rfl, covers_assignedOrderStops ?_ hnot2 hnot50⟩
      rw [huses, hreply]
      rintro ⟨-, -, response', hresponse, hperm⟩
      rw [Option.some.injEq] at hresponse
      subst hresponse
      -- the check passes every permutation of distinct ids
      have htrue := isExactCover_of_perm hdistinct hperm
      exact Bool.false_ne_true (hcover.symm.trans htrue)
    | true =>
      rw [if_pos rfl]
      exact ⟨_, rfl, covers_optimizedStops hdistinct hmin hmax hreply hcover⟩

/-! ## The route saved -/

/-- A call whose stops are built: only the clock can stop it before the writes. -/
theorem runE_createOrUpdateRoute (env : Collaborators) (assignmentId : String) {s : Repos}
    {assignment : Assignment} (hassignment : s.assignments.get? assignmentId = some assignment)
    {built : BuiltStops}
    (hbuilt : runE (memory cfg) (RouteService.buildStops env
      ((listByAssignmentId s.deliveries assignmentId).map fun d => ⟨d.id, d.destination⟩)) s =
        (.ok built, s)) :
    runE (memory cfg) (RouteService.createOrUpdateRoute cfg call env assignmentId) s =
      match toIso call.now with
      | .error e => (.error e, s)
      | .ok now =>
        let route := RouteService.routeRecord cfg call assignmentId built now
          (s.routes.get? assignmentId)
        (if env.publishFails then .error .other
          else .ok ⟨route, built.overLimit,
            if built.overLimit then some (makeError .overLimit []) else none⟩,
          { s with
            routes := s.routes.set assignmentId route
            publishCalls := s.publishCalls ++ [⟨assignmentId, route.stops, route.optimized⟩] }) := by
  simp only [RouteService.createOrUpdateRoute, AssignmentService.requireAssignment, await,
    runE_bind, runE_performE, memory, hassignment, runE_pure, hbuilt, runE_ofResult]
  cases toIso call.now with
  | error e => rfl
  | ok now =>
    dsimp only
    split <;> rfl

/-- What `createOrUpdateRoute` stores and publishes for an assignment with distinct deliveries,
whatever its collaborators do: nothing when the clock's reading is no valid time, and otherwise a
route that covers the deliveries. The publisher is called with that route; the call fails when the
publisher does. -/
theorem createOrUpdateRoute_covers (env : Collaborators) (assignmentId : String) (s : Repos)
    {assignment : Assignment} (hassignment : s.assignments.get? assignmentId = some assignment)
    (hdistinct : ((listByAssignmentId s.deliveries assignmentId).map Delivery.id).Nodup) :
    match toIso call.now with
    | .error e =>
      runE (memory cfg) (RouteService.createOrUpdateRoute cfg call env assignmentId) s = (.error e, s)
    | .ok now => ∃ (route : Route) (overLimit : Bool),
      runE (memory cfg) (RouteService.createOrUpdateRoute cfg call env assignmentId) s =
        (if env.publishFails then .error .other
          else .ok ⟨route, overLimit, if overLimit then some (makeError .overLimit []) else none⟩,
          { s with
            routes := s.routes.set assignmentId route
            publishCalls := s.publishCalls ++ [⟨assignmentId, route.stops, route.optimized⟩] }) ∧
      BuiltStops.Covers env
        ((listByAssignmentId s.deliveries assignmentId).map fun d => ⟨d.id, d.destination⟩)
        ⟨route.stops, route.optimized, overLimit⟩ ∧
      route.assignmentId = assignmentId ∧ route.updatedAt = now ∧
      match s.routes.get? assignmentId with
      | some existing => route.id = existing.id ∧ route.createdAt = existing.createdAt
      | none => route.id = cfg.routeId.gen call.seq ∧ route.createdAt = now := by
  have hdistinct' : (((listByAssignmentId s.deliveries assignmentId).map fun d =>
      (⟨d.id, d.destination⟩ : RoutableDelivery)).map RoutableDelivery.id).Nodup := by
    rw [List.map_map]
    exact hdistinct
  obtain ⟨built, hbuilt, hcovers⟩ := buildStops_covers cfg env hdistinct' s
  have hrun := runE_createOrUpdateRoute cfg call env assignmentId hassignment hbuilt
  rw [hrun]
  cases toIso call.now with
  | error e => rfl
  | ok now =>
    refine ⟨RouteService.routeRecord cfg call assignmentId built now (s.routes.get? assignmentId),
      built.overLimit, rfl, hcovers, rfl, rfl, ?_⟩
    cases s.routes.get? assignmentId with
    | some existing => exact ⟨rfl, rfl⟩
    | none => exact ⟨rfl, rfl⟩

/-- An assignment with two deliveries. -/
def twoDeliveries : Repos :=
  let delivery (id : String) : Delivery :=
    { id := id, address := "a", recipientName := "n", recipientContact := "c", weightKg := .fin 1
      destination := ⟨.fin 0, .fin 0⟩, status := .assigned, trackingToken := id
      assignmentId := some "asg", failureReason := none, completedAt := none
      createdAt := ⟨0, by decide⟩, updatedAt := ⟨0, by decide⟩ }
  { Repos.new with
    deliveries := (InsertionMap.empty.set "p1" (delivery "p1")).set "p2" (delivery "p2")
    assignments := InsertionMap.empty.set "asg"
      ⟨"asg", "drv", "veh", .pending, none, ⟨0, by decide⟩⟩ }

/-- The optimizer visits them in the other order, with a group that repeats one and has
a stranger. -/
def reversed : Collaborators where
  origin := .ok (some ⟨.fin 0, .fin 0⟩)
  optimized := some ⟨["p2", "p1"], some [["p2", "x", "p2"]]⟩
  publishFails := false

theorem twoDeliveries_covered : ∃ route,
    (runE (memory .unary) (RouteService.createOrUpdateRoute .unary ⟨0, 0⟩ reversed "asg")
      twoDeliveries).2.routes.get? "asg" = some route ∧
    (coveredIds route.stops).Perm ["p1", "p2"] ∧ Indexed route.stops := by
  have hassignment : twoDeliveries.assignments.get? "asg" =
      some ⟨"asg", "drv", "veh", .pending, none, ⟨0, by decide⟩⟩ := by decide
  obtain ⟨route, overLimit, hrun, hcovers, -⟩ :=
    createOrUpdateRoute_covers .unary ⟨0, 0⟩ reversed "asg" twoDeliveries hassignment (by decide)
  refine ⟨route, ?_, hcovers.covered, hcovers.indexed⟩
  rw [hrun, InsertionMap.get?_set_self]

end FleetCommand.Management
