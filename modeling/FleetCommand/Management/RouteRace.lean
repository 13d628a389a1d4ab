import FleetCommand.Management.AssignmentSteps
import FleetCommand.Management.RouteCoverage
import Mathlib.Data.Fintype.Basic

/-!
# Rebuilding one route in parallel

A rebuild reads the deliveries, waits for the optimizer and then stores and publishes whatever it
has built, so rebuilds of one assignment overtake each other while its deliveries change. From its
read on, a call stores and publishes only stops that cover the ids it has read
(`rebuild_callsOnly`), so the route stored and the route published last are about what their writers
have read (`newest_route_iff`).
-/

set_option autoImplicit false

namespace FleetCommand.Management

open Resumption

/-! ## A call from its read on -/

namespace RouteService

variable (cfg : Config) (call : Call)

/-- `createOrUpdateRoute` once the stops are built. -/
def putRoute (env : Collaborators) (assignmentId : String) (built : BuiltStops) :
    Service RouteResult := do
  let now ← ofResult (toIso call.now)
  let existing ← await (.findRouteByAssignmentId assignmentId)
  let route := routeRecord cfg call assignmentId built now existing
  await (.upsertRoute route)
  await (.publishRoute ⟨assignmentId, route.stops, route.optimized⟩)
  if env.publishFails then throw .other
  else return ⟨route, built.overLimit,
    if built.overLimit then some (makeError .overLimit []) else none⟩

/-- `createOrUpdateRoute` once the deliveries are read. -/
def rebuild (env : Collaborators) (assignmentId : String) (deliveries : List Delivery) :
    Service RouteResult := do
  let built ← buildStops env (deliveries.map fun d => ⟨d.id, d.destination⟩)
  putRoute cfg call env assignmentId built

theorem createOrUpdateRoute_eq (env : Collaborators) (assignmentId : String) :
    createOrUpdateRoute cfg call env assignmentId = (do
      let _ ← AssignmentService.requireAssignment assignmentId
      let deliveries ← await (.listDeliveriesByAssignmentId assignmentId)
      rebuild cfg call env assignmentId deliveries) := rfl

/-- Building the stops calls collaborators only, and what it builds does not depend on the state. -/
theorem exists_buildStops_eq (env : Collaborators) (routable : List RoutableDelivery) :
    ∃ n built, ExceptT.run (buildStops env routable) =
      Prog.calls (List.replicate n .external) (.ret (.ok built)) := by
  rw [buildStops]
  split
  · exact ⟨0, _, rfl⟩
  split
  · exact ⟨0, _, rfl⟩
  -- one call without an origin, and two with one
  have hreply : ∃ n, ExceptT.run (requestOptimization env) =
      Prog.calls (List.replicate n .external) (.ret (.ok env.reply)) := by
    rw [requestOptimization, Collaborators.reply]
    cases env.origin with
    | error e => exact ⟨1, rfl⟩
    | ok origin =>
      cases origin with
      | none => exact ⟨1, rfl⟩
      | some origin => exact ⟨2, rfl⟩
  obtain ⟨n, hn⟩ := hreply
  refine ⟨n, ?_⟩
  rw [ExceptT.run_bind, hn, Prog.calls_bind]
  cases env.reply with
  | none => exact ⟨_, rfl⟩
  | some response =>
    simp only [Prog.ret_bind]
    split
    · exact ⟨_, rfl⟩
    · exact ⟨_, rfl⟩

/-- The stops a call builds cover what it has read. -/
theorem exists_rebuild_eq (env : Collaborators) (assignmentId : String)
    {deliveries : List Delivery} (hdistinct : (deliveries.map Delivery.id).Nodup) :
    ∃ n built, ExceptT.run (rebuild cfg call env assignmentId deliveries) =
        Prog.calls (List.replicate n .external)
          (ExceptT.run (putRoute cfg call env assignmentId built)) ∧
      (coveredIds built.stops).Perm (deliveries.map Delivery.id) := by
  obtain ⟨n, built, hbuild⟩ :=
    exists_buildStops_eq env (deliveries.map fun d => ⟨d.id, d.destination⟩)
  refine ⟨n, built, ?_, ?_⟩
  · rw [rebuild, ExceptT.run_bind, hbuild, Prog.calls_bind]
    rfl
  · have hids : (deliveries.map fun d => (⟨d.id, d.destination⟩ : RoutableDelivery)).map
        RoutableDelivery.id = deliveries.map Delivery.id := by
      rw [List.map_map]
      rfl
    obtain ⟨built', hrun, hcovers⟩ := buildStops_covers cfg env (hids ▸ hdistinct) Repos.new
    -- run alone the program returns the same stops
    rw [runE, hbuild, Prog.run_calls, Prog.run_ret, Prod.mk.injEq, Except.ok.injEq] at hrun
    rw [hrun.1, ← hids]
    exact hcovers.covered

/-- What a call that has read the ids may call: it stores and publishes nothing but routes of the
assignment that cover them. -/
def Covering (assignmentId : String) (ids : List String) : RepoOp → Prop
  | .external => True
  | .findRouteByAssignmentId _ => True
  | .upsertRoute r => r.assignmentId = assignmentId ∧ (coveredIds r.stops).Perm ids
  | .publishRoute e => e.assignmentId = assignmentId ∧ (coveredIds e.stops).Perm ids
  | _ => False

theorem rebuild_callsOnly (env : Collaborators) (assignmentId : String)
    {deliveries : List Delivery} (hdistinct : (deliveries.map Delivery.id).Nodup) :
    (ExceptT.run (rebuild cfg call env assignmentId deliveries)).CallsOnly
      (Covering assignmentId (deliveries.map Delivery.id)) := by
  obtain ⟨n, built, hrun, hcovers⟩ := exists_rebuild_eq cfg call env assignmentId hdistinct
  rw [hrun]
  refine Prog.CallsOnly.calls (fun op hop => ?_) ?_
  · rw [List.eq_of_mem_replicate hop]
    trivial
  · rw [putRoute]
    cases toIso call.now with
    | error e => trivial
    | ok now =>
      refine ⟨trivial, fun existing => ⟨⟨rfl, hcovers⟩, fun _ => ⟨⟨rfl, hcovers⟩, fun _ => ?_⟩⟩⟩
      split <;> trivial

/-- The operation stores a route. -/
def Stores : RepoOp → Prop
  | .upsertRoute _ => True
  | _ => False

/-- The operation publishes a route. -/
def Publishes : RepoOp → Prop
  | .publishRoute _ => True
  | _ => False

theorem rebuild_mustCall (env : Collaborators) (assignmentId : String)
    {deliveries : List Delivery} (hdistinct : (deliveries.map Delivery.id).Nodup)
    {now : Instant} (hclock : toIso call.now = .ok now) :
    (ExceptT.run (rebuild cfg call env assignmentId deliveries)).MustCall Stores ∧
      (ExceptT.run (rebuild cfg call env assignmentId deliveries)).MustCall Publishes := by
  obtain ⟨n, built, hrun, -⟩ := exists_rebuild_eq cfg call env assignmentId hdistinct
  rw [hrun, putRoute, hclock]
  constructor
  · exact Prog.MustCall.calls _ (.inr fun existing => .inl trivial)
  · exact Prog.MustCall.calls _ (.inr fun existing => .inr fun _ => .inl trivial)

end RouteService

/-! ## The race -/

/-- One call of `createOrUpdateRoute`. -/
structure RouteCall where
  call : Call
  env : Collaborators

/-- A call as a program. -/
def RouteCall.prog (cfg : Config) (assignmentId : String) (c : RouteCall) :
    Prog RepoOp.Resp (Except Thrown RouteResult) :=
  ExceptT.run (RouteService.createOrUpdateRoute cfg c.call c.env assignmentId)

/-- A call once it has found the assignment. -/
def RouteCall.reading (cfg : Config) (assignmentId : String) (c : RouteCall) :
    Prog RepoOp.Resp (Except Thrown RouteResult) := ExceptT.run do
  let deliveries ← await (.listDeliveriesByAssignmentId assignmentId)
  RouteService.rebuild cfg c.call c.env assignmentId deliveries

/-- A step of a call, or a delivery stored in between. -/
inductive RaceEvent (ι : Type) where
  | call (i : ι)
  | saveDelivery (d : Delivery)

/-- Concurrent calls for one assignment, with the calls that have started in the order of their
first steps, the delivery ids each has read, and the calls that stored and published a
route last. -/
structure RouteRace (ι : Type) where
  pool : Pool ι RepoOp.Resp (Except Thrown RouteResult) Repos
  started : List ι
  read : ι → Option (List String)
  stored : Option ι
  published : Option ι

variable {ι : Type} (cfg : Config) (assignmentId : String)

/-- Every call at its start. -/
def RouteRace.start (calls : ι → RouteCall) (s : Repos) : RouteRace ι :=
  ⟨⟨fun i => (calls i).prog cfg assignmentId, s⟩, [], fun _ => none, none, none⟩

/-- Every call has returned. -/
def RouteRace.Finished (r : RouteRace ι) : Prop :=
  ∀ i, (r.pool.threads i).next?.isNone = true

/-- The delivery ids read by the call that started last. -/
def RouteRace.newestRead (r : RouteRace ι) : Option (List String) := r.started.getLast?.bind r.read

/-- The route stored and the route published last for the assignment cover exactly the deliveries
read by the call that started last. -/
def EndsOnNewest (r : RouteRace ι) : Prop :=
  ∃ ids ∈ r.newestRead,
    (∃ route ∈ r.pool.shared.routes.get? assignmentId, (coveredIds route.stops).Perm ids) ∧
    ∃ event ∈ (r.pool.shared.publishCalls.filter fun e => e.assignmentId = assignmentId).getLast?,
      (coveredIds event.stops).Perm ids

/-- The call that stored last and the call that published last have read the deliveries that the
call that started last has read. -/
def NewestWrites (r : RouteRace ι) : Prop :=
  ∃ ids ∈ r.newestRead,
    (∃ ids' ∈ r.stored.bind r.read, ids'.Perm ids) ∧ ∃ ids' ∈ r.published.bind r.read, ids'.Perm ids

instance [Fintype ι] (r : RouteRace ι) : Decidable r.Finished :=
  inferInstanceAs (Decidable (∀ _, _))

instance (r : RouteRace ι) : Decidable (EndsOnNewest assignmentId r) := by
  unfold EndsOnNewest
  infer_instance

instance (r : RouteRace ι) : Decidable (NewestWrites r) := by
  unfold NewestWrites
  infer_instance

variable [DecidableEq ι]

/-- One event: a call steps, or a request is served whole. -/
def raceStep (r : RouteRace ι) : RaceEvent ι → RouteRace ι
  | .call i =>
    { pool := r.pool.step (memory cfg) i
      started := if i ∈ r.started then r.started else r.started ++ [i]
      read := match (r.pool.threads i).next? with
        | some (.listDeliveriesByAssignmentId id) => Function.update r.read i
            (some ((listByAssignmentId r.pool.shared.deliveries id).map Delivery.id))
        | _ => r.read
      stored := match (r.pool.threads i).next? with
        | some (.upsertRoute _) => some i
        | _ => r.stored
      published := match (r.pool.threads i).next? with
        | some (.publishRoute _) => some i
        | _ => r.published }
  | .saveDelivery d =>
    { r with pool := { r.pool with shared := (memory cfg (.saveDelivery d) r.pool.shared).2 } }

/-! ## What every schedule keeps -/

/-- A call that has read is left with calls that cover what it has read; the routes stored and
published last cover what their writers have read; and as long as none has been stored (published),
every call that has read is yet to store (publish) one. -/
structure RouteRace.Ok (calls : ι → RouteCall) (r : RouteRace ι) : Prop where
  assignment : (r.pool.shared.assignments.get? assignmentId).isSome
  keyed : r.pool.shared.Keyed
  unread : ∀ i, r.read i = none → r.pool.threads i = (calls i).prog cfg assignmentId ∨
    r.pool.threads i = (calls i).reading cfg assignmentId
  covering : ∀ i ids, r.read i = some ids →
    (r.pool.threads i).CallsOnly (RouteService.Covering assignmentId ids)
  storing : r.stored = none → ∀ i ids, r.read i = some ids →
    (r.pool.threads i).MustCall RouteService.Stores
  publishing : r.published = none → ∀ i ids, r.read i = some ids →
    (r.pool.threads i).MustCall RouteService.Publishes
  stored : ∀ i, r.stored = some i → ∃ ids ∈ r.read i,
    ∃ route ∈ r.pool.shared.routes.get? assignmentId, (coveredIds route.stops).Perm ids
  published : ∀ i, r.published = some i → ∃ ids ∈ r.read i,
    ∃ event ∈ (r.pool.shared.publishCalls.filter fun e => e.assignmentId = assignmentId).getLast?,
      (coveredIds event.stops).Perm ids

variable {cfg assignmentId} {calls : ι → RouteCall} {r : RouteRace ι}

omit [DecidableEq ι] in
theorem RouteRace.ok_start {s : Repos} (hassignment : (s.assignments.get? assignmentId).isSome)
    (hkeyed : s.Keyed) : (RouteRace.start cfg assignmentId calls s).Ok cfg assignmentId calls where
  assignment := hassignment
  keyed := hkeyed
  unread _ _ := .inl rfl
  covering _ _ h := by simp [RouteRace.start] at h
  storing _ _ _ h := by simp [RouteRace.start] at h
  publishing _ _ _ h := by simp [RouteRace.start] at h
  stored _ h := by simp [RouteRace.start] at h
  published _ h := by simp [RouteRace.start] at h

/-- Deliveries stored under their own ids are listed once each. -/
theorem Repos.Keyed.nodup_listByAssignmentId {s : Repos} (h : s.Keyed) (id : String) :
    ((listByAssignmentId s.deliveries id).map Delivery.id).Nodup := by
  have hids : s.deliveries.values.map Delivery.id = s.deliveries.entries.map Prod.fst := by
    rw [InsertionMap.values, List.map_map]
    refine List.map_congr_left fun e he => ?_
    exact h.deliveries e.1 e.2 ((InsertionMap.get?_eq_some_iff _).2 he)
  have hvalues : (s.deliveries.values.map Delivery.id).Nodup := hids ▸ s.deliveries.nodup
  exact hvalues.sublist (List.filter_sublist.map Delivery.id)

namespace RouteRace.Ok

theorem saveDelivery (h : r.Ok cfg assignmentId calls) (d : Delivery) :
    (raceStep cfg r (.saveDelivery d)).Ok cfg assignmentId calls :=
  { h with keyed := h.keyed.setDelivery d }

omit [DecidableEq ι] in
/-- A step of call `i`, which leaves the other calls and what has been read as they are. -/
theorem step_of {r' : RouteRace ι} (h : r.Ok cfg assignmentId calls) {i : ι}
    (hassignments : r'.pool.shared.assignments = r.pool.shared.assignments)
    (hkeyed : r'.pool.shared.Keyed)
    (hthreads : ∀ j, j ≠ i → r'.pool.threads j = r.pool.threads j)
    (hreads : ∀ j, j ≠ i → r'.read j = r.read j)
    (hunread : r'.read i = none → r'.pool.threads i = (calls i).prog cfg assignmentId ∨
      r'.pool.threads i = (calls i).reading cfg assignmentId)
    (hcovering : ∀ ids, r'.read i = some ids →
      (r'.pool.threads i).CallsOnly (RouteService.Covering assignmentId ids))
    (hstoring : r'.stored = none → r.stored = none ∧ ∀ ids, r'.read i = some ids →
      (r'.pool.threads i).MustCall RouteService.Stores)
    (hpublishing : r'.published = none → r.published = none ∧ ∀ ids, r'.read i = some ids →
      (r'.pool.threads i).MustCall RouteService.Publishes)
    (hstored : ∀ j, r'.stored = some j → ∃ ids ∈ r'.read j,
      ∃ route ∈ r'.pool.shared.routes.get? assignmentId, (coveredIds route.stops).Perm ids)
    (hpublished : ∀ j, r'.published = some j → ∃ ids ∈ r'.read j,
      ∃ event ∈
        (r'.pool.shared.publishCalls.filter fun e => e.assignmentId = assignmentId).getLast?,
        (coveredIds event.stops).Perm ids) : r'.Ok cfg assignmentId calls := by
  refine ⟨hassignments ▸ h.assignment, hkeyed, fun j hj => ?_, fun j ids hj => ?_,
    fun hnone j ids hj => ?_, fun hnone j ids hj => ?_, hstored, hpublished⟩
  all_goals rcases eq_or_ne j i with rfl | hji
  · exact hunread hj
  · rw [hthreads j hji]
    exact h.unread j (hreads j hji ▸ hj)
  · exact hcovering ids hj
  · rw [hthreads j hji]
    exact h.covering j ids (hreads j hji ▸ hj)
  · exact (hstoring hnone).2 ids hj
  · rw [hthreads j hji]
    exact h.storing (hstoring hnone).1 j ids (hreads j hji ▸ hj)
  · exact (hpublishing hnone).2 ids hj
  · rw [hthreads j hji]
    exact h.publishing (hpublishing hnone).1 j ids (hreads j hji ▸ hj)

theorem threads_ne (cfg : Config) (r : RouteRace ι) {i j : ι} (hj : j ≠ i) :
    (raceStep cfg r (.call i)).pool.threads j = r.pool.threads j :=
  Pool.step_threads_ne (memory cfg) r.pool hj

theorem threads_self (cfg : Config) (r : RouteRace ι) (i : ι) :
    (raceStep cfg r (.call i)).pool.threads i =
      ((r.pool.threads i).step (memory cfg) r.pool.shared).1 :=
  Pool.step_threads_self (memory cfg) r.pool i

/-- A call that starts looks the assignment up. -/
theorem start_step (h : r.Ok cfg assignmentId calls) {i : ι} (hread : r.read i = none)
    (hthread : r.pool.threads i = (calls i).prog cfg assignmentId) :
    (raceStep cfg r (.call i)).Ok cfg assignmentId calls := by
  have hself := threads_self cfg r i
  have hshared : (raceStep cfg r (.call i)).pool.shared =
      ((r.pool.threads i).step (memory cfg) r.pool.shared).2 := rfl
  obtain ⟨a, ha⟩ := Option.isSome_iff_exists.1 h.assignment
  have hstep : (r.pool.threads i).step (memory cfg) r.pool.shared =
      ((calls i).reading cfg assignmentId, r.pool.shared) := by
    rw [hthread, RouteCall.prog, RouteService.createOrUpdateRoute_eq,
      AssignmentService.requireAssignment]
    simp only [bind_assoc, await]
    rw [step_performE_bind]
    simp only [memory, ha]
    rfl
  have hnext : (r.pool.threads i).next? = some (.findAssignmentById assignmentId) := by
    rw [hthread]
    rfl
  rw [hstep] at hself hshared
  have hreads : (raceStep cfg r (.call i)).read = r.read := by simp [raceStep, hnext]
  have hstored : (raceStep cfg r (.call i)).stored = r.stored := by simp [raceStep, hnext]
  have hpublished : (raceStep cfg r (.call i)).published = r.published := by
    simp [raceStep, hnext]
  apply h.step_of (i := i)
  · rw [hshared]
  · rw [hshared]
    exact h.keyed
  · exact fun j hj => threads_ne cfg r hj
  · exact fun j _ => congrFun hreads j
  · exact fun _ => .inr hself
  · simp [hreads, hread]
  · simp [hreads, hread, hstored]
  · simp [hreads, hread, hpublished]
  · rw [hstored, hreads, hshared]
    exact h.stored
  · rw [hpublished, hreads, hshared]
    exact h.published

/-- A call that has found the assignment reads the deliveries, and from then on covers them. -/
theorem reading_step (h : r.Ok cfg assignmentId calls)
    (hclock : ∀ i, ∃ now, toIso (calls i).call.now = .ok now) {i : ι} (hread : r.read i = none)
    (hthread : r.pool.threads i = (calls i).reading cfg assignmentId) :
    (raceStep cfg r (.call i)).Ok cfg assignmentId calls := by
  have hself := threads_self cfg r i
  have hshared : (raceStep cfg r (.call i)).pool.shared =
      ((r.pool.threads i).step (memory cfg) r.pool.shared).2 := rfl
  have hnext : (r.pool.threads i).next? = some (.listDeliveriesByAssignmentId assignmentId) := by
    rw [hthread]
    rfl
  have hstep : (r.pool.threads i).step (memory cfg) r.pool.shared =
      (ExceptT.run (RouteService.rebuild cfg (calls i).call (calls i).env assignmentId
        (listByAssignmentId r.pool.shared.deliveries assignmentId)), r.pool.shared) := by
    rw [hthread]
    rfl
  rw [hstep] at hself hshared
  have hreads : (raceStep cfg r (.call i)).read = Function.update r.read i
      (some ((listByAssignmentId r.pool.shared.deliveries assignmentId).map Delivery.id)) := by
    simp [raceStep, hnext]
  have hstored : (raceStep cfg r (.call i)).stored = r.stored := by simp [raceStep, hnext]
  have hpublished : (raceStep cfg r (.call i)).published = r.published := by
    simp [raceStep, hnext]
  have hdistinct := h.keyed.nodup_listByAssignmentId assignmentId
  obtain ⟨now, hnow⟩ := hclock i
  obtain ⟨hstores, hpublishes⟩ := RouteService.rebuild_mustCall cfg (calls i).call (calls i).env
    assignmentId hdistinct hnow
  -- what the other calls have read is as it was
  have hkeep : ∀ j ids, ids ∈ r.read j → ids ∈ (raceStep cfg r (.call i)).read j := by
    intro j ids hj
    rw [hreads, Function.update_of_ne]
    · exact hj
    · rintro rfl
      rw [hread] at hj
      exact absurd hj (by simp)
  apply h.step_of (i := i)
  · rw [hshared]
  · rw [hshared]
    exact h.keyed
  · exact fun j hj => threads_ne cfg r hj
  · exact fun j hj => by rw [hreads, Function.update_of_ne hj]
  · simp [hreads]
  · intro ids hids
    rw [hreads, Function.update_self, Option.some.injEq] at hids
    rw [hself, ← hids]
    exact RouteService.rebuild_callsOnly cfg _ _ assignmentId hdistinct
  · exact fun hnone => ⟨hstored ▸ hnone, fun _ _ => hself ▸ hstores⟩
  · exact fun hnone => ⟨hpublished ▸ hnone, fun _ _ => hself ▸ hpublishes⟩
  · intro j hj
    obtain ⟨ids, hids, hroute⟩ := h.stored j (hstored ▸ hj)
    exact ⟨ids, hkeep j ids hids, hshared ▸ hroute⟩
  · intro j hj
    obtain ⟨ids, hids, hevent⟩ := h.published j (hpublished ▸ hj)
    exact ⟨ids, hkeep j ids hids, hshared ▸ hevent⟩

/-- A call that has read does not read again. -/
theorem read_call {i : ι} {ids : List String}
    (hcovering : (r.pool.threads i).CallsOnly (RouteService.Covering assignmentId ids)) :
    (raceStep cfg r (.call i)).read = r.read := by
  simp only [raceStep]
  split
  next id hnext => exact absurd (hcovering.next hnext) not_false
  next => rfl

/-- A call that has read, given what its next operation does to the routes. -/
theorem read_step_of (h : r.Ok cfg assignmentId calls) {i : ι} {ids : List String}
    (hread : r.read i = some ids)
    (hassignments : (raceStep cfg r (.call i)).pool.shared.assignments = r.pool.shared.assignments)
    (hkeyed : (raceStep cfg r (.call i)).pool.shared.Keyed)
    (hstoring : (raceStep cfg r (.call i)).stored = none → r.stored = none ∧
      ∀ op, (r.pool.threads i).next? = some op → ¬ RouteService.Stores op)
    (hpublishing : (raceStep cfg r (.call i)).published = none → r.published = none ∧
      ∀ op, (r.pool.threads i).next? = some op → ¬ RouteService.Publishes op)
    (hstored : ∀ j, (raceStep cfg r (.call i)).stored = some j → ∃ ids ∈ r.read j,
      ∃ route ∈ (raceStep cfg r (.call i)).pool.shared.routes.get? assignmentId,
        (coveredIds route.stops).Perm ids)
    (hpublished : ∀ j, (raceStep cfg r (.call i)).published = some j → ∃ ids ∈ r.read j,
      ∃ event ∈ ((raceStep cfg r (.call i)).pool.shared.publishCalls.filter fun e =>
        e.assignmentId = assignmentId).getLast?, (coveredIds event.stops).Perm ids) :
    (raceStep cfg r (.call i)).Ok cfg assignmentId calls := by
  have hreads : (raceStep cfg r (.call i)).read = r.read := read_call (h.covering i ids hread)
  apply h.step_of (i := i) hassignments hkeyed
  · exact fun j hj => threads_ne cfg r hj
  · exact fun j _ => congrFun hreads j
  · simp [hreads, hread]
  · intro ids' hids
    rw [threads_self]
    exact (h.covering i ids' (hreads ▸ hids)).step (memory cfg) r.pool.shared
  · intro hnone
    refine ⟨(hstoring hnone).1, fun _ _ => ?_⟩
    rw [threads_self]
    exact (h.storing (hstoring hnone).1 i ids hread).step (memory cfg) (hstoring hnone).2 _
  · intro hnone
    refine ⟨(hpublishing hnone).1, fun _ _ => ?_⟩
    rw [threads_self]
    exact (h.publishing (hpublishing hnone).1 i ids hread).step (memory cfg) (hpublishing hnone).2 _
  · rw [hreads]
    exact hstored
  · rw [hreads]
    exact hpublished

/-- A call that has read and whose next operation, if it has one, neither stores nor publishes. -/
theorem quiet_step (h : r.Ok cfg assignmentId calls) {i : ι} {ids : List String}
    (hread : r.read i = some ids)
    (hshared : (raceStep cfg r (.call i)).pool.shared = r.pool.shared)
    (hquiet : ∀ op, (r.pool.threads i).next? = some op →
      ¬ RouteService.Stores op ∧ ¬ RouteService.Publishes op)
    (hstored : (raceStep cfg r (.call i)).stored = r.stored)
    (hpublished : (raceStep cfg r (.call i)).published = r.published) :
    (raceStep cfg r (.call i)).Ok cfg assignmentId calls := by
  apply h.read_step_of hread
  · rw [hshared]
  · exact hshared ▸ h.keyed
  · exact fun hnone => ⟨hstored ▸ hnone, fun op hop => (hquiet op hop).1⟩
  · exact fun hnone => ⟨hpublished ▸ hnone, fun op hop => (hquiet op hop).2⟩
  · rw [hstored, hshared]
    exact h.stored
  · rw [hpublished, hshared]
    exact h.published

/-- A call that has read stores a route. -/
theorem upsert_step (h : r.Ok cfg assignmentId calls) {i : ι} {ids : List String}
    (hread : r.read i = some ids) {route : Route}
    {k : Unit → Prog RepoOp.Resp (Except Thrown RouteResult)}
    (hthread : r.pool.threads i = .call (.upsertRoute route) k) :
    (raceStep cfg r (.call i)).Ok cfg assignmentId calls := by
  have hnext : (r.pool.threads i).next? = some (.upsertRoute route) := by
    rw [hthread]
    rfl
  obtain ⟨rfl, hcovers⟩ := (h.covering i ids hread).next hnext
  have hshared : (raceStep cfg r (.call i)).pool.shared = { r.pool.shared with
      routes := r.pool.shared.routes.set route.assignmentId route } := by
    show ((r.pool.threads i).step (memory cfg) r.pool.shared).2 = _
    rw [hthread]
    rfl
  have hstored : (raceStep cfg r (.call i)).stored = some i := by simp [raceStep, hnext]
  have hpublished : (raceStep cfg r (.call i)).published = r.published := by
    simp [raceStep, hnext]
  apply h.read_step_of hread
  · rw [hshared]
  · rw [hshared]
    exact ⟨h.keyed.drivers, h.keyed.deliveries⟩
  · simp [hstored]
  · rw [hpublished]
    exact fun hnone => ⟨hnone, by simp [hnext, RouteService.Publishes]⟩
  · intro j hj
    obtain rfl := Option.some.inj (hstored.symm.trans hj)
    refine ⟨ids, hread, route, ?_, hcovers⟩
    rw [hshared]
    exact InsertionMap.get?_set_self ..
  · rw [hpublished, hshared]
    exact h.published

/-- A call that has read publishes a route. -/
theorem publish_step (h : r.Ok cfg assignmentId calls) {i : ι} {ids : List String}
    (hread : r.read i = some ids) {event : RouteUpdateEvent}
    {k : Unit → Prog RepoOp.Resp (Except Thrown RouteResult)}
    (hthread : r.pool.threads i = .call (.publishRoute event) k) :
    (raceStep cfg r (.call i)).Ok cfg assignmentId calls := by
  have hnext : (r.pool.threads i).next? = some (.publishRoute event) := by
    rw [hthread]
    rfl
  obtain ⟨rfl, hcovers⟩ := (h.covering i ids hread).next hnext
  have hshared : (raceStep cfg r (.call i)).pool.shared = { r.pool.shared with
      publishCalls := r.pool.shared.publishCalls ++ [event] } := by
    show ((r.pool.threads i).step (memory cfg) r.pool.shared).2 = _
    rw [hthread]
    rfl
  have hstored : (raceStep cfg r (.call i)).stored = r.stored := by simp [raceStep, hnext]
  have hpublished : (raceStep cfg r (.call i)).published = some i := by simp [raceStep, hnext]
  apply h.read_step_of hread
  · rw [hshared]
  · rw [hshared]
    exact ⟨h.keyed.drivers, h.keyed.deliveries⟩
  · rw [hstored]
    exact fun hnone => ⟨hnone, by simp [hnext, RouteService.Stores]⟩
  · simp [hpublished]
  · rw [hstored, hshared]
    exact h.stored
  · intro j hj
    obtain rfl := Option.some.inj (hpublished.symm.trans hj)
    refine ⟨ids, hread, event, ?_, hcovers⟩
    rw [hshared]
    simp

theorem read_step (h : r.Ok cfg assignmentId calls) {i : ι} {ids : List String}
    (hread : r.read i = some ids) : (raceStep cfg r (.call i)).Ok cfg assignmentId calls := by
  have hshared : (raceStep cfg r (.call i)).pool.shared =
      ((r.pool.threads i).step (memory cfg) r.pool.shared).2 := rfl
  cases hthread : r.pool.threads i with
  | ret result =>
    apply h.quiet_step hread
    · rw [hshared, hthread]
      rfl
    all_goals simp [raceStep, hthread, Prog.next?]
  | call op k =>
    have hnext : (r.pool.threads i).next? = some op := by
      rw [hthread]
      rfl
    have hop := (h.covering i ids hread).next hnext
    cases op with
    | external =>
      apply h.quiet_step hread
      · rw [hshared, hthread]
        rfl
      · simp [hnext, RouteService.Stores, RouteService.Publishes]
      all_goals simp [raceStep, hnext]
    | findRouteByAssignmentId id =>
      apply h.quiet_step hread
      · rw [hshared, hthread]
        rfl
      · simp [hnext, RouteService.Stores, RouteService.Publishes]
      all_goals simp [raceStep, hnext]
    | upsertRoute route => exact h.upsert_step hread hthread
    | publishRoute event => exact h.publish_step hread hthread
    | _ => exact hop.elim

theorem step (h : r.Ok cfg assignmentId calls)
    (hclock : ∀ i, ∃ now, toIso (calls i).call.now = .ok now) (e : RaceEvent ι) :
    (raceStep cfg r e).Ok cfg assignmentId calls := by
  cases e with
  | call i =>
    cases hread : r.read i with
    | none =>
      rcases h.unread i hread with hthread | hthread
      · exact h.start_step hread hthread
      · exact h.reading_step hclock hread hthread
    | some ids => exact h.read_step hread
  | saveDelivery d => exact h.saveDelivery d

end RouteRace.Ok

/-! ## The routes stored and published last -/

/-- A value known to be there, up to permutation. -/
theorem exists_perm_iff {α : Type} {o : Option α} {o' : Option (List String)}
    {f : α → List String} {a : α} {known : List String} (ho : a ∈ o) (ho' : known ∈ o')
    (hknown : (f a).Perm known) (ids : List String) :
    (∃ b ∈ o, (f b).Perm ids) ↔ ∃ ids' ∈ o', ids'.Perm ids := by
  constructor
  · rintro ⟨b, hb, hperm⟩
    obtain rfl := Option.some.inj (ho.symm.trans hb)
    exact ⟨known, ho', hknown.symm.trans hperm⟩
  · rintro ⟨ids', hids, hperm⟩
    obtain rfl := Option.some.inj (ho'.symm.trans hids)
    exact ⟨a, ho, hknown.trans hperm⟩

omit [DecidableEq ι] in
theorem RouteRace.Ok.endsOnNewest_iff (h : r.Ok cfg assignmentId calls) (hfinished : r.Finished) :
    EndsOnNewest assignmentId r ↔ NewestWrites r := by
  -- a call that has returned has nothing left to call
  have hmust : ∀ {P : RepoOp → Prop} i, ¬ (r.pool.threads i).MustCall P := by
    intro P i hP
    have hnone := hfinished i
    cases hthread : r.pool.threads i with
    | ret result =>
      rw [hthread] at hP
      exact hP
    | call op k => simp [hthread, Prog.next?] at hnone
  refine exists_congr fun ids => and_congr_right fun hids => ?_
  obtain ⟨i, -, hread⟩ := Option.bind_eq_some_iff.1 hids
  obtain ⟨j, hj⟩ := Option.ne_none_iff_exists'.1 fun hnone =>
    hmust i (h.storing hnone i ids hread)
  obtain ⟨k, hk⟩ := Option.ne_none_iff_exists'.1 fun hnone =>
    hmust i (h.publishing hnone i ids hread)
  obtain ⟨jds, hjds, route, hroute, hcovers⟩ := h.stored j hj
  obtain ⟨kds, hkds, event, hevent, hcovers'⟩ := h.published k hk
  have hstored : jds ∈ r.stored.bind r.read := by
    rw [hj]
    exact hjds
  have hpublished : kds ∈ r.published.bind r.read := by
    rw [hk]
    exact hkds
  refine and_congr ?_ ?_
  · exact exists_perm_iff (f := fun route => coveredIds route.stops) hroute hstored hcovers ids
  · exact exists_perm_iff (f := fun event => coveredIds event.stops) hevent hpublished hcovers' ids

/-- For any number of concurrent calls for a stored assignment, while deliveries are stored in
between, and every schedule in which all of them return: the route stored and the route published
last cover exactly the deliveries read by the call that started last if and only if the call that
stored last and the call that published last have read the same deliveries as that call. -/
theorem newest_route_iff (cfg : Config) (assignmentId : String) (calls : ι → RouteCall)
    (hclock : ∀ i, ∃ now, toIso (calls i).call.now = .ok now) {s : Repos}
    (hassignment : (s.assignments.get? assignmentId).isSome) (hkeyed : s.Keyed)
    (es : List (RaceEvent ι))
    (hfinished : (Runs.run (raceStep cfg) (.start cfg assignmentId calls s) es).Finished) :
    EndsOnNewest assignmentId (Runs.run (raceStep cfg) (.start cfg assignmentId calls s) es) ↔
      NewestWrites (Runs.run (raceStep cfg) (.start cfg assignmentId calls s) es) := by
  have hok := Runs.run_invariant (I := RouteRace.Ok cfg assignmentId calls)
    (fun r e h => h.step hclock e) (RouteRace.ok_start hassignment hkeyed) es
  exact hok.endsOnNewest_iff hfinished

/-- A third delivery of the assignment. -/
def lateDelivery : Delivery :=
  { id := "p3", address := "a", recipientName := "n", recipientContact := "c", weightKg := .fin 1
    destination := ⟨.fin 0, .fin 0⟩, status := .assigned, trackingToken := "p3"
    assignmentId := some "asg", failureReason := none, completedAt := none
    createdAt := ⟨0, validTime_zero⟩, updatedAt := ⟨0, validTime_zero⟩ }

theorem twoDeliveries_keyed : twoDeliveries.Keyed where
  drivers id driver h := by simp [twoDeliveries, Repos.new] at h
  deliveries id delivery h := by
    simp only [twoDeliveries, InsertionMap.get?_set] at h
    split at h
    next hid => rw [← Option.some.inj h, hid]
    next =>
      split at h
      next hid => rw [← Option.some.inj h, hid]
      next => simp at h

/-- Two calls with the clock at zero and the same collaborators. -/
def twoCalls (_ : Bool) : RouteCall := ⟨⟨0, 0⟩, reversed⟩

theorem twoCalls_clock (i : Bool) : ∃ now, toIso (twoCalls i).call.now = .ok now :=
  ⟨⟨0, validTime_zero⟩, rfl⟩

/-- The first call has read when a delivery is added; the second one reads, stores and publishes,
and then the first one does. -/
def overtaken : List (RaceEvent Bool) :=
  List.replicate 2 (.call false) ++ [.saveDelivery lateDelivery] ++
    List.replicate 7 (.call true) ++ List.replicate 5 (.call false)

/-- The route stored and published last lacks the delivery added. -/
theorem overtaken_ends_on_older :
    ¬ ∀ (calls : Bool → RouteCall) (s : Repos) (es : List (RaceEvent Bool)),
      (∀ i, ∃ now, toIso (calls i).call.now = .ok now) →
      (s.assignments.get? "asg").isSome → s.Keyed →
      (Runs.run (raceStep .unary) (.start .unary "asg" calls s) es).Finished →
      EndsOnNewest "asg" (Runs.run (raceStep .unary) (.start .unary "asg" calls s) es) := by
  intro hall
  have hends := hall twoCalls twoDeliveries overtaken twoCalls_clock (by decide)
    twoDeliveries_keyed (by decide +kernel)
  exact absurd hends (by decide +kernel)

/-- The second call starts once the first has finished. -/
def oneAfterTheOther : List (RaceEvent Bool) :=
  List.replicate 7 (.call false) ++ [.saveDelivery lateDelivery] ++ List.replicate 7 (.call true)

theorem oneAfterTheOther_ends_on_newest :
    EndsOnNewest "asg" (Runs.run (raceStep .unary)
      (.start .unary "asg" twoCalls twoDeliveries) oneAfterTheOther) :=
  (newest_route_iff .unary "asg" twoCalls twoCalls_clock (by decide) twoDeliveries_keyed
    oneAfterTheOther (by decide +kernel)).2 (by decide +kernel)

end FleetCommand.Management
