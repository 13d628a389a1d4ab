import FleetCommand.Management.Lifecycle

/-!
# Transitions of one delivery in parallel

`DeliveryService.transition` checks the status it has read and then saves the whole record; nothing
is held between the two calls, so calls on one delivery interleave there. `TransitionLoc` names the
control points.

Every save moves to the target of its call's event, whatever is stored by then. The statuses written
are therefore a path of the transition graph exactly when each save still finds a status that
permits its event (`transitions_linearize_iff`).
-/

set_option autoImplicit false

namespace FleetCommand.Management

open Resumption

/-! ## Events and edges -/

/-- The status an event leads to. -/
def DeliveryEvent.target : DeliveryEvent → DeliveryStatus
  | .assign => .assigned
  | .startTransit => .inTransit
  | .arrive => .arrived
  | .complete => .completed
  | .fail => .failed
  | .cancel => .cancelled

theorem nextStatus_eq_target {status status' : DeliveryStatus} {event : DeliveryEvent}
    (h : nextStatus status event = some status') : status' = event.target := by
  cases status <;> cases event <;> simp_all [nextStatus, DeliveryEvent.target]

theorem DeliveryEvent.target_injective {event event' : DeliveryEvent}
    (h : event.target = event'.target) : event = event' := by
  cases event <;> cases event' <;> simp_all [DeliveryEvent.target]

/-- An event that is permitted is the only edge to its target. -/
theorem edge_target_iff (status : DeliveryStatus) (event : DeliveryEvent) :
    Edge status event.target ↔ (nextStatus status event).isSome = true := by
  constructor
  · rintro ⟨event', h⟩
    obtain rfl := DeliveryEvent.target_injective (nextStatus_eq_target h)
    rw [h, Option.isSome_some]
  · intro h
    obtain ⟨status', hstatus⟩ := Option.isSome_iff_exists.1 h
    exact ⟨event, hstatus.trans (congrArg some (nextStatus_eq_target hstatus))⟩

/-- A terminal status is the last of a path. -/
theorem terminal_last {statuses pre post : List DeliveryStatus} {status : DeliveryStatus}
    (hpath : statuses.IsChain Edge) (hsplit : statuses = pre ++ status :: post)
    (hterminal : isTerminal status = true) : post = [] := by
  cases post with
  | nil => rfl
  | cons next post =>
    rw [hsplit] at hpath
    exact absurd (List.isChain_cons_cons.1 hpath.right_of_append).1 (not_edge_of_terminal hterminal)

/-- A path has one terminal status at most. -/
theorem terminal_unique {statuses : List DeliveryStatus} (hpath : statuses.IsChain Edge)
    {status status' : DeliveryStatus} (h : status ∈ statuses) (h' : status' ∈ statuses)
    (hterminal : isTerminal status = true) (hterminal' : isTerminal status' = true) :
    status = status' := by
  obtain ⟨pre, post, hsplit⟩ := List.append_of_mem h
  obtain ⟨pre', post', hsplit'⟩ := List.append_of_mem h'
  obtain rfl := terminal_last hpath hsplit hterminal
  obtain rfl := terminal_last hpath hsplit' hterminal'
  have hlast := congrArg List.getLast? (hsplit.symm.trans hsplit')
  simpa using hlast

/-! ## The calls -/

/-- One call of `transition`. -/
structure TransitionCall where
  event : DeliveryEvent
  reason : Option String
  now : Int

/-- A call of `transition` as a program. -/
def TransitionCall.prog (id : String) (c : TransitionCall) :
    Prog RepoOp.Resp (Except Thrown Delivery) :=
  ExceptT.run (DeliveryService.transition ⟨c.now, 0⟩ id c.event c.reason)

/-- A control point of `transition`: before the read, before the save, and returned. -/
inductive TransitionLoc where
  | start
  | saving (next : Delivery)
  | done (r : Except Thrown Delivery)

/-- What a call makes of the record it has read. -/
def TransitionCall.afterRead (c : TransitionCall) : Option Delivery → TransitionLoc
  | none => .done (.error (domainError .notFound ["id"] 404))
  | some current => match nextStatus current.status c.event with
    | none => .done (.error (domainError .invalidTransition ["status"] 409))
    | some target =>
      if c.event = .fail ∧ isValidFailureReason c.reason = false then
        .done (.error (domainError .validationError ["reason"] 400))
      else match toIso c.now with
        | .error e => .done (.error e)
        | .ok iso => .saving (DeliveryService.transitioned current target c.reason iso)

theorem TransitionCall.afterRead_ne_ok (c : TransitionCall) (found : Option Delivery)
    (next : Delivery) : c.afterRead found ≠ .done (.ok next) := by
  intro h
  rw [TransitionCall.afterRead.eq_def] at h
  split at h
  · exact absurd h (by simp)
  · split at h
    · exact absurd h (by simp)
    · split at h
      · exact absurd h (by simp)
      · split at h <;> exact absurd h (by simp)

/-- What is saved carries the id that was read and the target of the event. -/
theorem TransitionCall.afterRead_saving {c : TransitionCall} {found : Option Delivery}
    {next : Delivery} (h : c.afterRead found = .saving next) :
    ∃ current, found = some current ∧ next.id = current.id ∧ next.status = c.event.target := by
  rw [TransitionCall.afterRead.eq_def] at h
  cases found with
  | none => exact absurd h (by simp)
  | some current =>
    cases htarget : nextStatus current.status c.event with
    | none => simp [htarget] at h
    | some target =>
      simp only [htarget] at h
      split at h
      · exact absurd h (by simp)
      · cases hiso : toIso c.now with
        | error e => simp [hiso] at h
        | ok iso =>
          simp only [hiso, TransitionLoc.saving.injEq] at h
          exact ⟨current, rfl, by rw [← h]; rfl, by rw [← h]; exact nextStatus_eq_target htarget⟩

section Flow

variable (cfg : Config) (id : String)

/-- What a call still has to do at a control point. -/
def TransitionLoc.code (c : TransitionCall) :
    TransitionLoc → Prog RepoOp.Resp (Except Thrown Delivery)
  | .start => c.prog id
  | .saving next => .call (.saveDelivery next) fun _ => .ret (.ok next)
  | .done r => .ret r

/-- The next control point, and the repositories after the call made on the way. -/
def TransitionLoc.next (c : TransitionCall) : TransitionLoc → Repos → TransitionLoc × Repos
  | .start, s => (c.afterRead (s.deliveries.get? id), s)
  | .saving next, s => (.done (.ok next), { s with deliveries := s.deliveries.set next.id next })
  | .done r, s => (.done r, s)

theorem TransitionLoc.code_next (c : TransitionCall) (l : TransitionLoc) (s : Repos) :
    (l.code id c).step (memory cfg) s = ((l.next id c s).1.code id c, (l.next id c s).2) := by
  cases l with
  | start =>
    rw [code, TransitionLoc.next, TransitionCall.prog, DeliveryService.transition,
      step_performE_bind]
    simp only [memory]
    -- what the call makes of the record, in the order of its checks
    cases s.deliveries.get? id with
    | none => rfl
    | some current =>
      simp only [TransitionCall.afterRead]
      cases nextStatus current.status c.event with
      | none => rfl
      | some target =>
        dsimp only
        split
        · rfl
        · cases toIso c.now with
          | error e => rfl
          | ok iso => rfl
  | saving next => rfl
  | done r => rfl

variable {ι : Type} [DecidableEq ι] (calls : ι → TransitionCall)

/-- The calls by control points. -/
def transitionFlow : Flow (memory cfg) ι TransitionLoc (Except Thrown Delivery) where
  code i l := l.code id (calls i)
  next i l s := l.next id (calls i) s
  code_next i l s := l.code_next cfg id (calls i) s

end Flow

/-! ## The statuses written -/

/-- The status a repository call writes to a delivery. -/
def writtenStatus (id : String) : RepoOp → Option DeliveryStatus
  | .insertDelivery d => if d.id = id then some d.status else none
  | .saveDelivery d => if d.id = id then some d.status else none
  | _ => none

section Race

variable {ι : Type} [DecidableEq ι]

/-- Concurrent calls of `transition`. -/
abbrev TransitionPool (ι : Type) := Pool ι RepoOp.Resp (Except Thrown Delivery) Repos

variable (cfg : Config) (id : String) (calls : ι → TransitionCall)

/-- Every call at its start. -/
def startTransitions (s : Repos) : TransitionPool ι := ⟨fun i => (calls i).prog id, s⟩

/-- The statuses written to the delivery along a schedule, in order. -/
def statusesWritten (c : TransitionPool ι) (sched : List ι) : List DeliveryStatus :=
  (c.ops (memory cfg) sched).filterMap (writtenStatus id)

/-- What a linearizable schedule shows, from the initial status: the statuses written are a path of
the transition graph, nothing is written after a terminal status, and the calls that report a
terminal status report the same one. -/
structure Linearizes (initial : DeliveryStatus) (c : TransitionPool ι) (sched : List ι) : Prop where
  path : (initial :: statusesWritten cfg id c sched).IsChain Edge
  final : ∀ pre status post, statusesWritten cfg id c sched = pre ++ status :: post →
    isTerminal status = true → post = []
  agree : ∀ i j d d', (c.exec (memory cfg) sched).threads i = .ret (.ok d) →
    (c.exec (memory cfg) sched).threads j = .ret (.ok d') →
    isTerminal d.status = true → isTerminal d'.status = true → d.status = d'.status

/-- The call is about to save. -/
def saving (p : Prog RepoOp.Resp (Except Thrown Delivery)) : Bool :=
  match p.next? with
  | some (.saveDelivery _) => true
  | _ => false

/-- Where call `i` is about to save, the stored status still permits its event. -/
def SavePermitted (c : TransitionPool ι) (i : ι) : Prop :=
  saving (c.threads i) = true →
    ((c.shared.deliveries.get? id).bind fun stored =>
      nextStatus stored.status (calls i).event).isSome = true

instance (c : TransitionPool ι) (i : ι) : Decidable (SavePermitted id calls c i) :=
  inferInstanceAs (Decidable (_ → _))

/-! ### One step -/

/-- The calls by control points, over the repositories. -/
abbrev TransitionConfig (ι : Type) := Resumption.Config ι TransitionLoc Repos

/-- The control points of an interleaving over one delivery: it is stored, and what a call is about
to save carries its id and the target of the call's event. -/
structure Racing (c : TransitionConfig ι) (d : Delivery) : Prop where
  stored : c.shared.deliveries.get? id = some d
  id_eq : d.id = id
  saving : ∀ i next, c.locs i = .saving next → next.id = id ∧ next.status = (calls i).event.target

variable {cfg id calls} {c : TransitionConfig ι} {d : Delivery}

theorem step_locs_self (i : ι) :
    ((transitionFlow cfg id calls).step c i).locs i = ((c.locs i).next id (calls i) c.shared).1 :=
  Flow.step_locs_self ..

theorem step_shared (i : ι) :
    ((transitionFlow cfg id calls).step c i).shared =
      ((c.locs i).next id (calls i) c.shared).2 := rfl

/-- A step that writes nothing, and takes its call to a save of the delivery if to any. -/
theorem Racing.of_shared_eq (h : Racing id calls c d) {i : ι}
    (hshared : ((transitionFlow cfg id calls).step c i).shared = c.shared)
    (hself : ∀ next, ((transitionFlow cfg id calls).step c i).locs i = .saving next →
      next.id = id ∧ next.status = (calls i).event.target) :
    Racing id calls ((transitionFlow cfg id calls).step c i) d := by
  refine ⟨hshared ▸ h.stored, h.id_eq, fun j next hj => ?_⟩
  rcases eq_or_ne j i with rfl | hji
  · exact hself next hj
  · rw [Flow.step_locs_ne _ c hji] at hj
    exact h.saving j next hj

/-- A read leaves the record and takes the call to its save or to its end. -/
theorem Racing.read (h : Racing id calls c d) {i : ι} (hloc : c.locs i = .start) :
    Racing id calls ((transitionFlow cfg id calls).step c i) d := by
  refine h.of_shared_eq ?_ fun next hnext => ?_
  · rw [step_shared, hloc, TransitionLoc.next]
  · rw [step_locs_self, hloc, TransitionLoc.next, h.stored] at hnext
    have hread : (calls i).afterRead (some d) = .saving next := hnext
    obtain ⟨current, hcurrent, hid, hstatus⟩ := TransitionCall.afterRead_saving hread
    obtain rfl := Option.some.inj hcurrent
    exact ⟨hid.trans h.id_eq, hstatus⟩

/-- A save replaces the record. -/
theorem Racing.save (h : Racing id calls c d) {i : ι} {next : Delivery}
    (hloc : c.locs i = .saving next) :
    Racing id calls ((transitionFlow cfg id calls).step c i) next := by
  have hshared : ((transitionFlow cfg id calls).step c i).shared =
      { c.shared with deliveries := c.shared.deliveries.set next.id next } := by
    rw [step_shared, hloc, TransitionLoc.next]
  obtain ⟨hid, -⟩ := h.saving i next hloc
  refine ⟨?_, hid, fun j other hj => ?_⟩
  · rw [hshared, hid]
    exact InsertionMap.get?_set_self _ _ _
  · rcases eq_or_ne j i with rfl | hji
    · rw [step_locs_self, hloc, TransitionLoc.next] at hj
      exact absurd hj (by simp)
    · rw [Flow.step_locs_ne _ c hji] at hj
      exact h.saving j other hj

/-- A call that has returned does nothing. -/
theorem Racing.returned (h : Racing id calls c d) {i : ι} {r : Except Thrown Delivery}
    (hloc : c.locs i = .done r) : Racing id calls ((transitionFlow cfg id calls).step c i) d := by
  refine h.of_shared_eq ?_ fun next hnext => ?_
  · rw [step_shared, hloc, TransitionLoc.next]
  · rw [step_locs_self, hloc, TransitionLoc.next] at hnext
    exact absurd hnext (by simp)

/-! ### Runs -/

omit [DecidableEq ι] in
theorem threads_of_loc {i : ι} {l : TransitionLoc} (hloc : c.locs i = l) :
    ((transitionFlow cfg id calls).toPool c).threads i = l.code id (calls i) :=
  Flow.toPool_threads _ hloc

theorem statusesWritten_cons (pool : TransitionPool ι) (i : ι) (sched : List ι) :
    statusesWritten cfg id pool (i :: sched) =
      (pool.threads i).next?.toList.filterMap (writtenStatus id) ++
        statusesWritten cfg id (pool.step (memory cfg) i) sched := by
  rw [statusesWritten, Pool.ops, List.filterMap_append, statusesWritten]

/-- The statuses written are a path from the stored status exactly when every save is permitted. -/
theorem Racing.path_iff (h : Racing id calls c d) (sched : List ι) :
    (d.status :: statusesWritten cfg id ((transitionFlow cfg id calls).toPool c) sched).IsChain Edge ↔
      Runs.AllSteps (Pool.step (memory cfg)) (SavePermitted id calls)
        ((transitionFlow cfg id calls).toPool c) sched := by
  induction sched generalizing c d with
  | nil => exact iff_of_true (List.isChain_singleton d.status) trivial
  | cons i sched ih =>
    rw [statusesWritten_cons, Runs.AllSteps, ← Flow.toPool_step]
    cases hloc : c.locs i with
    | start =>
      rw [SavePermitted, threads_of_loc hloc]
      refine (ih (h.read hloc)).trans (iff_and_self.2 fun _ hsaving => ?_)
      exact absurd hsaving Bool.false_ne_true
    | saving next =>
      obtain ⟨hid, hstatus⟩ := h.saving i next hloc
      have hwritten : (some (RepoOp.saveDelivery next)).toList.filterMap (writtenStatus id) =
          [next.status] := by
        simp [writtenStatus, hid]
      have hpermitted : SavePermitted id calls ((transitionFlow cfg id calls).toPool c) i ↔
          Edge d.status next.status := by
        rw [hstatus, edge_target_iff, SavePermitted, threads_of_loc hloc]
        show (_ → ((c.shared.deliveries.get? id).bind _).isSome = true) ↔ _
        rw [h.stored]
        exact ⟨fun hall => hall rfl, fun hsome _ => hsome⟩
      rw [hpermitted, threads_of_loc hloc]
      show (d.status :: ((some (RepoOp.saveDelivery next)).toList.filterMap (writtenStatus id) ++
        _)).IsChain Edge ↔ _
      rw [hwritten, List.singleton_append, List.isChain_cons_cons]
      exact and_congr_right fun _ => ih (h.save hloc)
    | done r =>
      rw [SavePermitted, threads_of_loc hloc]
      refine (ih (h.returned hloc)).trans (iff_and_self.2 fun _ hsaving => ?_)
      exact absurd hsaving Bool.false_ne_true

/-- A call that succeeds has written the status it reports, or had succeeded before. -/
theorem Racing.success_written (h : Racing id calls c d) (sched : List ι) {i : ι} {next : Delivery}
    (hdone : (((transitionFlow cfg id calls).toPool c).exec (memory cfg) sched).threads i =
      .ret (.ok next)) :
    c.locs i = .done (.ok next) ∨
      next.status ∈ statusesWritten cfg id ((transitionFlow cfg id calls).toPool c) sched := by
  induction sched generalizing c d with
  | nil =>
    left
    replace hdone : (c.locs i).code id (calls i) = .ret (.ok next) := hdone
    cases hloc : c.locs i with
    | start => exact absurd (hloc ▸ hdone) (by rintro ⟨⟩)
    | saving other => exact absurd (hloc ▸ hdone) (by rintro ⟨⟩)
    | done r =>
      rw [hloc] at hdone
      exact congrArg TransitionLoc.done (Prog.ret.inj hdone)
  | cons j sched ih =>
    rw [statusesWritten_cons, List.mem_append]
    replace hdone : (((transitionFlow cfg id calls).toPool
        ((transitionFlow cfg id calls).step c j)).exec (memory cfg) sched).threads i =
          .ret (.ok next) := by
      rw [Flow.toPool_step]
      exact hdone
    rw [← Flow.toPool_step]
    -- call `j` moved, which may be the call looked at
    have hmoved : ∀ d', Racing id calls ((transitionFlow cfg id calls).step c j) d' →
        (((c.locs j).next id (calls j) c.shared).1 = .done (.ok next) →
          c.locs j = .done (.ok next) ∨ next.status ∈
            (((transitionFlow cfg id calls).toPool c).threads j).next?.toList.filterMap
              (writtenStatus id)) →
        c.locs i = .done (.ok next) ∨ next.status ∈
            (((transitionFlow cfg id calls).toPool c).threads j).next?.toList.filterMap
              (writtenStatus id) ∨
          next.status ∈ statusesWritten cfg id ((transitionFlow cfg id calls).toPool
            ((transitionFlow cfg id calls).step c j)) sched := by
      intro d' h' hself
      rcases ih h' hdone with hloc | hmem
      · rcases eq_or_ne i j with rfl | hij
        · rw [step_locs_self] at hloc
          exact (hself hloc).imp_right Or.inl
        · rw [Flow.step_locs_ne _ c hij] at hloc
          exact .inl hloc
      · exact .inr (.inr hmem)
    cases hloc : c.locs j with
    | start =>
      refine hmoved d (h.read hloc) fun hnext => ?_
      rw [hloc, TransitionLoc.next] at hnext
      exact absurd hnext (TransitionCall.afterRead_ne_ok _ _ _)
    | saving other =>
      refine hmoved other (h.save hloc) fun hnext => .inr ?_
      rw [hloc, TransitionLoc.next] at hnext
      obtain rfl : other = next := by simpa using hnext
      rw [threads_of_loc hloc]
      show other.status ∈ (some (RepoOp.saveDelivery other)).toList.filterMap (writtenStatus id)
      simp [writtenStatus, (h.saving j other hloc).1]
    | done r =>
      refine hmoved d (h.returned hloc) fun hnext => .inl ?_
      rw [hloc, TransitionLoc.next] at hnext
      exact hloc.trans hnext

variable (cfg)

/-- In every interleaving of any set of calls on a stored delivery: the calls are linearizable along
the schedule exactly when every save of the schedule finds a status that still permits its event. -/
theorem transitions_linearize_iff {s : Repos} (hstored : s.deliveries.get? id = some d)
    (hid : d.id = id) (sched : List ι) :
    Linearizes cfg id d.status (startTransitions id calls s) sched ↔
      Runs.AllSteps (Pool.step (memory cfg)) (SavePermitted id calls) (startTransitions id calls s)
        sched := by
  -- every call at its start, by control points
  have hracing : Racing id calls ⟨fun _ => .start, s⟩ d :=
    ⟨hstored, hid, fun i next h => absurd h (by simp)⟩
  have hstart : startTransitions id calls s =
      (transitionFlow cfg id calls).toPool ⟨fun _ => .start, s⟩ := rfl
  rw [hstart, ← hracing.path_iff sched]
  constructor
  · exact fun h => h.path
  · intro hpath
    have hwritten : ∀ i next,
        (((transitionFlow cfg id calls).toPool ⟨fun _ => .start, s⟩).exec (memory cfg)
          sched).threads i = .ret (.ok next) →
        next.status ∈ d.status :: statusesWritten cfg id ((transitionFlow cfg id calls).toPool
          ⟨fun _ => .start, s⟩) sched := by
      intro i next hdone
      rcases hracing.success_written sched hdone with hloc | hmem
      · exact absurd hloc (by simp)
      · exact List.mem_cons_of_mem _ hmem
    refine ⟨hpath, fun pre status post hsplit => ?_, fun i j next next' hi hj => ?_⟩
    · rw [hsplit, ← List.cons_append] at hpath
      exact terminal_last hpath rfl
    · exact terminal_unique hpath (hwritten i next hi) (hwritten j next' hj)

end Race

/-- An arrived delivery. -/
def arrivedParcel : Delivery where
  id := "p"
  address := "a"
  recipientName := "n"
  recipientContact := "c"
  weightKg := .fin 1
  destination := ⟨.fin 0, .fin 0⟩
  status := .arrived
  trackingToken := "t"
  assignmentId := some "asg"
  failureReason := none
  completedAt := none
  createdAt := ⟨0, validTime_zero⟩
  updatedAt := ⟨0, validTime_zero⟩

/-- The arrived delivery, stored. -/
def arrivedRepos : Repos :=
  { Repos.new with deliveries := InsertionMap.empty.set "p" arrivedParcel }

/-- One call completes the delivery, the other reports a failure. -/
def completeAndFail : Fin 2 → TransitionCall
  | 0 => ⟨.complete, none, 0⟩
  | 1 => ⟨.fail, some "refused", 0⟩

/-- One after the other, the calls are linearizable: the second is rejected. -/
theorem completeThenFail_linearizes :
    Linearizes .unary "p" .arrived (startTransitions "p" completeAndFail arrivedRepos) [0, 0, 1, 1] :=
  (transitions_linearize_iff .unary (d := arrivedParcel) rfl rfl [0, 0, 1, 1]).2 (by decide)

/-- Both read the delivery before either saves: both succeed, and it goes from `Completed` to
`Failed`. -/
theorem completeAndFail_not_linearizable :
    ¬ Linearizes .unary "p" .arrived (startTransitions "p" completeAndFail arrivedRepos)
      [0, 1, 0, 1] := by
  intro h
  have hwritten : statusesWritten .unary "p" (startTransitions "p" completeAndFail arrivedRepos)
      [0, 1, 0, 1] = [.completed, .failed] := by decide
  exact absurd (h.final [] .completed [.failed] hwritten rfl) (by decide)

end FleetCommand.Management
