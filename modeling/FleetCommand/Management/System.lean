import FleetCommand.Management.Footprints

/-!
# The management service: sequential runs

The service as a state machine: a request is a method with its arguments and what the clock reads
during the call (`Request`), and `step` runs it to its end, returned or thrown, before the next one.
`history` are the states a run goes through, one for each repository call.

Two facts are packaged here for the invariants: a relation every repository call keeps is a chain
through the history (`history_isChain`), and the records of a repository are stored under their own
ids, which the generator has issued (`Issued`).
-/

set_option autoImplicit false

namespace FleetCommand.Management

open Resumption

/-- The methods of the services, with their arguments. -/
inductive Op where
  | createDriver (input : CreateDriverInput)
  | updateDriver (id : String) (changes : DriverUpdate)
  | deactivateDriver (id : String)
  | setAvailability (id : String) (target : DriverStatus)
  | beginDelivery (id : String)
  | completeDelivery (id : String)
  | registerVehicle (input : RegisterVehicleInput)
  | associateDriver (vehicleId : String) (driverId : Option String)
  | createDelivery (input : CreateDeliveryInput) (geocoded : Option GeoPoint)
  | transition (id : String) (event : DeliveryEvent) (reason : Option String)
  | createAssignment (driverId : String) (deliveryIds : List String)
  | accept (assignmentId : String)
  | reassign (deliveryId targetAssignmentId : String)
  | createOrUpdateRoute (env : Collaborators) (assignmentId : String)
  | reoptimize (env : Collaborators) (assignmentId : String)
  | completeIfAllStopsTerminal (assignmentId : String)

/-- A method with its result dropped. -/
def ignore {α : Type} (p : Service α) : Service Unit := p >>= fun _ => pure ()

theorem runE_ignore {α : Type} {σ : Type} (h : Handler RepoOp.Resp σ) (p : Service α) (s : σ) :
    (runE h (ignore p) s).2 = (runE h p s).2 := by
  rw [ignore, runE_bind]
  rcases runE h p s with ⟨result, s'⟩
  cases result <;> rfl

theorem meetsE_ignore {α : Type} {σ : Type} {h : Handler RepoOp.Resp σ} {R : σ → σ → Prop}
    {Q : σ → Prop} {p : Service α} {s : σ} (hp : MeetsE h R (fun _ s' => Q s') p s) :
    MeetsE h R (fun _ s' => Q s') (ignore p) s := by
  rw [ignore, meetsE_bind]
  apply MeetsE.imp h R _ hp
  intro result s' hQ
  cases result <;> exact hQ

variable (cfg : Config) (call : Call)

/-- The program of a method. -/
def Op.code : Op → Service Unit
  | .createDriver input => ignore (DriverService.create cfg call input)
  | .updateDriver id changes => ignore (DriverService.update call id changes)
  | .deactivateDriver id => ignore (DriverService.deactivate call id)
  | .setAvailability id target => ignore (DriverService.setAvailability call id target)
  | .beginDelivery id => ignore (DriverService.beginDelivery call id)
  | .completeDelivery id => ignore (DriverService.completeDelivery call id)
  | .registerVehicle input => ignore (VehicleService.register cfg call input)
  | .associateDriver vehicleId driverId =>
    ignore (VehicleService.associateDriver call vehicleId driverId)
  | .createDelivery input geocoded => ignore (DeliveryService.create cfg call input geocoded)
  | .transition id event reason => ignore (DeliveryService.transition call id event reason)
  | .createAssignment driverId deliveryIds =>
    ignore (AssignmentService.create cfg call driverId deliveryIds)
  | .accept assignmentId => ignore (AssignmentService.accept call assignmentId)
  | .reassign deliveryId targetAssignmentId =>
    ignore (AssignmentService.reassign call deliveryId targetAssignmentId)
  | .createOrUpdateRoute env assignmentId =>
    ignore (RouteService.createOrUpdateRoute cfg call env assignmentId)
  | .reoptimize env assignmentId => ignore (RouteService.reoptimize cfg call env assignmentId)
  | .completeIfAllStopsTerminal assignmentId =>
    ignore (RouteService.completeIfAllStopsTerminal call assignmentId)

/-- The parts a method can write. -/
def Op.parts : Op → List Part
  | .createDriver _ | .updateDriver _ _ | .deactivateDriver _ | .setAvailability _ _
  | .beginDelivery _ | .completeDelivery _ => [.drivers]
  | .registerVehicle _ | .associateDriver _ _ => [.vehicles]
  | .createDelivery _ _ | .transition _ _ _ | .reassign _ _ => [.deliveries]
  | .createAssignment _ _ => [.assignments, .deliveries, .drivers]
  | .accept _ => [.assignments]
  | .createOrUpdateRoute _ _ | .reoptimize _ _ => [.routes]
  | .completeIfAllStopsTerminal _ => [.assignments, .drivers]

theorem ignore_within {α : Type} {parts : List Part} {p : Service α} (hp : StaysWithin parts p) :
    StaysWithin parts (ignore p) :=
  .bind hp fun _ => .pure _

theorem Op.code_within (op : Op) : StaysWithin op.parts (op.code cfg call) := by
  cases op with
  | createDriver input => exact ignore_within (DriverService.create_within _ _ List.mem_cons_self _)
  | updateDriver id changes =>
    exact ignore_within (DriverService.update_within _ List.mem_cons_self _ _)
  | deactivateDriver id =>
    exact ignore_within (DriverService.deactivate_within _ List.mem_cons_self _)
  | setAvailability id target =>
    exact ignore_within (DriverService.changeStatus_within _ List.mem_cons_self _ _ _)
  | beginDelivery id =>
    exact ignore_within (DriverService.changeStatus_within _ List.mem_cons_self _ _ _)
  | completeDelivery id =>
    exact ignore_within (DriverService.changeStatus_within _ List.mem_cons_self _ _ _)
  | registerVehicle input =>
    exact ignore_within (VehicleService.register_within _ _ List.mem_cons_self _)
  | associateDriver vehicleId driverId =>
    exact ignore_within (VehicleService.associateDriver_within _ List.mem_cons_self _ _)
  | createDelivery input geocoded =>
    exact ignore_within (DeliveryService.create_within _ _ List.mem_cons_self _ _)
  | transition id event reason =>
    exact ignore_within (DeliveryService.transition_within _ List.mem_cons_self _ _ _)
  | createAssignment driverId deliveryIds =>
    exact ignore_within
      (AssignmentService.create_within _ _ List.mem_cons_self (by simp) (by simp) _ _)
  | accept assignmentId =>
    exact ignore_within (AssignmentService.accept_within _ List.mem_cons_self _)
  | reassign deliveryId targetAssignmentId =>
    exact ignore_within (AssignmentService.reassign_within _ List.mem_cons_self _ _)
  | createOrUpdateRoute env assignmentId =>
    exact ignore_within (RouteService.createOrUpdateRoute_within _ _ List.mem_cons_self _ _)
  | reoptimize env assignmentId =>
    exact ignore_within (RouteService.createOrUpdateRoute_within _ _ List.mem_cons_self _ _)
  | completeIfAllStopsTerminal assignmentId =>
    exact ignore_within
      (RouteService.completeIfAllStopsTerminal_within _ List.mem_cons_self (by simp) _)

/-! ## Requests and runs -/

/-- A method and what the clock reads while it runs. -/
structure Request where
  op : Op
  now : Int

/-- The repositories, and how many requests were served: request `n` takes the ids number `n`. -/
structure System where
  repos : Repos
  calls : Nat

/-- Nothing stored, no request served. -/
def System.new : System := ⟨.new, 0⟩

/-- The program of the next request. -/
def System.code (s : System) (r : Request) : Service Unit := r.op.code cfg ⟨r.now, s.calls⟩

/-- A request run to its end. -/
def step (s : System) (r : Request) : System where
  repos := (runE (memory cfg) (s.code cfg r) s.repos).2
  calls := s.calls + 1

section Frame

variable {cfg} {s : System} {r : Request}

theorem step_repos {α : Type} {p : Service α} (h : s.code cfg r = ignore p) :
    (step cfg s r).repos = (runE (memory cfg) p s.repos).2 := by
  rw [step, h, runE_ignore]

/-- What every repository call within the parts of a request keeps, the request keeps. -/
theorem step_keeps {I : Repos → Prop}
    (keep : ∀ op repos, Within r.op.parts op → I repos → I (memory cfg op repos).2)
    (h : I s.repos) : I (step cfg s r).repos :=
  CallsOnlyE.runE (memory cfg) keep (Op.code_within cfg ⟨r.now, s.calls⟩ r.op) h

theorem step_drivers (h : Part.drivers ∉ r.op.parts) :
    (step cfg s r).repos.drivers = s.repos.drivers := by
  apply step_keeps (I := fun repos => repos.drivers = s.repos.drivers) _ rfl
  intro op repos hop hrepos
  rw [memory_drivers cfg (hop.not_writes h), hrepos]

theorem step_vehicles (h : Part.vehicles ∉ r.op.parts) :
    (step cfg s r).repos.vehicles = s.repos.vehicles := by
  apply step_keeps (I := fun repos => repos.vehicles = s.repos.vehicles) _ rfl
  intro op repos hop hrepos
  rw [memory_vehicles cfg (hop.not_writes h), hrepos]

theorem step_assignments (h : Part.assignments ∉ r.op.parts) :
    (step cfg s r).repos.assignments = s.repos.assignments := by
  apply step_keeps (I := fun repos => repos.assignments = s.repos.assignments) _ rfl
  intro op repos hop hrepos
  rw [memory_assignments cfg (hop.not_writes h), hrepos]

end Frame

/-- The states of the repositories during a run, one for each repository call, after the first. -/
def history (s : System) : List Request → List Repos
  | [] => [s.repos]
  | r :: rs => (s.repos :: traceE (memory cfg) (s.code cfg r) s.repos) ++ history (step cfg s r) rs

theorem history_head (s : System) (rs : List Request) :
    (history cfg s rs).head? = some s.repos := by
  cases rs <;> rfl

section History

variable {cfg} {R : Repos → Repos → Prop} {I : System → Prop}

/-- What the repository calls of each request do, and an invariant of the requests, carried through
a run. -/
theorem history_isChain (refl : ∀ s, I s → R s.repos s.repos)
    (keep : ∀ (s : System) (r : Request), I s →
      MeetsE (memory cfg) R (fun _ repos => I ⟨repos, s.calls + 1⟩) (s.code cfg r) s.repos)
    {s : System} (h : I s) (rs : List Request) : (history cfg s rs).IsChain R := by
  -- on the requests: each ends in a state the next may start from
  induction rs generalizing s with
  | nil => exact List.isChain_singleton _
  | cons r rs ih =>
    obtain ⟨hchain, hend⟩ := (meetsE_iff (memory cfg) R _ _ _).1 (keep s r h)
    have hnext : I (step cfg s r) := hend
    rw [history, List.isChain_append]
    refine ⟨hchain, ih hnext, ?_⟩
    -- the last state of a request is the first of the history that follows
    intro last hlast first hfirst
    rw [List.getLast?_eq_some_getLast (List.cons_ne_nil _ _), getLast_traceE, Option.mem_some] at hlast
    rw [history_head, Option.mem_some] at hfirst
    subst hlast hfirst
    exact refl _ hnext

end History

/-! ## Issued ids -/

/-- Every record is stored under its own id, and that id was issued by one of the first `n`
requests. -/
def Issued {α : Type} (ids : IdGenerator) (idOf : α → String) (n : Nat)
    (m : InsertionMap String α) : Prop :=
  ∀ id a, m.get? id = some a → idOf a = id ∧ ∃ k < n, id = ids.gen k

namespace Issued

variable {α : Type} {ids : IdGenerator} {idOf : α → String} {n : Nat} {m : InsertionMap String α}

theorem empty : Issued ids idOf n (.empty : InsertionMap String α) := by
  intro id a ha
  exact absurd ha (by simp)

theorem mono (h : Issued ids idOf n m) {n' : Nat} (hn : n ≤ n') : Issued ids idOf n' m := by
  intro id a ha
  obtain ⟨hown, k, hk, hid⟩ := h id a ha
  exact ⟨hown, k, by omega, hid⟩

/-- The next id is stored nowhere. -/
theorem fresh (h : Issued ids idOf n m) : m.get? (ids.gen n) = none := by
  rw [Option.eq_none_iff_forall_ne_some]
  intro a ha
  obtain ⟨-, k, hk, hid⟩ := h _ a ha
  have hkn : n = k := ids.injective hid
  omega

/-- The record of the last id issued. -/
theorem set_last (h : Issued ids idOf (n + 1) m) {a : α} (ha : idOf a = ids.gen n) :
    Issued ids idOf (n + 1) (m.set (idOf a) a) := by
  intro id b hb
  rw [InsertionMap.get?_set] at hb
  split at hb
  next hid =>
    obtain rfl := Option.some.inj hb
    exact ⟨hid.symm, n, Nat.lt_succ_self n, hid.trans ha⟩
  next => exact h id b hb

theorem set_new (h : Issued ids idOf n m) {a : α} (ha : idOf a = ids.gen n) :
    Issued ids idOf (n + 1) (m.set (idOf a) a) :=
  (h.mono (Nat.le_succ n)).set_last ha

theorem set_stored (h : Issued ids idOf n m) {a b : α} (ha : m.get? (idOf b) = some a) :
    Issued ids idOf n (m.set (idOf b) b) := by
  intro id c hc
  rw [InsertionMap.get?_set] at hc
  split at hc
  next hid =>
    obtain rfl := Option.some.inj hc
    exact ⟨hid.symm, hid ▸ (h _ a ha).2⟩
  next => exact h id c hc

end Issued

end FleetCommand.Management
