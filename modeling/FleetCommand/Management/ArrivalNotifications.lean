import FleetCommand.Management.ConcurrentIntegrity

/-!
# Arrival notifications

`ArrivalNotificationService.handleZoneEvent`: on an Enter event it lists the deliveries bound for
the zone, looks up the assignment of each open one and notifies the customer of those the vehicle
carries. Between its calls other requests run, so the listing and each lookup see the repositories
of their own moments; a delivery is judged by its status when it was listed and by its assignment
when that was looked up.

The field `destinationZoneId` is copied with its delivery and set by no service; here it is a
function of the delivery's id.
-/

set_option autoImplicit false

namespace FleetCommand.Management

open Resumption

/-! ## The service -/

/-- Whether a zone is entered or left. -/
inductive ZoneEventType where
  | enter
  | exit
  deriving DecidableEq

/-- The zone event received. -/
structure ZoneEventMessage where
  vehicleId : String
  zoneId : String
  type : ZoneEventType
  label : Option String
  timestamp : String

/-- The notice sent to the customer of a delivery. -/
structure ArrivalNotification where
  deliveryId : String
  trackingToken : String
  zoneId : String
  vehicleId : String
  label : Option String
  timestamp : String
  deriving DecidableEq

/-- What the service calls: the two repositories and the notifier. -/
inductive NotificationOp where
  | listByDestinationZoneId (zoneId : String)
  | findAssignmentById (id : String)
  | notifyArrival (notification : ArrivalNotification)

/-- What the calls answer. -/
@[reducible] def NotificationOp.Resp : NotificationOp → Type
  | .listByDestinationZoneId _ => List Delivery
  | .findAssignmentById _ => Option Assignment
  | .notifyArrival _ => Unit

namespace ArrivalNotificationService

/-- A delivery is an arrival for the entering vehicle when it is not terminal and belongs to an
active assignment carried by that vehicle. -/
def isArrivalForVehicle (delivery : Delivery) (vehicleId : String) :
    Prog NotificationOp.Resp Bool :=
  if isTerminal delivery.status then pure false
  else if truthy delivery.assignmentId = false then pure false
  else do
    let assignment ←
      Prog.perform (NotificationOp.findAssignmentById (delivery.assignmentId.getD ""))
    match assignment with
    | none => pure false
    | some assignment =>
      if isActiveAssignment assignment then pure (decide (assignment.vehicleId = vehicleId))
      else pure false

/-- The notice for a delivery. -/
def notificationOf (event : ZoneEventMessage) (delivery : Delivery) : ArrivalNotification where
  deliveryId := delivery.id
  trackingToken := delivery.trackingToken
  zoneId := event.zoneId
  vehicleId := event.vehicleId
  label := event.label
  timestamp := event.timestamp

/-- The loop over the candidates. -/
def routeCandidates (event : ZoneEventMessage) :
    List Delivery → List ArrivalNotification → Prog NotificationOp.Resp (List ArrivalNotification)
  | [], routed => pure routed
  | delivery :: candidates, routed => do
    let arrival ← isArrivalForVehicle delivery event.vehicleId
    if arrival then
      Prog.perform (NotificationOp.notifyArrival (notificationOf event delivery))
      routeCandidates event candidates (routed ++ [notificationOf event delivery])
    else routeCandidates event candidates routed

/-- The notices of an event: one for each delivery to the zone that the vehicle carries. -/
def handleZoneEvent (event : ZoneEventMessage) :
    Prog NotificationOp.Resp (List ArrivalNotification) :=
  if event.type ≠ .enter then pure []
  else do
    let candidates ← Prog.perform (NotificationOp.listByDestinationZoneId event.zoneId)
    routeCandidates event candidates []

end ArrivalNotificationService

/-! ## Its calls beside other requests -/

section Answers

variable (destinations : String → Option String) (world : ℕ → Repos)

/-- The deliveries to a zone. -/
def listByDestinationZoneId (deliveries : InsertionMap String Delivery) (zoneId : String) :
    List Delivery :=
  deliveries.values.filter fun d => destinations d.id = some zoneId

/-- The service's calls, the `k`-th answered from `world k`, and what the notifier records. -/
def answers : Handler NotificationOp.Resp (ℕ × List ArrivalNotification)
  | .listByDestinationZoneId zoneId, (k, notified) =>
    (listByDestinationZoneId destinations (world k).deliveries zoneId, k + 1, notified)
  | .findAssignmentById id, (k, notified) => ((world k).assignments.get? id, k + 1, notified)
  | .notifyArrival n, (k, notified) => ((), k + 1, notified ++ [n])

/-- The delivery's assignment is stored, active and the vehicle's. -/
def isCarried (s : Repos) (vehicleId : String) (d : Delivery) : Bool :=
  truthy d.assignmentId &&
    (s.assignments.get? (d.assignmentId.getD "")).any fun a =>
      isActiveAssignment a && a.vehicleId = vehicleId

/-- The delivery as listed is open, and is carried where its assignment is looked up. -/
def isArrival (s : Repos) (vehicleId : String) (d : Delivery) : Bool :=
  !isTerminal d.status && isCarried s vehicleId d

namespace ArrivalNotificationService

/-- The arrival check looks up one assignment at most. -/
theorem run_isArrivalForVehicle (d : Delivery) (vehicleId : String) (k : ℕ)
    (notified : List ArrivalNotification) :
    ∃ k', k ≤ k' ∧
      (isArrivalForVehicle d vehicleId).run (answers destinations world) (k, notified) =
        (isArrival (world k) vehicleId d, k', notified) := by
  unfold isArrivalForVehicle isArrival isCarried
  cases hterminal : isTerminal d.status with
  | true => exact ⟨k, le_rfl, rfl⟩
  | false =>
    cases htruthy : truthy d.assignmentId with
    | false => exact ⟨k, le_rfl, rfl⟩
    | true =>
      -- the one lookup is answered from `world k`
      refine ⟨k + 1, k.le_succ, ?_⟩
      simp only [Bool.false_eq_true, if_false, Bool.true_eq_false, Prog.perform_bind,
        Prog.run_call, answers]
      cases ha : (world k).assignments.get? (d.assignmentId.getD "") with
      | none => rfl
      | some a => cases hactive : isActiveAssignment a <;> simp [hactive]

/-- The loop notifies the candidates that are arrivals, each judged at its own moment, in their
order. -/
theorem run_routeCandidates (event : ZoneEventMessage) {candidates : List Delivery}
    (hids : (candidates.map Delivery.id).Nodup) (routed : List ArrivalNotification) (k : ℕ)
    (notified : List ArrivalNotification) :
    ∃ (moment : String → ℕ) (k' : ℕ), (∀ id, k ≤ moment id ∧ moment id ≤ k') ∧
      let arrivals := (candidates.filter fun d =>
        isArrival (world (moment d.id)) event.vehicleId d).map (notificationOf event)
      (routeCandidates event candidates routed).run (answers destinations world) (k, notified) =
        (routed ++ arrivals, k', notified ++ arrivals) := by
  induction candidates generalizing routed k notified with
  | nil => exact ⟨fun _ => k, k, fun _ => ⟨le_rfl, le_rfl⟩, by simp [routeCandidates]⟩
  | cons d candidates ih =>
    obtain ⟨hd, hids⟩ := List.nodup_cons.1 hids
    obtain ⟨k₁, hk₁, hcheck⟩ :=
      run_isArrivalForVehicle destinations world d event.vehicleId k notified
    -- the check of `d` was answered from `world k`
    have hlater (moment : String → ℕ) :
        (candidates.filter fun d' =>
          isArrival (world (Function.update moment d.id k d'.id)) event.vehicleId d') =
        candidates.filter fun d' => isArrival (world (moment d'.id)) event.vehicleId d' := by
      refine List.filter_congr fun d' hd' => ?_
      rw [Function.update_of_ne]
      rintro hsame
      exact hd (hsame ▸ List.mem_map_of_mem hd')
    have hupdate {moment : String → ℕ} {k' : ℕ}
        (hmoment : ∀ id, k₁ ≤ moment id ∧ moment id ≤ k') (id : String) :
        k ≤ Function.update moment d.id k id ∧ Function.update moment d.id k id ≤ k' := by
      obtain ⟨hfrom, hto⟩ := hmoment id
      rw [Function.update_apply]
      split <;> omega
    cases harrival : isArrival (world k) event.vehicleId d with
    | true =>
      obtain ⟨moment, k', hmoment, hrest⟩ := ih hids (routed ++ [notificationOf event d]) (k₁ + 1)
        (notified ++ [notificationOf event d])
      refine ⟨Function.update moment d.id k, k',
        hupdate fun id => ⟨(k₁.le_succ).trans (hmoment id).1, (hmoment id).2⟩, ?_⟩
      simp only [routeCandidates, Prog.run_bind, hcheck, harrival, if_true, Prog.perform_bind,
        Prog.run_call, answers, hrest, hlater, List.filter_cons, Function.update_self,
        List.map_cons, List.append_assoc, List.singleton_append]
    | false =>
      obtain ⟨moment, k', hmoment, hrest⟩ := ih hids routed k₁ notified
      refine ⟨Function.update moment d.id k, k', hupdate hmoment, ?_⟩
      simp only [routeCandidates, Prog.run_bind, hcheck, harrival, Bool.false_eq_true, if_false,
        hrest, hlater, List.filter_cons, Function.update_self]

/-- The customers notified of an event, each candidate judged at its own moment. -/
def arrivals (event : ZoneEventMessage) (moment : String → ℕ) : List ArrivalNotification :=
  if event.type = .enter then
    ((listByDestinationZoneId destinations (world 0).deliveries event.zoneId).filter fun d =>
      isArrival (world (moment d.id)) event.vehicleId d).map (notificationOf event)
  else []

theorem run_handleZoneEvent (event : ZoneEventMessage)
    (hids : ((listByDestinationZoneId destinations (world 0).deliveries event.zoneId).map
      Delivery.id).Nodup) :
    ∃ (moment : String → ℕ) (k' : ℕ), (∀ id, moment id ≤ k') ∧
      (handleZoneEvent event).run (answers destinations world) (0, []) =
        (arrivals destinations world event moment, k',
          arrivals destinations world event moment) := by
  unfold handleZoneEvent arrivals
  by_cases henter : event.type = .enter
  · obtain ⟨moment, k', hmoment, hrun⟩ :=
      run_routeCandidates destinations world event hids [] 1 []
    refine ⟨moment, k', fun id => (hmoment id).2, ?_⟩
    rw [if_neg (not_not.2 henter), if_pos henter, Prog.perform_bind, Prog.run_call]
    exact hrun
  · refine ⟨fun _ => 0, 0, fun _ => le_rfl, ?_⟩
    rw [if_pos henter, if_neg henter, Prog.run_pure]

end ArrivalNotificationService

/-- No delivery is listed twice. -/
theorem nodup_listed {cfg : Config} {s : Repos} (h : s.Sound cfg) (zoneId : String) :
    ((listByDestinationZoneId destinations s.deliveries zoneId).map Delivery.id).Nodup :=
  (KeyedTable.Rows.nodup_values fun id d hd => (h.rows.deliveries id d hd).1).sublist
    (List.filter_sublist.map _)

end Answers

/-! ## Beside the requests of the services -/

section Beside

variable {ι : Type} [DecidableEq ι] {calls : ι → ConcurrentCall} {cfg : Config}

/-- The token of a stored delivery is its id's, whichever moments are compared. -/
theorem token_iff_id (htoken : Function.Injective cfg.trackingToken) {s s' : Repos}
    (h : s.Sound cfg) (h' : s'.Sound cfg) {id id' : String} {d d' : Delivery}
    (hd : s.deliveries.get? id = some d) (hd' : s'.deliveries.get? id' = some d') :
    d'.trackingToken = d.trackingToken ↔ id' = id := by
  obtain ⟨-, -, k, rfl, hk⟩ := h.rows.deliveries id d hd
  obtain ⟨-, -, k', rfl, hk'⟩ := h'.rows.deliveries id' d' hd'
  rw [hk, hk']
  constructor
  · intro hsame
    rw [htoken hsame]
  · intro hsame
    rw [cfg.deliveryId.injective hsame]

/-- The delivery is bound for the depot, and its vehicle enters the depot. -/
def atDepot (id : String) : Option String := if id = "ppppp" then some "depot" else none

/-- A vehicle enters the depot. -/
def depotEntered : ZoneEventMessage := ⟨"vvv", "depot", .enter, none, "2024-01-01T00:00:00.000Z"⟩

/-- The delivery is notified of where it was assigned before the vehicle entered. -/
example : ((ArrivalNotificationService.handleZoneEvent depotEntered).run
    (answers atDepot fun _ => reposAfter morning .unary (setUp ++ sideBySide)) (0, [])).1.map
      ArrivalNotification.deliveryId = ["ppppp"] := by
  decide +kernel

end Beside

end FleetCommand.Management
