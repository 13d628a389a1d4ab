import FleetCommand.Lib.RelyGuarantee
import FleetCommand.Management.Integrity
import FleetCommand.Management.RouteRace

/-!
# Integrity under any interleaving

Any number of service calls run at once, each under a number of its own, and their repository calls
interleave in any order. The rely of a call is that the others add no record under its number and
take no record away; `Integrity` is then shown of each method alone, from what it has read before it
writes.
-/

set_option autoImplicit false

namespace FleetCommand.Management

open Resumption KeyedTable SecondaryIndex

variable {cfg : Config}

/-- What call number `n` relies on and has to meet. -/
def integrity (cfg : Config) (n : Nat) : Contract RepoOp Repos where
  inv := Repos.Sound cfg
  rely := Repos.Evolves cfg (· ≠ n)
  refl := .refl
  trans := .trans
  permits := Permits cfg n

/-- No record is stored under the ids with number `n`. -/
structure Repos.Unused (cfg : Config) (n : Nat) (s : Repos) : Prop where
  driver : s.drivers.byId.get? (cfg.driverId.gen n) = none
  vehicle : s.vehicles.byId.get? (cfg.vehicleId.gen n) = none
  delivery : s.deliveries.get? (cfg.deliveryId.gen n) = none
  assignment : s.assignments.get? (cfg.assignmentId.gen n) = none

theorem Repos.unused_new (n : Nat) : Repos.new.Unused cfg n := ⟨rfl, rfl, rfl, rfl⟩

theorem not_taken {ids : IdGenerator} {n : Nat} : ¬ Taken ids (· ≠ n) (ids.gen n) := by
  rintro ⟨k, hk, hid⟩
  exact hk (ids.injective hid).symm

theorem Repos.Unused.evolves {n : Nat} {s s' : Repos} (h : s.Unused cfg n)
    (hs : s.Evolves cfg (· ≠ n) s') : s'.Unused cfg n where
  driver := hs.drivers.unused h.driver not_taken
  vehicle := hs.vehicles.unused h.vehicle not_taken
  delivery := hs.deliveries.unused h.delivery not_taken
  assignment := hs.assignments.unused h.assignment not_taken

/-! ## What a read gives -/

/-- The record is stored, up to the fields that may change. -/
abbrev HoldsDriver (s : Repos) (d : Driver) : Prop :=
  Holds (SameBy Driver.fixed) s.drivers.byId d.id d

/-- A record of the vehicle is stored, with the same fixed fields. -/
abbrev HoldsVehicle (s : Repos) (v : Vehicle) : Prop :=
  Holds (SameBy Vehicle.fixed) s.vehicles.byId v.id v

/-- The same of a delivery. -/
abbrev HoldsDelivery (s : Repos) (d : Delivery) : Prop :=
  Holds (SameBy Delivery.fixed) s.deliveries d.id d

/-- The same of an assignment. -/
abbrev HoldsAssignment (s : Repos) (a : Assignment) : Prop :=
  Holds (SameBy Assignment.fixed) s.assignments a.id a

section Reads

variable {s s' : Repos} {issued : Nat → Prop}

theorem HoldsDriver.evolves {d : Driver} (h : HoldsDriver s d) (hs : s.Evolves cfg issued s') :
    HoldsDriver s' d :=
  Holds.evolves SameBy.trans h hs.drivers

theorem HoldsVehicle.evolves {v : Vehicle} (h : HoldsVehicle s v) (hs : s.Evolves cfg issued s') :
    HoldsVehicle s' v := by
  obtain ⟨v', hv', hfixed⟩ := h
  obtain ⟨v'', hv'', hbecomes⟩ := hs.vehicles.kept hv'
  exact ⟨v'', hv'', SameBy.trans hfixed hbecomes.fixed⟩

theorem HoldsDelivery.evolves {d : Delivery} (h : HoldsDelivery s d)
    (hs : s.Evolves cfg issued s') : HoldsDelivery s' d :=
  Holds.evolves SameBy.trans h hs.deliveries

theorem HoldsAssignment.evolves {a : Assignment} (h : HoldsAssignment s a)
    (hs : s.Evolves cfg issued s') : HoldsAssignment s' a :=
  Holds.evolves SameBy.trans h hs.assignments

namespace Repos.Sound

theorem holdsDriver (h : s.Sound cfg) {id : String} {d : Driver}
    (hd : s.drivers.byId.get? id = some d) : d.id = id ∧ HoldsDriver s d := by
  have hid := (h.rows.drivers id d hd).1
  exact ⟨hid, d, by rw [hid, hd], rfl⟩

theorem holdsVehicle (h : s.Sound cfg) {id : String} {v : Vehicle}
    (hv : s.vehicles.byId.get? id = some v) : HoldsVehicle s v :=
  ⟨v, by rw [(h.rows.vehicles id v hv).1.1, hv], rfl⟩

theorem holdsDelivery (h : s.Sound cfg) {id : String} {d : Delivery}
    (hd : s.deliveries.get? id = some d) : HoldsDelivery s d :=
  ⟨d, by rw [(h.rows.deliveries id d hd).1, hd], rfl⟩

theorem holdsAssignment (h : s.Sound cfg) {id : String} {a : Assignment}
    (ha : s.assignments.get? id = some a) : a.id = id ∧ HoldsAssignment s a := by
  have hid := (h.rows.assignments id a ha).1.1
  exact ⟨hid, a, by rw [hid, ha], rfl⟩

end Repos.Sound

end Reads

/-! ## Drivers -/

variable {n : Nat} {call : Call}

/-- A method that keeps the contract of call number `n`. -/
abbrev Keeps {α : Type} (cfg : Config) (n : Nat) (Q : α → Repos → Prop) (p : Service α)
    (s : Repos) : Prop :=
  UnderE (memory cfg) (integrity cfg n) Q p s

/-- What evolution keeps, a call keeps and relies on. -/
theorem stable_of_evolves {P : RepoOp → Prop} {J : Repos → Prop}
    (hJ : ∀ {issued : Nat → Prop} {s s' : Repos}, J s → s.Evolves cfg issued s' → J s') :
    (integrity cfg n).Stable (memory cfg) P J where
  others := hJ
  own _ hsound hop hs := hJ hs (Repos.Sound.memory_permits hsound hop).2

/-- What the others keep, reads keep. -/
theorem stable_of_rely {J : Repos → Prop}
    (hJ : ∀ {s s' : Repos}, J s → s.Evolves cfg (· ≠ n) s' → J s') :
    (integrity cfg n).Stable (memory cfg) (Within []) J where
  others := hJ
  own {op s} hop _ _ hs := by
    rw [hop.reads_only cfg s]
    exact hs

/-- The promise of a method nothing follows. -/
abbrev Anything {α : Type} (_ : α) (_ : Repos) : Prop := True

namespace DriverService

theorem create_keeps (input : CreateDriverInput) {s : Repos} (hs : s.Unused cfg call.seq) :
    Keeps cfg call.seq Anything (create cfg call input) s := by
  rw [create]
  split
  · exact .throw
  refine .performE_bind fun s₁ h₁ _ => ⟨trivial, ?_⟩
  dsimp only
  split
  · exact .throw
  · refine .ofResult_bind fun iso _ => .performE_bind fun s₂ h₂ _ => ⟨⟨rfl, ?_⟩, ?_⟩
    · exact ((hs.evolves h₁).evolves h₂).driver
    · exact .pure fun _ _ _ => trivial

theorem requireDriver_keeps (id : String) (s : Repos) :
    Keeps cfg n (fun d s' => HoldsDriver s' d) (requireDriver id) s := by
  refine .performE_bind fun s₁ _ hsound => ⟨trivial, ?_⟩
  dsimp only [memory]
  cases hd : s₁.drivers.byId.get? id with
  | none => exact .throw
  | some d => exact .pure fun s₂ h₂ _ => (hsound.holdsDriver hd).2.evolves h₂

theorem stampAndSave_keeps {next : Driver} {s : Repos} (hnext : HoldsDriver s next) :
    Keeps cfg n Anything (stampAndSave call next) s := by
  refine .performE_bind fun s₁ h₁ _ => ⟨hnext.evolves h₁, ?_⟩
  cases (memory cfg (.stampAndSaveDriver call.now next) s₁).1 with
  | ok saved => exact .pure fun _ _ _ => trivial
  | error e => exact .throw

theorem update_keeps (id : String) (changes : DriverUpdate) (s : Repos) :
    Keeps cfg n Anything (update call id changes) s :=
  .bind (requireDriver_keeps id s) fun _ _ _ hcurrent => stampAndSave_keeps hcurrent

theorem deactivate_keeps (id : String) (s : Repos) :
    Keeps cfg n Anything (deactivate call id) s :=
  .bind (requireDriver_keeps id s) fun _ _ _ hcurrent => stampAndSave_keeps hcurrent

theorem changeStatus_keeps (id : String) (allowed : DriverStatus → Bool) (target : DriverStatus)
    (s : Repos) : Keeps cfg n Anything (changeStatus call id allowed target) s := by
  refine .bind (requireDriver_keeps id s) fun current s₁ _ hcurrent => ?_
  split
  · exact stampAndSave_keeps hcurrent
  · exact .throw

end DriverService

/-! ## Vehicles -/

namespace VehicleService

theorem register_keeps (input : RegisterVehicleInput) {s : Repos} (hs : s.Unused cfg call.seq) :
    Keeps cfg call.seq Anything (register cfg call input) s := by
  rw [register]
  split
  · exact .throw
  refine .performE_bind fun s₁ h₁ _ => ⟨trivial, ?_⟩
  dsimp only
  split
  · exact .throw
  · refine .ofResult_bind fun iso _ => .performE_bind fun s₂ h₂ _ => ⟨⟨rfl, ?_, ?_⟩, ?_⟩
    · exact ((hs.evolves h₁).evolves h₂).vehicle
    · exact ⟨Iff.rfl, fun id hid => absurd hid (by simp)⟩
    · exact .pure fun _ _ _ => trivial

theorem associateDriver_keeps (vehicleId : String) (driverId : Option String) (s : Repos) :
    Keeps cfg n Anything (associateDriver call vehicleId driverId) s := by
  rw [associateDriver]
  split
  · exact .throw
  next hpresent =>
    refine .performE_bind fun s₁ _ hsound => ⟨trivial, ?_⟩
    dsimp only [memory]
    cases hv : s₁.vehicles.byId.get? vehicleId with
    | none => exact .throw
    | some vehicle =>
      dsimp only
      split
      · exact .throw
      · refine .ofResult_bind fun iso _ => .performE_bind fun s₂ h₂ _ => ⟨⟨?_, ⟨?_, ?_⟩, ?_⟩, ?_⟩
        · exact (hsound.holdsVehicle hv).evolves h₂
        -- a missing id was rejected, so the vehicle has a driver now
        · cases driverId with
          | none => exact absurd rfl hpresent
          | some id => exact Iff.rfl
        · rintro id rfl
          exact Bool.eq_false_iff.2 hpresent
        · cases driverId with
          | none => exact absurd rfl hpresent
          | some id => rfl
        · exact .pure fun _ _ _ => trivial

end VehicleService

/-! ## Deliveries -/

theorem nextStatus_ne_created {status target : DeliveryStatus} {event : DeliveryEvent}
    (h : nextStatus status event = some target) : target ≠ .created := by
  rintro rfl
  cases status <;> cases event <;> simp [nextStatus] at h

/-- Only an open delivery has a next status. -/
theorem open_of_nextStatus {status target : DeliveryStatus} {event : DeliveryEvent}
    (h : nextStatus status event = some target) : status ≠ .completed ∧ status ≠ .failed := by
  constructor
  · rintro rfl
    simp [nextStatus] at h
  · rintro rfl
    simp [nextStatus] at h

theorem event_of_failed {status : DeliveryStatus} {event : DeliveryEvent}
    (h : nextStatus status event = some .failed) : event = .fail := by
  cases status <;> cases event <;> first | rfl | simp [nextStatus] at h

theorem created_of_assignable {status : DeliveryStatus} (h : nextStatus status .assign ≠ none) :
    status = .created := by
  cases status <;> first | rfl | exact absurd rfl h

namespace Delivery.Consistent

variable {d : Delivery}

/-- What a transition stores is consistent. -/
theorem transitioned (h : d.Consistent) {event : DeliveryEvent} {target : DeliveryStatus}
    (hnext : nextStatus d.status event = some target) {reason : Option String}
    (hreason : event = .fail → isValidFailureReason reason = true) (iso : Instant) :
    (DeliveryService.transitioned d target reason iso).Consistent := by
  obtain ⟨hcompleted, hfailed⟩ := open_of_nextStatus hnext
  have hcompletedAt : d.completedAt.isSome = false := by
    simpa using fun hsome => hcompleted (h.completed.1 hsome)
  have hfailureReason : d.failureReason.isSome = false := by
    simpa using fun hsome => hfailed (h.failed.1 hsome)
  -- a valid reason is there
  have hvalid : target = .failed → isValidFailureReason reason = true := by
    rintro rfl
    exact hreason (event_of_failed hnext)
  constructor
  · dsimp only [DeliveryService.transitioned]
    split
    next htarget => simp [htarget]
    next htarget => simp [htarget, hcompletedAt]
  · dsimp only [DeliveryService.transitioned]
    split
    next htarget =>
      have hsome := hvalid htarget
      cases reason with
      | none => exact absurd hsome (by simp [isValidFailureReason])
      | some text => simp [htarget]
    next htarget => simp [htarget, hfailureReason]
  · intro htarget
    dsimp only [DeliveryService.transitioned] at htarget ⊢
    rw [if_pos htarget]
    exact hvalid htarget
  · intro htarget
    exact absurd htarget (nextStatus_ne_created hnext)

theorem linked (h : d.Consistent) (hnext : nextStatus d.status .assign ≠ none)
    (assignmentId : String) (now : Instant) :
    (AssignmentService.linked assignmentId now d).Consistent := by
  have hcreated := created_of_assignable hnext
  have hcompleted := h.completed
  have hfailed := h.failed
  rw [hcreated] at hcompleted hfailed
  constructor
  · simpa [AssignmentService.linked, hcreated, nextStatus] using hcompleted
  · simpa [AssignmentService.linked, hcreated, nextStatus] using hfailed
  · simp [AssignmentService.linked, hcreated, nextStatus]
  · simp [AssignmentService.linked, hcreated, nextStatus]

theorem moved (h : d.Consistent) (hassigned : truthy d.assignmentId = true) (assignmentId : String)
    (now : Instant) : Delivery.Consistent
      { d with assignmentId := some assignmentId, updatedAt := now } where
  completed := h.completed
  failed := h.failed
  reason := h.reason
  created hstatus := by
    rw [h.created hstatus] at hassigned
    exact absurd hassigned (by simp [truthy])

end Delivery.Consistent

namespace DeliveryService

theorem create_keeps (input : CreateDeliveryInput) (geocoded : Option GeoPoint) {s : Repos}
    (hs : s.Unused cfg call.seq) :
    Keeps cfg call.seq Anything (create cfg call input geocoded) s := by
  unfold create
  split
  · exact .throw
  refine .performE_bind fun s₁ h₁ _ => ⟨trivial, ?_⟩
  cases geocoded with
  | none => exact .throw
  | some destination =>
    refine .ofResult_bind fun iso _ => .performE_bind fun s₂ h₂ _ => ⟨⟨rfl, ?_, ?_, rfl, rfl⟩, ?_⟩
    · exact ((hs.evolves h₁).evolves h₂).delivery
    · exact ⟨by simp, by simp, by simp, fun _ => rfl⟩
    · exact .pure fun _ _ _ => trivial

theorem transition_keeps (id : String) (event : DeliveryEvent) (reason : Option String)
    (s : Repos) : Keeps cfg n Anything (transition call id event reason) s := by
  refine .performE_bind fun s₁ _ hsound => ⟨trivial, ?_⟩
  dsimp only [memory]
  cases hd : s₁.deliveries.get? id with
  | none => exact .throw
  | some current =>
    dsimp only
    cases hnext : nextStatus current.status event with
    | none => exact .throw
    | some target =>
      dsimp only
      split
      · exact .throw
      next hreason =>
        have hvalid : event = .fail → isValidFailureReason reason = true := by simpa using hreason
        -- between the read and the save only the fixed fields are certain to have stayed
        have hconsistent := (hsound.rows.deliveries id current hd).2.1
        refine .ofResult_bind fun iso _ => .performE_bind fun s₂ h₂ _ => ⟨⟨?_, ?_, ?_⟩, ?_⟩
        · exact (hsound.holdsDelivery hd).evolves h₂
        · exact hconsistent.transitioned hnext hvalid iso
        · intro assignmentId hassigned
          exact h₂.assignments.isSome (hsound.keys.deliveryAssignment id current hd _ hassigned)
        · exact .pure fun _ _ _ => trivial

end DeliveryService

/-! ## Assignments -/

namespace AssignmentService

/-- What `create` keeps of a delivery it resolves. -/
structure Linkable (s : Repos) (d : Delivery) : Prop where
  holds : HoldsDelivery s d
  consistent : d.Consistent
  assignable : nextStatus d.status .assign ≠ none

theorem Linkable.evolves {s s' : Repos} {issued : Nat → Prop} {d : Delivery} (h : Linkable s d)
    (hs : s.Evolves cfg issued s') : Linkable s' d :=
  ⟨h.holds.evolves hs, h.consistent, h.assignable⟩

theorem requireEligibleDriver_keeps (driverId : String) (s : Repos) :
    Keeps cfg n (fun d s' => d.id = driverId ∧ HoldsDriver s' d) (requireEligibleDriver driverId)
      s := by
  refine .performE_bind fun s₁ _ hsound => ⟨trivial, ?_⟩
  dsimp only [memory]
  cases hd : s₁.drivers.byId.get? driverId with
  | none => exact .throw
  | some driver =>
    dsimp only
    split
    · obtain ⟨hid, hholds⟩ := hsound.holdsDriver hd
      exact .pure fun s₂ h₂ _ => ⟨hid, hholds.evolves h₂⟩
    · exact .throw

theorem requireAssignment_keeps (id : String) (s : Repos) :
    Keeps cfg n (fun a s' => a.id = id ∧ HoldsAssignment s' a) (requireAssignment id) s := by
  refine .performE_bind fun s₁ _ hsound => ⟨trivial, ?_⟩
  dsimp only [memory]
  cases ha : s₁.assignments.get? id with
  | none => exact .throw
  | some a =>
    obtain ⟨hid, hholds⟩ := hsound.holdsAssignment ha
    exact .pure fun s₂ h₂ _ => ⟨hid, hholds.evolves h₂⟩

theorem resolveAssignableDeliveries_keeps (ids : List String) (s : Repos) :
    Keeps cfg n (fun toLink s' => ∀ d ∈ toLink, Linkable s' d) (resolveAssignableDeliveries ids)
      s := by
  induction ids generalizing s with
  | nil => exact .pure fun _ _ _ d hd => absurd hd List.not_mem_nil
  | cons id ids ih =>
    refine .performE_bind fun s₁ _ hsound => ⟨trivial, ?_⟩
    dsimp only [memory]
    cases hd : s₁.deliveries.get? id with
    | none => exact .throw
    | some delivery =>
      dsimp only
      split
      · exact .throw
      split
      · exact .throw
      next hassignable =>
        have hfirst : Linkable s₁ delivery :=
          ⟨hsound.holdsDelivery hd, (hsound.rows.deliveries id delivery hd).2.1, hassignable⟩
        -- the first stays linkable while the others are resolved
        have hreads : StaysWithin [] (resolveAssignableDeliveries ids) :=
          resolveAssignableDeliveries_within ids
        refine .bind_frame (stable_of_evolves Linkable.evolves) (ih s₁) hreads hfirst ?_
        intro toLink s₂ _ hrest hdelivery
        refine .pure fun s₃ h₃ _ d hd => ?_
        rcases List.mem_cons.1 hd with rfl | hd
        · exact hdelivery.evolves h₃
        · exact (hrest d hd).evolves h₃

/-- What is linked refers to the assignment, which is stored by then. -/
theorem linkDeliveries_keeps {assignmentId : String} {now : Instant} {toLink : List Delivery}
    {s : Repos} (hlinkable : ∀ d ∈ toLink, Linkable s d)
    (hassignment : (s.assignments.get? assignmentId).isSome) :
    Keeps cfg n Anything (linkDeliveries assignmentId now toLink) s := by
  induction toLink generalizing s with
  | nil => exact .pure fun _ _ _ => trivial
  | cons d rest ih =>
    refine .performE_bind fun s₁ h₁ hsound => ?_
    have hd := (hlinkable d List.mem_cons_self).evolves h₁
    have hstored := h₁.assignments.isSome hassignment
    -- what is saved is what was read before, changed; it need not be what is stored now
    have hpermits : Permits cfg n (.saveDelivery (linked assignmentId now d)) s₁ := by
      refine ⟨hd.holds, hd.consistent.linked hd.assignable assignmentId now, ?_⟩
      rintro id hid
      obtain rfl := Option.some.inj hid
      exact hstored
    refine ⟨hpermits, ?_⟩
    have hmoved := (Repos.Sound.memory_permits hsound hpermits).2
    refine ih (fun e he => ?_) (hmoved.assignments.isSome hstored)
    exact ((hlinkable e (List.mem_cons_of_mem d he)).evolves h₁).evolves hmoved

/-- What the checks of `create` give. -/
structure Ready (s : Repos) (driverId : String) (c : Checked) : Prop where
  id : c.driver.id = driverId
  driver : HoldsDriver s c.driver
  vehicle : HoldsVehicle s c.vehicle
  toLink : ∀ d ∈ c.toLink, Linkable s d

theorem createChecks_keeps (driverId : String) (deliveryIds : List String) (s : Repos) :
    Keeps cfg n (fun c s' => Ready s' driverId c) (createChecks call driverId deliveryIds) s := by
  rw [createChecks]
  split
  · exact .throw
  refine .bind (requireEligibleDriver_keeps driverId s) fun driver s₁ _ hdriver => ?_
  refine .performE_bind fun s₂ h₂ hsound => ⟨trivial, ?_⟩
  have hdriver₂ := hdriver.2.evolves h₂
  dsimp only [memory]
  cases hfound : s₂.vehicles.findByDriverId driverId with
  | none => exact .throw
  | some vehicle =>
    have hvehicle : HoldsVehicle s₂ vehicle := by
      have hmem := List.mem_of_find?_eq_some hfound
      obtain ⟨id, hid⟩ := (s₂.vehicles.byId.mem_values_iff vehicle).1 hmem
      exact hsound.holdsVehicle hid
    -- resolving the deliveries writes nothing, so what was read before stays held
    have hreads : StaysWithin [] (resolveAssignableDeliveries deliveryIds) :=
      resolveAssignableDeliveries_within deliveryIds
    refine .bind_frame (stable_of_evolves (J := fun s' => HoldsDriver s' driver ∧
        HoldsVehicle s' vehicle) fun h hs => ⟨h.1.evolves hs, h.2.evolves hs⟩)
      (resolveAssignableDeliveries_keeps deliveryIds s₂) hreads ⟨hdriver₂, hvehicle⟩ ?_
    intro toLink s₃ _ hlinkable hholds
    refine .ofResult_bind fun now _ => .pure fun s₄ h₄ _ => ⟨hdriver.1, ?_, ?_, fun d hd => ?_⟩
    · exact hholds.1.evolves h₄
    · exact hholds.2.evolves h₄
    · exact (hlinkable d hd).evolves h₄

theorem createWrites_keeps {driverId : String} {c : Checked} {s : Repos}
    (hs : s.Unused cfg call.seq) (hc : Ready s driverId c) :
    Keeps cfg call.seq Anything (createWrites cfg call driverId c) s := by
  refine .performE_bind fun s₁ h₁ hsound => ?_
  have hdriver := hc.driver.evolves h₁
  have hpermits : Permits cfg call.seq (.insertAssignment
      ⟨cfg.assignmentId.gen call.seq, driverId, c.vehicle.id, .pending, none, c.now⟩) s₁ := by
    refine ⟨rfl, (hs.evolves h₁).assignment, ⟨fun _ => rfl, ?_⟩, ?_, ?_⟩
    · exact fun haccepted => absurd haccepted (by simp)
    · exact hc.id ▸ hdriver.isSome
    · exact (hc.vehicle.evolves h₁).isSome
  refine ⟨hpermits, ?_⟩
  have hmoved := (Repos.Sound.memory_permits hsound hpermits).2
  have hwithin : StaysWithin [.deliveries]
      (linkDeliveries (cfg.assignmentId.gen call.seq) c.now c.toLink) :=
    linkDeliveries_within List.mem_cons_self _ _ _
  -- the driver is saved last, as it was read
  refine .bind_frame (stable_of_evolves fun h hs => HoldsDriver.evolves h hs)
    (linkDeliveries_keeps (fun d hd => ((hc.toLink d hd).evolves h₁).evolves hmoved) ?_)
    hwithin (hdriver.evolves hmoved) ?_
  · simp [memory]
  · intro _ s₂ _ _ hdriver₂
    exact .performE_bind fun s₃ h₃ _ =>
      ⟨hdriver₂.evolves h₃, .pure fun _ _ _ => trivial⟩

theorem create_keeps (driverId : String) (deliveryIds : List String) {s : Repos}
    (hs : s.Unused cfg call.seq) :
    Keeps cfg call.seq Anything (create cfg call driverId deliveryIds) s := by
  rw [create_eq_bind]
  refine .bind_frame (stable_of_rely Repos.Unused.evolves)
    (createChecks_keeps driverId deliveryIds s) (createChecks_within call driverId deliveryIds)
    hs ?_
  intro c s₁ _ hc hunused
  exact createWrites_keeps hunused hc

theorem accept_keeps (assignmentId : String) (s : Repos) :
    Keeps cfg n Anything (accept call assignmentId) s := by
  refine .bind (requireAssignment_keeps assignmentId s) fun a s₁ _ ha => ?_
  refine .ofResult_bind fun t _ => .performE_bind fun s₂ h₂ _ => ⟨⟨?_, ?_⟩, ?_⟩
  · exact ha.2.evolves h₂
  · exact ⟨fun hpending => absurd hpending (by simp), fun _ => rfl⟩
  · exact .pure fun _ _ _ => trivial

theorem reassign_keeps (deliveryId targetAssignmentId : String) (s : Repos) :
    Keeps cfg n Anything (reassign call deliveryId targetAssignmentId) s := by
  refine .performE_bind fun s₁ _ hsound => ⟨trivial, ?_⟩
  dsimp only [memory]
  cases hd : s₁.deliveries.get? deliveryId with
  | none => exact .throw
  | some delivery =>
    dsimp only
    split
    · exact .throw
    next hassigned =>
      split
      · exact .pure fun _ _ _ => trivial
      · have hconsistent := (hsound.rows.deliveries deliveryId delivery hd).2.1
        have hreads : StaysWithin [] (requireAssignment targetAssignmentId) :=
          requireAssignment_within targetAssignmentId
        refine .bind_frame (stable_of_evolves fun h hs => HoldsDelivery.evolves h hs)
          (requireAssignment_keeps targetAssignmentId s₁) hreads (hsound.holdsDelivery hd) ?_
        intro target s₂ _ htarget hdelivery
        split
        · refine .ofResult_bind fun iso _ => .performE_bind fun s₃ h₃ _ => ⟨⟨?_, ?_, ?_⟩, ?_⟩
          · exact hdelivery.evolves h₃
          · exact hconsistent.moved (by simpa using hassigned) target.id iso
          · intro id hid
            obtain rfl := Option.some.inj hid
            exact (htarget.2.evolves h₃).isSome
          · exact .pure fun _ _ _ => trivial
        · exact .throw

end AssignmentService

/-! ## Routes -/

namespace RouteService

/-- Building the stops calls collaborators only; the stops are consistent and cover the
deliveries. -/
theorem exists_built (env : Collaborators) {deliveries : List Delivery}
    (hdistinct : (deliveries.map Delivery.id).Nodup) :
    ∃ k built, ExceptT.run (buildStops env (deliveries.map fun d => ⟨d.id, d.destination⟩)) =
        Prog.calls (List.replicate k .external) (.ret (.ok built)) ∧
      StopsConsistent built.stops ∧
      (coveredIds built.stops).Perm (deliveries.map Delivery.id) := by
  obtain ⟨k, built, hbuild⟩ :=
    exists_buildStops_eq env (deliveries.map fun d => ⟨d.id, d.destination⟩)
  have hids : (deliveries.map fun d => (⟨d.id, d.destination⟩ : RoutableDelivery)).map
      RoutableDelivery.id = deliveries.map Delivery.id := by
    rw [List.map_map]
    rfl
  obtain ⟨built', hrun, hcovers⟩ := buildStops_covers .unary env (hids ▸ hdistinct) Repos.new
  -- run alone the program returns the same stops
  rw [runE, hbuild, Prog.run_calls, Prog.run_ret, Prod.mk.injEq, Except.ok.injEq] at hrun
  obtain rfl := hrun.1
  have hcovered := hids ▸ hcovers.covered
  exact ⟨k, built, hbuild, ⟨hcovers.indexed, hcovered.nodup_iff.2 hdistinct⟩, hcovered⟩

/-- Calls of collaborators on the way. -/
theorem calls_external_keeps {α : Type} {Q : α → Repos → Prop} (k : ℕ)
    {p : Prog RepoOp.Resp α} {s : Repos} (hp : p.Under (memory cfg) (integrity cfg n) Q s) :
    (Prog.calls (List.replicate k .external) p).Under (memory cfg) (integrity cfg n) Q s := by
  induction k generalizing s with
  | zero => exact hp
  | succ k ih => exact fun s₁ h₁ _ => ⟨trivial, ih (hp.rely h₁)⟩

/-- What a route written for these stops refers to. -/
structure Routable (s : Repos) (assignmentId : String) (stops : List RouteStop) : Prop where
  assignment : (s.assignments.get? assignmentId).isSome
  deliveries : ∀ id ∈ coveredIds stops, (s.deliveries.get? id).isSome

theorem Routable.evolves {s s' : Repos} {issued : Nat → Prop} {assignmentId : String}
    {stops : List RouteStop} (h : Routable s assignmentId stops)
    (hs : s.Evolves cfg issued s') : Routable s' assignmentId stops :=
  ⟨hs.assignments.isSome h.assignment, fun id hid => hs.deliveries.isSome (h.deliveries id hid)⟩

theorem putRoute_keeps (env : Collaborators) {assignmentId : String} {built : BuiltStops}
    {s : Repos} (hstops : StopsConsistent built.stops)
    (hroutable : Routable s assignmentId built.stops) :
    Keeps cfg n Anything (putRoute cfg call env assignmentId built) s := by
  refine .ofResult_bind fun now _ => .performE_bind fun s₁ h₁ _ => ⟨trivial, ?_⟩
  refine .performE_bind fun s₂ h₂ hsound => ?_
  have hroutable₂ := (hroutable.evolves h₁).evolves h₂
  -- the assignment and the deliveries were found earlier, and no record disappears
  have hpermits : Permits cfg n (.upsertRoute
      (routeRecord cfg call assignmentId built now (memory cfg
        (.findRouteByAssignmentId assignmentId) s₁).1)) s₂ :=
    ⟨hroutable₂.assignment, hstops, rfl, hroutable₂.deliveries⟩
  refine ⟨hpermits, .performE_bind fun s₃ h₃ _ => ?_⟩
  have hroutable₃ := (hroutable₂.evolves (Repos.Sound.memory_permits hsound hpermits).2).evolves h₃
  refine ⟨⟨hroutable₃.assignment, hroutable₃.deliveries⟩, ?_⟩
  split
  · exact .throw
  · exact .pure fun _ _ _ => trivial

theorem createOrUpdateRoute_keeps (env : Collaborators) (assignmentId : String) (s : Repos) :
    Keeps cfg n Anything (createOrUpdateRoute cfg call env assignmentId) s := by
  rw [createOrUpdateRoute_eq]
  refine .bind (AssignmentService.requireAssignment_keeps assignmentId s) ?_
  intro assignment s₁ _ hassignment
  refine .performE_bind fun s₂ h₂ hsound => ⟨trivial, ?_⟩
  have hkeyed : s₂.Keyed :=
    ⟨fun id d hd => (hsound.rows.drivers id d hd).1,
      fun id d hd => (hsound.rows.deliveries id d hd).1⟩
  obtain ⟨k, built, hbuild, hstops, hcovered⟩ :=
    exists_built env (hkeyed.nodup_listByAssignmentId assignmentId)
  -- the deliveries on the stops are those listed, which are stored
  have hroutable : Routable s₂ assignmentId built.stops := by
    refine ⟨hassignment.1 ▸ (hassignment.2.evolves h₂).isSome, fun id hid => ?_⟩
    obtain ⟨d, hd, rfl⟩ := List.mem_map.1 (hcovered.mem_iff.1 hid)
    obtain ⟨key, hkey⟩ := (s₂.deliveries.mem_values_iff d).1 (List.mem_of_mem_filter hd)
    exact (hsound.holdsDelivery hkey).isSome
  have hrun : ExceptT.run (rebuild cfg call env assignmentId
      (memory cfg (.listDeliveriesByAssignmentId assignmentId) s₂).1) =
      Prog.calls (List.replicate k .external)
        (ExceptT.run (putRoute cfg call env assignmentId built)) := by
    rw [rebuild, ExceptT.run_bind]
    exact (congrArg (· >>= _) hbuild).trans (Prog.calls_bind _ _ _)
  rw [UnderE, hrun]
  exact calls_external_keeps k (putRoute_keeps env hstops hroutable)

theorem completeIfAllStopsTerminal_keeps (assignmentId : String) (s : Repos) :
    Keeps cfg n Anything (completeIfAllStopsTerminal call assignmentId) s := by
  refine .bind (AssignmentService.requireAssignment_keeps assignmentId s) ?_
  intro assignment s₁ _ hassignment
  refine .performE_bind fun s₂ h₂ _ => ⟨trivial, ?_⟩
  split
  · exact .pure fun _ _ _ => trivial
  split
  · refine .ofResult_bind fun now _ => .performE_bind fun s₃ h₃ _ => ⟨⟨?_, ⟨?_, ?_⟩⟩, ?_⟩
    · exact (hassignment.2.evolves h₂).evolves h₃
    · exact fun hpending => absurd hpending (by simp)
    · exact fun haccepted => absurd haccepted (by simp)
    · refine .performE_bind fun s₄ _ hsound => ⟨trivial, ?_⟩
      dsimp only [memory]
      cases hd : s₄.drivers.byId.get? assignment.driverId with
      | none => exact .pure fun _ _ _ => trivial
      | some driver =>
        dsimp only
        split
        · exact .performE_bind fun s₅ h₅ _ =>
            ⟨(hsound.holdsDriver hd).2.evolves h₅, .pure fun _ _ _ => trivial⟩
        · exact .pure fun _ _ _ => trivial
  · exact .pure fun _ _ _ => trivial

end RouteService

/-! ## Concurrent calls -/

/-- A service call: a method, what the clock reads during the call, and its number. -/
structure ConcurrentCall where
  op : Op
  call : Call

/-- The program of a call. -/
def ConcurrentCall.prog (cfg : Config) (c : ConcurrentCall) :
    Prog RepoOp.Resp (Except Thrown Unit) :=
  ExceptT.run (c.op.code cfg c.call)

theorem ignore_keeps {α : Type} {p : Service α} {s : Repos} (hp : Keeps cfg n Anything p s) :
    Keeps cfg n Anything (ignore p) s :=
  .bind hp fun _ _ _ _ => .pure fun _ _ _ => trivial

/-- Every method keeps the contract of its call, from any state in which its number is unused. -/
theorem Op.code_keeps (op : Op) {s : Repos} (hs : s.Unused cfg call.seq) :
    Keeps cfg call.seq Anything (op.code cfg call) s := by
  cases op with
  | createDriver input => exact ignore_keeps (DriverService.create_keeps input hs)
  | updateDriver id changes => exact ignore_keeps (DriverService.update_keeps id changes s)
  | deactivateDriver id => exact ignore_keeps (DriverService.deactivate_keeps id s)
  | setAvailability id target => exact ignore_keeps (DriverService.changeStatus_keeps id _ _ s)
  | beginDelivery id => exact ignore_keeps (DriverService.changeStatus_keeps id _ _ s)
  | completeDelivery id => exact ignore_keeps (DriverService.changeStatus_keeps id _ _ s)
  | registerVehicle input => exact ignore_keeps (VehicleService.register_keeps input hs)
  | associateDriver vehicleId driverId =>
    exact ignore_keeps (VehicleService.associateDriver_keeps vehicleId driverId s)
  | createDelivery input geocoded =>
    exact ignore_keeps (DeliveryService.create_keeps input geocoded hs)
  | transition id event reason =>
    exact ignore_keeps (DeliveryService.transition_keeps id event reason s)
  | createAssignment driverId deliveryIds =>
    exact ignore_keeps (AssignmentService.create_keeps driverId deliveryIds hs)
  | accept assignmentId => exact ignore_keeps (AssignmentService.accept_keeps assignmentId s)
  | reassign deliveryId targetAssignmentId =>
    exact ignore_keeps (AssignmentService.reassign_keeps deliveryId targetAssignmentId s)
  | createOrUpdateRoute env assignmentId =>
    exact ignore_keeps (RouteService.createOrUpdateRoute_keeps env assignmentId s)
  | reoptimize env assignmentId =>
    exact ignore_keeps (RouteService.createOrUpdateRoute_keeps env assignmentId s)
  | completeIfAllStopsTerminal assignmentId =>
    exact ignore_keeps (RouteService.completeIfAllStopsTerminal_keeps assignmentId s)

section Concurrent

variable {ι : Type} (calls : ι → ConcurrentCall)

/-- Every call at its start; a call the schedule never names has not arrived. -/
def startCalls (cfg : Config) (s : Repos) : Pool ι RepoOp.Resp (Except Thrown Unit) Repos :=
  ⟨fun i => (calls i).prog cfg, s⟩

/-- The repositories after the calls a schedule names, from empty ones. -/
def reposAfter [DecidableEq ι] (cfg : Config) (sched : List ι) : Repos :=
  ((startCalls calls cfg .new).exec (memory cfg) sched).shared

variable {calls} (hseq : Function.Injective fun i => (calls i).call.seq)
include hseq

theorem integrity_compatible : Compatible (memory cfg)
    (fun i => integrity cfg (calls i).call.seq) (Repos.Sound cfg)
    fun i s s' => s.Evolves cfg (· = (calls i).call.seq) s' where
  inv_eq _ := rfl
  keeps _ _ _ hop hsound := hsound.memory_permits hop
  within _ _ hji _ _ hs := hs.mono fun _ hk heq => hji (hseq (hk.symm.trans heq))

omit hseq in
theorem startCalls_sound : (startCalls calls cfg .new).Sound (memory cfg)
    (fun i => integrity cfg (calls i).call.seq) (fun _ _ _ => True) (Repos.Sound cfg) where
  inv := Repos.sound_new cfg
  under i := Prog.Under.imp ((calls i).op.code_keeps (Repos.unused_new _)) fun _ _ _ => trivial

variable [DecidableEq ι]

/-- Whatever the calls and their interleaving, the repositories are sound throughout. -/
theorem reposAfter_sound (sched : List ι) : (reposAfter calls cfg sched).Sound cfg :=
  (startCalls_sound.exec (integrity_compatible hseq) sched).inv

/-- Between two moments of a schedule the records evolve. -/
theorem reposAfter_evolves (pre post : List ι) :
    (reposAfter calls cfg pre).Evolves cfg (fun k => ∃ i, (calls i).call.seq = k)
      (reposAfter calls cfg (pre ++ post)) := by
  have hfit : Compatible (memory cfg) _ _ _ := integrity_compatible hseq
  have hpre := startCalls_sound.exec hfit pre
  have hmoves := hpre.exec_moves hfit (E := Repos.Evolves cfg fun k => ∃ i, (calls i).call.seq = k)
    .refl .trans (fun i s s' hs => hs.mono fun k hk => ⟨i, hk.symm⟩) post
  have happend : reposAfter calls cfg (pre ++ post) =
      (((startCalls calls cfg .new).exec (memory cfg) pre).exec (memory cfg) post).shared :=
    congrArg Pool.shared (Runs.run_append ..)
  rw [happend]
  exact hmoves

end Concurrent

/-! ## A morning's calls -/

/-- A driver, a vehicle and a delivery are set up, and two calls assign the delivery. -/
def morning : Fin 7 → ConcurrentCall
  | 0 => ⟨.createDriver ⟨some "n", some "e", some "p", some "l"⟩, 0, 0⟩
  | 1 => ⟨.setAvailability "d" .available, 0, 1⟩
  | 2 => ⟨.registerVehicle ⟨some "v", some "van", some (.fin 1)⟩, 0, 2⟩
  | 3 => ⟨.associateDriver "vvv" (some "d"), 0, 3⟩
  | 4 => ⟨.createDelivery ⟨some "a", some "n", some "c", some (.fin 1)⟩
      (some ⟨.fin 0, .fin 0⟩), 0, 4⟩
  | 5 => ⟨.createAssignment "d" ["ppppp"], 0, 5⟩
  | 6 => ⟨.createAssignment "d" ["ppppp"], 0, 6⟩

theorem morning_numbers : Function.Injective fun i => (morning i).call.seq := by
  decide

/-- The set-up, and then the two assignments side by side. -/
def setUp : List (Fin 7) := [0, 0, 1, 1, 2, 2, 3, 3, 4, 4]

/-- The last two calls take turns. -/
def sideBySide : List (Fin 7) := [5, 6, 5, 6, 5, 6, 5, 6, 5, 6, 5, 6]

theorem unary_token_injective : Function.Injective Config.unary.trackingToken := by
  intro m n h
  have hlength := congrArg (fun s : String => s.toList.length) h
  simpa [Config.unary] using hlength

/-! ## What holds throughout -/

section Throughout

variable {ι : Type} [DecidableEq ι] {calls : ι → ConcurrentCall}

/-- The references of assignments, deliveries and routes that the schema declares as foreign keys
hold, and every delivery on a stored or a published route is stored. -/
theorem foreign_keys_hold (cfg : Config) (hseq : Function.Injective fun i => (calls i).call.seq)
    (sched : List ι) : (reposAfter calls cfg sched).ForeignKeys :=
  (reposAfter_sound hseq sched).keys

theorem sideBySide_foreignKeys : (reposAfter morning .unary (setUp ++ sideBySide)).ForeignKeys :=
  foreign_keys_hold .unary morning_numbers _

/-- Both assignments were stored, and both are the driver's. -/
example : ((reposAfter morning .unary (setUp ++ sideBySide)).assignments.entries.map fun e =>
    (e.1, e.2.driverId)) = [("aaaaaa", "d"), ("aaaaaaa", "d")] := by
  decide +kernel

/-- Every stored record is consistent. -/
theorem records_consistent (cfg : Config) (hseq : Function.Injective fun i => (calls i).call.seq)
    (sched : List ι) : (reposAfter calls cfg sched).RowsConsistent cfg :=
  (reposAfter_sound hseq sched).rows

theorem sideBySide_consistent :
    (reposAfter morning .unary (setUp ++ sideBySide)).RowsConsistent .unary :=
  records_consistent .unary morning_numbers _

/-- No record is lost and no fixed field changes from one moment to a later one, and what is new is
of a call's own number. -/
theorem records_evolve (cfg : Config) (hseq : Function.Injective fun i => (calls i).call.seq)
    (pre post : List ι) :
    (reposAfter calls cfg pre).Evolves cfg (fun k => ∃ i, (calls i).call.seq = k)
      (reposAfter calls cfg (pre ++ post)) :=
  reposAfter_evolves hseq pre post

theorem sideBySide_evolves : (reposAfter morning .unary setUp).Evolves .unary
    (fun k => ∃ i, (morning i).call.seq = k) (reposAfter morning .unary (setUp ++ sideBySide)) :=
  records_evolve .unary morning_numbers setUp sideBySide

/-- A lookup by email or identifier finds a record of that key exactly when one is stored. -/
theorem lookups_answer (cfg : Config) (hseq : Function.Injective fun i => (calls i).call.seq)
    (sched : List ι) :
    (∀ email, Answers (emailKey cfg) (reposAfter calls cfg sched).drivers.byId
      (cfg.toLowerCase email) ((reposAfter calls cfg sched).drivers.findByEmail cfg email)) ∧
    ∀ identifier, Answers (fun v : Vehicle => identifierKey cfg v.identifier)
      (reposAfter calls cfg sched).vehicles.byId (identifierKey cfg identifier)
      ((reposAfter calls cfg sched).vehicles.findByIdentifier cfg identifier) :=
  ⟨(reposAfter_sound hseq sched).findByEmail_answers,
    (reposAfter_sound hseq sched).findByIdentifier_answers⟩

theorem sideBySide_lookup : Answers (emailKey .unary)
    (reposAfter morning .unary (setUp ++ sideBySide)).drivers.byId (Config.unary.toLowerCase "E")
    ((reposAfter morning .unary (setUp ++ sideBySide)).drivers.findByEmail .unary "E") :=
  (lookups_answer .unary morning_numbers _).1 "E"

/-- No two deliveries share a tracking token. -/
def TokensUnique (s : Repos) : Prop :=
  ∀ id id' d d', s.deliveries.get? id = some d → s.deliveries.get? id' = some d' →
    d.trackingToken = d'.trackingToken → id = id'

/-- A token names one delivery where the token source repeats none. -/
theorem tokens_unique {cfg : Config} (htoken : Function.Injective cfg.trackingToken)
    (hseq : Function.Injective fun i => (calls i).call.seq) (sched : List ι) :
    TokensUnique (reposAfter calls cfg sched) := by
  intro id id' d d' hd hd' hsame
  have hsound : (reposAfter calls cfg sched).Sound cfg := reposAfter_sound hseq sched
  obtain ⟨-, -, k, rfl, hk⟩ := hsound.rows.deliveries id d hd
  obtain ⟨-, -, k', rfl, hk'⟩ := hsound.rows.deliveries id' d' hd'
  obtain rfl := htoken (hk.symm.trans (hsame.trans hk'))
  rfl

theorem sideBySide_tokens : TokensUnique (reposAfter morning .unary (setUp ++ sideBySide)) :=
  tokens_unique unary_token_injective morning_numbers _

end Throughout

end FleetCommand.Management
