import FleetCommand.Management.AssignmentFlow

/-!
# What a step of `create` does

A step of a call is a read, the insert of its assignment, or one of the writes after it
(`create_step`). Whatever the schedule, the calls hold what they name (`Shaped`), and what a call
has checked holds as long as no call has undone it by then (`Stale`).
-/

set_option autoImplicit false

namespace FleetCommand.Management

open Resumption

/-! ## What a call checks -/

/-- The driver is stored, active and available. -/
def eligibleStored (s : Repos) (driverId : String) : Bool :=
  match s.drivers.byId.get? driverId with
  | some driver => driver.active && isEligibleStatus driver.status
  | none => false

/-- The delivery is stored and can be assigned. -/
def assignableStored (s : Repos) (id : String) : Bool :=
  match s.deliveries.get? id with
  | some delivery => !truthy delivery.assignmentId && (nextStatus delivery.status .assign).isSome
  | none => false

/-- What a call checks before it writes. -/
def CreateCall.checksHold (c : CreateCall) (s : Repos) : Bool :=
  eligibleStored s c.driverId && c.deliveryIds.all (assignableStored s)

/-! ## Control points -/

/-- Records are stored under their own ids. -/
structure Repos.Keyed (s : Repos) : Prop where
  drivers : ∀ id driver, s.drivers.byId.get? id = some driver → driver.id = id
  deliveries : ∀ id delivery, s.deliveries.get? id = some delivery → delivery.id = id

namespace CreateLoc

/-- The assignment of a call that has inserted it. -/
def booked? : CreateLoc → Option Assignment
  | .linking _ assignment _ => some assignment
  | .done (.ok assignment) => some assignment
  | _ => none

/-- The deliveries still to link. -/
def unlinked : CreateLoc → List String
  | .linking _ _ toLink => toLink.map Delivery.id
  | _ => []

/-- The call has checked its driver and written nothing. -/
def checkedDriver : CreateLoc → Bool
  | .eligible _ => true
  | .resolving _ _ _ _ _ => true
  | .inserting _ _ _ => true
  | _ => false

/-- The deliveries a call has checked, as long as it has written nothing. -/
def checkedIds : CreateLoc → List String
  | .resolving _ _ _ _ resolved => resolved.map Delivery.id
  | .inserting _ _ toLink => toLink.map Delivery.id
  | _ => []

/-- The assignment is one for the call. -/
structure Booking (c : CreateCall) (a : Assignment) : Prop where
  id_ne : a.id ≠ ""
  driverId : a.driverId = c.driverId

/-- What a control point of a call holds is about what the call names. -/
def Follows (c : CreateCall) : CreateLoc → Prop
  | .start => True
  | .eligible driver => driver.id = c.driverId
  | .resolving driver _ id todo resolved =>
    driver.id = c.driverId ∧ resolved.map Delivery.id ++ id :: todo = c.deliveryIds
  | .inserting driver a toLink =>
    driver.id = c.driverId ∧ Booking c a ∧ toLink.map Delivery.id = c.deliveryIds
  | .linking driver a toLink =>
    driver.id = c.driverId ∧ Booking c a ∧ ∀ id ∈ toLink.map Delivery.id, id ∈ c.deliveryIds
  | .done (.ok a) => Booking c a
  | .done (.error _) => True

theorem booked?_eq_some_iff {l : CreateLoc} {a : Assignment} :
    l.booked? = some a ↔ (∃ driver toLink, l = .linking driver a toLink) ∨ l = .done (.ok a) := by
  cases l with
  | linking driver b toLink => simp [booked?]
  | done r => cases r <;> simp [booked?]
  | _ => simp [booked?]

/-- What a call has inserted is an assignment for it. -/
theorem Follows.booking {c : CreateCall} {l : CreateLoc} (h : l.Follows c) {a : Assignment}
    (hl : l.booked? = some a) : Booking c a := by
  rcases booked?_eq_some_iff.1 hl with ⟨driver, toLink, rfl⟩ | rfl
  · exact h.2.1
  · exact h

end CreateLoc

section Follows

variable {cfg : Config} {c : CreateCall} {s : Repos}

theorem follows_afterResolved {driver : Driver} (vehicle : Vehicle) {toLink : List Delivery}
    (hdriver : driver.id = c.driverId) (hids : toLink.map Delivery.id = c.deliveryIds) :
    (c.afterResolved cfg driver vehicle toLink).Follows c := by
  rw [CreateCall.afterResolved]
  cases toIso c.now with
  | error e => trivial
  | ok now => exact ⟨hdriver, ⟨cfg.assignmentId.nonempty c.seq, rfl⟩, hids⟩

theorem follows_resolveNext {driver : Driver} (vehicle : Vehicle) {resolved : List Delivery}
    {todo : List String} (hdriver : driver.id = c.driverId)
    (hids : resolved.map Delivery.id ++ todo = c.deliveryIds) :
    (c.resolveNext cfg driver vehicle resolved todo).Follows c := by
  cases todo with
  | nil => exact follows_afterResolved vehicle hdriver (by rw [← hids, List.append_nil])
  | cons id todo => exact ⟨hdriver, hids⟩

theorem CreateLoc.Follows.next (hkeyed : s.Keyed) {l : CreateLoc} (h : l.Follows c) :
    (l.next cfg c s).1.Follows c := by
  cases l with
  | start =>
    rw [CreateLoc.next]
    split
    · trivial
    · cases hfound : s.drivers.byId.get? c.driverId with
      | none => trivial
      | some driver =>
        dsimp only
        rw [CreateCall.afterDriver]
        split
        · exact hkeyed.drivers _ _ hfound
        · trivial
  | eligible driver =>
    rw [CreateLoc.next]
    cases s.vehicles.findByDriverId c.driverId with
    | none => trivial
    | some vehicle => exact follows_resolveNext vehicle h rfl
  | resolving driver vehicle id todo resolved =>
    rw [CreateLoc.next]
    cases hfound : s.deliveries.get? id with
    | none => trivial
    | some delivery =>
      dsimp only
      rw [CreateCall.afterDelivery]
      split
      · trivial
      · split
        · trivial
        · apply follows_resolveNext vehicle h.1
          rw [List.map_append, List.map_singleton, hkeyed.deliveries _ _ hfound, ← h.2,
            List.append_assoc, List.singleton_append]
  | inserting driver a toLink => exact ⟨h.1, h.2.1, fun id hid => h.2.2 ▸ hid⟩
  | linking driver a toLink =>
    cases toLink with
    | nil => exact h.2.1
    | cons delivery toLink =>
      exact ⟨h.1, h.2.1, fun id hid => h.2.2 id (List.mem_cons_of_mem delivery.id hid)⟩
  | done r => exact h

theorem Repos.Keyed.setDelivery (h : s.Keyed) (delivery : Delivery) :
    Keyed { s with deliveries := s.deliveries.set delivery.id delivery } := by
  refine ⟨h.drivers, fun id other hother => ?_⟩
  rw [InsertionMap.get?_set] at hother
  split at hother
  next hid => rw [← Option.some.inj hother, hid]
  next => exact h.deliveries id other hother

theorem Repos.Keyed.saveDriver (h : s.Keyed) (driver : Driver) :
    Keyed { s with drivers := s.drivers.save cfg driver } := by
  refine ⟨fun id other hother => ?_, h.deliveries⟩
  rw [DriverRepository.save, InsertionMap.get?_set] at hother
  split at hother
  next hid => rw [← Option.some.inj hother, hid]
  next => exact h.drivers id other hother

theorem Repos.Keyed.next (h : s.Keyed) (l : CreateLoc) : (l.next cfg c s).2.Keyed := by
  cases l with
  | start =>
    rw [CreateLoc.next]
    split <;> exact h
  | eligible driver => exact h
  | resolving driver vehicle id todo resolved => exact h
  | inserting driver a toLink => exact ⟨h.drivers, h.deliveries⟩
  | linking driver a toLink =>
    cases toLink with
    | nil => exact h.saveDriver (busyDriver driver a)
    | cons delivery toLink =>
      exact h.setDelivery (AssignmentService.linked a.id a.createdAt delivery)
  | done r => exact h

end Follows

/-! ## One step -/

/-- A read of a call that has written nothing: it still has not, and what it has checked by then
holds in the repositories or was checked before. -/
structure CreateLoc.Reads (c : CreateCall) (s : Repos) (l l' : CreateLoc) : Prop where
  unbooked : l.booked? = none
  unbooked' : l'.booked? = none
  driver : l'.checkedDriver = true → l.checkedDriver = true ∨ eligibleStored s c.driverId = true
  ids : ∀ id ∈ l'.checkedIds, id ∈ l.checkedIds ∨ assignableStored s id = true

section Reads

variable {cfg : Config} {c : CreateCall} {s : Repos} {l : CreateLoc}

theorem reads_failed (hl : l.booked? = none) (e : Thrown) : l.Reads c s (.done (.error e)) :=
  ⟨hl, rfl, fun h => absurd h Bool.false_ne_true, fun _ hid => absurd hid List.not_mem_nil⟩

theorem reads_afterResolved (hl : l.booked? = none) (hdriver : l.checkedDriver = true)
    (driver : Driver) (vehicle : Vehicle) {toLink : List Delivery}
    (hids : ∀ id ∈ toLink.map Delivery.id, id ∈ l.checkedIds ∨ assignableStored s id = true) :
    l.Reads c s (c.afterResolved cfg driver vehicle toLink) := by
  rw [CreateCall.afterResolved]
  cases toIso c.now with
  | error e => exact reads_failed hl e
  | ok now => exact ⟨hl, rfl, fun _ => .inl hdriver, hids⟩

theorem reads_resolveNext (hl : l.booked? = none) (hdriver : l.checkedDriver = true)
    (driver : Driver) (vehicle : Vehicle) {resolved : List Delivery}
    (hids : ∀ id ∈ resolved.map Delivery.id, id ∈ l.checkedIds ∨ assignableStored s id = true)
    (todo : List String) : l.Reads c s (c.resolveNext cfg driver vehicle resolved todo) := by
  cases todo with
  | nil => exact reads_afterResolved hl hdriver driver vehicle hids
  | cons id todo => exact ⟨hl, rfl, fun _ => .inl hdriver, hids⟩

theorem reads_start : CreateLoc.start.Reads c s (CreateLoc.start.next cfg c s).1 := by
  rw [CreateLoc.next]
  split
  · exact reads_failed rfl _
  · cases hfound : s.drivers.byId.get? c.driverId with
    | none => exact reads_failed rfl _
    | some driver =>
      dsimp only
      rw [CreateCall.afterDriver]
      split
      next heligible =>
        refine ⟨rfl, rfl, fun _ => .inr ?_, fun id hid => absurd hid List.not_mem_nil⟩
        rw [eligibleStored, hfound]
        exact Bool.and_eq_true_iff.2 heligible
      next => exact reads_failed rfl _

theorem reads_eligible (driver : Driver) :
    (CreateLoc.eligible driver).Reads c s ((CreateLoc.eligible driver).next cfg c s).1 := by
  rw [CreateLoc.next]
  cases s.vehicles.findByDriverId c.driverId with
  | none => exact reads_failed rfl _
  | some vehicle =>
    exact reads_resolveNext rfl rfl driver vehicle (fun id hid => absurd hid List.not_mem_nil) _

theorem reads_resolving (hkeyed : s.Keyed) (driver : Driver) (vehicle : Vehicle) (id : String)
    (todo : List String) (resolved : List Delivery) :
    (CreateLoc.resolving driver vehicle id todo resolved).Reads c s
      ((CreateLoc.resolving driver vehicle id todo resolved).next cfg c s).1 := by
  rw [CreateLoc.next]
  cases hfound : s.deliveries.get? id with
  | none => exact reads_failed rfl _
  | some delivery =>
    dsimp only
    rw [CreateCall.afterDelivery]
    split
    next => exact reads_failed rfl _
    next hfree =>
      split
      next => exact reads_failed rfl _
      next hstatus =>
        refine reads_resolveNext rfl rfl driver vehicle (fun id' hid' => ?_) todo
        rw [List.map_append, List.mem_append, List.map_singleton, List.mem_singleton] at hid'
        rcases hid' with hid' | rfl
        · exact .inl hid'
        · right
          rw [hkeyed.deliveries _ _ hfound, assignableStored, hfound, Bool.and_eq_true_iff,
            Bool.not_eq_true', Option.isSome_iff_ne_none]
          exact ⟨Bool.eq_false_iff.2 hfree, hstatus⟩

end Reads

/-- The calls by control points, over the repositories. -/
abbrev CreateConfig (ι : Type) := Resumption.Config ι CreateLoc Repos

section Steps

variable {ι : Type}

/-- What a step of call `i` does: nothing or a read; it inserts its assignment; it links a delivery;
or it saves its driver and returns. -/
inductive CreateStep (cfg : Config) (calls : ι → CreateCall) (c c' : CreateConfig ι) (i : ι) : Prop
  | idle (hloc : c'.locs i = c.locs i) (hshared : c'.shared = c.shared)
  | read (hreads : (c.locs i).Reads (calls i) c.shared (c'.locs i)) (hshared : c'.shared = c.shared)
  | insert {driver : Driver} {a : Assignment} {toLink : List Delivery}
      (hloc : c.locs i = .inserting driver a toLink) (hnew : c'.locs i = .linking driver a toLink)
      (hshared : c'.shared = { c.shared with assignments := c.shared.assignments.set a.id a })
  | link {driver : Driver} {a : Assignment} {delivery : Delivery} {toLink : List Delivery}
      (hloc : c.locs i = .linking driver a (delivery :: toLink))
      (hnew : c'.locs i = .linking driver a toLink)
      (hshared : c'.shared = { c.shared with
        deliveries := c.shared.deliveries.set delivery.id
          (AssignmentService.linked a.id a.createdAt delivery) })
  | finish {driver : Driver} {a : Assignment} (hloc : c.locs i = .linking driver a [])
      (hnew : c'.locs i = .done (.ok a))
      (hshared : c'.shared = { c.shared with
        drivers := c.shared.drivers.save cfg (busyDriver driver a) })

variable {cfg : Config} {calls : ι → CreateCall} {c : CreateConfig ι}

/-- A call that has inserted its assignment keeps it. -/
theorem CreateStep.booked {c c' : CreateConfig ι} {i : ι} (h : CreateStep cfg calls c c' i)
    (hne : ∀ j, j ≠ i → c'.locs j = c.locs j) {j : ι} {a : Assignment}
    (hj : (c.locs j).booked? = some a) : (c'.locs j).booked? = some a := by
  rcases eq_or_ne j i with rfl | hji
  · cases h with
    | idle hloc => rwa [hloc]
    | read hreads =>
      rw [hreads.unbooked] at hj
      exact absurd hj (by simp)
    | insert hloc =>
      rw [hloc] at hj
      exact absurd hj (by simp [CreateLoc.booked?])
    | link hloc hnew =>
      rw [hloc] at hj
      rw [hnew]
      exact hj
    | finish hloc hnew =>
      rw [hloc] at hj
      rw [hnew]
      exact hj
  · rwa [hne j hji]

/-- A call that names the driver has inserted its assignment. -/
def DriverTaken (calls : ι → CreateCall) (c : CreateConfig ι) (driverId : String) : Prop :=
  ∃ j a, (c.locs j).booked? = some a ∧ (calls j).driverId = driverId

/-- A call that lists the delivery has inserted its assignment. -/
def DeliveryTaken (calls : ι → CreateCall) (c : CreateConfig ι) (id : String) : Prop :=
  ∃ j a, (c.locs j).booked? = some a ∧ id ∈ (calls j).deliveryIds

section Kinds

variable {c' : CreateConfig ι} {i : ι} (h : CreateStep cfg calls c c' i)
include h

/-- Of the checks made by the end of a step, those made in it hold. -/
theorem CreateStep.checks (hne : ∀ j, j ≠ i → c'.locs j = c.locs j) (j : ι) :
    ((c'.locs j).checkedDriver = true →
      (c.locs j).checkedDriver = true ∨ eligibleStored c.shared (calls j).driverId = true) ∧
    ∀ id ∈ (c'.locs j).checkedIds,
      id ∈ (c.locs j).checkedIds ∨ assignableStored c.shared id = true := by
  rcases eq_or_ne j i with rfl | hji
  · cases h with
    | idle hloc =>
      rw [hloc]
      exact ⟨.inl, fun id => .inl⟩
    | read hreads => exact ⟨hreads.driver, hreads.ids⟩
    -- a call that writes checks nothing any more
    | insert _ hnew =>
      rw [hnew]
      exact ⟨fun hc => absurd hc Bool.false_ne_true, fun id hid => absurd hid List.not_mem_nil⟩
    | link _ hnew =>
      rw [hnew]
      exact ⟨fun hc => absurd hc Bool.false_ne_true, fun id hid => absurd hid List.not_mem_nil⟩
    | finish _ hnew =>
      rw [hnew]
      exact ⟨fun hc => absurd hc Bool.false_ne_true, fun id hid => absurd hid List.not_mem_nil⟩
  · rw [hne j hji]
    exact ⟨.inl, fun id => .inl⟩

/-- A driver stays eligible until a call takes it. -/
theorem CreateStep.eligible (hfollows : (c.locs i).Follows (calls i)) {id : String}
    (heligible : eligibleStored c.shared id = true) :
    eligibleStored c'.shared id = true ∨ DriverTaken calls c' id := by
  cases h with
  | idle _ hshared => exact .inl (hshared ▸ heligible)
  | read _ hshared => exact .inl (hshared ▸ heligible)
  | insert _ _ hshared => exact .inl (by rw [hshared]; exact heligible)
  | link _ _ hshared => exact .inl (by rw [hshared]; exact heligible)
  | @finish driver a hloc hnew hshared =>
    rw [hloc] at hfollows
    rcases eq_or_ne id driver.id with rfl | hid
    · exact .inr ⟨i, a, by rw [hnew]; rfl, hfollows.1.symm⟩
    · left
      have hsame : c'.shared.drivers.byId.get? id = c.shared.drivers.byId.get? id := by
        rw [hshared]
        exact InsertionMap.get?_set_of_ne _ hid _
      rw [eligibleStored, hsame]
      exact heligible

/-- A delivery stays assignable until a call takes it. -/
theorem CreateStep.assignable (hfollows : (c.locs i).Follows (calls i)) {id : String}
    (hassignable : assignableStored c.shared id = true) :
    assignableStored c'.shared id = true ∨ DeliveryTaken calls c' id := by
  cases h with
  | idle _ hshared => exact .inl (hshared ▸ hassignable)
  | read _ hshared => exact .inl (hshared ▸ hassignable)
  | insert _ _ hshared => exact .inl (by rw [hshared]; exact hassignable)
  | @link driver a delivery toLink hloc hnew hshared =>
    rw [hloc] at hfollows
    rcases eq_or_ne id delivery.id with rfl | hid
    · exact .inr ⟨i, a, by rw [hnew]; rfl, hfollows.2.2 _ List.mem_cons_self⟩
    · left
      have hsame : c'.shared.deliveries.get? id = c.shared.deliveries.get? id := by
        rw [hshared]
        exact InsertionMap.get?_set_of_ne _ hid _
      rw [assignableStored, hsame]
      exact hassignable
  | finish _ _ hshared => exact .inl (by rw [hshared]; exact hassignable)

end Kinds

variable [DecidableEq ι]

theorem create_locs_self (c : CreateConfig ι) (i : ι) :
    ((createFlow cfg calls).step c i).locs i = ((c.locs i).next cfg (calls i) c.shared).1 :=
  Flow.step_locs_self ..

theorem create_step (hkeyed : c.shared.Keyed) (i : ι) :
    CreateStep cfg calls c ((createFlow cfg calls).step c i) i := by
  have hnew : ((createFlow cfg calls).step c i).locs i =
      ((c.locs i).next cfg (calls i) c.shared).1 := create_locs_self c i
  have hshared : ((createFlow cfg calls).step c i).shared =
      ((c.locs i).next cfg (calls i) c.shared).2 := rfl
  cases hloc : c.locs i with
  | start =>
    rw [hloc] at hnew hshared
    refine .read (by rw [hnew, hloc]; exact reads_start) (hshared.trans ?_)
    rw [CreateLoc.next]
    split <;> rfl
  | eligible driver =>
    rw [hloc] at hnew hshared
    exact .read (by rw [hnew, hloc]; exact reads_eligible driver) hshared
  | resolving driver vehicle id todo resolved =>
    rw [hloc] at hnew hshared
    exact .read (by rw [hnew, hloc]; exact reads_resolving hkeyed driver vehicle id todo resolved)
      hshared
  | inserting driver a toLink =>
    rw [hloc] at hnew hshared
    exact .insert hloc hnew hshared
  | linking driver a toLink =>
    rw [hloc] at hnew hshared
    cases toLink with
    | nil => exact .finish hloc hnew hshared
    | cons delivery toLink => exact .link hloc hnew hshared
  | done r =>
    rw [hloc] at hnew hshared
    exact .idle (hnew.trans hloc.symm) hshared

/-! ## What every schedule keeps -/

/-- Records are stored under their ids, and every call holds what it names. -/
structure Shaped (calls : ι → CreateCall) (c : CreateConfig ι) : Prop where
  keyed : c.shared.Keyed
  follows : ∀ i, (c.locs i).Follows (calls i)

theorem Shaped.step (h : Shaped calls c) (i : ι) :
    Shaped calls ((createFlow cfg calls).step c i) := by
  refine ⟨h.keyed.next (c.locs i), fun j => ?_⟩
  rcases eq_or_ne j i with rfl | hji
  · rw [create_locs_self]
    exact (h.follows j).next h.keyed
  · rw [Flow.step_locs_ne _ c hji]
    exact h.follows j

/-- A check that no longer holds is one a call that has inserted its assignment has undone. -/
structure Stale (calls : ι → CreateCall) (c : CreateConfig ι) : Prop where
  driver : ∀ i, (c.locs i).checkedDriver = true →
    eligibleStored c.shared (calls i).driverId = true ∨ DriverTaken calls c (calls i).driverId
  delivery : ∀ i, ∀ id ∈ (c.locs i).checkedIds,
    assignableStored c.shared id = true ∨ DeliveryTaken calls c id

theorem Stale.step (h : Stale calls c) (hshaped : Shaped calls c) (i : ι) :
    Stale calls ((createFlow cfg calls).step c i) := by
  have hstep : CreateStep cfg calls c ((createFlow cfg calls).step c i) i :=
    create_step hshaped.keyed i
  have hne : ∀ j, j ≠ i → ((createFlow cfg calls).step c i).locs j = c.locs j :=
    fun j hj => Flow.step_locs_ne _ c hj
  have hfollows := hshaped.follows i
  refine ⟨fun j hj => ?_, fun j id hid => ?_⟩
  · have hbefore : eligibleStored c.shared (calls j).driverId = true ∨
        DriverTaken calls c (calls j).driverId := by
      rcases (hstep.checks hne j).1 hj with hchecked | heligible
      · exact h.driver j hchecked
      · exact .inl heligible
    rcases hbefore with heligible | ⟨k, a, hk, hkd⟩
    · exact hstep.eligible hfollows heligible
    · exact .inr ⟨k, a, hstep.booked hne hk, hkd⟩
  · have hbefore : assignableStored c.shared id = true ∨ DeliveryTaken calls c id := by
      rcases (hstep.checks hne j).2 id hid with hchecked | hassignable
      · exact h.delivery j id hchecked
      · exact .inl hassignable
    rcases hbefore with hassignable | ⟨k, a, hk, hkd⟩
    · exact hstep.assignable hfollows hassignable
    · exact .inr ⟨k, a, hstep.booked hne hk, hkd⟩

end Steps

end FleetCommand.Management
