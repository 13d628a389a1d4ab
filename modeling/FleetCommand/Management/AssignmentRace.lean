import FleetCommand.Management.AssignmentSteps
import FleetCommand.Management.Lifecycle
import FleetCommand.Management.References
import Mathlib.Data.Fintype.Basic

/-!
# Creating assignments in parallel

`create` checks the driver and the deliveries first and writes afterwards, and nothing is held in
between, so two calls can both pass the checks for one driver or one delivery and both succeed.

A schedule books every driver and delivery once if, at every insert, what the call has checked still
holds in the repositories and no conflicting call is in the middle of its writes (`Exclusive`).
Where every call has returned, this is also necessary: the checks of a call can only have become
stale through a conflicting call that has inserted its assignment (`Stale`), and that call succeeds
(`create_race`).
-/

set_option autoImplicit false

namespace FleetCommand.Management

open Resumption

/-! ## The property and the condition -/

/-- Concurrent calls of `create`. -/
abbrev CreatePool (ι : Type) := Pool ι RepoOp.Resp (Except Thrown Assignment) Repos

/-- The call is about to insert its assignment. -/
def inserting (p : Prog RepoOp.Resp (Except Thrown Assignment)) : Bool :=
  match p.next? with
  | some (.insertAssignment _) => true
  | _ => false

/-- The call has inserted its assignment and is about to make one of its other writes. -/
def writing (p : Prog RepoOp.Resp (Except Thrown Assignment)) : Bool :=
  match p.next? with
  | some (.saveDelivery _) => true
  | some (.saveDriver _) => true
  | _ => false

/-- The delivery is linked to the assignment. -/
def LinkedTo (s : Repos) (id : String) (a : Assignment) : Prop :=
  ∃ delivery, s.deliveries.get? id = some delivery ∧ delivery.assignmentId = some a.id

section Race

variable {ι : Type} (calls : ι → CreateCall)

/-- Of two conflicting calls one succeeds at most, a driver named has one active assignment at most,
and the deliveries of a call that succeeded are linked to its assignment. -/
structure NoDoubleBooking (c : CreatePool ι) : Prop where
  exclusive : ∀ i j a b, c.threads i = .ret (.ok a) → c.threads j = .ret (.ok b) →
    Conflicts (calls i) (calls j) → i = j
  oneActive : ∀ i x y a b, c.shared.assignments.get? x = some a →
    c.shared.assignments.get? y = some b → isActiveAssignment a = true →
    isActiveAssignment b = true → a.driverId = (calls i).driverId →
    b.driverId = (calls i).driverId → x = y
  linked : ∀ i a, c.threads i = .ret (.ok a) → ∀ id ∈ (calls i).deliveryIds, LinkedTo c.shared id a

/-- Where call `i` is about to insert, its checks still hold and no conflicting call is in the
middle of its writes. -/
def InsertsChecked (c : CreatePool ι) (i : ι) : Prop :=
  inserting (c.threads i) = true →
    (calls i).checksHold c.shared = true ∧
    ∀ j, j ≠ i → Conflicts (calls i) (calls j) → writing (c.threads j) = false

instance [Fintype ι] [DecidableEq ι] (c : CreatePool ι) (i : ι) :
    Decidable (InsertsChecked calls c i) :=
  inferInstanceAs (Decidable (_ → _ ∧ ∀ _, _))

/-- Every call at its start. -/
def startCreates (cfg : Config) (s : Repos) : CreatePool ι := ⟨fun i => (calls i).prog cfg, s⟩

end Race

section Steps

variable {ι : Type} {cfg : Config} {calls : ι → CreateCall} {c : CreateConfig ι}

/-! ## What a checked schedule keeps -/

/-- The calls that have inserted their assignments do not conflict, and what they have written is
still there. The assignments stored are those of the start, `stored`, and theirs. -/
structure Exclusive (calls : ι → CreateCall) (stored : InsertionMap String Assignment)
    (c : CreateConfig ι) : Prop where
  apart : ∀ i j a b, (c.locs i).booked? = some a → (c.locs j).booked? = some b →
    Conflicts (calls i) (calls j) → i = j
  linked : ∀ i a, (c.locs i).booked? = some a → ∀ id ∈ (calls i).deliveryIds,
    id ∈ (c.locs i).unlinked ∨ LinkedTo c.shared id a
  busy : ∀ i a, c.locs i = .done (.ok a) →
    ∃ driver, c.shared.drivers.byId.get? (calls i).driverId = some driver ∧
      driver.status = .onDelivery
  assignments : ∀ x a, c.shared.assignments.get? x = some a →
    stored.get? x = some a ∨ ∃ i, (c.locs i).booked? = some a ∧ x = a.id

section Writes

variable {stored : InsertionMap String Assignment} {c' : CreateConfig ι} {i : ι}

/-- A step that writes nothing and inserts nothing. -/
theorem Exclusive.quiet (h : Exclusive calls stored c) (hshared : c'.shared = c.shared)
    (hsame : ∀ j a, (c'.locs j).booked? = some a → c'.locs j = c.locs j)
    (hkeep : ∀ j a, (c.locs j).booked? = some a → (c'.locs j).booked? = some a) :
    Exclusive calls stored c' := by
  constructor
  · intro j k a b hj hk
    rw [hsame j a hj] at hj
    rw [hsame k b hk] at hk
    exact h.apart j k a b hj hk
  · intro j a hj id hid
    have hloc := hsame j a hj
    rw [hloc] at hj
    rw [hloc, hshared]
    exact h.linked j a hj id hid
  · intro j a hj
    have hloc := hsame j a (by rw [hj]; rfl)
    rw [hshared]
    exact h.busy j a (hloc.symm.trans hj)
  · intro x a hx
    rw [hshared] at hx
    rcases h.assignments x a hx with hold | ⟨j, hj, hid⟩
    · exact .inl hold
    · exact .inr ⟨j, hkeep j a hj, hid⟩

variable (hne : ∀ j, j ≠ i → c'.locs j = c.locs j)
include hne

/-- An insert beside calls that do not conflict. -/
theorem Exclusive.insert (h : Exclusive calls stored c) {driver : Driver} {a : Assignment}
    {toLink : List Delivery} (hloc : c.locs i = .inserting driver a toLink)
    (hnew : c'.locs i = .linking driver a toLink)
    (hshared : c'.shared = { c.shared with assignments := c.shared.assignments.set a.id a })
    (hfollows : (c.locs i).Follows (calls i))
    (halone : ∀ j b, j ≠ i → (c.locs j).booked? = some b → ¬ Conflicts (calls i) (calls j)) :
    Exclusive calls stored c' := by
  have hbooked : (c'.locs i).booked? = some a := by
    rw [hnew]
    rfl
  constructor
  · intro j k b d hj hk hconflict
    rcases eq_or_ne j i with rfl | hji
    · rcases eq_or_ne k j with rfl | hkj
      · rfl
      · rw [hne k hkj] at hk
        exact absurd hconflict (halone k d hkj hk)
    · rw [hne j hji] at hj
      rcases eq_or_ne k i with rfl | hki
      · exact absurd hconflict.symm (halone j b hji hj)
      · rw [hne k hki] at hk
        exact h.apart j k b d hj hk hconflict
  · intro j b hj id hid
    rcases eq_or_ne j i with rfl | hji
    · -- nothing is linked yet
      rw [hloc] at hfollows
      left
      rw [hnew, CreateLoc.unlinked, hfollows.2.2]
      exact hid
    · rw [hne j hji] at hj ⊢
      rw [hshared]
      exact h.linked j b hj id hid
  · intro j b hj
    rcases eq_or_ne j i with rfl | hji
    · exact absurd (hnew.symm.trans hj) (by simp)
    · rw [hne j hji] at hj
      rw [hshared]
      exact h.busy j b hj
  · intro x b hx
    rw [hshared, InsertionMap.get?_set] at hx
    split at hx
    next hxa =>
      obtain rfl := Option.some.inj hx
      exact .inr ⟨i, hbooked, hxa⟩
    next =>
      rcases h.assignments x b hx with hold | ⟨j, hj, hid⟩
      · exact .inl hold
      · have hji : j ≠ i := by
          rintro rfl
          rw [hloc] at hj
          exact absurd hj (by simp [CreateLoc.booked?])
        exact .inr ⟨j, by rw [hne j hji]; exact hj, hid⟩

/-- What calls other than `i` have inserted does not conflict with `i`. -/
theorem Exclusive.others (h : Exclusive calls stored c) {a : Assignment}
    (hi : (c.locs i).booked? = some a) {j : ι} {b : Assignment} (hji : j ≠ i)
    (hj : (c'.locs j).booked? = some b) :
    (c.locs j).booked? = some b ∧ ¬ Conflicts (calls j) (calls i) := by
  rw [hne j hji] at hj
  exact ⟨hj, fun hconflict => hji (h.apart j i b a hj hi hconflict)⟩

/-- A step between two control points at which the call has inserted the same assignment. -/
theorem Exclusive.of_booked (h : Exclusive calls stored c) {a : Assignment}
    (hi : (c.locs i).booked? = some a) (hi' : (c'.locs i).booked? = some a)
    (hassignments : c'.shared.assignments = c.shared.assignments)
    (hlinked : ∀ j b, (c'.locs j).booked? = some b → ∀ id ∈ (calls j).deliveryIds,
      id ∈ (c'.locs j).unlinked ∨ LinkedTo c'.shared id b)
    (hbusy : ∀ j b, c'.locs j = .done (.ok b) →
      ∃ driver, c'.shared.drivers.byId.get? (calls j).driverId = some driver ∧
        driver.status = .onDelivery) : Exclusive calls stored c' := by
  have hsame : ∀ j, (c'.locs j).booked? = (c.locs j).booked? := by
    intro j
    rcases eq_or_ne j i with rfl | hji
    · rw [hi, hi']
    · rw [hne j hji]
  refine ⟨fun j k b d hj hk => ?_, hlinked, hbusy, fun x b hx => ?_⟩
  · rw [hsame] at hj hk
    exact h.apart j k b d hj hk
  · rw [hassignments] at hx
    rcases h.assignments x b hx with hold | ⟨j, hj, hid⟩
    · exact .inl hold
    · exact .inr ⟨j, (hsame j).trans hj, hid⟩

theorem Exclusive.link (h : Exclusive calls stored c) {driver : Driver} {a : Assignment}
    {delivery : Delivery} {toLink : List Delivery}
    (hloc : c.locs i = .linking driver a (delivery :: toLink))
    (hnew : c'.locs i = .linking driver a toLink)
    (hshared : c'.shared = { c.shared with
      deliveries := c.shared.deliveries.set delivery.id
        (AssignmentService.linked a.id a.createdAt delivery) })
    (hfollows : (c.locs i).Follows (calls i)) : Exclusive calls stored c' := by
  have hi : (c.locs i).booked? = some a := by
    rw [hloc]
    rfl
  have hget : ∀ id, c'.shared.deliveries.get? id =
      if id = delivery.id then some (AssignmentService.linked a.id a.createdAt delivery)
      else c.shared.deliveries.get? id := by
    intro id
    rw [hshared]
    exact InsertionMap.get?_set _ _ _ _
  -- the links of other deliveries stay
  have hkeep : ∀ {id b}, id ≠ delivery.id → LinkedTo c.shared id b → LinkedTo c'.shared id b := by
    rintro id b hid ⟨d, hd, hlink⟩
    exact ⟨d, by rw [hget, if_neg hid]; exact hd, hlink⟩
  have hlisted : delivery.id ∈ (calls i).deliveryIds := by
    rw [hloc] at hfollows
    exact hfollows.2.2 _ List.mem_cons_self
  refine h.of_booked hne hi (by rw [hnew]; rfl) (by rw [hshared]) ?_ ?_
  · intro j b hj id hid
    rcases eq_or_ne j i with rfl | hji
    · obtain rfl : a = b := by simpa [hnew, CreateLoc.booked?] using hj
      rcases eq_or_ne id delivery.id with rfl | hne'
      · exact .inr ⟨_, by rw [hget, if_pos rfl], rfl⟩
      · rcases h.linked j a hi id hid with hmem | hlink
        · left
          rw [hloc] at hmem
          rw [hnew]
          exact (List.mem_cons.1 hmem).resolve_left hne'
        · exact .inr (hkeep hne' hlink)
    · obtain ⟨hj', hapart⟩ := h.others hne hi hji hj
      have hid' : id ≠ delivery.id := fun heq => hapart (.inr ⟨id, hid, heq ▸ hlisted⟩)
      rw [hne j hji]
      exact (h.linked j b hj' id hid).imp_right (hkeep hid')
  · intro j b hj
    rcases eq_or_ne j i with rfl | hji
    · exact absurd (hnew.symm.trans hj) (by simp)
    · rw [hne j hji] at hj
      rw [hshared]
      exact h.busy j b hj

theorem Exclusive.finish (h : Exclusive calls stored c) {driver : Driver} {a : Assignment}
    (hloc : c.locs i = .linking driver a []) (hnew : c'.locs i = .done (.ok a))
    (hshared : c'.shared = { c.shared with
      drivers := c.shared.drivers.save cfg (busyDriver driver a) })
    (hfollows : (c.locs i).Follows (calls i)) : Exclusive calls stored c' := by
  have hi : (c.locs i).booked? = some a := by
    rw [hloc]
    rfl
  have hdriver : driver.id = (calls i).driverId := by
    rw [hloc] at hfollows
    exact hfollows.1
  have hget : ∀ id, c'.shared.drivers.byId.get? id =
      if id = (calls i).driverId then some (busyDriver driver a)
      else c.shared.drivers.byId.get? id := by
    intro id
    rw [hshared, ← hdriver]
    exact InsertionMap.get?_set _ _ _ _
  refine h.of_booked hne hi (by rw [hnew]; rfl) (by rw [hshared]) ?_ ?_
  · intro j b hj id hid
    rcases eq_or_ne j i with rfl | hji
    · obtain rfl : a = b := by simpa [hnew, CreateLoc.booked?] using hj
      rcases h.linked j a hi id hid with hmem | hlink
      · rw [hloc] at hmem
        exact absurd hmem List.not_mem_nil
      · right
        rw [hshared]
        exact hlink
    · obtain ⟨hj', -⟩ := h.others hne hi hji hj
      rw [hne j hji, hshared]
      exact h.linked j b hj' id hid
  · intro j b hj
    rcases eq_or_ne j i with rfl | hji
    · exact ⟨_, by rw [hget, if_pos rfl], rfl⟩
    · obtain ⟨-, hapart⟩ := h.others hne hi hji (by rw [hj]; rfl)
      rw [hget, if_neg fun heq => hapart (.inl heq)]
      rw [hne j hji] at hj
      exact h.busy j b hj

end Writes

/-- In a checked schedule a call that is about to insert meets no conflicting call that has. -/
theorem Exclusive.alone {stored : InsertionMap String Assignment} (h : Exclusive calls stored c)
    (hshaped : Shaped calls c) {i : ι} (hchecks : (calls i).checksHold c.shared = true)
    (hidle : ∀ j, j ≠ i → Conflicts (calls i) (calls j) → ∀ driver a toLink,
      c.locs j ≠ .linking driver a toLink) :
    ∀ j b, j ≠ i → (c.locs j).booked? = some b → ¬ Conflicts (calls i) (calls j) := by
  intro j b hji hj hconflict
  rw [CreateCall.checksHold, Bool.and_eq_true_iff, List.all_eq_true] at hchecks
  obtain ⟨heligible, hassignable⟩ := hchecks
  -- the other call is not in the middle of its writes, so it has returned
  have hdone : c.locs j = .done (.ok b) := by
    rcases CreateLoc.booked?_eq_some_iff.1 hj with ⟨driver, toLink, hloc⟩ | hdone
    · exact absurd hloc (hidle j hji hconflict driver b toLink)
    · exact hdone
  rcases hconflict with hdriver | ⟨id, hid, hid'⟩
  · -- its driver is no longer available
    obtain ⟨driver, hfound, hstatus⟩ := h.busy j b hdone
    rw [hdriver, eligibleStored, hfound, Bool.and_eq_true_iff, hstatus] at heligible
    exact absurd heligible.2 (by decide)
  · -- the shared delivery is linked
    have hbooking := hshaped.follows j
    rw [hdone] at hbooking
    rcases h.linked j b hj id hid' with hmem | ⟨delivery, hfound, hlink⟩
    · rw [hdone] at hmem
      exact absurd hmem List.not_mem_nil
    · have hfree := hassignable id hid
      rw [assignableStored, hfound, Bool.and_eq_true_iff, hlink] at hfree
      have htruthy : truthy (some b.id) = true := by simp [truthy, hbooking.id_ne]
      rw [htruthy] at hfree
      exact absurd hfree.1 (by decide)

/-- Where the checks of a call no longer hold, a conflicting call has inserted its assignment. -/
theorem Stale.exists_conflict (h : Stale calls c) {i : ι} {driver : Driver} {a : Assignment}
    {toLink : List Delivery} (hloc : c.locs i = .inserting driver a toLink)
    (hfollows : (c.locs i).Follows (calls i)) (hchecks : (calls i).checksHold c.shared = false) :
    ∃ j b, j ≠ i ∧ (c.locs j).booked? = some b ∧ Conflicts (calls i) (calls j) := by
  have hne : ∀ {j b}, (c.locs j).booked? = some b → j ≠ i := by
    rintro j b hj rfl
    rw [hloc] at hj
    exact absurd hj (by simp [CreateLoc.booked?])
  rw [hloc] at hfollows
  rw [CreateCall.checksHold, Bool.and_eq_false_iff, List.all_eq_false] at hchecks
  rcases hchecks with heligible | ⟨id, hid, hassignable⟩
  · rcases h.driver i (by rw [hloc]; rfl) with hstored | ⟨j, b, hj, hdriver⟩
    · exact absurd (heligible.symm.trans hstored) Bool.false_ne_true
    · exact ⟨j, b, hne hj, hj, .inl hdriver.symm⟩
  · have hchecked : id ∈ (c.locs i).checkedIds := by
      rw [hloc, CreateLoc.checkedIds, hfollows.2.2]
      exact hid
    rcases h.delivery i id hchecked with hstored | ⟨j, b, hj, hid'⟩
    · exact absurd hstored hassignable
    · exact ⟨j, b, hne hj, hj, .inr ⟨id, hid, hid'⟩⟩

/-! ## Runs -/

theorem threads_of_loc_eq {i : ι} {l : CreateLoc} (hloc : c.locs i = l) :
    ((createFlow cfg calls).toPool c).threads i = l.code cfg (calls i) :=
  Flow.toPool_threads _ hloc

theorem next?_threads (i : ι) :
    (((createFlow cfg calls).toPool c).threads i).next? = (c.locs i).op? (calls i) :=
  (c.locs i).next?_code cfg (calls i)

theorem inserting_iff (i : ι) : inserting (((createFlow cfg calls).toPool c).threads i) = true ↔
    ∃ driver a toLink, c.locs i = .inserting driver a toLink := by
  rw [inserting, next?_threads]
  cases c.locs i with
  | start =>
    simp only [CreateLoc.op?]
    split <;> simp_all
  | linking driver a toLink => cases toLink <;> simp [CreateLoc.op?]
  | _ => simp [CreateLoc.op?]

theorem writing_iff (i : ι) : writing (((createFlow cfg calls).toPool c).threads i) = true ↔
    ∃ driver a toLink, c.locs i = .linking driver a toLink := by
  rw [writing, next?_threads]
  cases c.locs i with
  | start =>
    simp only [CreateLoc.op?]
    split <;> simp_all
  | linking driver a toLink => cases toLink <;> simp [CreateLoc.op?]
  | _ => simp [CreateLoc.op?]

/-- A call that has inserted its assignment returns it. -/
theorem returned_of_booked {i : ι} {a : Assignment} (hbooked : (c.locs i).booked? = some a)
    {r : Except Thrown Assignment}
    (hreturned : ((createFlow cfg calls).toPool c).threads i = .ret r) : r = .ok a := by
  have hop := CreateLoc.op?_eq_none cfg (calls i) hreturned
  rw [threads_of_loc_eq rfl] at hreturned
  rcases CreateLoc.booked?_eq_some_iff.1 hbooked with ⟨driver, toLink, hloc⟩ | hdone
  · -- a call in the middle of its writes has not returned
    rw [hloc] at hop
    cases toLink <;> exact absurd hop (by simp [CreateLoc.op?])
  · rw [hdone] at hreturned
    exact (Prog.ret.inj hreturned).symm

/-- A call that has succeeded is at its end. -/
theorem done_of_returned {i : ι} {a : Assignment}
    (h : ((createFlow cfg calls).toPool c).threads i = .ret (.ok a)) : c.locs i = .done (.ok a) := by
  have hop := CreateLoc.op?_eq_none cfg (calls i) h
  rw [threads_of_loc_eq rfl] at h
  cases hloc : c.locs i with
  | done r =>
    rw [hloc] at h
    obtain rfl := Prog.ret.inj h
    rfl
  | start =>
    rw [hloc, CreateLoc.code, CreateCall.prog, AssignmentService.create_eq] at h
    split at h
    · exact absurd (Prog.ret.inj h) (by simp)
    next hne =>
      rw [hloc, CreateLoc.op?, if_neg hne] at hop
      exact absurd hop (by simp)
  | linking driver b toLink =>
    rw [hloc] at hop
    cases toLink <;> exact absurd hop (by simp [CreateLoc.op?])
  | _ =>
    rw [hloc] at hop
    exact absurd hop (by simp [CreateLoc.op?])

/-- Calls kept apart book nothing twice, if no driver named had an active assignment. -/
theorem Exclusive.noDoubleBooking {stored : InsertionMap String Assignment}
    (h : Exclusive calls stored c) (hshaped : Shaped calls c)
    (hfree : ∀ i x a, stored.get? x = some a → a.driverId = (calls i).driverId →
      isActiveAssignment a = false) :
    NoDoubleBooking calls ((createFlow cfg calls).toPool c) := by
  constructor
  · intro i j a b hi hj hconflict
    refine h.apart i j a b ?_ ?_ hconflict
    · rw [done_of_returned hi]
      rfl
    · rw [done_of_returned hj]
      rfl
  · intro i x y a b hx hy hactive hactive' hdriver hdriver'
    -- both were inserted by calls, which name one driver
    have hinserted : ∀ {x a}, c.shared.assignments.get? x = some a → isActiveAssignment a = true →
        a.driverId = (calls i).driverId → ∃ j, (c.locs j).booked? = some a ∧ x = a.id ∧
          (calls j).driverId = (calls i).driverId := by
      intro x a hx hactive hdriver
      rcases h.assignments x a hx with hold | ⟨j, hj, hid⟩
      · exact absurd ((hfree i x a hold hdriver).symm.trans hactive) Bool.false_ne_true
      · exact ⟨j, hj, hid, ((hshaped.follows j).booking hj).driverId.symm.trans hdriver⟩
    obtain ⟨j, hj, rfl, hjd⟩ := hinserted hx hactive hdriver
    obtain ⟨k, hk, rfl, hkd⟩ := hinserted hy hactive' hdriver'
    obtain rfl := h.apart j k a b hj hk (.inl (hjd.trans hkd.symm))
    rw [Option.some.inj (hj.symm.trans hk)]
  · intro i a hi id hid
    have hdone := done_of_returned hi
    rcases h.linked i a (by rw [hdone]; rfl) id hid with hmem | hlink
    · rw [hdone] at hmem
      exact absurd hmem List.not_mem_nil
    · exact hlink

/-- A call whose insert is not checked conflicts with one that has inserted its assignment. -/
theorem Stale.conflict_of_unchecked (h : Stale calls c) (hshaped : Shaped calls c) {i : ι}
    (hunchecked : ¬ InsertsChecked calls ((createFlow cfg calls).toPool c) i) :
    ∃ driver a toLink, c.locs i = .inserting driver a toLink ∧
      ∃ j b, j ≠ i ∧ (c.locs j).booked? = some b ∧ Conflicts (calls i) (calls j) := by
  rw [InsertsChecked, Classical.not_imp, inserting_iff] at hunchecked
  obtain ⟨⟨driver, a, toLink, hloc⟩, hfails⟩ := hunchecked
  refine ⟨driver, a, toLink, hloc, ?_⟩
  cases hchecks : (calls i).checksHold c.shared with
  | false => exact h.exists_conflict hloc (hshaped.follows i) hchecks
  | true =>
    -- so a conflicting call is in the middle of its writes
    have hbusy : ¬ ∀ j, j ≠ i → Conflicts (calls i) (calls j) →
        writing (((createFlow cfg calls).toPool c).threads j) = false :=
      fun hidle => hfails ⟨hchecks, hidle⟩
    push Not at hbusy
    obtain ⟨j, hji, hconflict, hwriting⟩ := hbusy
    rw [Bool.ne_false_iff, writing_iff] at hwriting
    obtain ⟨driver', b, toLink', hj⟩ := hwriting
    exact ⟨j, b, hji, by rw [hj]; rfl, hconflict⟩

variable [DecidableEq ι]

/-- A checked step keeps the calls apart. -/
theorem Exclusive.step {stored : InsertionMap String Assignment} (h : Exclusive calls stored c)
    (hshaped : Shaped calls c) {i : ι}
    (hchecked : InsertsChecked calls ((createFlow cfg calls).toPool c) i) :
    Exclusive calls stored ((createFlow cfg calls).step c i) := by
  have hstep : CreateStep cfg calls c ((createFlow cfg calls).step c i) i :=
    create_step hshaped.keyed i
  have hne : ∀ j, j ≠ i → ((createFlow cfg calls).step c i).locs j = c.locs j :=
    fun j hj => Flow.step_locs_ne _ c hj
  have hfollows := hshaped.follows i
  cases hstep with
  | idle hloc hshared =>
    have hlocs : ∀ j, ((createFlow cfg calls).step c i).locs j = c.locs j := by
      intro j
      rcases eq_or_ne j i with rfl | hji
      · exact hloc
      · exact hne j hji
    exact h.quiet hshared (fun j a _ => hlocs j) fun j a hj => by rwa [hlocs j]
  | read hreads hshared =>
    have hother : ∀ {j a}, (c.locs j).booked? = some a → j ≠ i := by
      rintro j a hj rfl
      exact absurd (hreads.unbooked.symm.trans hj) (by simp)
    have hother' : ∀ {j a}, (((createFlow cfg calls).step c i).locs j).booked? = some a → j ≠ i := by
      rintro j a hj rfl
      exact absurd (hreads.unbooked'.symm.trans hj) (by simp)
    exact h.quiet hshared (fun j a hj => hne j (hother' hj)) fun j a hj => by
      rwa [hne j (hother hj)]
  | @insert driver a toLink hloc hnew hshared =>
    obtain ⟨hchecks, hidle⟩ := hchecked ((inserting_iff i).2 ⟨driver, a, toLink, hloc⟩)
    refine h.insert hne hloc hnew hshared hfollows (h.alone hshaped hchecks ?_)
    intro j hji hconflict driver' b toLink' hj
    have hwriting : writing (((createFlow cfg calls).toPool c).threads j) = true :=
      (writing_iff j).2 ⟨driver', b, toLink', hj⟩
    exact absurd ((hidle j hji hconflict).symm.trans hwriting) Bool.false_ne_true
  | link hloc hnew hshared => exact h.link hne hloc hnew hshared hfollows
  | finish hloc hnew hshared => exact h.finish hne hloc hnew hshared hfollows

/-- A call that has inserted its assignment keeps it in every schedule. -/
theorem booked_run (hshaped : Shaped calls c) {j : ι} {a : Assignment}
    (hj : (c.locs j).booked? = some a) (sched : List ι) :
    ((Runs.run (createFlow cfg calls).step c sched).locs j).booked? = some a := by
  have hrun : Shaped calls (Runs.run (createFlow cfg calls).step c sched) ∧
      ((Runs.run (createFlow cfg calls).step c sched).locs j).booked? = some a :=
    Runs.run_invariant (I := fun c => Shaped calls c ∧ (c.locs j).booked? = some a)
      (fun c i h => ⟨h.1.step i, (create_step h.1.keyed i).booked
        (fun k hk => Flow.step_locs_ne _ c hk) h.2⟩) ⟨hshaped, hj⟩ sched
  exact hrun.2

/-- If every call has returned and no two that conflict have succeeded, every insert was checked. -/
theorem insertsChecked_of_returned (hshaped : Shaped calls c) (hstale : Stale calls c)
    (sched : List ι)
    (hreturned : ∀ i, ∃ r,
      (((createFlow cfg calls).toPool c).exec (memory cfg) sched).threads i = .ret r)
    (hsafe : NoDoubleBooking calls (((createFlow cfg calls).toPool c).exec (memory cfg) sched)) :
    Runs.AllSteps (Pool.step (memory cfg)) (InsertsChecked calls) ((createFlow cfg calls).toPool c)
      sched := by
  rw [Runs.allSteps_map (createFlow cfg calls).toPool_step, Runs.allSteps_iff_splits]
  rintro pre i post rfl
  by_contra hunchecked
  -- the configuration in which the insert is not checked
  set before := Runs.run (createFlow cfg calls).step c pre
  obtain ⟨hshaped', hstale'⟩ : Shaped calls before ∧ Stale calls before :=
    Runs.run_invariant (I := fun c => Shaped calls c ∧ Stale calls c)
      (fun c i h => ⟨h.1.step i, h.2.step h.1 i⟩) ⟨hshaped, hstale⟩ pre
  obtain ⟨driver, a, toLink, hloc, j, b, hji, hj, hconflict⟩ :=
    hstale'.conflict_of_unchecked hshaped' hunchecked
  -- call `i` inserts nevertheless, and both calls keep their assignments to the end
  have hstep : CreateStep cfg calls before ((createFlow cfg calls).step before i) i :=
    create_step hshaped'.keyed i
  have hi' : (((createFlow cfg calls).step before i).locs i).booked? = some a := by
    rw [create_locs_self, hloc]
    rfl
  have hj' := hstep.booked (fun k hk => Flow.step_locs_ne _ before hk) hj
  have hend : (Runs.run (createFlow cfg calls).step c (pre ++ i :: post)) =
      Runs.run (createFlow cfg calls).step ((createFlow cfg calls).step before i) post := by
    rw [Runs.run_append, Runs.run_cons]
  rw [← Flow.toPool_run, hend] at hreturned hsafe
  have hsucceeds : ∀ {k d}, (((createFlow cfg calls).step before i).locs k).booked? = some d →
      ((createFlow cfg calls).toPool (Runs.run (createFlow cfg calls).step
        ((createFlow cfg calls).step before i) post)).threads k = .ret (.ok d) := by
    intro k d hk
    obtain ⟨r, hr⟩ := hreturned k
    rw [hr, returned_of_booked (booked_run (hshaped'.step i) hk post) hr]
  exact hji (hsafe.exclusive i j a b (hsucceeds hi') (hsucceeds hj') hconflict).symm

variable (cfg calls)

/-- Any number of concurrent calls of `create`, in any order of their steps, started with no active
assignment for a driver named. If every insert of the schedule is checked, nothing is booked twice
in any state of it; and if every call has returned and nothing is booked twice, every insert was
checked. -/
theorem create_race {s : Repos} (hkeyed : s.Keyed)
    (hfree : ∀ i x a, s.assignments.get? x = some a → a.driverId = (calls i).driverId →
      isActiveAssignment a = false) (sched : List ι) :
    (Runs.AllSteps (Pool.step (memory cfg)) (InsertsChecked calls) (startCreates calls cfg s) sched →
      Runs.Always (Pool.step (memory cfg)) (NoDoubleBooking calls) (startCreates calls cfg s)
        sched) ∧
    ((∀ i, ∃ r, ((startCreates calls cfg s).exec (memory cfg) sched).threads i = .ret r) →
      NoDoubleBooking calls ((startCreates calls cfg s).exec (memory cfg) sched) →
      Runs.AllSteps (Pool.step (memory cfg)) (InsertsChecked calls) (startCreates calls cfg s)
        sched) := by
  -- every call at its start, by control points
  let start : CreateConfig ι := ⟨fun _ => .start, s⟩
  have hstart : startCreates calls cfg s = (createFlow cfg calls).toPool start := rfl
  have hshaped : Shaped calls start := ⟨hkeyed, fun _ => trivial⟩
  rw [hstart]
  constructor
  · intro hchecked
    rw [Runs.allSteps_map (createFlow cfg calls).toPool_step] at hchecked
    rw [Runs.always_map (createFlow cfg calls).toPool_step]
    have hexclusive : Exclusive calls s.assignments start :=
      ⟨fun _ _ _ _ h => absurd h (by simp [start, CreateLoc.booked?]),
        fun _ _ h => absurd h (by simp [start, CreateLoc.booked?]),
        fun _ _ h => absurd h (by simp [start]), fun _ _ => .inl⟩
    have hkept := Runs.always_of_allSteps (I := fun c => Shaped calls c ∧
        Exclusive calls s.assignments c)
      (fun c i h hi => ⟨h.1.step i, h.2.step h.1 hi⟩) ⟨hshaped, hexclusive⟩ hchecked
    exact hkept.imp fun c h => h.2.noDoubleBooking h.1 hfree
  · have hstale : Stale calls start :=
      ⟨fun _ h => absurd h Bool.false_ne_true, fun _ _ h => absurd h List.not_mem_nil⟩
    exact insertsChecked_of_returned hshaped hstale sched

end Steps

/-- After any requests the records are stored under their own ids. -/
theorem keyed_run (cfg : Config) (rs : List Request) :
    (Runs.run (step cfg) .new rs).repos.Keyed := by
  obtain ⟨href, hreg⟩ : Referenced cfg (Runs.run (step cfg) .new rs).calls
      (Runs.run (step cfg) .new rs).repos ∧
      Registered cfg (Runs.run (step cfg) .new rs).calls (Runs.run (step cfg) .new rs).repos :=
    Runs.run_invariant (I := fun s : System => Referenced cfg s.calls s.repos ∧
        Registered cfg s.calls s.repos)
      (fun s r h => ⟨h.1.step r, h.2.step r⟩) ⟨.new, .beforeDeliveries cfg .new⟩ rs
  exact ⟨fun id driver hdriver => href.driver_id hdriver,
    fun id delivery hdelivery => (hreg.issued id delivery hdelivery).1⟩

/-! ## Two calls for one driver -/

/-- An available driver. -/
def freeDriver : Driver where
  id := "d"
  name := "n"
  email := "e"
  phone := "t"
  licenseNumber := "l"
  status := .available
  active := true
  createdAt := ⟨0, validTime_zero⟩
  updatedAt := ⟨0, validTime_zero⟩

/-- The driver's vehicle. -/
def driversVan : Vehicle where
  id := "v"
  identifier := "i"
  type := "van"
  capacityKg := .fin 100
  driverId := some "d"
  associatedAt := none
  createdAt := ⟨0, validTime_zero⟩

/-- A new delivery. -/
def newParcel (id : String) : Delivery where
  id := id
  address := "a"
  recipientName := "n"
  recipientContact := "c"
  weightKg := .fin 1
  destination := ⟨.fin 0, .fin 0⟩
  status := .created
  trackingToken := "t"
  assignmentId := none
  failureReason := none
  completedAt := none
  createdAt := ⟨0, validTime_zero⟩
  updatedAt := ⟨0, validTime_zero⟩

/-- The driver, the vehicle and two deliveries. -/
def freeRepos : Repos :=
  { Repos.new with
    drivers := Repos.new.drivers.save .unary freeDriver
    vehicles := Repos.new.vehicles.save .unary driversVan
    deliveries := (InsertionMap.empty.set "p" (newParcel "p")).set "q" (newParcel "q") }

theorem freeRepos_keyed : freeRepos.Keyed := by
  have hnew : Repos.new.Keyed := ⟨fun _ _ h => absurd h (by simp [Repos.new]),
    fun _ _ h => absurd h (by simp [Repos.new])⟩
  have hdrivers : Repos.Keyed
      { Repos.new with drivers := Repos.new.drivers.save .unary freeDriver } :=
    hnew.saveDriver freeDriver
  have hdeliveries := (hdrivers.setDelivery (newParcel "p")).setDelivery (newParcel "q")
  exact ⟨hdeliveries.drivers, hdeliveries.deliveries⟩

/-- Two calls for the driver, each with a delivery of its own. -/
def driverTwice : Fin 2 → CreateCall
  | 0 => ⟨"d", ["p"], 0, 0⟩
  | 1 => ⟨"d", ["q"], 0, 1⟩

/-- One after the other: the second finds the driver busy. -/
theorem driverTwice_inTurn : Runs.Always (Pool.step (memory .unary)) (NoDoubleBooking driverTwice)
    (startCreates driverTwice .unary freeRepos) [0, 0, 0, 0, 0, 0, 1] :=
  (create_race .unary driverTwice freeRepos_keyed
    (fun _ _ _ h => absurd h (by simp [freeRepos, Repos.new])) _).1 (by decide)

/-- Both check the driver before either inserts: both succeed, and the driver has two active
assignments. -/
theorem driverTwice_doubleBooked : ¬ NoDoubleBooking driverTwice
    ((startCreates driverTwice .unary freeRepos).exec (memory .unary)
      [0, 1, 0, 1, 0, 1, 0, 1, 0, 1, 0, 1]) := by
  intro h
  exact absurd (h.exclusive 0 1 _ _ rfl rfl (.inl rfl)) (by decide)

end FleetCommand.Management
