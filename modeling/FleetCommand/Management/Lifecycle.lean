import FleetCommand.Management.Effects
import FleetCommand.Management.System

/-!
# The lifecycle of a delivery

Along every sequential run a delivery starts `Created` and moves along the transition graph, its
terminal statuses are final, its identifying fields never change, and in every state its optional
fields agree with its status (`deliveries_follow_lifecycle`).

The relation `Advances` is what one repository call may do to the deliveries; every request is a
chain of it (`Registered.meets`).
-/

set_option autoImplicit false

namespace FleetCommand.Management

open Resumption

/-! ## Records -/

/-- An edge of the transition graph. -/
def Edge (status status' : DeliveryStatus) : Prop := ∃ event, nextStatus status event = some status'

/-- What no call changes. -/
structure Delivery.SameParcel (d d' : Delivery) : Prop where
  id : d'.id = d.id
  trackingToken : d'.trackingToken = d.trackingToken
  recipientName : d'.recipientName = d.recipientName
  recipientContact : d'.recipientContact = d.recipientContact
  address : d'.address = d.address
  destination : d'.destination = d.destination
  weightKg : d'.weightKg = d.weightKg
  createdAt : d'.createdAt = d.createdAt

theorem Delivery.SameParcel.refl (d : Delivery) : SameParcel d d :=
  ⟨rfl, rfl, rfl, rfl, rfl, rfl, rfl, rfl⟩

theorem Delivery.SameParcel.trans {a b c : Delivery} (h : SameParcel a b) (h' : SameParcel b c) :
    SameParcel a c where
  id := h'.id.trans h.id
  trackingToken := h'.trackingToken.trans h.trackingToken
  recipientName := h'.recipientName.trans h.recipientName
  recipientContact := h'.recipientContact.trans h.recipientContact
  address := h'.address.trans h.address
  destination := h'.destination.trans h.destination
  weightKg := h'.weightKg.trans h.weightKg
  createdAt := h'.createdAt.trans h.createdAt

/-- What one write of a delivery does: its status stays or moves along an edge. -/
structure Delivery.Evolves (d d' : Delivery) : Prop where
  parcel : SameParcel d d'
  status : d.status = d'.status ∨ Edge d.status d'.status

theorem Delivery.Evolves.refl (d : Delivery) : Evolves d d := ⟨.refl d, Or.inl rfl⟩

/-- The optional fields agree with the status, and a link is to an assignment that exists. -/
structure Delivery.WellFormed (s : Repos) (d : Delivery) : Prop where
  completedAt : d.completedAt.isSome ↔ d.status = .completed
  failureReason : d.failureReason.isSome ↔ d.status = .failed
  reasonLength : ∀ reason, d.failureReason = some reason →
    1 ≤ jsLength reason ∧ jsLength reason ≤ 500
  assignmentId : ∀ id, d.assignmentId = some id →
    (s.assignments.get? id).isSome ∧ d.status ≠ .created

/-- Assignments are never removed. -/
theorem Delivery.WellFormed.mono {s s' : Repos} {d : Delivery} (h : d.WellFormed s)
    (hs : ∀ id, (s.assignments.get? id).isSome → (s'.assignments.get? id).isSome) :
    d.WellFormed s' where
  completedAt := h.completedAt
  failureReason := h.failureReason
  reasonLength := h.reasonLength
  assignmentId id hid := ⟨hs id (h.assignmentId id hid).1, (h.assignmentId id hid).2⟩

/-! ## States -/

/-- What one repository call does to the deliveries. -/
structure Advances (s s' : Repos) : Prop where
  stored : ∀ id d, s.deliveries.get? id = some d →
    ∃ d', s'.deliveries.get? id = some d' ∧ d.Evolves d'
  new : ∀ id d', s'.deliveries.get? id = some d' → s.deliveries.get? id = none →
    d'.status = .created

theorem Advances.of_eq {s s' : Repos} (h : s'.deliveries = s.deliveries) : Advances s s' where
  stored id d hd := ⟨d, h ▸ hd, .refl d⟩
  new id d hd hnone := by
    rw [h, hnone] at hd
    exact absurd hd (by simp)

/-- Every delivery is stored under its own id and is well formed. -/
def Sound (s : Repos) : Prop :=
  ∀ id d, s.deliveries.get? id = some d → d.id = id ∧ d.WellFormed s

/-- One repository call of a run. -/
def Moves (s s' : Repos) : Prop := Advances s s' ∧ Sound s'

/-- The invariant of the requests: deliveries have issued ids, every record is stored under its own
id, and the deliveries are well formed. -/
structure Registered (cfg : Config) (n : Nat) (s : Repos) : Prop where
  issued : Issued cfg.deliveryId Delivery.id n s.deliveries
  assignmentOwn : ∀ id a, s.assignments.get? id = some a → a.id = id
  wellFormed : ∀ id d, s.deliveries.get? id = some d → d.WellFormed s

namespace Registered

variable {cfg : Config} {n : Nat} {s : Repos}

theorem sound (h : Registered cfg n s) : Sound s :=
  fun id d hd => ⟨(h.issued id d hd).1, h.wellFormed id d hd⟩

theorem moves_refl (h : Registered cfg n s) : Moves s s := ⟨.of_eq rfl, h.sound⟩

theorem mono (h : Registered cfg n s) : Registered cfg (n + 1) s where
  issued := h.issued.mono (Nat.le_succ n)
  assignmentOwn := h.assignmentOwn
  wellFormed := h.wellFormed

/-- A call that writes no delivery. -/
theorem frame (h : Registered cfg n s) (op : RepoOp) (hop : op.writes ≠ some .deliveries) :
    Moves s (memory cfg op s).2 ∧ Registered cfg n (memory cfg op s).2 := by
  have hdeliveries := memory_deliveries cfg hop s
  have hkeeps : Registered cfg n (memory cfg op s).2 := by
    constructor
    · rw [hdeliveries]
      exact h.issued
    · intro id a ha
      rcases eq_or_ne op.writes (some .assignments) with hwrites | hwrites
      · -- both writers of assignments store a record under its own id
        have hset : ∀ b : Assignment, (s.assignments.set b.id b).get? id = some a → a.id = id := by
          intro b hb
          rw [InsertionMap.get?_set] at hb
          split at hb
          next hid =>
            obtain rfl := Option.some.inj hb
            exact hid.symm
          next => exact h.assignmentOwn id a hb
        cases op with
        | insertAssignment b => exact hset b ha
        | saveAssignment b => exact hset b ha
        | _ => exact absurd hwrites (by simp [RepoOp.writes])
      · rw [memory_assignments cfg hwrites] at ha
        exact h.assignmentOwn id a ha
    · intro id d hd
      rw [hdeliveries] at hd
      exact (h.wellFormed id d hd).mono fun _ => memory_assignment_exists cfg op
  exact ⟨⟨.of_eq hdeliveries, hkeeps.sound⟩, hkeeps⟩

theorem wellFormed_set (h : Registered cfg n s) {d : Delivery} (hformed : d.WellFormed s)
    (id : String) (e : Delivery) (he : (s.deliveries.set d.id d).get? id = some e) :
    e.WellFormed { s with deliveries := s.deliveries.set d.id d } := by
  rw [InsertionMap.get?_set] at he
  split at he
  next =>
    obtain rfl := Option.some.inj he
    exact hformed.mono fun _ hid => hid
  next => exact (h.wellFormed id e he).mono fun _ hid => hid

/-- A stored delivery is saved again. -/
theorem save (h : Registered cfg n s) {d : Delivery} (d' : Delivery)
    (hd : s.deliveries.get? d'.id = some d) (hevolves : d.Evolves d') (hformed : d'.WellFormed s) :
    Moves s { s with deliveries := s.deliveries.set d'.id d' } ∧
      Registered cfg n { s with deliveries := s.deliveries.set d'.id d' } := by
  have hkeeps : Registered cfg n { s with deliveries := s.deliveries.set d'.id d' } := by
    constructor
    · exact h.issued.set_stored hd
    · exact h.assignmentOwn
    · exact h.wellFormed_set hformed
  refine ⟨⟨?_, hkeeps.sound⟩, hkeeps⟩
  constructor
  · intro id e he
    rw [InsertionMap.get?_set]
    split
    next hid =>
      subst hid
      obtain rfl := Option.some.inj (hd.symm.trans he)
      exact ⟨d', rfl, hevolves⟩
    next => exact ⟨e, he, .refl e⟩
  · intro id e he hnone
    rw [InsertionMap.get?_set] at he
    split at he
    next hid =>
      rw [hid, hd] at hnone
      exact absurd hnone (by simp)
    next => exact absurd (hnone.symm.trans he) (by simp)

/-- A new delivery is inserted. -/
theorem insert (h : Registered cfg n s) {d : Delivery} (hid : d.id = cfg.deliveryId.gen n)
    (hstatus : d.status = .created) (hformed : d.WellFormed s) :
    Moves s { s with deliveries := s.deliveries.set d.id d } ∧
      Registered cfg (n + 1) { s with deliveries := s.deliveries.set d.id d } := by
  -- the id was issued to no delivery before, so none is overwritten
  have hfresh : s.deliveries.get? d.id = none := hid ▸ h.issued.fresh
  have hkeeps : Registered cfg (n + 1) { s with deliveries := s.deliveries.set d.id d } := by
    constructor
    · exact h.issued.set_new hid
    · exact h.assignmentOwn
    · exact h.wellFormed_set hformed
  refine ⟨⟨?_, hkeeps.sound⟩, hkeeps⟩
  constructor
  · intro id e he
    have hne : id ≠ d.id := by
      rintro rfl
      exact absurd (hfresh.symm.trans he) (by simp)
    rw [InsertionMap.get?_set_of_ne _ hne]
    exact ⟨e, he, .refl e⟩
  · intro id e he hnone
    rw [InsertionMap.get?_set] at he
    split at he
    next =>
      obtain rfl := Option.some.inj he
      exact hstatus
    next => exact absurd (hnone.symm.trans he) (by simp)

/-! ## Requests -/

variable (call : Call)

/-- What a request does: every call moves the deliveries along, and the invariant holds after it. -/
abbrev MeetsLifecycle {α : Type} (cfg : Config) (n : Nat) (p : Service α) (s : Repos) : Prop :=
  MeetsE (memory cfg) Moves (fun _ s' => Registered cfg (n + 1) s') p s

/-- The methods that write no delivery. -/
theorem meets_of_within {α : Type} (h : Registered cfg n s) {parts : List Part} {p : Service α}
    (hp : StaysWithin parts p) (hparts : Part.deliveries ∉ parts) : MeetsLifecycle cfg n p s := by
  have hstep : ∀ op s', Within parts op → Registered cfg n s' →
      Moves s' (memory cfg op s').2 ∧ Registered cfg n (memory cfg op s').2 :=
    fun op s' hop hs' => hs'.frame op (hop.not_writes hparts)
  exact (hp.meetsE (memory cfg) Moves hstep h).imp (memory cfg) Moves fun _ _ hs' => hs'.mono

theorem meets_create (h : Registered cfg call.seq s) (input : CreateDeliveryInput)
    (geocoded : Option GeoPoint) :
    MeetsLifecycle cfg call.seq (DeliveryService.create cfg call input geocoded) s := by
  unfold DeliveryService.create
  split
  · exact h.mono
  · simp only [MeetsLifecycle, meetsE_bind]
    refine ⟨h.moves_refl, ?_⟩
    cases geocoded with
    | none => exact h.mono
    | some destination =>
      simp only [meetsE_bind, meetsE_ofResult]
      cases toIso call.now with
      | error e => exact h.mono
      | ok iso =>
        apply h.insert
        · rfl
        · rfl
        · constructor
          · simp
          · simp
          · intro reason hreason
            exact absurd hreason (by simp)
          · intro id hid
            exact absurd hid (by simp)

/-- No status with a next one is terminal. -/
theorem status_of_edge {status target : DeliveryStatus} {event : DeliveryEvent}
    (h : nextStatus status event = some target) :
    status ≠ .completed ∧ status ≠ .failed ∧ target ≠ .created ∧
      (target = .failed → event = .fail) := by
  cases status <;> cases event <;> cases target <;> simp_all [nextStatus]

theorem transitioned_wellFormed {d : Delivery} (hd : d.WellFormed s) {event : DeliveryEvent}
    {target : DeliveryStatus} (hnext : nextStatus d.status event = some target)
    {reason : Option String} (hreason : ¬ (event = .fail ∧ isValidFailureReason reason = false))
    (iso : Instant) : (DeliveryService.transitioned d target reason iso).WellFormed s := by
  obtain ⟨hcompleted, hfailed, hcreated, hfail⟩ := status_of_edge hnext
  -- nothing was set before the transition
  have hnoCompletedAt : d.completedAt.isSome = false := by
    rw [Bool.eq_false_iff]
    exact fun hsome => hcompleted (hd.completedAt.1 hsome)
  have hnoReason : d.failureReason.isSome = false := by
    rw [Bool.eq_false_iff]
    exact fun hsome => hfailed (hd.failureReason.1 hsome)
  -- only `fail` leads to `Failed`, and the guard let it pass
  have hvalid : target = .failed → isValidFailureReason reason = true := by
    intro htarget
    rw [← Bool.not_eq_false]
    exact fun hinvalid => hreason ⟨hfail htarget, hinvalid⟩
  constructor
  · simp only [DeliveryService.transitioned]
    split
    next htarget => simp [htarget]
    next htarget => simp [htarget, hnoCompletedAt]
  · simp only [DeliveryService.transitioned]
    split
    next htarget =>
      have hreason := hvalid htarget
      cases reason with
      | none => exact absurd hreason (by simp [isValidFailureReason])
      | some r => simp [htarget]
    next htarget => simp [htarget, hnoReason]
  · intro r hr
    simp only [DeliveryService.transitioned] at hr
    split at hr
    next htarget =>
      have hreason := hvalid htarget
      rw [hr, isValidFailureReason, Bool.and_eq_true, decide_eq_true_iff, decide_eq_true_iff]
        at hreason
      exact hreason
    next => exact absurd (hr ▸ hnoReason) (by simp)
  · intro id hid
    exact ⟨(hd.assignmentId id hid).1, hcreated⟩

theorem meets_transition (h : Registered cfg n s) (id : String) (event : DeliveryEvent)
    (reason : Option String) :
    MeetsLifecycle cfg n (DeliveryService.transition call id event reason) s := by
  simp only [DeliveryService.transition, await, MeetsLifecycle, meetsE_bind, meetsE_performE, memory]
  refine ⟨h.moves_refl, ?_⟩
  cases hfound : s.deliveries.get? id with
  | none => exact h.mono
  | some current =>
    dsimp only
    split
    · exact h.mono
    next target hnext =>
      split
      · exact h.mono
      next hreason =>
        simp only [meetsE_bind, meetsE_ofResult]
        cases toIso call.now with
        | error e => exact h.mono
        | ok iso =>
          -- the record read is the one the save replaces
          have hown : current.id = id := (h.issued id current hfound).1
          have hformed := transitioned_wellFormed (h.wellFormed id current hfound) hnext hreason iso
          have hevolves : current.Evolves (DeliveryService.transitioned current target reason iso) :=
            ⟨⟨rfl, rfl, rfl, rfl, rfl, rfl, rfl, rfl⟩, Or.inr ⟨event, hnext⟩⟩
          rw [← hown] at hfound
          obtain ⟨hmoves, hsaved⟩ := h.save
            (DeliveryService.transitioned current target reason iso) hfound hevolves hformed
          exact ⟨hmoves, hsaved.mono⟩

theorem meets_reassign (h : Registered cfg n s) (deliveryId targetAssignmentId : String) :
    MeetsLifecycle cfg n (AssignmentService.reassign call deliveryId targetAssignmentId) s := by
  simp only [AssignmentService.reassign, await, MeetsLifecycle, meetsE_bind, meetsE_performE, memory]
  refine ⟨h.moves_refl, ?_⟩
  cases hfound : s.deliveries.get? deliveryId with
  | none => exact h.mono
  | some delivery =>
    have hformed := h.wellFormed deliveryId delivery hfound
    have hown : delivery.id = deliveryId := (h.issued deliveryId delivery hfound).1
    dsimp only
    split
    · exact h.mono
    next hlinked =>
      split
      · exact h.mono
      · apply CallsOnlyE.meetsE_bind_of_reads (memory cfg) Moves
          (fun op s hop => Within.reads_only cfg hop s) h.moves_refl
          (AssignmentService.requireAssignment_within targetAssignmentId)
        rw [AssignmentService.runE_requireAssignment]
        cases htarget : s.assignments.get? targetAssignmentId with
        | none => exact h.mono
        | some target =>
          dsimp only
          split
          · simp only [meetsE_bind, meetsE_ofResult]
            cases toIso call.now with
            | error e => exact h.mono
            | ok iso =>
              -- a delivery with an assignment is past `Created`
              have hstatus : delivery.status ≠ .created := by
                cases hid : delivery.assignmentId with
                | none => exact absurd (by rw [hid]; rfl) hlinked
                | some id => exact (hformed.assignmentId id hid).2
              have hmoved : Delivery.WellFormed s
                  { delivery with assignmentId := some target.id, updatedAt := iso } := by
                constructor
                · exact hformed.completedAt
                · exact hformed.failureReason
                · exact hformed.reasonLength
                · intro id hid
                  obtain rfl := Option.some.inj hid
                  rw [h.assignmentOwn _ _ htarget, htarget]
                  exact ⟨rfl, hstatus⟩
              have hevolves : delivery.Evolves
                  { delivery with assignmentId := some target.id, updatedAt := iso } :=
                ⟨⟨rfl, rfl, rfl, rfl, rfl, rfl, rfl, rfl⟩, Or.inl rfl⟩
              rw [← hown] at hfound
              obtain ⟨hmoves, hsaved⟩ := h.save
                { delivery with assignmentId := some target.id, updatedAt := iso }
                hfound hevolves hmoved
              exact ⟨hmoves, hsaved.mono⟩
          · exact h.mono

/-- What linking writes for a delivery that can be assigned. -/
theorem linked_wellFormed {d : Delivery} (hd : d.WellFormed s) (hstatus : d.status = .created)
    {assignmentId : String} (hassignment : (s.assignments.get? assignmentId).isSome) (now : Instant) :
    (AssignmentService.linked assignmentId now d).WellFormed s := by
  have hlinked : (AssignmentService.linked assignmentId now d).status = .assigned := by
    rw [AssignmentService.linked, hstatus]
    rfl
  constructor
  · rw [hlinked]
    refine hd.completedAt.trans ?_
    rw [hstatus]
    decide
  · rw [hlinked]
    refine hd.failureReason.trans ?_
    rw [hstatus]
    decide
  · exact hd.reasonLength
  · intro id hid
    obtain rfl := Option.some.inj hid
    rw [hlinked]
    exact ⟨hassignment, by decide⟩

theorem linked_evolves {d : Delivery} (hstatus : d.status = .created) (assignmentId : String)
    (now : Instant) : d.Evolves (AssignmentService.linked assignmentId now d) := by
  refine ⟨⟨rfl, rfl, rfl, rfl, rfl, rfl, rfl, rfl⟩, Or.inr ⟨.assign, ?_⟩⟩
  rw [AssignmentService.linked, hstatus]
  rfl

/-- The loop that links deliveries. The records in `all` were read before the first save, and an id
may be named twice: the record stored under it is then the one read or the one already linked. -/
theorem meets_linkDeliveries (h : Registered cfg n s) {assignmentId : String} (now : Instant)
    (hassignment : (s.assignments.get? assignmentId).isSome) {all : List Delivery}
    (hcreated : ∀ d ∈ all, d.status = .created)
    (hsame : ∀ d ∈ all, ∀ d' ∈ all, d'.id = d.id → d' = d)
    (hstored : ∀ d ∈ all, s.deliveries.get? d.id = some d ∨
      s.deliveries.get? d.id = some (AssignmentService.linked assignmentId now d))
    {toLink : List Delivery} (hsub : toLink ⊆ all) :
    MeetsE (memory cfg) Moves (fun r s' => r = .ok () ∧ Registered cfg n s')
      (AssignmentService.linkDeliveries assignmentId now toLink) s := by
  -- on the deliveries still to link; what was read of all of them stays known
  induction toLink generalizing s with
  | nil => exact ⟨rfl, h⟩
  | cons delivery rest ih =>
    rw [List.cons_subset] at hsub
    have hstatus := hcreated delivery hsub.1
    -- the save either links the record or stores it as it is
    have hsave : Moves s { s with
          deliveries := s.deliveries.set delivery.id
            (AssignmentService.linked assignmentId now delivery) } ∧
        Registered cfg n { s with
          deliveries := s.deliveries.set delivery.id
            (AssignmentService.linked assignmentId now delivery) } := by
      obtain hread | hlinked := hstored delivery hsub.1
      · have hformed := linked_wellFormed (h.wellFormed _ _ hread) hstatus hassignment now
        exact h.save (AssignmentService.linked assignmentId now delivery) hread
          (linked_evolves hstatus assignmentId now) hformed
      · exact h.save (AssignmentService.linked assignmentId now delivery) hlinked
          (.refl _) (h.wellFormed _ _ hlinked)
    rw [AssignmentService.linkDeliveries, meetsE_bind]
    refine ⟨hsave.1, ih hsave.2 hassignment ?_ hsub.2⟩
    intro d hd
    show (s.deliveries.set delivery.id _).get? d.id = _ ∨
      (s.deliveries.set delivery.id _).get? d.id = _
    rcases eq_or_ne d.id delivery.id with hid | hid
    -- listed twice: it is the one linked just now
    · obtain rfl := hsame delivery hsub.1 d hd hid
      rw [InsertionMap.get?_set_self]
      exact Or.inr rfl
    · rw [InsertionMap.get?_set_of_ne _ hid]
      exact hstored d hd

theorem status_of_assignable {status : DeliveryStatus} (h : nextStatus status .assign ≠ none) :
    status = .created := by
  cases status <;> first | rfl | exact absurd rfl h

/-- The writes of a successful creation of an assignment. -/
theorem meets_assignmentWrites (h : Registered cfg n s) (assignment : Assignment) (driver : Driver)
    (now : Instant) {toLink : List Delivery}
    (hread : ∀ d ∈ toLink, s.deliveries.get? d.id = some d ∧ d.status = .created) :
    MeetsLifecycle cfg n (do
      await (.insertAssignment assignment)
      AssignmentService.linkDeliveries assignment.id now toLink
      await (.saveDriver driver)
      return assignment) s := by
  rw [MeetsLifecycle, meetsE_performE_bind]
  -- the new assignment is stored before the deliveries that name it
  obtain ⟨hmoves, hinserted⟩ := h.frame (.insertAssignment assignment) (by simp [RepoOp.writes])
  refine ⟨hmoves, ?_⟩
  have hstored : ((memory cfg (.insertAssignment assignment) s).2.assignments.get?
      assignment.id).isSome := by
    simp only [memory, InsertionMap.get?_set_self, Option.isSome_some]
  -- one id gives one record: the records to link are the ones stored
  have hsame : ∀ d ∈ toLink, ∀ d' ∈ toLink, d'.id = d.id → d' = d := by
    intro d hd d' hd' hid
    have hstored' := (hread d' hd').1
    rw [hid, (hread d hd).1, Option.some.injEq] at hstored'
    exact hstored'.symm
  have hlink := hinserted.meets_linkDeliveries now hstored (fun d hd => (hread d hd).2) hsame
    (fun d hd => Or.inl (hread d hd).1) (List.Subset.refl toLink)
  rw [meetsE_bind]
  apply MeetsE.imp (memory cfg) Moves _ hlink
  rintro _ s' ⟨rfl, hs'⟩
  dsimp only
  rw [meetsE_performE_bind]
  -- the driver is saved last
  obtain ⟨hmoves', hsaved⟩ := hs'.frame (.saveDriver driver) (by simp [RepoOp.writes])
  exact ⟨hmoves', hsaved.mono⟩

theorem meets_createAssignment (h : Registered cfg n s) (driverId : String)
    (deliveryIds : List String) :
    MeetsLifecycle cfg n (AssignmentService.create cfg call driverId deliveryIds) s := by
  have hreads : ∀ op s, Within [] op → (memory cfg op s).2 = s :=
    fun op s hop => Within.reads_only cfg hop s
  rw [AssignmentService.create_eq_bind]
  apply CallsOnlyE.meetsE_bind_of_reads (memory cfg) Moves hreads h.moves_refl
    (AssignmentService.createChecks_within call driverId deliveryIds)
  obtain ⟨e, hchecks⟩ | ⟨c, hchecks, hc⟩ :=
    AssignmentService.createChecks_cases cfg call driverId deliveryIds s
  · rw [hchecks]
    exact h.mono
  · rw [hchecks]
    apply h.meets_assignmentWrites
    intro d hd
    obtain ⟨id, -, hfound, -, hnext⟩ := AssignmentService.exists_assignable hc.toLink hd
    rw [(h.issued id d hfound).1]
    exact ⟨hfound, status_of_assignable hnext⟩

/-- Every request. -/
theorem meets {s : System} (h : Registered cfg s.calls s.repos) (r : Request) :
    MeetsLifecycle cfg s.calls (s.code cfg r) s.repos := by
  obtain ⟨op, now⟩ := r
  cases op with
  | createDelivery input geocoded =>
    exact meetsE_ignore (h.meets_create ⟨now, s.calls⟩ input geocoded)
  | transition id event reason => exact meetsE_ignore (h.meets_transition _ id event reason)
  | createAssignment driverId deliveryIds =>
    exact meetsE_ignore (h.meets_createAssignment _ driverId deliveryIds)
  | reassign deliveryId targetAssignmentId =>
    exact meetsE_ignore (h.meets_reassign _ deliveryId targetAssignmentId)
  | _ => exact h.meets_of_within (Op.code_within cfg ⟨now, s.calls⟩ _) (by simp [Op.parts])

end Registered

/-! ## Runs -/

/-- What a later state knows of an earlier one: every delivery is still there, with its identifying
fields, and a terminal status is final. -/
def Later (s s' : Repos) : Prop :=
  ∀ id d, s.deliveries.get? id = some d → ∃ d', s'.deliveries.get? id = some d' ∧
    d.SameParcel d' ∧ (isTerminal d.status = true → d'.status = d.status)

theorem not_edge_of_terminal {status status' : DeliveryStatus} (h : isTerminal status = true) :
    ¬ Edge status status' := by
  rintro ⟨event, hnext⟩
  cases status <;>
    first
    | exact absurd h (by decide)
    | cases event <;> exact absurd hnext (by simp [nextStatus])

theorem Advances.later {s s' : Repos} (h : Advances s s') : Later s s' := by
  intro id d hd
  obtain ⟨d', hd', hparcel, hstatus⟩ := h.stored id d hd
  refine ⟨d', hd', hparcel, fun hterminal => ?_⟩
  obtain hstatus | hedge := hstatus
  · exact hstatus.symm
  · exact absurd hedge (not_edge_of_terminal hterminal)

theorem Later.trans {a b c : Repos} (h : Later a b) (h' : Later b c) : Later a c := by
  intro id d hd
  obtain ⟨d', hd', hparcel, hfinal⟩ := h id d hd
  obtain ⟨d'', hd'', hparcel', hfinal'⟩ := h' id d' hd'
  refine ⟨d'', hd'', hparcel.trans hparcel', fun hterminal => ?_⟩
  -- a terminal status is the status in between, so terminal there too
  have hstatus := hfinal hterminal
  rw [← hstatus] at hterminal
  exact (hfinal' hterminal).trans hstatus

instance : IsTrans Repos Later := ⟨fun _ _ _ => Later.trans⟩

/-- The statuses of a delivery in a list of states, from its creation on. -/
def statusesOf (id : String) (states : List Repos) : List DeliveryStatus :=
  states.filterMap fun s => (s.deliveries.get? id).map Delivery.status

theorem statusesOf_cons_some {id : String} {s : Repos} {d : Delivery}
    (hd : s.deliveries.get? id = some d) (states : List Repos) :
    statusesOf id (s :: states) = d.status :: statusesOf id states :=
  List.filterMap_cons_some (by rw [hd]; rfl)

theorem statusesOf_cons_none {id : String} {s : Repos} (hd : s.deliveries.get? id = none)
    (states : List Repos) : statusesOf id (s :: states) = statusesOf id states :=
  List.filterMap_cons_none (by rw [hd]; rfl)

/-- Once there, a delivery has a status in every state, the same as before or one edge on. -/
theorem statusesOf_isChain (id : String) {states : List Repos} (h : states.IsChain Advances) :
    (statusesOf id states).IsChain fun a b => a = b ∨ Edge a b := by
  induction states with
  | nil => exact List.isChain_nil
  | cons s states ih =>
    -- before the delivery is there, the state adds no status
    cases hs : s.deliveries.get? id with
    | none =>
      rw [statusesOf_cons_none hs]
      exact ih h.tail
    | some d =>
      rw [statusesOf_cons_some hs]
      cases states with
      | nil => exact List.isChain_singleton _
      | cons s' states =>
        -- it is there in the next state, and has evolved by one write
        obtain ⟨d', hd', hevolves⟩ := (List.isChain_cons_cons.1 h).1.stored id d hs
        have htail := ih h.tail
        rw [statusesOf_cons_some hd'] at htail ⊢
        exact List.isChain_cons_cons.2 ⟨hevolves.status, htail⟩

/-- A delivery that is not there at the start appears as `Created`. -/
theorem head?_statusesOf (id : String) {s : Repos} {states : List Repos}
    (h : (s :: states).IsChain Advances) (hs : s.deliveries.get? id = none) :
    ∀ status ∈ (statusesOf id (s :: states)).head?, status = .created := by
  rw [statusesOf_cons_none hs]
  induction states generalizing s with
  | nil => exact fun status hstatus => absurd hstatus (by simp [statusesOf])
  | cons s' states ih =>
    obtain ⟨hstep, hrest⟩ := List.isChain_cons_cons.1 h
    cases hs' : s'.deliveries.get? id with
    | none =>
      rw [statusesOf_cons_none hs']
      exact ih hrest hs'
    | some d =>
      rw [statusesOf_cons_some hs', List.head?_cons]
      rintro status hstatus
      obtain rfl := Option.mem_some.1 hstatus
      exact hstep.new id d hs' hs

/-- A path of the transition graph that starts at `Created`, or the empty path. -/
def LifecyclePath (statuses : List DeliveryStatus) : Prop :=
  (∀ status ∈ statuses.head?, status = .created) ∧ statuses.IsChain Edge

/-- Any drivers, vehicles and routes, and no delivery or assignment yet. -/
def System.beforeDeliveries (s : Repos) : System :=
  ⟨{ s with deliveries := .empty, assignments := .empty }, 0⟩

theorem Registered.beforeDeliveries (cfg : Config) (s : Repos) :
    Registered cfg 0 (System.beforeDeliveries s).repos := by
  constructor
  · exact Issued.empty
  · intro id a ha
    exact absurd ha (by simp [System.beforeDeliveries])
  · intro id d hd
    exact absurd hd (by simp [System.beforeDeliveries])

/-- The invariant of the requests, after one. -/
theorem Registered.step {cfg : Config} {s : System} (h : Registered cfg s.calls s.repos)
    (r : Request) : Registered cfg (step cfg s r).calls (step cfg s r).repos :=
  ((meetsE_iff (memory cfg) Moves _ _ _).1 (h.meets r)).2

/-- In every state of a run the deliveries are well formed; later states keep their identifying
fields and their terminal statuses; and the statuses of each, with repeats collapsed, are a path
from `Created`. -/
theorem deliveries_follow_lifecycle (cfg : Config) (s : Repos) (rs : List Request) :
    (∀ repos ∈ history cfg (.beforeDeliveries s) rs, ∀ id d, repos.deliveries.get? id = some d →
      d.id = id ∧ d.WellFormed repos) ∧
    (history cfg (.beforeDeliveries s) rs).Pairwise Later ∧
    ∀ id, LifecyclePath
      ((statusesOf id (history cfg (.beforeDeliveries s) rs)).destutter (· ≠ ·)) := by
  have hstart := Registered.beforeDeliveries cfg s
  have hchain : (history cfg (.beforeDeliveries s) rs).IsChain Moves := by
    apply history_isChain (I := fun s => Registered cfg s.calls s.repos)
    · intro s h
      exact h.moves_refl
    · intro s r h
      exact h.meets r
    · exact hstart
  have hadvances : (history cfg (.beforeDeliveries s) rs).IsChain Advances :=
    hchain.imp fun _ _ h => h.1
  obtain ⟨states, hstates⟩ : ∃ states, history cfg (.beforeDeliveries s) rs =
      (System.beforeDeliveries s).repos :: states :=
    List.head?_eq_some_iff.1 (history_head cfg _ rs)
  refine ⟨?_, ?_, fun id => ⟨?_, ?_⟩⟩
  · -- the first state is sound, and every call leads to a sound state
    rw [hstates] at hchain ⊢
    intro repos hrepos
    rcases List.mem_cons.1 hrepos with rfl | hrepos
    · exact hstart.sound
    · exact hchain.cons_induction Sound states (fun _ _ hmoves _ => hmoves.2) hstart.sound repos hrepos
  · exact List.isChain_iff_pairwise.1 (hadvances.imp fun _ _ h => h.later)
  · rw [Runs.head?_destutter]
    rw [hstates] at hadvances ⊢
    exact head?_statusesOf id hadvances rfl
  · exact Runs.isChain_destutter (statusesOf_isChain id hadvances)

end FleetCommand.Management
