import FleetCommand.Management.References

/-!
# Driver status and assignments

A driver is on delivery if and only if it has an assignment that is not complete, and it has at most
one (`Agreement`). Sequential runs keep this exactly as long as no request brings a complete
assignment back: `accept` does not look at the status of the assignment it accepts, and
`completeIfAllStopsTerminal` releases the driver of an assignment that is complete already.
-/

set_option autoImplicit false

namespace FleetCommand.Management

open Resumption

/-- The driver's assignment stored under the id is not complete. -/
def ActiveFor (s : Repos) (driverId assignmentId : String) : Prop :=
  ∃ a, s.assignments.get? assignmentId = some a ∧ a.driverId = driverId ∧ a.status ≠ .complete

/-- Every driver is on delivery if and only if it has an assignment that is not complete, and has at
most one. -/
def Agreement (s : Repos) : Prop :=
  ∀ id d, s.drivers.byId.get? id = some d →
    (d.status = .onDelivery ↔ ∃ k, ActiveFor s id k) ∧
    ∀ k k', ActiveFor s id k → ActiveFor s id k' → k = k'

variable {cfg : Config} {n : Nat} {s : Repos}

/-! ## Changes of drivers -/

theorem ActiveFor.congr {s' : Repos} (h : s'.assignments = s.assignments) {driverId k : String} :
    ActiveFor s' driverId k ↔ ActiveFor s driverId k := by
  rw [ActiveFor, ActiveFor, h]

/-- The drivers of `s'` have assignments and statuses as in `s`, as far as agreement goes. -/
theorem Agreement.of_active {s' : Repos} (h : Agreement s)
    (hactive : ∀ id d', s'.drivers.byId.get? id = some d' →
      (∀ k, ActiveFor s' id k ↔ ActiveFor s id k) ∧
      ∃ d, s.drivers.byId.get? id = some d ∧ (d'.status = .onDelivery ↔ d.status = .onDelivery)) :
    Agreement s' := by
  intro id d' hd'
  obtain ⟨hk, d, hd, hstatus⟩ := hactive id d' hd'
  obtain ⟨hiff, hunique⟩ := h id d hd
  simp only [hk, hstatus]
  exact ⟨hiff, hunique⟩

theorem Agreement.frame {s' : Repos} (h : Agreement s) (hdrivers : s'.drivers = s.drivers)
    (hassignments : s'.assignments = s.assignments) : Agreement s' := by
  apply h.of_active
  intro id d hd
  rw [hdrivers] at hd
  exact ⟨fun k => ActiveFor.congr hassignments, d, hd, Iff.rfl⟩

/-- Saving a driver without putting it on delivery or taking it off. -/
theorem Agreement.saveDriver (h : Agreement s) {d d₀ : Driver}
    (hd : s.drivers.byId.get? d.id = some d₀)
    (hstatus : d.status = .onDelivery ↔ d₀.status = .onDelivery) {s' : Repos}
    (hdrivers : s'.drivers = s.drivers.save cfg d) (hassignments : s'.assignments = s.assignments) :
    Agreement s' := by
  apply h.of_active
  intro id d' hd'
  refine ⟨fun k => ActiveFor.congr hassignments, ?_⟩
  rw [hdrivers, DriverRepository.save, InsertionMap.get?_set] at hd'
  split at hd'
  next hid =>
    obtain rfl := Option.some.inj hd'
    exact ⟨d₀, hid ▸ hd, hstatus⟩
  next => exact ⟨d', hd', Iff.rfl⟩

/-- A new driver has no assignment: the driver of an assignment is stored. -/
theorem Agreement.insertDriver (h : Agreement s) (href : Referenced cfg n s) {d : Driver}
    (hd : d.id = cfg.driverId.gen n) (hstatus : d.status = .offline) {s' : Repos}
    (hdrivers : s'.drivers = s.drivers.save cfg d) (hassignments : s'.assignments = s.assignments) :
    Agreement s' := by
  intro id d' hd'
  simp only [ActiveFor.congr hassignments]
  rw [hdrivers, DriverRepository.save, InsertionMap.get?_set] at hd'
  split at hd'
  next hid =>
    obtain rfl := Option.some.inj hd'
    -- an assignment of the new driver would name an id not issued yet
    have hnone : ∀ k, ¬ ActiveFor s id k := by
      rintro k ⟨a, ha, hdriver, -⟩
      have hsome := href.driverOf k a ha
      rw [hdriver, hid, hd, href.drivers.fresh] at hsome
      exact Bool.false_ne_true hsome
    constructor
    · rw [hstatus]
      constructor
      · intro hoffline
        exact absurd hoffline (by decide)
      · rintro ⟨k, hk⟩
        exact absurd hk (hnone k)
    · intro k k' hk
      exact absurd hk (hnone k)
  next => exact h id d' hd'

/-! ## Changes of assignments -/

theorem activeFor_set {a : Assignment} {driverId k : String} {s' : Repos}
    (hs' : s'.assignments = s.assignments.set a.id a) :
    ActiveFor s' driverId k ↔
      if k = a.id then a.driverId = driverId ∧ a.status ≠ .complete else ActiveFor s driverId k := by
  rw [ActiveFor, hs']
  split
  next hk =>
    subst hk
    simp
  next hk => simp only [InsertionMap.get?_set_of_ne _ hk, ActiveFor]

/-- A new assignment for a driver that is off delivery, and the driver put on delivery. -/
theorem Agreement.insertAssignment (h : Agreement s) (href : Referenced cfg n s) {a : Assignment}
    {d d₀ : Driver} (ha : a.id = cfg.assignmentId.gen n) (hactive : a.status ≠ .complete)
    (hd : s.drivers.byId.get? a.driverId = some d₀) (hfree : d₀.status ≠ .onDelivery)
    (hdriver : d.id = a.driverId) (hbusy : d.status = .onDelivery) {s' : Repos}
    (hdrivers : s'.drivers = s.drivers.save cfg d)
    (hassignments : s'.assignments = s.assignments.set a.id a) : Agreement s' := by
  have hnone : ∀ k, ¬ ActiveFor s a.driverId k := fun k hk => hfree ((h _ d₀ hd).1.2 ⟨k, hk⟩)
  intro id d' hd'
  rw [hdrivers, DriverRepository.save, InsertionMap.get?_set, hdriver] at hd'
  split at hd'
  next hid =>
    obtain rfl := Option.some.inj hd'
    subst hid
    have honly : ∀ k, ActiveFor s' a.driverId k ↔ k = a.id := by
      intro k
      rw [activeFor_set hassignments]
      split
      next hk => exact iff_of_true ⟨rfl, hactive⟩ hk
      next hk => exact iff_of_false (hnone k) hk
    simp only [honly]
    exact ⟨iff_of_true hbusy ⟨a.id, rfl⟩, fun k k' hk hk' => hk.trans hk'.symm⟩
  next hid =>
    -- the new assignment is of another driver, and its id is new
    have hsame : ∀ k, ActiveFor s' id k ↔ ActiveFor s id k := by
      intro k
      rw [activeFor_set hassignments]
      split
      next hk =>
        apply iff_of_false
        · rintro ⟨hdriverId, -⟩
          exact hid hdriverId.symm
        · rintro ⟨b, hb, -⟩
          rw [hk, ha, href.assignments.fresh] at hb
          exact absurd hb (by simp)
      next => exact Iff.rfl
    simp only [hsame]
    exact h id d' hd'

/-- Accepting an assignment keeps agreement exactly when the assignment is not complete. -/
theorem agreement_accept_iff (h : Agreement s) (href : Referenced cfg n s) {a b : Assignment}
    (ha : s.assignments.get? a.id = some a) (hid : b.id = a.id) (hdriver : b.driverId = a.driverId)
    (hactive : b.status ≠ .complete) {s' : Repos} (hdrivers : s'.drivers = s.drivers)
    (hassignments : s'.assignments = s.assignments.set b.id b) :
    Agreement s' ↔ a.status ≠ .complete := by
  constructor
  · intro h' hcomplete
    -- the driver is on delivery after the step, so it was before, with another assignment
    obtain ⟨d, hd⟩ := Option.isSome_iff_exists.1 (href.driverOf _ _ ha)
    obtain ⟨hiff', hunique'⟩ := h' a.driverId d (by rw [hdrivers, hd])
    simp only [activeFor_set hassignments] at hiff' hunique'
    have hnew : d.status = .onDelivery :=
      hiff'.2 ⟨b.id, by rw [if_pos rfl]; exact ⟨hdriver, hactive⟩⟩
    obtain ⟨k, hk⟩ := (h a.driverId d hd).1.1 hnew
    have hne : k ≠ b.id := by
      rintro rfl
      obtain ⟨c, hc, -, hc'⟩ := hk
      rw [hid, ha, Option.some.injEq] at hc
      exact hc' (hc ▸ hcomplete)
    apply hne
    apply hunique' k b.id
    · rw [if_neg hne]
      exact hk
    · rw [if_pos rfl]
      exact ⟨hdriver, hactive⟩
  · intro hopen
    apply h.of_active
    intro id d hd
    rw [hdrivers] at hd
    refine ⟨fun k => ?_, d, hd, Iff.rfl⟩
    rw [activeFor_set hassignments]
    split
    next hk =>
      have hstored : s.assignments.get? k = some a := by rw [hk, hid, ha]
      simp [ActiveFor, hstored, hdriver, hopen, hactive]
    next => exact Iff.rfl

theorem activeFor_stored {a : Assignment} (ha : s.assignments.get? a.id = some a)
    (driverId : String) :
    ActiveFor s driverId a.id ↔ a.driverId = driverId ∧ a.status ≠ .complete := by
  simp [ActiveFor, ha]

/-- Completing an assignment and releasing its driver keeps agreement exactly when the assignment
was not complete. -/
theorem agreement_release_iff (h : Agreement s) {a done : Assignment} {d d' : Driver}
    (ha : s.assignments.get? a.id = some a) (hd : s.drivers.byId.get? a.driverId = some d)
    (hbusy : d.status = .onDelivery) (hid : d'.id = a.driverId) (hfree : d'.status ≠ .onDelivery)
    (hdoneId : done.id = a.id) (hdone : done.status = .complete) {s' : Repos}
    (hdrivers : s'.drivers = s.drivers.save cfg d')
    (hassignments : s'.assignments = s.assignments.set done.id done) :
    Agreement s' ↔ a.status ≠ .complete := by
  obtain ⟨hiff, hunique⟩ := h a.driverId d hd
  have hactive : ∀ id k, ActiveFor s' id k ↔ k ≠ a.id ∧ ActiveFor s id k := by
    intro id k
    rw [activeFor_set hassignments, hdoneId]
    split
    next hk => exact iff_of_false (fun h => h.2 hdone) fun h => h.1 hk
    next hk => exact (and_iff_right hk).symm
  constructor
  · -- some assignment had the driver on delivery, and it was not this one
    intro h' hcomplete
    obtain ⟨k, hk⟩ := hiff.1 hbusy
    have hne : k ≠ a.id := by
      rintro rfl
      exact ((activeFor_stored ha _).1 hk).2 hcomplete
    have hreleased : s'.drivers.byId.get? a.driverId = some d' := by
      rw [hdrivers, DriverRepository.save, ← hid, InsertionMap.get?_set_self]
    exact hfree ((h' _ _ hreleased).1.2 ⟨k, (hactive _ _).2 ⟨hne, hk⟩⟩)
  · intro hopen id e he
    have hcurrent : ActiveFor s a.driverId a.id := (activeFor_stored ha _).2 ⟨rfl, hopen⟩
    simp only [hactive]
    rw [hdrivers, DriverRepository.save, InsertionMap.get?_set, hid] at he
    split at he
    next hdriver =>
      -- the driver itself: its one open assignment is done
      obtain rfl := Option.some.inj he
      subst hdriver
      have hnone : ∀ k, ¬ (k ≠ a.id ∧ ActiveFor s a.driverId k) :=
        fun k hk => hk.1 (hunique k a.id hk.2 hcurrent)
      constructor
      · apply iff_of_false hfree
        rintro ⟨k, hk⟩
        exact hnone k hk
      · intro k k' hk
        exact absurd hk (hnone k)
    next hdriver =>
      -- another driver: the assignment was never one of its own
      have hsame : ∀ k, (k ≠ a.id ∧ ActiveFor s id k) ↔ ActiveFor s id k := by
        intro k
        apply and_iff_right_of_imp
        rintro hk rfl
        exact hdriver ((activeFor_stored ha _).1 hk).1.symm
      simp only [hsame]
      exact h id e he

/-- Storing a complete assignment as complete again. -/
theorem Agreement.saveComplete (h : Agreement s) {a done : Assignment}
    (ha : s.assignments.get? a.id = some a) (hcomplete : a.status = .complete)
    (hdoneId : done.id = a.id) (hdone : done.status = .complete) {s' : Repos}
    (hdrivers : s'.drivers = s.drivers)
    (hassignments : s'.assignments = s.assignments.set done.id done) : Agreement s' := by
  apply h.of_active
  intro id d hd
  rw [hdrivers] at hd
  refine ⟨fun k => ?_, d, hd, Iff.rfl⟩
  rw [activeFor_set hassignments, hdoneId]
  split
  next hk =>
    rw [hk, activeFor_stored ha]
    exact iff_of_false (fun h => h.2 hdone) fun h => h.2 hcomplete
  next => exact Iff.rfl

/-- Completing an assignment keeps agreement exactly when it is not complete, or its driver is off
delivery. -/
theorem agreement_completed_iff (h : Agreement s) (href : Referenced cfg n s) {a : Assignment}
    {d : Driver} (ha : s.assignments.get? a.id = some a)
    (hd : s.drivers.byId.get? a.driverId = some d) (now : Instant) :
    Agreement (RouteService.completed cfg s a now) ↔
      (a.status = .complete → d.status ≠ .onDelivery) := by
  rcases eq_or_ne d.status .onDelivery with hbusy | hfree
  · -- the driver is released
    have hown : d.id = a.driverId := href.driver_id hd
    have hid : ({ d with status := .available, updatedAt := now } : Driver).id = a.driverId := hown
    have hfree : ({ d with status := .available, updatedAt := now } : Driver).status ≠
        .onDelivery := by
      simp
    have hdoneId : ({ a with status := .complete } : Assignment).id = a.id := rfl
    rw [RouteService.completed_of_busy cfg hd hbusy,
      agreement_release_iff h ha hd hbusy hid hfree hdoneId rfl rfl rfl]
    simp [hbusy]
  · -- nothing was open for the driver, so the assignment was complete and nothing changes
    have hcomplete : a.status = .complete := by
      by_contra hopen
      exact hfree ((h _ d hd).1.2 ⟨a.id, (activeFor_stored ha _).2 ⟨rfl, hopen⟩⟩)
    refine iff_of_true ?_ fun _ => hfree
    rw [RouteService.completed_of_not_busy cfg hd hfree]
    have hdoneId : ({ a with status := .complete } : Assignment).id = a.id := rfl
    exact h.saveComplete ha hcomplete hdoneId rfl rfl rfl

/-! ## Requests -/

theorem Agreement.stampAndSave (h : Agreement s) {d d₀ : Driver}
    (hd : s.drivers.byId.get? d.id = some d₀)
    (hstatus : d.status = .onDelivery ↔ d₀.status = .onDelivery) (now : Int) :
    Agreement (s.stampAndSave cfg now d).2 := by
  obtain ⟨lastStamp, iso, hs⟩ | ⟨lastStamp, e, hs⟩ := s.stampAndSave_cases cfg now d
  · rw [hs]
    exact h.saveDriver (d := { d with updatedAt := iso }) hd hstatus rfl rfl
  · rw [hs]
    exact h.frame rfl rfl

/-- A change of status by the driver never touches `On_Delivery`. -/
theorem isDriverSettableTransition_iff {current target : DriverStatus}
    (h : isDriverSettableTransition current target = true) :
    target = .onDelivery ↔ current = .onDelivery := by
  cases current <;> cases target <;> first | exact Iff.rfl | exact absurd h (by decide) | decide

/-! ## Runs -/

/-- The methods that write a driver's status as their caller says. -/
def Op.writesStatusDirectly : Op → Bool
  | .updateDriver _ _ | .beginDelivery _ | .completeDelivery _ => true
  | _ => false

/-- A request of any other method. -/
abbrev GuardedRequest := { r : Request // r.op.writesStatusDirectly = false }

/-- The request brings no complete assignment back: it does not accept one, and it does not complete
one whose driver is on delivery. An acceptance without a time of its own, and a completion, also
need a clock that reads a valid time. -/
def SparesComplete (s : System) (r : Request) : Prop :=
  match r.op with
  | .accept assignmentId =>
    ∀ a, s.repos.assignments.get? assignmentId = some a → a.status = .complete →
      a.acceptedAt = none ∧ ¬ ValidTime r.now
  | .completeIfAllStopsTerminal assignmentId =>
    ∀ a d, s.repos.assignments.get? assignmentId = some a →
      s.repos.drivers.byId.get? a.driverId = some d → a.status = .complete →
      RouteService.AllStopsTerminal s.repos assignmentId → ValidTime r.now → d.status ≠ .onDelivery
  | _ => True

theorem agreement_accept_step_iff {s : System} (href : Referenced cfg s.calls s.repos)
    (h : Agreement s.repos) (assignmentId : String) (now : Int) :
    Agreement (step cfg s ⟨.accept assignmentId, now⟩).repos ↔
      SparesComplete s ⟨.accept assignmentId, now⟩ := by
  rw [step_repos (p := AssignmentService.accept ⟨now, s.calls⟩ assignmentId) rfl,
    AssignmentService.runE_accept]
  cases ha : s.repos.assignments.get? assignmentId with
  | none => exact iff_of_true h fun a ha' => absurd (ha.symm.trans ha') (by simp)
  | some a =>
    have hspares : SparesComplete s ⟨.accept assignmentId, now⟩ ↔
        (a.status = .complete → a.acceptedAt = none ∧ ¬ ValidTime now) := by
      simp [SparesComplete, ha]
    rw [hspares]
    dsimp only
    split
    next e herror =>
      refine iff_of_true h fun _ => ?_
      rw [AssignmentService.acceptedAt] at herror
      split at herror
      next => exact absurd herror (by simp)
      next hnone =>
        refine ⟨hnone, fun hvalid => ?_⟩
        rw [toIso_of_valid hvalid] at herror
        exact absurd herror (by simp)
    next t ht =>
      have hstored := href.assignment_stored ha
      refine (agreement_accept_iff (b := { a with status := .accepted, acceptedAt := some t }) h href
        hstored rfl rfl (by simp) ?_ ?_).trans ?_
      · rfl
      · rfl
      apply imp_congr_right
      intro _
      refine iff_of_false id ?_
      rintro ⟨hnone, hinvalid⟩
      rw [AssignmentService.acceptedAt, hnone, toIso_of_not_valid hinvalid] at ht
      exact absurd ht (by simp)

theorem agreement_complete_step_iff {s : System} (href : Referenced cfg s.calls s.repos)
    (h : Agreement s.repos) (assignmentId : String) (now : Int) :
    Agreement (step cfg s ⟨.completeIfAllStopsTerminal assignmentId, now⟩).repos ↔
      SparesComplete s ⟨.completeIfAllStopsTerminal assignmentId, now⟩ := by
  rw [step_repos (p := RouteService.completeIfAllStopsTerminal ⟨now, s.calls⟩ assignmentId) rfl,
    RouteService.runE_completeIfAllStopsTerminal]
  cases ha : s.repos.assignments.get? assignmentId with
  | none => exact iff_of_true h fun a d ha' => absurd (ha.symm.trans ha') (by simp)
  | some a =>
    obtain ⟨d, hd⟩ := Option.isSome_iff_exists.1 (href.driverOf _ _ ha)
    have hspares : SparesComplete s ⟨.completeIfAllStopsTerminal assignmentId, now⟩ ↔
        (a.status = .complete → RouteService.AllStopsTerminal s.repos assignmentId →
          ValidTime now → d.status ≠ .onDelivery) := by
      constructor
      · intro hspares
        exact hspares a d ha hd
      · intro hspares a' d' ha' hd'
        obtain rfl := Option.some.inj (ha.symm.trans ha')
        obtain rfl := Option.some.inj (hd.symm.trans hd')
        exact hspares
    rw [hspares]
    dsimp only
    split
    next hall =>
      rcases Decidable.em (ValidTime now) with hvalid | hinvalid
      · rw [toIso_of_valid hvalid]
        have hstored := href.assignment_stored ha
        rw [agreement_completed_iff h href hstored hd]
        simp [hall, hvalid]
      · rw [toIso_of_not_valid hinvalid]
        exact iff_of_true h fun _ _ hvalid => absurd hvalid hinvalid
    next hnot => exact iff_of_true h fun _ hall => absurd hall hnot

/-- Agreement under one request. -/
theorem agreement_step_iff {s : System} (href : Referenced cfg s.calls s.repos)
    (h : Agreement s.repos) (r : GuardedRequest) :
    Agreement (step cfg s r.1).repos ↔ SparesComplete s r.1 := by
  obtain ⟨⟨op, now⟩, hr⟩ := r
  dsimp only
  cases op with
  | updateDriver id changes => exact absurd hr (by simp [Op.writesStatusDirectly])
  | beginDelivery id => exact absurd hr (by simp [Op.writesStatusDirectly])
  | completeDelivery id => exact absurd hr (by simp [Op.writesStatusDirectly])
  | createDriver input =>
    refine iff_of_true ?_ trivial
    rw [step_repos (p := DriverService.create cfg ⟨now, s.calls⟩ input) rfl]
    obtain hs | ⟨d, hid, hstatus, -, hs⟩ :=
      DriverService.create_cases cfg ⟨now, s.calls⟩ input s.repos
    · rw [hs]
      exact h
    · rw [hs]
      exact h.insertDriver href hid hstatus rfl rfl
  | deactivateDriver id =>
    refine iff_of_true ?_ trivial
    rw [step_repos (p := DriverService.deactivate ⟨now, s.calls⟩ id) rfl,
      DriverService.runE_deactivate]
    cases hd : s.repos.drivers.byId.get? id with
    | none => exact h
    | some d =>
      have hstored := href.driver_stored hd
      apply h.stampAndSave
      · exact hstored
      · exact Iff.rfl
  | setAvailability id target =>
    refine iff_of_true ?_ trivial
    rw [step_repos (p := DriverService.setAvailability ⟨now, s.calls⟩ id target) rfl,
      DriverService.setAvailability, DriverService.runE_changeStatus]
    cases hd : s.repos.drivers.byId.get? id with
    | none => exact h
    | some d =>
      dsimp only
      split
      next hallowed =>
        have hstored := href.driver_stored hd
        apply h.stampAndSave
        · exact hstored
        · exact isDriverSettableTransition_iff hallowed
      next => exact h
  | createAssignment driverId deliveryIds =>
    refine iff_of_true ?_ trivial
    rw [step_repos (p := AssignmentService.create cfg ⟨now, s.calls⟩ driverId deliveryIds) rfl]
    obtain ⟨e, hs⟩ | ⟨d, v, toLink, iso, a, hd, -, hfree, -, -, -, -, rfl, hs⟩ :=
      AssignmentService.create_cases cfg ⟨now, s.calls⟩ driverId deliveryIds s.repos
    · rw [hs]
      exact h
    · have hid : d.id = driverId := href.driver_id hd
      rw [hs]
      apply h.insertAssignment (d := { d with status := .onDelivery, updatedAt := iso }) href
        (a := ⟨cfg.assignmentId.gen s.calls, driverId, v.id, .pending, none, iso⟩)
      · rfl
      · simp
      · exact hd
      · simp [hfree]
      · exact hid
      · rfl
      · rfl
      · rfl
  | accept assignmentId => exact agreement_accept_step_iff href h assignmentId now
  | completeIfAllStopsTerminal assignmentId =>
    exact agreement_complete_step_iff href h assignmentId now
  | _ =>
    exact iff_of_true
      (h.frame (step_drivers (by simp [Op.parts])) (step_assignments (by simp [Op.parts]))) trivial

theorem Agreement.new : Agreement .new := by
  intro id d hd
  exact absurd hd (by simp [Repos.new])

/-- In a run of the guarded methods, driver status and assignments agree in every state exactly when
every request spares the complete assignments. -/
theorem agreement_iff_sparesComplete (cfg : Config) (rs : List GuardedRequest) :
    Runs.Always (fun s r => step cfg s r.1) (fun s => Agreement s.repos) System.new rs ↔
      Runs.AllSteps (fun s (r : GuardedRequest) => step cfg s r.1)
        (fun s r => SparesComplete s r.1) System.new rs := by
  apply Runs.always_iff_allSteps (I := fun s => Referenced cfg s.calls s.repos)
  · intro s r href
    exact href.step r.1
  · intro s r href h
    exact agreement_step_iff href h r
  · exact Referenced.new
  · exact Agreement.new

/-- One driver with one assignment, whose only delivery is cancelled; the assignment is completed
and then accepted. -/
def reaccepted : List GuardedRequest :=
  [⟨⟨.createDriver ⟨some "n", some "e", some "p", some "l"⟩, 0⟩, rfl⟩,
    ⟨⟨.setAvailability "d" .available, 0⟩, rfl⟩,
    ⟨⟨.registerVehicle ⟨some "x", some "van", some (.fin 1)⟩, 0⟩, rfl⟩,
    ⟨⟨.associateDriver "vvv" (some "d"), 0⟩, rfl⟩,
    ⟨⟨.createDelivery ⟨some "a", some "r", some "c", some (.fin 1)⟩ (some ⟨.fin 0, .fin 0⟩), 0⟩, rfl⟩,
    ⟨⟨.createAssignment "d" ["ppppp"], 0⟩, rfl⟩,
    ⟨⟨.transition "ppppp" .cancel none, 0⟩, rfl⟩,
    ⟨⟨.completeIfAllStopsTerminal "aaaaaa", 0⟩, rfl⟩,
    ⟨⟨.accept "aaaaaa", 0⟩, rfl⟩]

/-- The driver is available and has an accepted assignment. -/
theorem reaccepted_disagrees :
    ¬ Runs.Always (fun s (r : GuardedRequest) => step .unary s r.1) (fun s => Agreement s.repos)
      System.new reaccepted := by
  intro h
  have hend : ∃ d, (Runs.run (fun s (r : GuardedRequest) => step .unary s r.1) System.new
      reaccepted).repos.drivers.byId.get? "d" = some d ∧ d.status = .available := by
    refine ⟨⟨"d", "n", "e", "p", "l", .available, true, ⟨0, by decide⟩, ⟨0, by decide⟩⟩, ?_, rfl⟩
    decide +kernel
  have hopen : ∃ a, (Runs.run (fun s (r : GuardedRequest) => step .unary s r.1) System.new
      reaccepted).repos.assignments.get? "aaaaaa" = some a ∧ a.driverId = "d" ∧
      a.status = .accepted := by
    refine ⟨⟨"aaaaaa", "d", "vvv", .accepted, some ⟨0, by decide⟩, ⟨0, by decide⟩⟩, ?_, rfl, rfl⟩
    decide +kernel
  obtain ⟨d, hd, hstatus⟩ := hend
  obtain ⟨a, ha, hdriver, haccepted⟩ := hopen
  have hbusy := (h.last "d" d hd).1.2 ⟨"aaaaaa", a, ha, hdriver, by simp [haccepted]⟩
  rw [hstatus] at hbusy
  exact absurd hbusy (by decide)

end FleetCommand.Management
