import FleetCommand.Management.Agreement

/-!
# Assignments move forward

Three methods write assignments: `create` stores a new one, `accept` and
`completeIfAllStopsTerminal` change the status of a stored one. Statuses only move forward and an
acceptance time, once set, stays (`Forward`), exactly as long as no `accept` names a complete
assignment: it does not look at the status it overwrites (`assignments_forward_iff`).
-/

set_option autoImplicit false

namespace FleetCommand.Management

open Resumption

/-- The status is the same, or moves from `Pending` to `Accepted` or `Complete`, or from `Accepted`
to `Complete`. -/
def AssignmentStatus.Forward (s t : AssignmentStatus) : Prop :=
  s = t ∨ (s = .pending ∧ t = .accepted) ∨ (s = .pending ∧ t = .complete) ∨
    (s = .accepted ∧ t = .complete)

instance (s t : AssignmentStatus) : Decidable (s.Forward t) :=
  inferInstanceAs (Decidable (_ ∨ _))

theorem AssignmentStatus.Forward.trans {s t u : AssignmentStatus} (h : s.Forward t)
    (h' : t.Forward u) : s.Forward u := by
  revert h h'
  cases s <;> cases t <;> cases u <;> decide

/-- Nothing follows `Complete`, and everything else can become `Accepted`. -/
theorem AssignmentStatus.forward_accepted_iff (s : AssignmentStatus) :
    s.Forward .accepted ↔ s ≠ .complete := by
  cases s <;> decide

theorem AssignmentStatus.forward_complete (s : AssignmentStatus) : s.Forward .complete := by
  cases s <;> decide

/-- Every assignment of `s` is still there in `s'`, its status has only moved forward, and its
acceptance time, if it had one, is the same. -/
def AssignmentsForward (s s' : Repos) : Prop :=
  ∀ id a, s.assignments.get? id = some a → ∃ a', s'.assignments.get? id = some a' ∧
    a.status.Forward a'.status ∧ ∀ t, a.acceptedAt = some t → a'.acceptedAt = some t

namespace AssignmentsForward

variable {s s' s'' : Repos}

theorem refl (s : Repos) : AssignmentsForward s s :=
  fun _ a ha => ⟨a, ha, Or.inl rfl, fun _ ht => ht⟩

theorem trans (h : AssignmentsForward s s') (h' : AssignmentsForward s' s'') :
    AssignmentsForward s s'' := by
  intro id a ha
  obtain ⟨b, hb, hab, htb⟩ := h id a ha
  obtain ⟨c, hc, hbc, htc⟩ := h' id b hb
  exact ⟨c, hc, hab.trans hbc, fun t ht => htc t (htb t ht)⟩

theorem frame (h : s'.assignments = s.assignments) : AssignmentsForward s s' := by
  intro id a ha
  exact ⟨a, h ▸ ha, Or.inl rfl, fun _ ht => ht⟩

/-- A new assignment changes no stored one. -/
theorem insert {a : Assignment} (hnew : s.assignments.get? a.id = none)
    (hs' : s'.assignments = s.assignments.set a.id a) : AssignmentsForward s s' := by
  intro id b hb
  refine ⟨b, ?_, Or.inl rfl, fun _ ht => ht⟩
  rw [hs', InsertionMap.get?_set_of_ne _ ?_, hb]
  rintro rfl
  rw [hnew] at hb
  exact absurd hb (by simp)

/-- Storing a changed assignment moves forward exactly when the change does. -/
theorem save_iff {a b : Assignment} (ha : s.assignments.get? b.id = some a)
    (hs' : s'.assignments = s.assignments.set b.id b) :
    AssignmentsForward s s' ↔
      a.status.Forward b.status ∧ ∀ t, a.acceptedAt = some t → b.acceptedAt = some t := by
  constructor
  · intro h
    obtain ⟨b', hb', hforward, hkept⟩ := h b.id a ha
    rw [hs', InsertionMap.get?_set_self] at hb'
    obtain rfl := Option.some.inj hb'
    exact ⟨hforward, hkept⟩
  · rintro ⟨hforward, hkept⟩ id c hc
    rw [hs', InsertionMap.get?_set]
    split
    next hid =>
      rw [hid, ha] at hc
      obtain rfl := Option.some.inj hc
      exact ⟨b, rfl, hforward, hkept⟩
    next => exact ⟨c, hc, Or.inl rfl, fun _ ht => ht⟩

end AssignmentsForward

/-! ## One request -/

variable {cfg : Config}

/-- The request does not accept a complete assignment; an acceptance that throws, because it would
need a time and the clock reads none, accepts nothing. -/
def AcceptsOpen (s : System) (r : Request) : Prop :=
  match r.op with
  | .accept assignmentId =>
    ∀ a, s.repos.assignments.get? assignmentId = some a → a.status = .complete →
      a.acceptedAt = none ∧ ¬ ValidTime r.now
  | _ => True

theorem forward_accept_iff {s : System} (href : Referenced cfg s.calls s.repos)
    (assignmentId : String) (now : Int) :
    AssignmentsForward s.repos (step cfg s ⟨.accept assignmentId, now⟩).repos ↔
      AcceptsOpen s ⟨.accept assignmentId, now⟩ := by
  rw [step_repos (p := AssignmentService.accept ⟨now, s.calls⟩ assignmentId) rfl,
    AssignmentService.runE_accept]
  cases ha : s.repos.assignments.get? assignmentId with
  | none => exact iff_of_true (.refl _) fun a ha' => absurd (ha.symm.trans ha') (by simp)
  | some a =>
    have hopen : AcceptsOpen s ⟨.accept assignmentId, now⟩ ↔
        (a.status = .complete → a.acceptedAt = none ∧ ¬ ValidTime now) := by
      constructor
      · intro h
        exact h a ha
      · intro h a' ha'
        obtain rfl := Option.some.inj (ha.symm.trans ha')
        exact h
    rw [hopen]
    dsimp only
    cases ht : AssignmentService.acceptedAt ⟨now, s.calls⟩ a with
    | error e =>
      -- a clock without a time value, and no acceptance time to keep
      refine iff_of_true (.refl _) fun _ => ?_
      cases hacc : a.acceptedAt with
      | some t => simp [AssignmentService.acceptedAt, hacc] at ht
      | none =>
        refine ⟨rfl, fun hvalid => ?_⟩
        rw [AssignmentService.acceptedAt, hacc, toIso_of_valid hvalid] at ht
        exact absurd ht (by simp)
    | ok t =>
      have hstored : s.repos.assignments.get? a.id = some a := href.assignment_stored ha
      have hkept : ∀ t', a.acceptedAt = some t' → some t = some t' := by
        intro t' hacc
        rw [AssignmentService.acceptedAt, hacc] at ht
        rw [Except.ok.inj ht]
      let next : Assignment := { a with status := .accepted, acceptedAt := some t }
      have hsave : AssignmentsForward s.repos
          { s.repos with assignments := s.repos.assignments.set next.id next } ↔ _ :=
        AssignmentsForward.save_iff (b := next) hstored rfl
      refine hsave.trans ?_
      rw [AssignmentStatus.forward_accepted_iff]
      constructor
      · rintro ⟨hne, -⟩ hcomplete
        exact absurd hcomplete hne
      · intro h
        refine ⟨fun hcomplete => ?_, hkept⟩
        obtain ⟨hnone, hinvalid⟩ := h hcomplete
        rw [AssignmentService.acceptedAt, hnone, toIso_of_not_valid hinvalid] at ht
        exact absurd ht (by simp)

theorem forward_completed {s : Repos} {a : Assignment}
    (ha : s.assignments.get? a.id = some a) (now : Instant) :
    AssignmentsForward s (RouteService.completed cfg s a now) := by
  have hassignments : (RouteService.completed cfg s a now).assignments =
      s.assignments.set a.id { a with status := .complete } := by
    rw [RouteService.completed]
    dsimp only
    split
    · split <;> rfl
    · rfl
  have hsave := AssignmentsForward.save_iff (b := { a with status := .complete }) ha hassignments
  exact hsave.2 ⟨a.status.forward_complete, fun _ ht => ht⟩

/-- One request moves every assignment forward exactly when it accepts no complete one. -/
theorem forward_step_iff {s : System} (href : Referenced cfg s.calls s.repos) (r : Request) :
    AssignmentsForward s.repos (step cfg s r).repos ↔ AcceptsOpen s r := by
  obtain ⟨op, now⟩ := r
  cases op with
  | accept assignmentId => exact forward_accept_iff href assignmentId now
  | createAssignment driverId deliveryIds =>
    refine iff_of_true ?_ trivial
    rw [step_repos (p := AssignmentService.create cfg ⟨now, s.calls⟩ driverId deliveryIds) rfl]
    obtain ⟨e, hs⟩ | ⟨d, v, toLink, iso, a, -, -, -, -, -, -, -, ha, hs⟩ :=
      AssignmentService.create_cases cfg ⟨now, s.calls⟩ driverId deliveryIds s.repos
    · rw [hs]
      exact .refl _
    · have hid : a.id = cfg.assignmentId.gen s.calls := by rw [ha]
      rw [hs]
      exact .insert (hid ▸ href.assignments.fresh) rfl
  | completeIfAllStopsTerminal assignmentId =>
    refine iff_of_true ?_ trivial
    rw [step_repos (p := RouteService.completeIfAllStopsTerminal ⟨now, s.calls⟩ assignmentId) rfl,
      RouteService.runE_completeIfAllStopsTerminal]
    cases ha : s.repos.assignments.get? assignmentId with
    | none => exact .refl _
    | some a =>
      dsimp only
      split
      · cases toIso now with
        | error e => exact .refl _
        | ok iso => exact forward_completed (href.assignment_stored ha) iso
      · exact .refl _
  | _ => exact iff_of_true (.frame (step_assignments (by simp [Op.parts]))) trivial

/-! ## Runs -/

/-- Over every run of the service, assignments only move forward between any two states exactly when
no request accepts a complete assignment. -/
theorem assignments_forward_iff (cfg : Config) (rs : List Request) :
    (∀ pre mid post, rs = pre ++ mid ++ post →
      AssignmentsForward (Runs.run (step cfg) System.new pre).repos
        (Runs.run (step cfg) System.new (pre ++ mid)).repos) ↔
      Runs.AllSteps (step cfg) AcceptsOpen System.new rs := by
  rw [← Runs.allSteps_iff_between (R := fun s s' : System => AssignmentsForward s.repos s'.repos)
    (fun s => .refl s.repos) (fun _ _ _ => .trans)]
  exact Runs.allSteps_congr (I := fun s => Referenced cfg s.calls s.repos)
    (fun s r href => href.step r) (fun s r href => forward_step_iff href r) .new rs

/-- The assignment completed by the last but one request is accepted by the last. -/
theorem reaccepted_goes_back :
    ¬ ∀ pre mid post, reaccepted.map Subtype.val = pre ++ mid ++ post →
      AssignmentsForward (Runs.run (step .unary) System.new pre).repos
        (Runs.run (step .unary) System.new (pre ++ mid)).repos := by
  intro h
  have hlast := h ((reaccepted.map Subtype.val).take 8) ((reaccepted.map Subtype.val).drop 8) []
    (by simp)
  have hcomplete : (Runs.run (step .unary) System.new
      ((reaccepted.map Subtype.val).take 8)).repos.assignments.get? "aaaaaa" =
      some ⟨"aaaaaa", "d", "vvv", .complete, none, ⟨0, by decide⟩⟩ := by
    decide +kernel
  have haccepted : (Runs.run (step .unary) System.new
      ((reaccepted.map Subtype.val).take 8 ++
        (reaccepted.map Subtype.val).drop 8)).repos.assignments.get? "aaaaaa" =
      some ⟨"aaaaaa", "d", "vvv", .accepted, some ⟨0, by decide⟩, ⟨0, by decide⟩⟩ := by
    decide +kernel
  obtain ⟨a, ha, hforward, -⟩ := hlast "aaaaaa" _ hcomplete
  rw [haccepted] at ha
  obtain rfl := Option.some.inj ha
  exact absurd hforward (by decide)

end FleetCommand.Management
