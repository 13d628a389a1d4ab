import FleetCommand.Lib.Monitor
import FleetCommand.Management.AssignmentRace
import Mathlib.Data.Fintype.Option

/-!
# Deactivating a driver in parallel

`create` and `completeIfAllStopsTerminal` save a whole driver record they have read some calls
earlier, with another status. What they save has the active flag they have read
(`DriverCall.obeys`), so a deactivation is kept exactly as long as no call saves a record that it
has read as active before (`deactivation_kept_iff`).
-/

set_option autoImplicit false

namespace FleetCommand.Management

open Resumption

/-! ## What the calls do to drivers -/

/-- Follows the driver record a call has read last, and allows it to save no other driver and no
other active flag. -/
def savesRead : Monitor RepoOp.Resp (Option Driver) where
  next := fun held op r => match op, r with
    | .findDriverById _, found => found
    | _, _ => held
  allows := fun held op => match op with
    | .saveDriver d => ∃ read ∈ held, d.id = read.id ∧ d.active = read.active
    | .insertNewDriver _ _ => False
    | .stampAndSaveDriver _ _ => False
    | _ => True

/-- A call that neither reads a driver by id nor writes one. -/
def NoDriver : RepoOp → Prop
  | .findDriverById _ => False
  | .saveDriver _ => False
  | .insertNewDriver _ _ => False
  | .stampAndSaveDriver _ _ => False
  | _ => True

theorem NoDriver.allows (op : RepoOp) (held : Option Driver) (h : NoDriver op) :
    savesRead.allows held op := by
  cases op <;> trivial

theorem NoDriver.next (op : RepoOp) (held : Option Driver) (r : op.Resp) (h : NoDriver op) :
    savesRead.next held op r = held := by
  cases op <;> first | rfl | exact h.elim

/-- A program without driver calls leaves the record held as it is. -/
theorem obeys_of_noDriver {α : Type} {p : Service α} (hp : CallsOnlyE NoDriver p)
    (held : Option Driver) : ObeysE savesRead (fun _ held' => held' = held) p held :=
  hp.obeys NoDriver.allows NoDriver.next held

/-- What follows a program without driver calls. -/
theorem obeys_bind_of_noDriver {α β : Type} {p : Service α} (hp : CallsOnlyE NoDriver p)
    {f : α → Service β} {held : Option Driver}
    (hf : ∀ a, ObeysE savesRead (fun _ _ => True) (f a) held) :
    ObeysE savesRead (fun _ _ => True) (p >>= f) held := by
  apply ObeysE.bind (obeys_of_noDriver hp held)
  · rintro a held' rfl
    exact hf a
  · exact fun _ _ _ => trivial

theorem await_noDriver {op : RepoOp} (hop : NoDriver op) : CallsOnlyE NoDriver (await op) :=
  .performE hop

namespace AssignmentService

theorem resolveAssignableDeliveries_noDriver (ids : List String) :
    CallsOnlyE NoDriver (resolveAssignableDeliveries ids) := by
  induction ids with
  | nil => exact .pure _
  | cons id ids ih =>
    apply CallsOnlyE.bind (await_noDriver (by trivial))
    intro found
    cases found with
    | none => exact .throw _
    | some delivery =>
      dsimp only
      split
      · exact .throw _
      · split
        · exact .throw _
        · exact CallsOnlyE.bind ih fun resolved => .pure _

theorem linkDeliveries_noDriver (assignmentId : String) (now : Instant) (toLink : List Delivery) :
    CallsOnlyE NoDriver (linkDeliveries assignmentId now toLink) := by
  induction toLink with
  | nil => exact .pure _
  | cons delivery rest ih => exact CallsOnlyE.bind (await_noDriver (by trivial)) fun _ => ih

theorem requireAssignment_noDriver (id : String) : CallsOnlyE NoDriver (requireAssignment id) := by
  apply CallsOnlyE.bind (await_noDriver (by trivial))
  intro found
  cases found with
  | some assignment => exact .pure _
  | none => exact .throw _

variable (cfg : Config) (call : Call)

/-- `create` saves the driver it has checked. -/
theorem create_obeys (driverId : String) (deliveryIds : List String) :
    ObeysE savesRead (fun _ _ => True) (create cfg call driverId deliveryIds) none := by
  rw [create]
  split
  · exact .throw trivial
  -- the check returns the record it has read
  have hcheck : ObeysE savesRead (fun r held => ∀ driver, r = .ok driver → held = some driver)
      (requireEligibleDriver driverId) none := by
    refine ObeysE.performE_bind trivial fun found => ?_
    cases found with
    | none => exact .throw (by simp)
    | some driver =>
      dsimp only
      split
      · refine .pure fun driver' h => ?_
        obtain rfl := Except.ok.inj h
        rfl
      · exact .throw (by simp)
  refine ObeysE.bind hcheck (fun driver held hread => ?_) fun _ _ _ => trivial
  obtain rfl := hread driver rfl
  refine obeys_bind_of_noDriver (await_noDriver (by trivial)) fun found => ?_
  cases found with
  | none => exact .throw trivial
  | some vehicle =>
    refine obeys_bind_of_noDriver (resolveAssignableDeliveries_noDriver _) fun toLink => ?_
    refine obeys_bind_of_noDriver (.ofResult _) fun now => ?_
    refine obeys_bind_of_noDriver (await_noDriver (by trivial)) fun _ => ?_
    refine obeys_bind_of_noDriver (linkDeliveries_noDriver _ _ _) fun _ => ?_
    exact ObeysE.performE_bind ⟨driver, rfl, rfl, rfl⟩ fun _ => .pure trivial

end AssignmentService

/-- `completeIfAllStopsTerminal` saves the driver it has read just before. -/
theorem RouteService.completeIfAllStopsTerminal_obeys (call : Call) (assignmentId : String) :
    ObeysE savesRead (fun _ _ => True) (completeIfAllStopsTerminal call assignmentId) none := by
  refine obeys_bind_of_noDriver (AssignmentService.requireAssignment_noDriver _) fun assignment => ?_
  refine obeys_bind_of_noDriver (await_noDriver (by trivial)) fun deliveries => ?_
  split
  · exact .pure trivial
  · split
    · refine obeys_bind_of_noDriver (.ofResult _) fun now => ?_
      refine obeys_bind_of_noDriver (await_noDriver (by trivial)) fun _ => ?_
      refine ObeysE.performE_bind trivial fun found => ?_
      cases found with
      | none => exact .pure trivial
      | some driver =>
        dsimp only
        split
        · exact ObeysE.performE_bind ⟨driver, rfl, rfl, rfl⟩ fun _ => .pure trivial
        · exact .pure trivial
    · exact .pure trivial

/-! ## The race -/

/-- A call that runs beside the deactivation. -/
inductive DriverCall where
  | create (call : Call) (driverId : String) (deliveryIds : List String)
  | completeIfAllStopsTerminal (call : Call) (assignmentId : String)

/-- A call as a program. -/
def DriverCall.prog (cfg : Config) : DriverCall → Prog RepoOp.Resp (Except Thrown Unit)
  | .create call driverId deliveryIds =>
    ExceptT.run ((Op.createAssignment driverId deliveryIds).code cfg call)
  | .completeIfAllStopsTerminal call assignmentId =>
    ExceptT.run ((Op.completeIfAllStopsTerminal assignmentId).code cfg call)

theorem DriverCall.obeys (cfg : Config) (c : DriverCall) :
    (c.prog cfg).Obeys savesRead (fun _ _ => True) none := by
  cases c with
  | create call driverId deliveryIds =>
    exact ObeysE.bind (AssignmentService.create_obeys cfg call driverId deliveryIds)
      (fun _ _ _ => .pure trivial) fun _ _ _ => trivial
  | completeIfAllStopsTerminal call assignmentId =>
    exact ObeysE.bind (RouteService.completeIfAllStopsTerminal_obeys call assignmentId)
      (fun _ _ _ => .pure trivial) fun _ _ _ => trivial

/-- The deactivation as a program. -/
def deactivation (cfg : Config) (call : Call) (id : String) :
    Prog RepoOp.Resp (Except Thrown Unit) := ExceptT.run ((Op.deactivateDriver id).code cfg call)

/-- The deactivation once it has read the driver. -/
def deactivating (call : Call) (current : Driver) : Prog RepoOp.Resp (Except Thrown Unit) :=
  ExceptT.run (ignore (DriverService.stampAndSave call { current with active := false }))

/-- One deactivation, which has no index, and other calls beside it, with the driver record each has
read last. -/
structure DeactivationRace (ι : Type) where
  pool : Pool (Option ι) RepoOp.Resp (Except Thrown Unit) Repos
  held : Option ι → Option Driver

/-- The call has returned without throwing. -/
def succeeded (p : Prog RepoOp.Resp (Except Thrown Unit)) : Bool :=
  match p with
  | .ret (.ok _) => true
  | _ => false

/-- The call is about to save a driver. -/
def savesDriver (p : Prog RepoOp.Resp (Except Thrown Unit)) : Bool :=
  match p.next? with
  | some (.saveDriver _) => true
  | _ => false

variable {ι : Type}

/-- Every call at its start. -/
def DeactivationRace.start (cfg : Config) (call : Call) (id : String) (calls : ι → DriverCall)
    (s : Repos) : DeactivationRace ι :=
  ⟨⟨fun j => j.elim (deactivation cfg call id) fun i => (calls i).prog cfg, s⟩, fun _ => none⟩

/-- Once the deactivation has returned successfully, the stored driver is inactive. -/
def DeactivationKept (id : String) (r : DeactivationRace ι) : Prop :=
  succeeded (r.pool.threads none) = true →
    ∃ driver ∈ r.pool.shared.drivers.byId.get? id, driver.active = false

/-- Once the deactivation has returned successfully, the driver is saved only from a record that was
read as inactive. -/
def SavesInactive (id : String) (r : DeactivationRace ι) (j : Option ι) : Prop :=
  succeeded (r.pool.threads none) = true → savesDriver (r.pool.threads j) = true →
    ∀ driver ∈ r.held j, driver.id = id → driver.active = false

instance (id : String) (r : DeactivationRace ι) : Decidable (DeactivationKept id r) :=
  inferInstanceAs (Decidable (_ → _))

instance (id : String) (r : DeactivationRace ι) (j : Option ι) : Decidable (SavesInactive id r j) :=
  inferInstanceAs (Decidable (_ → _ → _))

variable [DecidableEq ι]

/-- One step, and the driver record the thread has read. -/
def deactivationStep (cfg : Config) (r : DeactivationRace ι) (j : Option ι) :
    DeactivationRace ι where
  pool := r.pool.step (memory cfg) j
  held := Function.update r.held j
    ((r.pool.threads j).watched savesRead (memory cfg) r.pool.shared (r.held j))

/-! ## What every schedule keeps -/

/-- Records stay stored under their own ids. -/
theorem Repos.Keyed.memory {s : Repos} (h : s.Keyed) (cfg : Config) (op : RepoOp) :
    (memory cfg op s).2.Keyed := by
  cases op with
  | insertNewDriver now d => exact ⟨(h.saveDriver d).drivers, h.deliveries⟩
  | saveDriver d => exact h.saveDriver d
  | stampAndSaveDriver now d =>
    rw [Management.memory, Repos.stampAndSave]
    dsimp only
    split
    · exact ⟨(h.saveDriver _).drivers, h.deliveries⟩
    · exact ⟨h.drivers, h.deliveries⟩
  | insertDelivery d => exact h.setDelivery d
  | saveDelivery d => exact h.setDelivery d
  | _ => exact ⟨h.drivers, h.deliveries⟩

/-- The deactivation is before its read, before its save of the driver it has read, or has returned;
the other calls obey the monitor. -/
structure DeactivationRace.Ok (cfg : Config) (call : Call) (id : String) (r : DeactivationRace ι) :
    Prop where
  keyed : r.pool.shared.Keyed
  deactivation : r.pool.threads none = deactivation cfg call id ∨
    (∃ current, current.id = id ∧ r.pool.threads none = deactivating call current) ∨
    ∃ result, r.pool.threads none = .ret result
  others : ∀ i, (r.pool.threads (some i)).Obeys savesRead (fun _ _ => True) (r.held (some i))

namespace DeactivationRace

variable {cfg : Config} {call : Call} {id : String} {r : DeactivationRace ι}

omit [DecidableEq ι] in
theorem ok_start (cfg : Config) (call : Call) (id : String) (calls : ι → DriverCall) {s : Repos}
    (hkeyed : s.Keyed) : (start cfg call id calls s).Ok cfg call id where
  keyed := hkeyed
  deactivation := .inl rfl
  others i := (calls i).obeys cfg

theorem threads_ne (cfg : Config) (r : DeactivationRace ι) {j k : Option ι} (hk : k ≠ j) :
    (deactivationStep cfg r j).pool.threads k = r.pool.threads k :=
  Pool.step_threads_ne (memory cfg) r.pool hk

theorem threads_self (cfg : Config) (r : DeactivationRace ι) (j : Option ι) :
    (deactivationStep cfg r j).pool.threads j =
      ((r.pool.threads j).step (memory cfg) r.pool.shared).1 :=
  Pool.step_threads_self (memory cfg) r.pool j

theorem shared_step (cfg : Config) (r : DeactivationRace ι) (j : Option ι) :
    (deactivationStep cfg r j).pool.shared =
      ((r.pool.threads j).step (memory cfg) r.pool.shared).2 := rfl

theorem held_ne (cfg : Config) (r : DeactivationRace ι) {j k : Option ι} (hk : k ≠ j) :
    (deactivationStep cfg r j).held k = r.held k :=
  Function.update_of_ne hk ..

theorem held_self (cfg : Config) (r : DeactivationRace ι) (j : Option ι) :
    (deactivationStep cfg r j).held j =
      (r.pool.threads j).watched savesRead (memory cfg) r.pool.shared (r.held j) :=
  Function.update_self ..

/-- The first call of the deactivation reads the driver. -/
theorem step_deactivation (cfg : Config) (call : Call) (id : String) {s : Repos} (hkeyed : s.Keyed) :
    ((Management.deactivation cfg call id).step (memory cfg) s).2 = s ∧
    ((∃ current, current.id = id ∧
        ((Management.deactivation cfg call id).step (memory cfg) s).1 =
          deactivating call current) ∨
      ∃ e, ((Management.deactivation cfg call id).step (memory cfg) s).1 = .ret (.error e)) := by
  refine ⟨rfl, ?_⟩
  rw [Management.deactivation, Op.code, ignore, DriverService.deactivate,
    DriverService.requireDriver]
  simp only [bind_assoc, await]
  rw [step_performE_bind]
  simp only [memory]
  cases hfound : s.drivers.byId.get? id with
  | some current => exact .inl ⟨current, hkeyed.drivers id current hfound, rfl⟩
  | none => exact .inr ⟨_, rfl⟩

/-- Its second call saves the driver as inactive, or fails. -/
theorem step_deactivating (cfg : Config) (call : Call) (current : Driver) (s : Repos) :
    (((deactivating call current).step (memory cfg) s).1 = .ret (.ok ()) ∧
      ∃ driver ∈ ((deactivating call current).step (memory cfg) s).2.drivers.byId.get? current.id,
        driver.active = false) ∨
    ∃ e, ((deactivating call current).step (memory cfg) s).1 = .ret (.error e) := by
  rw [deactivating, ignore, DriverService.stampAndSave]
  simp only [bind_assoc, await]
  rw [step_performE_bind]
  simp only [memory, Repos.stampAndSave]
  cases toIso (nextStampFor s.lastStamp call.now { current with active := false }) with
  | error e => exact .inr ⟨e, rfl⟩
  | ok iso =>
    refine .inl ⟨rfl, { current with active := false, updatedAt := iso }, ?_, rfl⟩
    exact InsertionMap.get?_set_self ..

theorem Ok.step (h : r.Ok cfg call id) (j : Option ι) :
    (deactivationStep cfg r j).Ok cfg call id := by
  have hkeyed : (deactivationStep cfg r j).pool.shared.Keyed := by
    rw [shared_step]
    cases r.pool.threads j with
    | ret result => exact h.keyed
    | call op k => exact h.keyed.memory cfg op
  cases j with
  | none =>
    refine ⟨hkeyed, ?_, fun i => ?_⟩
    · rw [threads_self]
      rcases h.deactivation with hthread | ⟨current, hcurrent, hthread⟩ | ⟨result, hthread⟩
      · rw [hthread]
        rcases (step_deactivation cfg call id h.keyed).2 with hread | ⟨e, herror⟩
        · exact .inr (.inl hread)
        · exact .inr (.inr ⟨_, herror⟩)
      · rw [hthread]
        rcases step_deactivating cfg call current r.pool.shared with
          ⟨hdone, -⟩ | ⟨e, herror⟩
        · exact .inr (.inr ⟨_, hdone⟩)
        · exact .inr (.inr ⟨_, herror⟩)
      · exact .inr (.inr ⟨result, by rw [hthread]; rfl⟩)
    · rw [threads_ne cfg r (by simp), held_ne cfg r (by simp)]
      exact h.others i
  | some i =>
    refine ⟨hkeyed, ?_, fun k => ?_⟩
    · rw [threads_ne cfg r (by simp)]
      exact h.deactivation
    · rcases eq_or_ne k i with rfl | hk
      · rw [threads_self, held_self]
        exact (h.others k).step (memory cfg) r.pool.shared
      · rw [threads_ne cfg r (by simpa using hk), held_ne cfg r (by simpa using hk)]
        exact h.others k

/-- A step of the deactivation. -/
theorem Ok.kept_deactivation (h : r.Ok cfg call id) (hkept : DeactivationKept id r) :
    DeactivationKept id (deactivationStep cfg r none) ∧ SavesInactive id r none := by
  rw [DeactivationKept, SavesInactive, threads_self, shared_step]
  rcases h.deactivation with hthread | ⟨current, rfl, hthread⟩ | ⟨result, hthread⟩
  · rw [hthread]
    refine ⟨fun hdone => ?_, fun _ hsave => absurd hsave Bool.false_ne_true⟩
    rcases (step_deactivation cfg call id h.keyed).2 with
      ⟨current, -, hread⟩ | ⟨e, herror⟩
    · rw [hread] at hdone
      exact absurd hdone Bool.false_ne_true
    · rw [herror] at hdone
      exact absurd hdone Bool.false_ne_true
  · rw [hthread]
    refine ⟨fun hdone => ?_, fun _ hsave => absurd hsave Bool.false_ne_true⟩
    rcases step_deactivating cfg call current r.pool.shared with
      ⟨-, hsaved⟩ | ⟨e, herror⟩
    · exact hsaved
    · rw [herror] at hdone
      exact absurd hdone Bool.false_ne_true
  · rw [DeactivationKept, hthread] at hkept
    rw [hthread]
    exact ⟨hkept, fun _ hsave => absurd hsave Bool.false_ne_true⟩

/-- A step of another call once the deactivation has returned. -/
theorem Ok.kept_other (h : r.Ok cfg call id) {i : ι}
    (hdone : succeeded (r.pool.threads none) = true) (hkept : DeactivationKept id r) :
    DeactivationKept id (deactivationStep cfg r (some i)) ↔ SavesInactive id r (some i) := by
  have hnone : (deactivationStep cfg r (some i)).pool.threads none = r.pool.threads none :=
    threads_ne cfg r (by simp)
  have hobeys := h.others i
  rw [DeactivationKept, SavesInactive, hnone, shared_step]
  -- a call that saves no driver leaves the drivers as they are
  have hquiet : ((r.pool.threads (some i)).step (memory cfg) r.pool.shared).2.drivers =
      r.pool.shared.drivers → savesDriver (r.pool.threads (some i)) = false →
      ((succeeded (r.pool.threads none) = true → ∃ driver ∈
          ((r.pool.threads (some i)).step (memory cfg) r.pool.shared).2.drivers.byId.get? id,
          driver.active = false) ↔
        (succeeded (r.pool.threads none) = true → savesDriver (r.pool.threads (some i)) = true →
          ∀ driver ∈ r.held (some i), driver.id = id → driver.active = false)) := by
    intro hdrivers hsaves
    rw [hdrivers, hsaves]
    exact iff_of_true hkept fun _ hsave => absurd hsave Bool.false_ne_true
  cases hthread : r.pool.threads (some i) with
  | ret result =>
    rw [hthread] at hquiet
    exact hquiet rfl rfl
  | call op k =>
    have hallows : savesRead.allows (r.held (some i)) op := hobeys.next (by rw [hthread]; rfl)
    rw [hthread] at hquiet
    cases op with
    | insertNewDriver now d => exact hallows.elim
    | stampAndSaveDriver now d => exact hallows.elim
    | saveDriver d =>
      obtain ⟨read, hread, hid, hactive⟩ := hallows
      have hheld : ∀ {P : Driver → Prop}, (∀ driver ∈ r.held (some i), P driver) ↔ P read := by
        intro P
        constructor
        · exact fun hall => hall read hread
        · intro hP driver hdriver
          rwa [← Option.some.inj (hread.symm.trans hdriver)]
      simp only [hdone, true_imp_iff, savesDriver, Prog.next?, hheld, ← hid, ← hactive, Prog.step,
        memory, DriverRepository.save, InsertionMap.get?_set]
      rcases eq_or_ne d.id id with rfl | hne
      · simp
      · simp only [if_neg hne.symm, hne, false_imp_iff, iff_true]
        exact hkept hdone
    | _ => exact hquiet rfl rfl

theorem Ok.kept_step_iff (h : r.Ok cfg call id) (hkept : DeactivationKept id r) (j : Option ι) :
    DeactivationKept id (deactivationStep cfg r j) ↔ SavesInactive id r j := by
  cases j with
  | none =>
    obtain ⟨hkept', hsaves⟩ := h.kept_deactivation hkept
    exact iff_of_true hkept' hsaves
  | some i =>
    by_cases hdone : succeeded (r.pool.threads none) = true
    · exact h.kept_other hdone hkept
    · have hnone : (deactivationStep cfg r (some i)).pool.threads none = r.pool.threads none :=
        threads_ne cfg r (by simp)
      rw [DeactivationKept, SavesInactive, hnone]
      exact iff_of_true (fun hd => absurd hd hdone) fun hd => absurd hd hdone

end DeactivationRace

/-- For any number of calls of `create` and `completeIfAllStopsTerminal` beside one deactivation and
every schedule: once the deactivation has returned successfully the stored driver is inactive in
every later state, if and only if from then on no call saves the driver from a record that it has
read as active. -/
theorem deactivation_kept_iff (cfg : Config) (call : Call) (id : String) (calls : ι → DriverCall)
    {s : Repos} (hkeyed : s.Keyed) (sched : List (Option ι)) :
    Runs.Always (deactivationStep cfg) (DeactivationKept id)
        (.start cfg call id calls s) sched ↔
      Runs.AllSteps (deactivationStep cfg) (SavesInactive id)
        (.start cfg call id calls s) sched :=
  Runs.always_iff_allSteps (I := DeactivationRace.Ok cfg call id) (fun _ j h => h.step j)
    (fun _ j h hkept => h.kept_step_iff hkept j) (DeactivationRace.ok_start cfg call id calls hkeyed)
    (fun hdone => absurd hdone Bool.false_ne_true) sched

/-- One `create` for the driver. -/
def createOnce (_ : Unit) : DriverCall := .create ⟨0, 0⟩ "d" ["p"]

/-- `create` has checked the driver when the deactivation reads and saves, and then goes on. -/
def deactivatedMeanwhile : List (Option Unit) :=
  [some (), none, none] ++ List.replicate 5 (some ())

/-- The driver is active again. -/
theorem deactivatedMeanwhile_lost :
    ¬ ∀ (calls : Unit → DriverCall) (s : Repos) (sched : List (Option Unit)), s.Keyed →
      Runs.Always (deactivationStep .unary) (DeactivationKept "d")
        (.start .unary ⟨0, 0⟩ "d" calls s) sched := by
  intro hall
  have hlast := (hall createOnce freeRepos deactivatedMeanwhile freeRepos_keyed).last
  exact absurd hlast (by decide +kernel)

/-- The deactivation comes first, and `create` refuses the driver. -/
def deactivatedFirst : List (Option Unit) := [none, none] ++ List.replicate 6 (some ())

theorem deactivatedFirst_kept :
    Runs.Always (deactivationStep .unary) (DeactivationKept "d")
      (.start .unary ⟨0, 0⟩ "d" createOnce freeRepos) deactivatedFirst :=
  (deactivation_kept_iff .unary ⟨0, 0⟩ "d" createOnce freeRepos_keyed deactivatedFirst).2
    (by decide +kernel)

end FleetCommand.Management
