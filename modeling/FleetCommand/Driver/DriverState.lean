import FleetCommand.Lib.Runs
import FleetCommand.Management.Lifecycle

/-!
# The driver app's state

`DriverState` of the driver app: who is signed in, the availability status, the route with the
current stop, and whether the location ping timer runs. `step` is a method of it, `Shown` the guard
the screens put on the control that calls the method.

Under the guards four pieces of state agree in every reachable state (`Consistent`): the stops
before the cursor are those that are terminal, and the timer runs exactly while the driver is on
delivery and exactly while stops remain. Each stop of a route goes along the delivery lifecycle
(`driver_app_run`).
-/

set_option autoImplicit false

namespace FleetCommand.Driver

open Management (DeliveryStatus DriverStatus JsNumber Edge nextStatus isTerminal)

/-! ## The model -/

/-- A stop of the route and its status. -/
structure RouteStop where
  stopIndex : Nat
  deliveryIds : List String
  lat : JsNumber
  lng : JsNumber
  status : DeliveryStatus

/-- The stop with another status. -/
def RouteStop.copyWith (stop : RouteStop) (status : DeliveryStatus) : RouteStop :=
  { stop with status := status }

/-- The route of an assignment. -/
structure DriverRoute where
  assignmentId : String
  stops : List RouteStop
  optimized : Bool

/-- The characters `trim` removes. -/
def isTrimmed (c : Char) : Bool :=
  c.toNat ∈ [0x20, 0x85, 0xA0, 0x1680, 0x2028, 0x2029, 0x202F, 0x205F, 0x3000, 0xFEFF] ||
    (0x09 ≤ c.toNat && c.toNat ≤ 0x0D) || (0x2000 ≤ c.toNat && c.toNat ≤ 0x200A)

/-- `s.trim()`. -/
def trim (s : String) : String :=
  String.ofList ((s.toList.dropWhile isTrimmed).reverse.dropWhile isTrimmed).reverse

/-- The state; `pinging` says that `_pingTimer` is set. -/
structure DriverState where
  driverId : Option String
  status : DriverStatus
  route : Option DriverRoute
  currentStop : Nat
  pinging : Bool

namespace DriverState

/-- The state of a new instance. -/
def new : DriverState := ⟨none, .offline, none, 0, false⟩

/-- A driver is signed in. -/
def isSignedIn (s : DriverState) : Bool := s.driverId.isSome

/-- The location pings stop. -/
def stopPinging (s : DriverState) : DriverState := { s with pinging := false }

/-- The location pings start. -/
def startPinging (s : DriverState) : DriverState := { s with pinging := true }

/-- The driver signs in; a blank email or no password changes nothing. -/
def signIn (s : DriverState) (email password : String) : DriverState :=
  if trim email = "" ∨ password = "" then s
  else { s with driverId := some (trim email), status := .available }

/-- The driver signs out, and the route is dropped. -/
def signOut (s : DriverState) : DriverState :=
  { s.stopPinging with driverId := none, status := .offline, route := none, currentStop := 0 }

/-- The driver chooses a status, which cannot be that of being on a delivery. -/
def setAvailability (s : DriverState) (next : DriverStatus) : DriverState :=
  if next = .onDelivery then s
  else
    let s := { s with status := next }
    if next ≠ .available then s.stopPinging else s

/-- A route is started at its first stop. -/
def startAssignment (s : DriverState) (route : DriverRoute) : DriverState :=
  startPinging { s with route := some route, currentStop := 0, status := .onDelivery }

/-- The stop the driver is on. -/
def activeStop (s : DriverState) : Option RouteStop :=
  match s.route with
  | some route => if s.currentStop < route.stops.length then route.stops[s.currentStop]? else none
  | none => none

/-- The current stop takes a status. -/
def setStopStatus (s : DriverState) (status : DeliveryStatus) : DriverState :=
  match s.route with
  | none => s
  | some r =>
    if r.stops.length ≤ s.currentStop then s
    else
      let stops := r.stops.modify s.currentStop fun stop => stop.copyWith status
      { s with route := some { r with stops := stops } }

/-- The next stop becomes current, and when all stops are terminal the route ends. -/
def advance (s : DriverState) : DriverState :=
  match s.route with
  | none => s
  | some r =>
    let s := if s.currentStop < r.stops.length then { s with currentStop := s.currentStop + 1 } else s
    if r.stops.all (fun stop => isTerminal stop.status) then
      stopPinging { s with status := .available }
    else s

/-- The driver sets off for the current stop. -/
def startCurrentStop (s : DriverState) : DriverState := s.setStopStatus .inTransit

/-- The driver arrives at it. -/
def arriveCurrentStop (s : DriverState) : DriverState := s.setStopStatus .arrived

/-- The current stop is delivered. -/
def completeCurrentStop (s : DriverState) : DriverState := (s.setStopStatus .completed).advance

/-- The delivery at the current stop fails. -/
def failCurrentStop (s : DriverState) : DriverState := (s.setStopStatus .failed).advance

/-- The status of a stop of the route. -/
def stopStatus? (s : DriverState) (i : Nat) : Option DeliveryStatus :=
  match s.route with
  | some route => (route.stops[i]?).map RouteStop.status
  | none => none

end DriverState

/-- The methods the screens call. -/
inductive DriverAction where
  | signIn (email password : String)
  | signOut
  | setAvailability (next : DriverStatus)
  | startAssignment (route : DriverRoute)
  | startCurrentStop
  | arriveCurrentStop
  | completeCurrentStop
  | failCurrentStop

/-- One call. -/
def step (s : DriverState) : DriverAction → DriverState
  | .signIn email password => s.signIn email password
  | .signOut => s.signOut
  | .setAvailability next => s.setAvailability next
  | .startAssignment route => s.startAssignment route
  | .startCurrentStop => s.startCurrentStop
  | .arriveCurrentStop => s.arriveCurrentStop
  | .completeCurrentStop => s.completeCurrentStop
  | .failCurrentStop => s.failCurrentStop

/-- A route as dispatch gives it: with stops, and all of them `Assigned`. -/
def DriverRoute.Fresh (route : DriverRoute) : Prop :=
  route.stops ≠ [] ∧ ∀ stop ∈ route.stops, stop.status = .assigned

/-- The statuses the availability card offers. -/
def selectable : List DriverStatus := [.available, .onBreak, .offline]

/-- The control that makes the call is shown: the sign-in screen without a driver, the home screen
with one; there the availability card off delivery, the card to accept a route without one, and the
actions of the active stop by its status. A route accepted is a fresh one. -/
def Shown (s : DriverState) : DriverAction → Prop
  | .signIn _ _ => s.isSignedIn = false
  | .signOut => s.isSignedIn = true
  | .setAvailability next => s.isSignedIn = true ∧ s.status ≠ .onDelivery ∧ next ∈ selectable
  | .startAssignment route => s.isSignedIn = true ∧ s.route.isNone = true ∧ route.Fresh
  | .startCurrentStop => s.isSignedIn = true ∧ s.activeStop.map RouteStop.status = some .assigned
  | .arriveCurrentStop => s.isSignedIn = true ∧ s.activeStop.map RouteStop.status = some .inTransit
  | .completeCurrentStop => s.isSignedIn = true ∧ s.activeStop.map RouteStop.status = some .arrived
  | .failCurrentStop => s.isSignedIn = true ∧ s.activeStop.map RouteStop.status = some .arrived

/-! ## The invariant -/

/-- Stops remain on the loaded route. -/
def Remaining (s : DriverState) : Prop :=
  ∃ route, s.route = some route ∧ s.currentStop < route.stops.length

/-- The cursor agrees with the statuses of the stops, and the timer with the driver's status and
with what remains of the route. -/
structure Consistent (s : DriverState) : Prop where
  cursor : ∀ route, s.route = some route → ∀ i stop, route.stops[i]? = some stop →
    (i < s.currentStop ↔ isTerminal stop.status = true)
  pinging : s.pinging = true ↔ s.status = .onDelivery
  active : s.status = .onDelivery ↔ Remaining s

/-- The invariant: besides, the cursor stays within the route, and only a driver has one. -/
structure Invariant (s : DriverState) : Prop extends Consistent s where
  within : ∀ route, s.route = some route → s.currentStop ≤ route.stops.length
  signedOut : s.isSignedIn = false → s.route = none

theorem Invariant.new : Invariant .new where
  cursor route hroute := absurd hroute (by simp [DriverState.new])
  pinging := by simp [DriverState.new]
  active := by simp [DriverState.new, Remaining]
  within route hroute := absurd hroute (by simp [DriverState.new])
  signedOut _ := rfl

theorem not_remaining {s : DriverState} (hroute : s.route = none) : ¬ Remaining s := by
  rintro ⟨route, hsome, -⟩
  exact absurd (hroute.symm.trans hsome) (by simp)

/-- Without a route there is nothing to agree on. -/
theorem Invariant.of_no_route {s : DriverState} (hroute : s.route = none)
    (hpinging : s.pinging = false) (hstatus : s.status ≠ .onDelivery) : Invariant s where
  cursor route h := absurd (hroute.symm.trans h) (by simp)
  pinging := by simp [hpinging, hstatus]
  active := iff_of_false hstatus (not_remaining hroute)
  within route h := absurd (hroute.symm.trans h) (by simp)
  signedOut _ := hroute

namespace Invariant

variable {s : DriverState}

theorem signIn (h : Invariant s) (hshown : s.isSignedIn = false) (email password : String) :
    Invariant (s.signIn email password) := by
  rw [DriverState.signIn]
  split
  · exact h
  · have hroute := h.signedOut hshown
    have hidle : s.status ≠ .onDelivery := fun hbusy => not_remaining hroute (h.active.1 hbusy)
    refine .of_no_route hroute ?_ (by simp)
    rw [← Bool.not_eq_true, h.pinging]
    exact hidle

theorem signOut : Invariant s.signOut :=
  .of_no_route rfl rfl (by simp [DriverState.signOut])

theorem setAvailability (h : Invariant s) (hidle : s.status ≠ .onDelivery) (next : DriverStatus) :
    Invariant (s.setAvailability next) := by
  have hquiet : s.pinging = false := by
    rw [← Bool.not_eq_true, h.pinging]
    exact hidle
  have hdone : ¬ Remaining s := fun hremaining => hidle (h.active.2 hremaining)
  -- neither the route nor the cursor is touched, and the timer is off before and after
  have hset : ∀ pinging, pinging = false → next ≠ .onDelivery →
      Invariant { s with status := next, pinging := pinging } := by
    rintro pinging rfl hnext
    constructor
    · constructor
      · exact h.cursor
      · simp [hnext]
      · exact iff_of_false hnext hdone
    · exact h.within
    · exact h.signedOut
  rw [DriverState.setAvailability]
  split
  · exact h
  next hnext =>
    dsimp only
    split
    · exact hset false rfl hnext
    · exact hset s.pinging hquiet hnext

theorem startAssignment (hsigned : s.isSignedIn = true) {route : DriverRoute}
    (hroute : route.Fresh) : Invariant (s.startAssignment route) := by
  obtain ⟨hne, hassigned⟩ := hroute
  constructor
  · constructor
    · intro route' hsome i stop hstop
      obtain rfl := Option.some.inj hsome
      refine iff_of_false (Nat.not_lt_zero i) ?_
      rw [hassigned stop (List.mem_of_getElem? hstop)]
      decide
    · exact iff_of_true rfl rfl
    · exact iff_of_true rfl ⟨route, rfl, List.length_pos_iff.2 hne⟩
  · intro route' hsome
    exact Nat.zero_le _
  · intro hout
    exact absurd (hsigned.symm.trans hout) (by simp)

end Invariant

/-! ### The active stop -/

/-- The active stop is the one at the cursor. -/
theorem exists_active {s : DriverState} {status : DeliveryStatus}
    (h : s.activeStop.map RouteStop.status = some status) :
    ∃ route stop, s.route = some route ∧ s.currentStop < route.stops.length ∧
      route.stops[s.currentStop]? = some stop ∧ stop.status = status := by
  rw [DriverState.activeStop] at h
  split at h
  next route hroute =>
    split at h
    next hlt =>
      obtain ⟨stop, hstop, hstatus⟩ := Option.map_eq_some_iff.1 h
      exact ⟨route, stop, hroute, hlt, hstop, hstatus⟩
    next => exact absurd h (by simp)
  next => exact absurd h (by simp)

/-- The route with the status of one stop set. -/
def DriverRoute.setStop (route : DriverRoute) (i : Nat) (status : DeliveryStatus) : DriverRoute :=
  { route with stops := route.stops.modify i fun stop => stop.copyWith status }

@[simp] theorem DriverRoute.length_setStop (route : DriverRoute) (i : Nat)
    (status : DeliveryStatus) : (route.setStop i status).stops.length = route.stops.length :=
  List.length_modify ..

theorem DriverRoute.getElem?_setStop (route : DriverRoute) (i j : Nat) (status : DeliveryStatus) :
    (route.setStop i status).stops[j]? =
      (route.stops[j]?).map fun stop => if i = j then stop.copyWith status else stop := by
  rw [setStop, List.getElem?_modify]
  split <;> simp

theorem setStopStatus_eq {s : DriverState} {route : DriverRoute} (hroute : s.route = some route)
    (hlt : s.currentStop < route.stops.length) (status : DeliveryStatus) :
    s.setStopStatus status = { s with route := some (route.setStop s.currentStop status) } := by
  rw [DriverState.setStopStatus, hroute]
  exact if_neg (Nat.not_le.2 hlt)

/-- What finishing the active stop leaves. -/
theorem finish_eq {s : DriverState} {route : DriverRoute} (hroute : s.route = some route)
    (hlt : s.currentStop < route.stops.length) (status : DeliveryStatus) :
    (s.setStopStatus status).advance =
      if (route.setStop s.currentStop status).stops.all (fun stop => isTerminal stop.status) then
        { s with
          status := .available
          route := some (route.setStop s.currentStop status)
          currentStop := s.currentStop + 1
          pinging := false }
      else
        { s with
          route := some (route.setStop s.currentStop status)
          currentStop := s.currentStop + 1 } := by
  have hlt' : s.currentStop < (route.setStop s.currentStop status).stops.length := by
    rwa [DriverRoute.length_setStop]
  rw [setStopStatus_eq hroute hlt, DriverState.advance]
  simp only [if_pos hlt']
  rfl

namespace Invariant

variable {s : DriverState}

/-- A status that is not terminal is set at the cursor. -/
theorem setStopStatus (h : Invariant s) {route : DriverRoute} (hroute : s.route = some route)
    (hlt : s.currentStop < route.stops.length) {status : DeliveryStatus}
    (hopen : isTerminal status = false) : Invariant (s.setStopStatus status) := by
  rw [setStopStatus_eq hroute hlt]
  constructor
  · constructor
    · intro route' hsome i stop hstop
      obtain rfl := Option.some.inj hsome
      rw [DriverRoute.getElem?_setStop, Option.map_eq_some_iff] at hstop
      obtain ⟨old, hold, rfl⟩ := hstop
      split
      next hi => simp [RouteStop.copyWith, hopen, ← hi]
      next => exact h.cursor route hroute i old hold
    · exact h.pinging
    · exact h.active.trans (iff_of_true ⟨route, hroute, hlt⟩ ⟨_, rfl, by simpa using hlt⟩)
  · intro route' hsome
    obtain rfl := Option.some.inj hsome
    simpa using Nat.le_of_lt hlt
  · intro hout
    exact absurd ((h.signedOut hout).symm.trans hroute) (by simp)

/-- All stops are terminal exactly when the cursor has reached the end. -/
theorem all_terminal_iff {route : DriverRoute} {cursor : Nat}
    (hcursor : ∀ i stop, route.stops[i]? = some stop →
      (i < cursor ↔ isTerminal stop.status = true)) (hle : cursor ≤ route.stops.length) :
    route.stops.all (fun stop => isTerminal stop.status) = true ↔ cursor = route.stops.length := by
  rw [List.all_eq_true]
  constructor
  · intro hterminals
    by_contra hne
    have hnext : cursor < route.stops.length := lt_of_le_of_ne hle hne
    have hlast := hcursor _ _ (List.getElem?_eq_getElem hnext)
    exact absurd (hlast.2 (hterminals _ (List.getElem_mem hnext))) (Nat.lt_irrefl _)
  · intro hend stop hstop
    obtain ⟨i, hi, rfl⟩ := List.getElem_of_mem hstop
    exact (hcursor i _ (List.getElem?_eq_getElem hi)).1 (hend ▸ hi)

/-- A terminal status is set at the cursor, and the cursor moves on. -/
theorem finish (h : Invariant s) {route : DriverRoute} (hroute : s.route = some route)
    (hlt : s.currentStop < route.stops.length) {status : DeliveryStatus}
    (hterminal : isTerminal status = true) : Invariant (s.setStopStatus status).advance := by
  have hcursor : ∀ i stop, (route.setStop s.currentStop status).stops[i]? = some stop →
      (i < s.currentStop + 1 ↔ isTerminal stop.status = true) := by
    intro i stop hstop
    rw [DriverRoute.getElem?_setStop, Option.map_eq_some_iff] at hstop
    obtain ⟨old, hold, rfl⟩ := hstop
    split
    next hi => exact iff_of_true (by omega) hterminal
    next hi =>
      rw [← h.cursor route hroute i old hold]
      omega
  have hall : (route.setStop s.currentStop status).stops.all
      (fun stop => isTerminal stop.status) = true ↔ s.currentStop + 1 = route.stops.length := by
    rw [← DriverRoute.length_setStop route s.currentStop status]
    exact all_terminal_iff hcursor (by rw [DriverRoute.length_setStop]; exact hlt)
  have hsigned : s.isSignedIn = false → False := fun hout =>
    absurd ((h.signedOut hout).symm.trans hroute) (by simp)
  have hbusy : s.status = .onDelivery := h.active.2 ⟨route, hroute, hlt⟩
  rw [finish_eq hroute hlt]
  split
  next hdone =>
    have hend := hall.1 hdone
    constructor
    · constructor
      · rintro route' hsome
        obtain rfl := Option.some.inj hsome
        exact hcursor
      · simp
      · refine iff_of_false (by simp) ?_
        rintro ⟨route', hsome, hremaining⟩
        obtain rfl := Option.some.inj hsome
        rw [DriverRoute.length_setStop] at hremaining
        dsimp only at hremaining
        omega
    · intro route' hsome
      obtain rfl := Option.some.inj hsome
      rw [DriverRoute.length_setStop]
      exact hlt
    · exact fun hout => (hsigned hout).elim
  next hnot =>
    have hnext : s.currentStop + 1 < route.stops.length := by
      have hne := mt hall.2 hnot
      omega
    constructor
    · constructor
      · rintro route' hsome
        obtain rfl := Option.some.inj hsome
        exact hcursor
      · exact h.pinging
      · exact iff_of_true hbusy ⟨_, rfl, by simpa using hnext⟩
    · intro route' hsome
      obtain rfl := Option.some.inj hsome
      rw [DriverRoute.length_setStop]
      exact hlt
    · exact fun hout => (hsigned hout).elim

/-- Every call whose control is shown keeps the invariant. -/
theorem step (h : Invariant s) {a : DriverAction} (hshown : Shown s a) : Invariant (step s a) := by
  cases a with
  | signIn email password => exact h.signIn hshown email password
  | signOut => exact .signOut
  | setAvailability next => exact h.setAvailability hshown.2.1 next
  | startAssignment route => exact .startAssignment hshown.1 hshown.2.2
  | startCurrentStop =>
    obtain ⟨route, stop, hroute, hlt, -, -⟩ := exists_active hshown.2
    exact h.setStopStatus hroute hlt rfl
  | arriveCurrentStop =>
    obtain ⟨route, stop, hroute, hlt, -, -⟩ := exists_active hshown.2
    exact h.setStopStatus hroute hlt rfl
  | completeCurrentStop =>
    obtain ⟨route, stop, hroute, hlt, -, -⟩ := exists_active hshown.2
    exact h.finish hroute hlt rfl
  | failCurrentStop =>
    obtain ⟨route, stop, hroute, hlt, -, -⟩ := exists_active hshown.2
    exact h.finish hroute hlt rfl

end Invariant

/-! ## The stops -/

/-- Every stop of the route is still there, its status unchanged or one edge further. -/
def StopsAdvance (s s' : DriverState) : Prop :=
  ∀ i status, s.stopStatus? i = some status →
    ∃ status', s'.stopStatus? i = some status' ∧ (status = status' ∨ Edge status status')

theorem StopsAdvance.of_route {s s' : DriverState} (h : s'.route = s.route) :
    StopsAdvance s s' := by
  intro i status hstatus
  refine ⟨status, ?_, Or.inl rfl⟩
  rw [DriverState.stopStatus?, h]
  exact hstatus

/-- The stop at the cursor moves along an edge, the others stay. -/
theorem StopsAdvance.of_setStop {s s' : DriverState} {route : DriverRoute} {stop : RouteStop}
    (hroute : s.route = some route) (hstop : route.stops[s.currentStop]? = some stop)
    {status : DeliveryStatus} (hedge : Edge stop.status status)
    (h : s'.route = some (route.setStop s.currentStop status)) : StopsAdvance s s' := by
  intro i old hold
  simp only [DriverState.stopStatus?, hroute, Option.map_eq_some_iff] at hold
  obtain ⟨before, hbefore, rfl⟩ := hold
  simp only [DriverState.stopStatus?, h, DriverRoute.getElem?_setStop, hbefore, Option.map_some]
  rcases eq_or_ne s.currentStop i with rfl | hne
  · obtain rfl := Option.some.inj (hstop.symm.trans hbefore)
    exact ⟨status, by simp [RouteStop.copyWith], Or.inr hedge⟩
  · exact ⟨before.status, by simp [hne], Or.inl rfl⟩

theorem DriverState.advance_route (s : DriverState) : s.advance.route = s.route := by
  rw [DriverState.advance]
  cases hroute : s.route with
  | none => exact hroute
  | some route =>
    dsimp only
    split <;> split <;> first | rfl | exact hroute

/-- A call whose control is shown, other than signing out, moves the stops along the lifecycle. -/
theorem stopsAdvance_step {s : DriverState} {a : DriverAction} (hshown : Shown s a)
    (ha : a ≠ .signOut) : StopsAdvance s (step s a) := by
  cases a with
  | signIn email password =>
    apply StopsAdvance.of_route
    rw [step, DriverState.signIn]
    split <;> rfl
  | signOut => exact absurd rfl ha
  | setAvailability next =>
    apply StopsAdvance.of_route
    rw [step, DriverState.setAvailability]
    split
    · rfl
    · dsimp only
      split <;> rfl
  | startAssignment route =>
    -- no route was loaded before
    intro i status hstatus
    rw [DriverState.stopStatus?, Option.isNone_iff_eq_none.1 hshown.2.1] at hstatus
    exact absurd hstatus (by simp)
  | startCurrentStop =>
    obtain ⟨route, stop, hroute, hlt, hstop, hstatus⟩ := exists_active hshown.2
    have hedge : Edge stop.status .inTransit := ⟨.startTransit, by rw [hstatus]; rfl⟩
    exact .of_setStop hroute hstop hedge (congrArg _ (setStopStatus_eq hroute hlt _))
  | arriveCurrentStop =>
    obtain ⟨route, stop, hroute, hlt, hstop, hstatus⟩ := exists_active hshown.2
    have hedge : Edge stop.status .arrived := ⟨.arrive, by rw [hstatus]; rfl⟩
    exact .of_setStop hroute hstop hedge (congrArg _ (setStopStatus_eq hroute hlt _))
  | completeCurrentStop =>
    obtain ⟨route, stop, hroute, hlt, hstop, hstatus⟩ := exists_active hshown.2
    have hedge : Edge stop.status .completed := ⟨.complete, by rw [hstatus]; rfl⟩
    refine .of_setStop hroute hstop hedge ((DriverState.advance_route _).trans ?_)
    exact congrArg _ (setStopStatus_eq hroute hlt _)
  | failCurrentStop =>
    obtain ⟨route, stop, hroute, hlt, hstop, hstatus⟩ := exists_active hshown.2
    have hedge : Edge stop.status .failed := ⟨.fail, by rw [hstatus]; rfl⟩
    refine .of_setStop hroute hstop hedge ((DriverState.advance_route _).trans ?_)
    exact congrArg _ (setStopStatus_eq hroute hlt _)

/-- A sequence of statuses is a path of the lifecycle from `Assigned`, once repeats
are collapsed. -/
def LifecyclePath (statuses : List DeliveryStatus) : Prop :=
  statuses.head? = some .assigned ∧ (statuses.destutter (· ≠ ·)).IsChain Edge

/-- Along a chain of states a stop that is there in the first is there in all. -/
theorem exists_statuses (i : Nat) {s : DriverState} {rest : List DriverState}
    (hchain : (s :: rest).IsChain StopsAdvance) {status : DeliveryStatus}
    (hstatus : s.stopStatus? i = some status) :
    ∃ statuses, (s :: rest).map (·.stopStatus? i) = (status :: statuses).map some ∧
      (status :: statuses).IsChain fun a b => a = b ∨ Edge a b := by
  induction rest generalizing s status with
  | nil => exact ⟨[], by simp [hstatus], List.isChain_singleton _⟩
  | cons s' rest ih =>
    rw [List.isChain_cons_cons] at hchain
    obtain ⟨status', hstatus', hmove⟩ := hchain.1 i status hstatus
    obtain ⟨statuses, hmap, hpath⟩ := ih hchain.2 hstatus'
    refine ⟨status' :: statuses, ?_, List.isChain_cons_cons.2 ⟨hmove, hpath⟩⟩
    rw [List.map_cons, hmap, hstatus]
    rfl

/-! ## Runs -/

/-- Every run of calls whose controls are shown: the pieces of state agree in every state, and from
the start of an assignment until the driver signs out each of its stops goes along the delivery
lifecycle. -/
theorem driver_app_run (actions : List DriverAction)
    (hshown : Runs.AllSteps step Shown .new actions) :
    Runs.Always step Consistent .new actions ∧
      ∀ pre route mid post, actions = pre ++ .startAssignment route :: (mid ++ post) →
        .signOut ∉ mid → ∀ i < route.stops.length, ∃ statuses,
          (Runs.states step (Runs.run step .new (pre ++ [.startAssignment route])) mid).map
            (·.stopStatus? i) = statuses.map some ∧ LifecyclePath statuses := by
  constructor
  · have hinvariant : Runs.Always step Invariant .new actions :=
      Runs.always_of_allSteps (fun _ _ h ha => h.step ha) Invariant.new hshown
    exact hinvariant.imp fun _ h => h.toConsistent
  · rintro pre route mid post rfl hmid i hi
    rw [Runs.allSteps_append] at hshown
    obtain ⟨-, hstart, hrest⟩ := hshown
    rw [Runs.allSteps_append] at hrest
    -- every call until the driver signs out moves the stops along
    have hsteps : Runs.AllSteps step (fun s a => StopsAdvance s (step s a))
        (step (Runs.run step .new pre) (.startAssignment route)) mid := by
      rw [Runs.allSteps_iff_splits] at hrest ⊢
      intro before a after hsplit
      refine stopsAdvance_step (hrest.1 before a after hsplit) ?_
      rintro rfl
      exact hmid (by simp [hsplit])
    have hchain := Runs.isChain_states hsteps
    have hfirst : (step (Runs.run step .new pre) (.startAssignment route)).stopStatus? i =
        some .assigned := by
      have hassigned := hstart.2.2.2 _ (List.getElem_mem hi)
      simp [step, DriverState.startAssignment, DriverState.startPinging, DriverState.stopStatus?,
        List.getElem?_eq_getElem hi, hassigned]
    have hstates : ∃ rest, Runs.states step
        (step (Runs.run step .new pre) (.startAssignment route)) mid =
        step (Runs.run step .new pre) (.startAssignment route) :: rest := by
      cases mid <;> exact ⟨_, rfl⟩
    obtain ⟨rest, hrest'⟩ := hstates
    rw [hrest'] at hchain
    obtain ⟨statuses, hmap, hpath⟩ := exists_statuses i hchain hfirst
    refine ⟨.assigned :: statuses, ?_, rfl, Runs.isChain_destutter hpath⟩
    rw [Runs.run_concat, hrest']
    exact hmap

/-- A route of one stop. -/
def oneStopRoute : DriverRoute := ⟨"a", [⟨0, ["p"], .fin 0, .fin 0, .assigned⟩], true⟩

/-- A driver signs in, drives a route of one stop and goes on a break. -/
def oneStopRun : List DriverAction :=
  [.signIn "e" "p", .startAssignment oneStopRoute, .startCurrentStop, .arriveCurrentStop,
    .completeCurrentStop, .setAvailability .onBreak]

theorem driver_app_run_oneStop :
    Runs.Always step Consistent .new oneStopRun ∧
      ∀ pre route mid post, oneStopRun = pre ++ .startAssignment route :: (mid ++ post) →
        .signOut ∉ mid → ∀ i < route.stops.length, ∃ statuses,
          (Runs.states step (Runs.run step .new (pre ++ [.startAssignment route])) mid).map
            (·.stopStatus? i) = statuses.map some ∧ LifecyclePath statuses := by
  have hfresh : oneStopRoute.Fresh := ⟨by simp [oneStopRoute], by simp [oneStopRoute]⟩
  exact driver_app_run oneStopRun ⟨rfl, ⟨by decide, rfl, hfresh⟩, ⟨by decide, by decide⟩,
    ⟨by decide, by decide⟩, ⟨by decide, by decide⟩, ⟨by decide, by decide, by decide⟩, trivial⟩

end FleetCommand.Driver
