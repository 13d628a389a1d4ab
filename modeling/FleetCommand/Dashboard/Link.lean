import FleetCommand.Dashboard.Reconnect
import FleetCommand.Lib.Observation

/-!
# What the client shows of its connection

The connection as a machine of its own (`Link`): it is dialled, opens, is lost, or is ended by the
user, and counts the closes in a row since it was last open. The client follows it in every run
(`connection_shown`): the state it shows is that of the link, the attempts that choose its backoff
delay are the closes in a row, and a lost connection always has its reconnect timer pending. Its
listeners hear the changes of the state shown and nothing else.
-/

set_option autoImplicit false

namespace FleetCommand.Dashboard

open Observation Runs

/-! ## The link -/

/-- Where the connection stands. -/
inductive Phase where
  | undialled
  | dialled
  | opened
  | lost
  | ended
  deriving DecidableEq

/-- A transport is in use. -/
def Phase.inUse : Phase → Bool
  | .dialled | .opened => true
  | .undialled | .lost | .ended => false

/-- A connection, and how many closes in a row there were since it was last open. -/
structure Link where
  phase : Phase
  closes : Nat

/-- What happens to it. -/
inductive Signal where
  | dial
  | hangUp
  | opened
  | closed

namespace Link

/-- The connection after a signal. -/
def next (l : Link) : Signal → Link
  | .dial => if l.phase.inUse then l else { l with phase := .dialled }
  | .hangUp => { l with phase := .ended }
  | .opened => ⟨.opened, 0⟩
  | .closed => ⟨.lost, l.closes + 1⟩

/-- The state in which a link is shown. -/
def shown (l : Link) : ConnectionState :=
  match l.phase with
  | .undialled => .connecting
  | .dialled => if l.closes = 0 then .connecting else .reconnecting
  | .opened => .connected
  | .lost => .reconnecting
  | .ended => .offline

theorem next_dial_ne_lost (l : Link) : (l.next .dial).phase ≠ .lost := by
  rw [next]
  split
  next hused =>
    intro hlost
    rw [hlost] at hused
    exact absurd hused (by decide)
  next => simp

end Link

/-- What an event is to the link: the user calls, the transport in use opens or closes, or a pending
timer fires. -/
def Event.signal? (r : Runtime) : Event → Option Signal
  | .connect => some .dial
  | .disconnect => some .hangUp
  | .subscribe _ _ => none
  | .unsubscribe _ _ => none
  | .opened k => if r.client.transport = some k then some .opened else none
  | .closed k => if r.client.transport = some k then some .closed else none
  | .timer handle => if r.timers.any fun timer => timer.handle = handle then some .dial else none

/-- The client, and the link it is to follow. -/
structure Followed where
  runtime : Runtime
  link : Link

/-- A new client with its connection. -/
def Followed.construct (backoffScheduleMs : List Nat) (autoConnect : Bool) : Followed :=
  ⟨.construct backoffScheduleMs autoConnect, ⟨if autoConnect then .dialled else .undialled, 0⟩⟩

/-- One event of the client, and its signal to the connection. -/
def follow (w : Followed) (e : Event) : Followed where
  runtime := e.apply w.runtime
  link := match e.signal? w.runtime with
    | some signal => w.link.next signal
    | none => w.link

/-! ## The client against the link -/

namespace Runtime

/-- The state, the transport in use, the user's intent and the attempts are those of the link. -/
structure Mirrors (r : Runtime) (l : Link) : Prop where
  state : r.client.state = l.shown
  inUse : r.client.transport.isSome = l.phase.inUse
  ended : r.client.closedByUser = true ↔ l.phase = .ended
  attempt : r.client.attempt = l.closes

/-- The timer whose handle the client has is pending, with the delay for so many closes. -/
def Retries (r : Runtime) (schedule : List Nat) (closes : Nat) : Prop :=
  ∃ timer ∈ r.timers, r.client.reconnectHandle = some timer.handle ∧
    timer.delay = schedule[min (closes - 1) (schedule.length - 1)]?

/-- The client shows the link, and retries when it is lost. -/
structure Shows (schedule : List Nat) (r : Runtime) (l : Link) : Prop extends Mirrors r l where
  schedule_eq : r.client.backoffScheduleMs = schedule
  retries : l.phase = .lost → r.Retries schedule l.closes

variable {r r' : Runtime} {l : Link} {schedule : List Nat}

/-- Nothing that the link is about changes. -/
theorem Shows.of_same (h : r.Shows schedule l) (hclient : r'.client =
    { r.client with subscriptions := r'.client.subscriptions }) (htimers : r'.timers = r.timers) :
    r'.Shows schedule l where
  state := by rw [hclient]; exact h.state
  inUse := by rw [hclient]; exact h.inUse
  ended := by rw [hclient]; exact h.ended
  attempt := by rw [hclient]; exact h.attempt
  schedule_eq := by rw [hclient]; exact h.schedule_eq
  retries hlost := by
    rw [Retries, hclient, htimers]
    exact h.retries hlost

/-! ## What the entry points do to the client -/

theorem connect_of_some {k : Nat} (h : r.client.transport = some k) :
    r.connect = { r with client := { r.client with closedByUser := false } } := by
  rw [Runtime.connect]
  dsimp only
  rw [h]

/-- The state, and what the client's listeners have been told of it. -/
def heard (r : Runtime) : Observation.Observed ConnectionState :=
  ⟨r.client.state, r.stateChanges⟩

/-- Setting the state tells the listeners when it is another one. -/
theorem heard_setState (r : Runtime) (s : ConnectionState) :
    (r.setState s).heard = observe r.heard s := by
  rw [setState, observe]
  by_cases h : r.client.state = s
  · rw [if_pos h, heard, if_pos h.symm]
  · rw [if_neg h, heard, heard, if_neg (Ne.symm h)]

@[simp] theorem heard_onTransport (r : Runtime) (f : Transport → Transport) :
    (r.onTransport f).heard = r.heard := by
  rw [onTransport]
  split <;> rfl

theorem heard_teardownTransport (r : Runtime) : r.teardownTransport.heard = r.heard :=
  r.heard_onTransport .teardown

theorem heard_cancelReconnect (r : Runtime) : r.cancelReconnect.heard = r.heard := by
  rw [cancelReconnect]
  split <;> rfl

theorem cancelReconnect_client (r : Runtime) :
    r.cancelReconnect.client = { r.client with reconnectHandle := none } := by
  rw [cancelReconnect]
  split
  next => rfl
  next hnone => rw [← hnone]

theorem connect_of_none (h : r.client.transport = none) :
    r.connect.client = { r.client with
      closedByUser := false
      state := if r.client.attempt = 0 then .connecting else .reconnecting
      transport := some r.transports.length } ∧
    r.connect.heard = observe r.heard
      (if r.client.attempt = 0 then .connecting else .reconnecting) := by
  have hheard := heard_setState { r with client := { r.client with closedByUser := false } }
    (if r.client.attempt = 0 then .connecting else .reconnecting)
  rw [Runtime.connect]
  dsimp only
  split
  next k hk => exact absurd (h.symm.trans hk) (by simp)
  next =>
    refine ⟨?_, hheard⟩
    simp only [setState_client, setState_transports]

theorem disconnect_client (r : Runtime) :
    r.disconnect.client = { r.client with
      closedByUser := true
      reconnectHandle := none
      transport := none
      state := .offline } ∧
    r.disconnect.heard = observe r.heard .offline := by
  rw [Runtime.disconnect]
  dsimp only
  rw [setState_client, teardownTransport_client, cancelReconnect_client, heard_setState,
    heard_teardownTransport, heard_cancelReconnect]
  exact ⟨rfl, rfl⟩

/-- A change of the subscriptions is only sent on. -/
theorem subscribe_client (r : Runtime) (kind : Streaming.SubscriptionKind) (id : String) :
    (r.subscribe kind id).client =
      { r.client with subscriptions := (r.subscribe kind id).client.subscriptions } ∧
    (r.subscribe kind id).heard = r.heard := by
  rw [subscribe]
  dsimp only
  split
  · rw [emit_client, Runtime.emit, heard_onTransport]
    exact ⟨rfl, rfl⟩
  · exact ⟨rfl, rfl⟩

theorem unsubscribe_client (r : Runtime) (kind : Streaming.SubscriptionKind) (id : String) :
    (r.unsubscribe kind id).client =
      { r.client with subscriptions := (r.unsubscribe kind id).client.subscriptions } ∧
    (r.unsubscribe kind id).heard = r.heard := by
  rw [unsubscribe]
  dsimp only
  split
  · rw [emit_client, Runtime.emit, heard_onTransport]
    exact ⟨rfl, rfl⟩
  · exact ⟨rfl, rfl⟩

theorem handleOpen_client (r : Runtime) :
    r.handleOpen.client = { r.client with attempt := 0, state := .connected } ∧
    r.handleOpen.heard = observe r.heard .connected := by
  have hheard := heard_setState { r with client := { r.client with attempt := 0 } } .connected
  rw [handleOpen]
  dsimp only
  generalize hr : Runtime.setState { r with client := _ } .connected = r' at hheard ⊢
  have hsent : ∀ subs : List Streaming.SubscribePayload,
      (subs.foldl (fun r sub => r.emit .subscribe sub) r').client = r'.client ∧
      (subs.foldl (fun r sub => r.emit .subscribe sub) r').heard = r'.heard :=
    run_invariant (I := fun q => q.client = r'.client ∧ q.heard = r'.heard)
      (fun q sub hq => ⟨(emit_client q _ sub).trans hq.1, (heard_onTransport q _).trans hq.2⟩)
      ⟨rfl, rfl⟩
  obtain ⟨hclient, hsame⟩ := hsent r'.client.subscriptions.values
  rw [hclient, hsame, hheard, ← hr, setState_client]
  exact ⟨rfl, rfl⟩

/-- A close of the transport in use sets the timer for the next attempt. -/
theorem handleClose_client (h : r.client.closedByUser = false) :
    r.handleClose.client = { r.client with
      transport := none
      state := .reconnecting
      attempt := r.client.attempt + 1
      reconnectHandle := some r.nextHandle } ∧
    r.handleClose.heard = observe r.heard .reconnecting := by
  have hopen : r.teardownTransport.client.closedByUser = false := by
    rw [teardownTransport_client]
    exact h
  have hnext : r.teardownTransport.nextHandle = r.nextHandle := by
    rw [teardownTransport]
    simp
  have hheard : (r.teardownTransport.setState .reconnecting).heard =
      observe r.heard .reconnecting := by
    rw [heard_setState, heard_teardownTransport]
  rw [handleClose]
  dsimp only
  rw [if_neg (by simp [hopen])]
  refine ⟨?_, hheard⟩
  simp only [setTimeout, setState_nextHandle, setState_client, teardownTransport_client, hnext]

/-! ## Each signal -/

/-- The state shown is heard as no change. -/
theorem Mirrors.observe_shown (h : r.Mirrors l) : observe r.heard l.shown = r.heard :=
  if_pos h.state.symm

/-- Dialling opens a transport where none is in use. -/
theorem Mirrors.connect (h : r.Mirrors l) :
    r.connect.Mirrors (l.next .dial) ∧ r.connect.heard = observe r.heard (l.next .dial).shown := by
  have hused := h.inUse
  cases htransport : r.client.transport with
  | some k =>
    rw [htransport, Option.isSome_some] at hused
    have hnext : l.next .dial = l := if_pos hused.symm
    rw [connect_of_some htransport, hnext, h.observe_shown]
    refine ⟨⟨h.state, h.inUse, ⟨fun hnot => absurd hnot (by simp), fun hended => ?_⟩, h.attempt⟩,
      rfl⟩
    rw [hended] at hused
    exact absurd hused (by decide)
  | none =>
    rw [htransport, Option.isSome_none] at hused
    have hnext : l.next .dial = { l with phase := .dialled } := if_neg (by simp [← hused])
    obtain ⟨hclient, hheard⟩ := connect_of_none htransport
    rw [hnext, hheard, Link.shown, ← h.attempt]
    refine ⟨⟨?_, ?_, ?_, ?_⟩, rfl⟩
    · rw [hclient]
      rfl
    · rw [hclient]
      rfl
    · rw [hclient]
      simp
    · rw [hclient]

theorem connect_schedule (r : Runtime) :
    r.connect.client.backoffScheduleMs = r.client.backoffScheduleMs := by
  cases htransport : r.client.transport with
  | some k => rw [connect_of_some htransport]
  | none => rw [(connect_of_none htransport).1]

theorem Shows.connect (h : r.Shows schedule l) : r.connect.Shows schedule (l.next .dial) where
  toMirrors := h.toMirrors.connect.1
  schedule_eq := r.connect_schedule.trans h.schedule_eq
  retries hlost := absurd hlost l.next_dial_ne_lost

/-- A timer that fires dials, whatever timers are left and whatever handle the client has. -/
theorem Shows.fired (h : r.Shows schedule l) (timers : List Timer) :
    Shows schedule { r with timers := timers }.reconnect (l.next .dial) ∧
      { r with timers := timers }.reconnect.heard = observe r.heard (l.next .dial).shown := by
  have hfired : Mirrors { r with
      client := { r.client with reconnectHandle := none }
      timers := timers } l := ⟨h.state, h.inUse, h.ended, h.attempt⟩
  obtain ⟨hmirrors, hheard⟩ := hfired.connect
  exact ⟨⟨hmirrors, (connect_schedule _).trans h.schedule_eq,
    fun hlost => absurd hlost l.next_dial_ne_lost⟩, hheard⟩

theorem Shows.disconnect (h : r.Shows schedule l) :
    r.disconnect.Shows schedule (l.next .hangUp) := by
  have hclient := r.disconnect_client.1
  constructor
  · constructor
    · rw [hclient]
      rfl
    · rw [hclient]
      rfl
    · rw [hclient]
      simp [Link.next]
    · rw [hclient]
      exact h.attempt
  · rw [hclient]
    exact h.schedule_eq
  · intro hlost
    exact absurd hlost (by simp [Link.next])

theorem Shows.handleOpen (h : r.Shows schedule l) (hused : r.client.transport.isSome)
    (hopen : r.client.closedByUser = false) : r.handleOpen.Shows schedule (l.next .opened) := by
  have hclient := r.handleOpen_client.1
  constructor
  · constructor
    · rw [hclient]
      rfl
    · rw [hclient]
      exact hused
    · rw [hclient]
      simp [Link.next, hopen]
    · rw [hclient]
      rfl
  · rw [hclient]
    exact h.schedule_eq
  · intro hlost
    exact absurd hlost (by simp [Link.next])

theorem Shows.handleClose (h : r.Shows schedule l) (hopen : r.client.closedByUser = false) :
    r.handleClose.Shows schedule (l.next .closed) := by
  have hclient := (handleClose_client hopen).1
  constructor
  · constructor
    · rw [hclient]
      rfl
    · rw [hclient]
      rfl
    · rw [hclient]
      simp [Link.next, hopen]
    · rw [hclient]
      exact congrArg (· + 1) h.attempt
  · rw [hclient]
    exact h.schedule_eq
  · intro _
    -- the delay is chosen by the attempts before this close
    obtain ⟨htimers, hhandle, -⟩ := handleClose_timers hopen
    refine ⟨_, by rw [htimers]; exact List.mem_append_right _ (List.mem_singleton_self _), hhandle,
      ?_⟩
    rw [h.schedule_eq, h.attempt]
    rfl

/-- Only the transport in use has handlers. -/
theorem Attached.hasHandlers_iff (h : r.Attached) (k : Nat) :
    r.hasHandlers k = true ↔ r.client.transport = some k := by
  refine ⟨h.transport_of_hasHandlers, fun hk => ?_⟩
  obtain ⟨t, ht, hhandlers, -⟩ := h.inUse k hk
  rw [hasHandlers, ht, Option.any_some, hhandlers]

end Runtime

/-! ## Runs -/

/-- What holds of the client and its link throughout. -/
structure Followed.Ok (schedule : List Nat) (w : Followed) : Prop where
  intended : w.runtime.Intended
  shown : w.runtime.Shows schedule w.link

variable {schedule : List Nat} {w : Followed}

/-- The client has shown the link, and its listeners have heard so. -/
structure Followed.Tells (schedule : List Nat) (w w' : Followed) : Prop where
  shown : w'.runtime.Shows schedule w'.link
  heard : w'.runtime.heard = observe w.runtime.heard w'.link.shown

/-- Where the link stays as it is, the listeners hear nothing. -/
theorem Followed.Ok.tells_same (h : w.Ok schedule) {r' : Runtime}
    (hshown : r'.Shows schedule w.link) (hheard : r'.heard = w.runtime.heard) :
    w.Tells schedule ⟨r', w.link⟩ := by
  refine ⟨hshown, hheard.trans ?_⟩
  exact (if_pos h.shown.state.symm).symm

theorem Followed.Ok.follow (h : w.Ok schedule) (e : Event) :
    (follow w e).Ok schedule ∧ w.Tells schedule (follow w e) := by
  suffices htells : w.Tells schedule (Dashboard.follow w e) from
    ⟨⟨Event.intended_apply h.intended e, htells.shown⟩, htells⟩
  -- an event of the transport in use finds the user wanting the connection
  have hintent : ∀ k, w.runtime.client.transport = some k →
      w.runtime.client.closedByUser = false := by
    intro k hk
    refine h.intended.intent ?_
    rw [hk]
    simp
  cases e with
  | connect => exact ⟨h.shown.connect, h.shown.toMirrors.connect.2⟩
  | disconnect => exact ⟨h.shown.disconnect, w.runtime.disconnect_client.2⟩
  | subscribe kind id =>
    obtain ⟨hclient, hheard⟩ := w.runtime.subscribe_client kind id
    exact h.tells_same (h.shown.of_same hclient (w.runtime.keeps_subscribe kind id).timers) hheard
  | unsubscribe kind id =>
    obtain ⟨hclient, hheard⟩ := w.runtime.unsubscribe_client kind id
    exact h.tells_same (h.shown.of_same hclient (w.runtime.keeps_unsubscribe kind id).timers) hheard
  | opened k =>
    rw [Dashboard.follow, Event.apply, Event.signal?]
    simp only [h.intended.hasHandlers_iff]
    split
    next hk =>
      exact ⟨h.shown.handleOpen (by rw [hk]; rfl) (hintent k hk), w.runtime.handleOpen_client.2⟩
    next => exact h.tells_same h.shown rfl
  | closed k =>
    have hclosed : Runtime.Shows schedule
        { w.runtime with transports := w.runtime.transports.modify k .close } w.link :=
      h.shown.of_same rfl rfl
    rw [Dashboard.follow, Event.apply, Event.signal?]
    simp only [h.intended.hasHandlers_iff]
    split
    next hk =>
      have hclient := Runtime.handleClose_client
        (r := { w.runtime with transports := w.runtime.transports.modify k .close }) (hintent k hk)
      exact ⟨hclosed.handleClose (hintent k hk), hclient.2⟩
    next => exact h.tells_same hclosed rfl
  | timer handle =>
    rw [Dashboard.follow, Event.apply, Event.signal?]
    split
    next =>
      obtain ⟨hshown, hheard⟩ := h.shown.fired
        (w.runtime.timers.filter fun timer => timer.handle ≠ handle)
      exact ⟨hshown, hheard⟩
    next => exact h.tells_same h.shown rfl

theorem Followed.ok_construct (schedule : List Nat) (autoConnect : Bool) :
    (Followed.construct schedule autoConnect).Ok schedule ∧
      (Followed.construct schedule autoConnect).runtime.heard =
        observeAll .connecting [(Followed.construct schedule autoConnect).link.shown] := by
  have hidle : Runtime.Shows schedule
      ⟨⟨schedule, none, .connecting, 0, none, false, .empty⟩, [], [], 0, []⟩ ⟨.undialled, 0⟩ :=
    ⟨⟨rfl, rfl, by simp, rfl⟩, rfl, fun hlost => absurd hlost (by simp)⟩
  have hintended := Runtime.intended_construct schedule autoConnect
  cases autoConnect with
  | false => exact ⟨⟨hintended, hidle⟩, rfl⟩
  | true => exact ⟨⟨hintended, hidle.connect⟩, hidle.toMirrors.connect.2⟩

/-- In every run the client shows its link: connected when the transport in use has opened, offline
when the user has hung up, and reconnecting with its timer pending when the connection is lost, the
delay chosen by the closes in a row. Its listeners hear the changes of what it shows. -/
theorem connection_shown (schedule : List Nat) (autoConnect : Bool) (es : List Event) :
    let start := Followed.construct schedule autoConnect
    let w := run follow start es
    w.runtime.Shows schedule w.link ∧
    w.runtime.stateChanges =
      (observeAll .connecting ((states follow start es).map fun w => w.link.shown)).changes := by
  intro start w
  obtain ⟨hstart, hheard⟩ := Followed.ok_construct schedule autoConnect
  suffices h : w.Ok schedule ∧ w.runtime.heard =
      observeAll .connecting ((states follow start es).map fun w => w.link.shown) from
    ⟨h.1.shown, congrArg Observation.Observed.changes h.2⟩
  induction es using List.reverseRecOn with
  | nil => exact ⟨hstart, hheard⟩
  | append_singleton es e ih =>
    obtain ⟨hok, hheard⟩ := ih
    obtain ⟨hnext, htells⟩ := hok.follow e
    refine ⟨?_, ?_⟩
    · show (run follow start (es ++ [e])).Ok schedule
      rw [run_concat]
      exact hnext
    · show (run follow start (es ++ [e])).runtime.heard = _
      rw [run_concat, htells.heard, hheard, states_concat, List.map_append, List.map_singleton,
        observeAll_concat]

/-- The second close in a row waits for the second delay. -/
example : (run Event.apply (.construct [500, 1000] true) [.closed 0, .timer 0, .closed 1]).timers =
    [⟨1, some 1000⟩] := by
  decide

end FleetCommand.Dashboard
