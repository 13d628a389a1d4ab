import FleetCommand.Dashboard.Sync

/-!
# Disconnecting for good

What each entry point does to the reconnect timer and to the user's intent. A close that is handled
while a reconnect timer is pending sets a second timer and forgets the handle of the first, which
`disconnect` then cannot cancel. `disconnect_final_iff` says that this is the only way in which more
than one timer is pending, or in which a disconnected client opens a transport or leaves `offline`.
-/

set_option autoImplicit false

namespace FleetCommand.Dashboard

open Streaming

namespace Runtime

/-! ## What the entry points do to the timers -/

@[simp] theorem emit_client (r : Runtime) (event : ClientEvent) (payload : SubscribePayload) :
    (r.emit event payload).client = r.client := onTransport_client ..

@[simp] theorem emit_timers (r : Runtime) (event : ClientEvent) (payload : SubscribePayload) :
    (r.emit event payload).timers = r.timers := onTransport_timers ..

theorem teardownTransport_client (r : Runtime) :
    r.teardownTransport.client = { r.client with transport := none } := by
  rw [teardownTransport]
  simp

theorem teardownTransport_timers (r : Runtime) : r.teardownTransport.timers = r.timers := by
  rw [teardownTransport]
  simp

theorem connect_timers (r : Runtime) : r.connect.timers = r.timers := by
  rw [connect]
  dsimp only
  split
  · rfl
  · exact setState_timers ..

theorem connect_client (r : Runtime) : r.connect.client.reconnectHandle = r.client.reconnectHandle ∧
    r.connect.client.closedByUser = false := by
  rw [connect]
  dsimp only
  split
  · exact ⟨rfl, rfl⟩
  · rw [setState_client]
    exact ⟨rfl, rfl⟩

/-- An entry point that leaves the timers, the handle of the pending one and the user's intent as
they are, and uses no transport when none is in use. -/
structure Keeps (r r' : Runtime) : Prop where
  timers : r'.timers = r.timers
  reconnectHandle : r'.client.reconnectHandle = r.client.reconnectHandle
  closedByUser : r'.client.closedByUser = r.client.closedByUser
  transport : r'.client.transport = r.client.transport

theorem keeps_subscribe (r : Runtime) (kind : SubscriptionKind) (id : String) :
    r.Keeps (r.subscribe kind id) := by
  rw [subscribe]
  dsimp only
  split
  · exact ⟨by simp, by simp, by simp, by simp⟩
  · exact ⟨rfl, rfl, rfl, rfl⟩

theorem keeps_unsubscribe (r : Runtime) (kind : SubscriptionKind) (id : String) :
    r.Keeps (r.unsubscribe kind id) := by
  rw [unsubscribe]
  dsimp only
  split
  · exact ⟨by simp, by simp, by simp, by simp⟩
  · exact ⟨rfl, rfl, rfl, rfl⟩

theorem keeps_handleOpen (r : Runtime) : r.Keeps r.handleOpen := by
  rw [handleOpen]
  dsimp only
  generalize hr : Runtime.setState { r with client := _ } .connected = r'
  have hsent : ∀ subs : List SubscribePayload,
      (subs.foldl (fun r sub => r.emit .subscribe sub) r').client = r'.client ∧
      (subs.foldl (fun r sub => r.emit .subscribe sub) r').timers = r'.timers :=
    Runs.run_invariant (I := fun q => q.client = r'.client ∧ q.timers = r'.timers)
      (fun q sub hq => ⟨(emit_client q _ sub).trans hq.1, (emit_timers q _ sub).trans hq.2⟩)
      ⟨rfl, rfl⟩
  obtain ⟨hclient, htimers⟩ := hsent r'.client.subscriptions.values
  constructor
  · rw [htimers, ← hr, setState_timers]
  all_goals rw [hclient, ← hr, setState_client]

theorem handleClose_transport (r : Runtime) : r.handleClose.client.transport = none := by
  rw [handleClose]
  dsimp only
  split
  · simp only [setState_client, teardownTransport_client]
  · simp only [setTimeout, setState_client, teardownTransport_client]

/-- A close sets a timer unless the user has disconnected. -/
theorem handleClose_timers {r : Runtime} (h : r.client.closedByUser = false) :
    r.handleClose.timers = r.timers ++ [⟨r.nextHandle, r.client.backoffScheduleMs[min
      r.client.attempt (r.client.backoffScheduleMs.length - 1)]?⟩] ∧
    r.handleClose.client.reconnectHandle = some r.nextHandle ∧
    r.handleClose.client.closedByUser = false := by
  have hintent : r.teardownTransport.client.closedByUser = false := by
    rw [teardownTransport_client]
    exact h
  have hnext : r.teardownTransport.nextHandle = r.nextHandle := by
    rw [teardownTransport]
    simp
  rw [handleClose]
  dsimp only
  rw [if_neg (by simp [hintent])]
  simp only [setTimeout, setState_timers, setState_nextHandle, setState_client,
    teardownTransport_timers, teardownTransport_client, hnext, h, true_and]

theorem disconnect_timers (r : Runtime) :
    r.disconnect.timers = r.cancelReconnect.timers ∧
      r.disconnect.client.reconnectHandle = none ∧ r.disconnect.client.transport = none ∧
      r.disconnect.client.state = .offline := by
  rw [disconnect]
  dsimp only
  simp only [setState_timers, setState_client, teardownTransport_timers, teardownTransport_client,
    and_true]
  cases hr : r.client.reconnectHandle with
  | none => simp [cancelReconnect, hr]
  | some h => simp [cancelReconnect, hr]

theorem Keeps.intent {r r' : Runtime} (h : r.Keeps r')
    (hr : r.client.transport ≠ none → r.client.closedByUser = false) :
    r'.client.transport ≠ none → r'.client.closedByUser = false := by
  rw [h.transport, h.closedByUser]
  exact hr

/-- With a transport in use the user wants the connection. -/
structure Intended (r : Runtime) : Prop extends Ok r where
  intent : r.client.transport ≠ none → r.client.closedByUser = false

theorem intended_construct (backoffScheduleMs : List Nat) (autoConnect : Bool) :
    (construct backoffScheduleMs autoConnect).Intended := by
  refine ⟨ok_construct backoffScheduleMs autoConnect, fun _ => ?_⟩
  unfold construct
  dsimp only
  split
  · exact (connect_client _).2
  · rfl

/-- At most one timer is pending: the one whose handle the client has. -/
def Scheduled (r : Runtime) : Prop :=
  r.timers.map Timer.handle = r.client.reconnectHandle.toList

/-- Offline without a transport or a timer, and with `n` transports opened. -/
structure Stopped (r : Runtime) (n : Nat) : Prop where
  opened : r.transports.length = n
  state : r.client.state = .offline
  transport : r.client.transport = none
  timers : r.timers = []

theorem Scheduled.length_le {r : Runtime} (h : r.Scheduled) : r.timers.length ≤ 1 := by
  rw [← List.length_map (f := Timer.handle), h]
  cases r.client.reconnectHandle <;> simp

theorem Scheduled.handle {r : Runtime} (h : r.Scheduled) {timer : Timer} (ht : timer ∈ r.timers) :
    r.client.reconnectHandle = some timer.handle := by
  have hmem : timer.handle ∈ r.client.reconnectHandle.toList := h ▸ List.mem_map_of_mem ht
  simpa using hmem

/-- Taking the pending timer away leaves none. -/
theorem Scheduled.filter_eq_nil {r : Runtime} (h : r.Scheduled) {handle : Nat}
    (hhandle : r.client.reconnectHandle = some handle) :
    (r.timers.filter fun timer => timer.handle ≠ handle) = [] := by
  rw [List.filter_eq_nil_iff]
  intro timer ht
  have hsame : timer.handle = handle := Option.some.inj ((h.handle ht).symm.trans hhandle)
  simp [hsame]

/-- `disconnect` cancels the pending timer. -/
theorem Scheduled.cancelReconnect {r : Runtime} (h : r.Scheduled) :
    r.cancelReconnect.timers = [] := by
  rw [Runtime.cancelReconnect]
  split
  next handle hhandle => exact h.filter_eq_nil hhandle
  next hnone => rwa [Scheduled, hnone, Option.toList_none, List.map_eq_nil_iff] at h

theorem Keeps.scheduled {r r' : Runtime} (h : r.Keeps r') (hr : r.Scheduled) : r'.Scheduled := by
  rw [Scheduled, h.timers, h.reconnectHandle]
  exact hr

end Runtime

/-! ## Steps -/

theorem Event.intended_apply {r : Runtime} (h : r.Intended) (e : Event) :
    (e.apply r).Intended := by
  refine ⟨Event.ok_apply h.toOk e, ?_⟩
  cases e with
  | connect => exact fun _ => r.connect_client.2
  | disconnect => exact fun hne => absurd r.disconnect_timers.2.2.1 hne
  | subscribe kind id => exact (r.keeps_subscribe kind id).intent h.intent
  | unsubscribe kind id => exact (r.keeps_unsubscribe kind id).intent h.intent
  | opened k =>
    rw [Event.apply]
    split
    · exact r.keeps_handleOpen.intent h.intent
    · exact h.intent
  | closed k =>
    rw [Event.apply]
    split
    · exact fun hne => absurd (Runtime.handleClose_transport _) hne
    · exact h.intent
  | timer handle =>
    rw [Event.apply]
    split
    · exact fun _ => (Runtime.connect_client _).2
    · exact h.intent

/-- No close is handled while a reconnect timer is pending. -/
def ClosesUnscheduled (r : Runtime) : Event → Prop
  | .closed k => r.hasHandlers k = true → r.timers = []
  | _ => True

theorem Event.scheduled_apply {r : Runtime} (h : r.Intended) (hs : r.Scheduled) {e : Event}
    (hc : ClosesUnscheduled r e) : (e.apply r).Scheduled := by
  cases e with
  | connect =>
    rw [Event.apply, Runtime.Scheduled, r.connect_timers, r.connect_client.1]
    exact hs
  | disconnect =>
    obtain ⟨htimers, hhandle, -⟩ := r.disconnect_timers
    rw [Event.apply, Runtime.Scheduled, htimers, hhandle, hs.cancelReconnect]
    rfl
  | subscribe kind id => exact (r.keeps_subscribe kind id).scheduled hs
  | unsubscribe kind id => exact (r.keeps_unsubscribe kind id).scheduled hs
  | opened k =>
    rw [Event.apply]
    split
    · exact r.keeps_handleOpen.scheduled hs
    · exact hs
  | closed k =>
    rw [Event.apply]
    split
    next hk =>
      -- the transport closing is the one in use, so the user wants the connection
      have hintent : r.client.closedByUser = false := by
        refine h.intent ?_
        rw [h.transport_of_hasHandlers hk]
        simp
      obtain ⟨htimers, hhandle, -⟩ := Runtime.handleClose_timers
        (r := { r with transports := r.transports.modify k .close }) hintent
      rw [Runtime.Scheduled, htimers, hhandle, hc hk]
      rfl
    next => exact hs
  | timer handle =>
    rw [Event.apply]
    split
    next hany =>
      obtain ⟨timer, ht, hhandle⟩ := List.any_eq_true.1 hany
      have hpending : r.client.reconnectHandle = some handle := by
        rw [hs.handle ht, of_decide_eq_true hhandle]
      rw [Runtime.reconnect, Runtime.Scheduled, Runtime.connect_timers,
        (Runtime.connect_client _).1]
      dsimp only
      rw [hs.filter_eq_nil hpending]
      rfl
    next => exact hs

/-- A stopped client stays so until the user calls. -/
theorem Event.stopped_apply {r : Runtime} {n : Nat} (h : r.Intended) (hs : r.Stopped n) {e : Event}
    (hconnect : e ≠ .connect) (hdisconnect : e ≠ .disconnect) : (e.apply r).Stopped n := by
  have hoffline : r.client.state ≠ .connected := by
    rw [hs.state]
    decide
  have hhandlers : ∀ k, r.hasHandlers k ≠ true := by
    intro k hk
    have hused := h.transport_of_hasHandlers hk
    rw [hs.transport] at hused
    exact absurd hused (by simp)
  cases e with
  | connect => exact absurd rfl hconnect
  | disconnect => exact absurd rfl hdisconnect
  | subscribe kind id =>
    rw [Event.apply, Runtime.subscribe, if_neg hoffline]
    exact ⟨hs.opened, hs.state, hs.transport, hs.timers⟩
  | unsubscribe kind id =>
    rw [Event.apply, Runtime.unsubscribe, if_neg hoffline]
    exact ⟨hs.opened, hs.state, hs.transport, hs.timers⟩
  | opened k =>
    rw [Event.apply, if_neg (hhandlers k)]
    exact hs
  | closed k =>
    rw [Event.apply, if_neg (hhandlers k)]
    exact ⟨(List.length_modify ..).trans hs.opened, hs.state, hs.transport, hs.timers⟩
  | timer handle =>
    rw [Event.apply, hs.timers, List.any_nil, if_neg (by simp)]
    exact hs

theorem Runtime.Scheduled.stopped_disconnect {r : Runtime} (h : r.Scheduled) :
    r.disconnect.Stopped r.disconnect.transports.length := by
  obtain ⟨htimers, -, htransport, hstate⟩ := r.disconnect_timers
  exact ⟨rfl, hstate, htransport, htimers.trans h.cancelReconnect⟩

/-! ## Runs -/

/-- The runtime, and how many transports had been opened when `disconnect` last returned, unless the
user has called `connect` since. -/
structure Watched where
  runtime : Runtime
  stoppedAt : Option Nat

/-- One event, and where the last disconnect stands. -/
def watch (w : Watched) (e : Event) : Watched where
  runtime := e.apply w.runtime
  stoppedAt := match e with
    | .connect => none
    | .disconnect => some (e.apply w.runtime).transports.length
    | _ => w.stoppedAt

/-- A client just constructed. -/
def Watched.construct (backoffScheduleMs : List Nat) (autoConnect : Bool) : Watched :=
  ⟨Runtime.construct backoffScheduleMs autoConnect, none⟩

/-- At most one reconnect timer is pending, and since `disconnect` returned no transport has been
opened and the state is offline. -/
def DisconnectFinal (w : Watched) : Prop :=
  w.runtime.timers.length ≤ 1 ∧ ∀ n, w.stoppedAt = some n →
    w.runtime.transports.length = n ∧ w.runtime.client.state = .offline

/-- What holds while no close has been handled with a timer pending. -/
structure Watched.Settled (w : Watched) : Prop where
  intended : w.runtime.Intended
  scheduled : w.runtime.Scheduled
  stopped : ∀ n, w.stoppedAt = some n → w.runtime.Stopped n

theorem Watched.settled_construct (backoffScheduleMs : List Nat) (autoConnect : Bool) :
    (Watched.construct backoffScheduleMs autoConnect).Settled where
  intended := Runtime.intended_construct backoffScheduleMs autoConnect
  scheduled := by
    unfold Watched.construct Runtime.construct Runtime.Scheduled
    dsimp only
    split
    · rw [Runtime.connect_timers, (Runtime.connect_client _).1]
      rfl
    · rfl
  stopped n hn := by simp [Watched.construct] at hn

/-- The user has not called since, or has just called `disconnect`. -/
theorem stoppedAt_watch {w : Watched} {e : Event} {n : Nat} (hn : (watch w e).stoppedAt = some n) :
    (e = .disconnect ∧ n = (e.apply w.runtime).transports.length) ∨
      (e ≠ .connect ∧ e ≠ .disconnect ∧ w.stoppedAt = some n) := by
  cases e with
  | connect => exact absurd hn (by simp [watch])
  | disconnect => exact .inl ⟨rfl, (Option.some.inj hn).symm⟩
  | _ => exact .inr ⟨by simp, by simp, hn⟩

theorem Watched.Settled.watch {w : Watched} (h : w.Settled) {e : Event}
    (hc : ClosesUnscheduled w.runtime e) : (watch w e).Settled where
  intended := Event.intended_apply h.intended e
  scheduled := Event.scheduled_apply h.intended h.scheduled hc
  stopped n hn := by
    rcases stoppedAt_watch hn with ⟨rfl, rfl⟩ | ⟨hconnect, hdisconnect, hold⟩
    · exact h.scheduled.stopped_disconnect
    · exact Event.stopped_apply h.intended (h.stopped n hold) hconnect hdisconnect

theorem Watched.Settled.disconnectFinal {w : Watched} (h : w.Settled) : DisconnectFinal w :=
  ⟨h.scheduled.length_le, fun n hn => ⟨(h.stopped n hn).opened, (h.stopped n hn).state⟩⟩

/-- A close handled with a timer pending leaves two pending. -/
theorem closesUnscheduled_of_length_le {r : Runtime} (h : r.Intended) {e : Event}
    (hlength : (e.apply r).timers.length ≤ 1) : ClosesUnscheduled r e := by
  cases e with
  | closed k =>
    intro hk
    have hintent : r.client.closedByUser = false := by
      refine h.intent ?_
      rw [h.transport_of_hasHandlers hk]
      simp
    obtain ⟨htimers, -⟩ := Runtime.handleClose_timers
      (r := { r with transports := r.transports.modify k .close }) hintent
    rw [Event.apply, if_pos hk, htimers, List.length_append, List.length_singleton] at hlength
    dsimp only at hlength
    exact List.eq_nil_of_length_eq_zero (by omega)
  | _ => trivial

/-- In a run of calls and events, at most one reconnect timer is ever pending and every `disconnect`
is final if and only if no close is handled while a reconnect timer is pending. -/
theorem disconnect_final_iff (backoffScheduleMs : List Nat) (autoConnect : Bool)
    (es : List Event) :
    Runs.Always watch DisconnectFinal (Watched.construct backoffScheduleMs autoConnect) es ↔
      Runs.AllSteps Event.apply ClosesUnscheduled
        (Runtime.construct backoffScheduleMs autoConnect) es := by
  have hstart := Watched.settled_construct backoffScheduleMs autoConnect
  have hmap : Runs.AllSteps Event.apply ClosesUnscheduled
        (Runtime.construct backoffScheduleMs autoConnect) es ↔
      Runs.AllSteps watch (fun w e => ClosesUnscheduled w.runtime e)
        (Watched.construct backoffScheduleMs autoConnect) es :=
    Runs.allSteps_map (g := Watched.runtime) (fun _ _ => rfl)
      (Watched.construct backoffScheduleMs autoConnect) es
  refine Iff.trans ?_ hmap.symm
  constructor
  · intro h
    exact Runs.allSteps_of_always (I := fun w => w.runtime.Intended)
      (fun w e hw => Event.intended_apply hw e)
      (fun w e hw _ hfinal => closesUnscheduled_of_length_le hw hfinal.1) hstart.intended h
  · intro h
    exact (Runs.always_of_allSteps (fun w e hw hc => hw.watch hc) hstart h).imp
      fun w hw => hw.disconnectFinal

/-- The connection drops, the user connects by hand, the new connection drops as well, and the user
disconnects; then the first reconnect timer fires. -/
def orphanTimer : List Event :=
  [.closed 0, .connect, .closed 1, .disconnect, .timer 0]

/-- The client connects again after the disconnect. -/
theorem orphanTimer_not_final :
    ¬ ∀ backoffScheduleMs autoConnect es,
      Runs.Always watch DisconnectFinal (Watched.construct backoffScheduleMs autoConnect) es := by
  intro hall
  have hlast := (hall [500, 1000, 2000, 5000, 10000] true orphanTimer).last
  have hstate := (hlast.2 2 (by decide)).2
  exact absurd hstate (by decide)

end FleetCommand.Dashboard
