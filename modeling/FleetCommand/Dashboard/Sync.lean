import FleetCommand.Dashboard.SocketClient
import FleetCommand.Lib.Runs

/-!
# The client in sync with the server

What each entry point does to the transports, and the invariant of all runs (`Runtime.Ok`): the
transport in use has its handlers and is open, every other one is torn down, nothing is sent before
a transport opens, and what has been sent on the transport in use while connected folds to the
subscriptions held.
-/

set_option autoImplicit false

namespace FleetCommand.Dashboard

open Streaming

/-! ## Frames -/

/-- The subscriptions of a connection after one frame. -/
def applyFrame (subs : Finset SubscribePayload) (frame : Frame) : Finset SubscribePayload :=
  match frame.1 with
  | .subscribe => insert frame.2 subs
  | .unsubscribe => subs.erase frame.2

/-- The subscriptions of a connection after the frames sent on it. -/
def foldFrames (frames : List Frame) : Finset SubscribePayload := frames.foldl applyFrame ∅

@[simp] theorem foldFrames_nil : foldFrames [] = ∅ := rfl

theorem foldFrames_append_singleton (frames : List Frame) (frame : Frame) :
    foldFrames (frames ++ [frame]) = applyFrame (foldFrames frames) frame := by
  rw [foldFrames, List.foldl_append]
  rfl

/-- Subscribing to a list again adds the list. -/
theorem foldFrames_resubscribe (frames : List Frame) (subs : List SubscribePayload) :
    foldFrames (frames ++ subs.map fun sub => (ClientEvent.subscribe, sub)) =
      subs.toFinset ∪ foldFrames frames := by
  induction subs generalizing frames with
  | nil => simp
  | cons sub subs ih =>
    have hsplit : frames ++ (sub :: subs).map (fun sub => (ClientEvent.subscribe, sub)) =
        (frames ++ [(.subscribe, sub)]) ++ subs.map fun sub => (ClientEvent.subscribe, sub) := by
      simp
    rw [hsplit, ih, foldFrames_append_singleton, applyFrame, List.toFinset_cons,
      Finset.union_insert, Finset.insert_union]

namespace Runtime

/-! ## What the entry points do to the transports -/

@[simp] theorem setState_client (r : Runtime) (s : ConnectionState) :
    (r.setState s).client = { r.client with state := s } := by
  rw [setState]
  split
  next h => rw [← h]
  next => rfl

@[simp] theorem setState_transports (r : Runtime) (s : ConnectionState) :
    (r.setState s).transports = r.transports := by
  rw [setState]
  split <;> rfl

@[simp] theorem setState_timers (r : Runtime) (s : ConnectionState) :
    (r.setState s).timers = r.timers := by
  rw [setState]
  split <;> rfl

@[simp] theorem setState_nextHandle (r : Runtime) (s : ConnectionState) :
    (r.setState s).nextHandle = r.nextHandle := by
  rw [setState]
  split <;> rfl

@[simp] theorem onTransport_client (r : Runtime) (f : Transport → Transport) :
    (r.onTransport f).client = r.client := by
  rw [onTransport]
  split <;> rfl

@[simp] theorem onTransport_timers (r : Runtime) (f : Transport → Transport) :
    (r.onTransport f).timers = r.timers := by
  rw [onTransport]
  split <;> rfl

@[simp] theorem onTransport_nextHandle (r : Runtime) (f : Transport → Transport) :
    (r.onTransport f).nextHandle = r.nextHandle := by
  rw [onTransport]
  split <;> rfl

theorem getElem?_onTransport (r : Runtime) (f : Transport → Transport) (j : Nat) :
    (r.onTransport f).transports[j]? =
      if r.client.transport = some j then (r.transports[j]?).map f else r.transports[j]? := by
  rw [onTransport]
  split
  next k hk =>
    rw [List.getElem?_modify, hk]
    by_cases hj : k = j
    · simp [hj]
    · simp [hj]
  next hk => simp [hk]

/-- Every transport but the one in use is torn down. -/
def OthersTornDown (r : Runtime) : Prop :=
  ∀ (k : Nat) t, r.transports[k]? = some t → r.client.transport ≠ some k →
    t.handlers = false ∧ t.closed = true

theorem OthersTornDown.teardownTransport {r : Runtime} (h : r.OthersTornDown) :
    r.teardownTransport.OthersTornDown := by
  intro k t ht _
  have ht' : (r.onTransport .teardown).transports[k]? = some t := ht
  rw [getElem?_onTransport] at ht'
  split at ht'
  · obtain ⟨u, -, rfl⟩ := Option.map_eq_some_iff.1 ht'
    exact ⟨rfl, rfl⟩
  next hk => exact h k t ht' hk

/-- The transport in use. -/
def current (r : Runtime) : Option Transport := r.client.transport.bind fun k => r.transports[k]?

theorem current_onTransport (r : Runtime) (f : Transport → Transport) :
    (r.onTransport f).current = r.current.map f := by
  unfold current
  rw [onTransport_client]
  cases hk : r.client.transport with
  | none => rfl
  | some k => rw [Option.bind_some, Option.bind_some, getElem?_onTransport, if_pos hk]

/-- The transport in use has its handlers and is open, and every other one is torn down. A connected
client has a transport in use. -/
structure Attached (r : Runtime) : Prop where
  inUse : ∀ k, r.client.transport = some k →
    ∃ t, r.transports[k]? = some t ∧ t.handlers = true ∧ t.closed = false
  others : r.OthersTornDown
  connected : r.client.state = .connected → r.client.transport ≠ none

/-- The frames sent on the transport in use: none before it opens, and then frames that fold to the
subscriptions held. -/
def Synced (r : Runtime) : Prop :=
  ∀ t, r.current = some t →
    if r.client.state = .connected then foldFrames t.sent = r.client.subscriptions.values.toFinset
    else t.sent = []

/-- The invariant of every run. -/
structure Ok (r : Runtime) : Prop extends Attached r where
  synced : r.Synced

/-- Without a transport in use. -/
theorem ok_of_idle {r : Runtime} (h : r.OthersTornDown) (hnone : r.client.transport = none)
    (hstate : r.client.state ≠ .connected) : r.Ok where
  inUse k hk := by simp [hnone] at hk
  others := h
  connected hc := absurd hc hstate
  synced t ht := by simp [current, hnone] at ht

/-- Changes of the client apart from its transport and state. -/
theorem Attached.of_same {r r' : Runtime} (h : r.Attached)
    (htransports : r'.transports = r.transports)
    (htransport : r'.client.transport = r.client.transport)
    (hstate : r'.client.state = .connected → r.client.transport ≠ none) : r'.Attached where
  inUse := by
    rw [htransport, htransports]
    exact h.inUse
  others := by
    rw [OthersTornDown]
    rw [htransport, htransports]
    exact h.others
  connected := by
    rw [htransport]
    exact hstate

theorem Attached.emit {r : Runtime} (h : r.Attached) (event : ClientEvent)
    (payload : SubscribePayload) : (r.emit event payload).Attached := by
  rw [Runtime.emit]
  refine ⟨fun k hk => ?_, fun j t ht hj => ?_, ?_⟩
  · rw [onTransport_client] at hk
    obtain ⟨u, hu, hhandlers, hopen⟩ := h.inUse k hk
    refine ⟨u.send (event, payload), ?_, hhandlers, hopen⟩
    rw [getElem?_onTransport, if_pos hk, hu, Option.map_some]
  · rw [onTransport_client] at hj
    rw [getElem?_onTransport, if_neg hj] at ht
    exact h.others j t ht hj
  · rw [onTransport_client]
    exact h.connected

/-! ## Each entry point keeps the invariant -/

theorem Ok.connect {r : Runtime} (h : r.Ok) : r.connect.Ok := by
  rw [Runtime.connect]
  dsimp only
  split
  next k hk => exact ⟨h.toAttached.of_same rfl rfl h.connected, h.synced⟩
  next hnone =>
    have hnew : ∀ (k : Nat) (l : List Transport) t, (l ++ [Transport.opened])[k]? = some t →
        l[k]? = some t ∨ k = l.length ∧ t = .opened := by
      intro k l t ht
      rw [List.getElem?_append] at ht
      split at ht
      · exact .inl ht
      next hk =>
        rw [List.getElem?_singleton] at ht
        split at ht
        · exact .inr ⟨by omega, (Option.some.inj ht).symm⟩
        · exact absurd ht (by simp)
    have hstate : (if r.client.attempt = 0 then ConnectionState.connecting else .reconnecting) ≠
        .connected := by
      split <;> decide
    simp only [setState_transports, setState_client]
    refine ⟨⟨fun k hk => ?_, fun k t ht hk => ?_, fun hc => absurd hc hstate⟩, fun t ht => ?_⟩
    · obtain rfl := Option.some.inj hk
      exact ⟨.opened, by simp, rfl, rfl⟩
    · have hne : r.client.transport ≠ some k := by
        rw [show r.client.transport = none from hnone]
        simp
      rcases hnew k _ t ht with hold | ⟨rfl, -⟩
      · exact h.others k t hold hne
      · exact absurd rfl hk
    -- the new transport has sent nothing, and the client is not connected yet
    · rw [if_neg hstate]
      rcases hnew _ _ t ht with hold | ⟨-, rfl⟩
      · simp at hold
      · rfl

@[simp] theorem cancelReconnect_transports (r : Runtime) :
    r.cancelReconnect.transports = r.transports := by
  rw [cancelReconnect]
  split <;> rfl

@[simp] theorem cancelReconnect_transport (r : Runtime) :
    r.cancelReconnect.client.transport = r.client.transport := by
  rw [cancelReconnect]
  split <;> rfl

/-- Tearing down, whatever the client does next without connecting. -/
theorem OthersTornDown.ok_of_teardown {r r' : Runtime} (h : r.OthersTornDown)
    (htransports : r'.transports = r.teardownTransport.transports)
    (hnone : r'.client.transport = none) (hstate : r'.client.state ≠ .connected) : r'.Ok := by
  refine ok_of_idle (fun k t ht _ => ?_) hnone hstate
  rw [htransports] at ht
  exact h.teardownTransport k t ht (by simp [Runtime.teardownTransport])

theorem Ok.disconnect {r : Runtime} (h : r.Ok) : r.disconnect.Ok := by
  rw [Runtime.disconnect]
  dsimp only
  generalize hr : Runtime.cancelReconnect { r with client := _ } = r'
  have hothers : r'.OthersTornDown := by
    rw [OthersTornDown]
    rw [← hr, cancelReconnect_transports, cancelReconnect_transport]
    exact h.others
  apply hothers.ok_of_teardown
  · exact setState_transports ..
  · simp [Runtime.teardownTransport]
  · simp

theorem OthersTornDown.handleClose {r : Runtime} (h : r.OthersTornDown) : r.handleClose.Ok := by
  rw [Runtime.handleClose]
  dsimp only
  split
  · apply h.ok_of_teardown
    · exact setState_transports ..
    · simp [Runtime.teardownTransport]
    · simp
  · apply h.ok_of_teardown
    · exact setState_transports ..
    · simp [setTimeout, Runtime.teardownTransport]
    · simp [setTimeout]

/-- A change of the subscriptions, with the frame that says so when connected. -/
theorem Ok.changed {r : Runtime} (h : r.Ok) (subs : Subscriptions) (event : ClientEvent)
    (payload : SubscribePayload)
    (hsubs : subs.values.toFinset =
      applyFrame r.client.subscriptions.values.toFinset (event, payload)) :
    let r' := { r with client := { r.client with subscriptions := subs } }
    (if r'.client.state = .connected then r'.emit event payload else r').Ok := by
  intro r'
  have hattached : r'.Attached := h.toAttached.of_same rfl rfl h.connected
  split
  next hc =>
    refine ⟨hattached.emit event payload, fun t ht => ?_⟩
    rw [Runtime.emit, current_onTransport] at ht
    obtain ⟨u, hu, rfl⟩ := Option.map_eq_some_iff.1 ht
    have hsync := h.synced u hu
    rw [if_pos hc] at hsync
    rw [Runtime.emit, onTransport_client, if_pos hc, Transport.send, foldFrames_append_singleton,
      hsync, ← hsubs]
  next hc =>
    refine ⟨hattached, fun t ht => ?_⟩
    have hsync := h.synced t ht
    rw [if_neg hc] at hsync
    rw [if_neg hc, hsync]

theorem Ok.subscribe {r : Runtime} (h : r.Ok) (kind : SubscriptionKind) (id : String) :
    (r.subscribe kind id).Ok :=
  h.changed _ .subscribe ⟨kind, id⟩ (Subscriptions.toFinset_values_set ..)

theorem Ok.unsubscribe {r : Runtime} (h : r.Ok) (kind : SubscriptionKind) (id : String) :
    (r.unsubscribe kind id).Ok :=
  h.changed _ .unsubscribe ⟨kind, id⟩ (Subscriptions.toFinset_values_delete ..)

/-- Sending `subscribe` for a list of subscriptions. -/
theorem Attached.resubscribe {r : Runtime} (h : r.Attached) (subs : List SubscribePayload) :
    (subs.foldl (fun r sub => r.emit .subscribe sub) r).Attached ∧
    (subs.foldl (fun r sub => r.emit .subscribe sub) r).client = r.client ∧
    (subs.foldl (fun r sub => r.emit .subscribe sub) r).current =
      r.current.map fun t => { t with sent := t.sent ++ subs.map fun sub => (.subscribe, sub) } := by
  induction subs generalizing r with
  | nil => simp [h]
  | cons sub subs ih =>
    obtain ⟨hattached, hclient, hcurrent⟩ := ih (h.emit .subscribe sub)
    refine ⟨hattached, ?_, ?_⟩
    · rw [List.foldl_cons, hclient, Runtime.emit, onTransport_client]
    · rw [List.foldl_cons, hcurrent, Runtime.emit, current_onTransport, Option.map_map]
      congr 1
      funext t
      simp [Transport.send]

theorem Ok.handleOpen {r : Runtime} (h : r.Ok) (huse : r.client.transport ≠ none) :
    r.handleOpen.Ok := by
  rw [Runtime.handleOpen]
  dsimp only
  generalize hr : Runtime.setState { r with client := _ } .connected = r'
  have htransports : r'.transports = r.transports := by rw [← hr, setState_transports]
  have hclient : r'.client = { r.client with attempt := 0, state := .connected } := by
    rw [← hr, setState_client]
  have hattached : r'.Attached :=
    h.toAttached.of_same htransports (by rw [hclient]) fun _ => huse
  obtain ⟨hattached', hclient', hcurrent⟩ := hattached.resubscribe r'.client.subscriptions.values
  refine ⟨hattached', fun t ht => ?_⟩
  rw [hcurrent] at ht
  obtain ⟨u, hu, rfl⟩ := Option.map_eq_some_iff.1 ht
  have hsame : r'.current = r.current := by rw [current, current, hclient, htransports]
  have hsync := h.synced u (hsame ▸ hu)
  rw [hclient', hclient, if_pos rfl, foldFrames_resubscribe]
  dsimp only
  -- before the first open nothing was sent; a second open repeats what the frames already hold
  split at hsync
  · rw [hsync, Finset.union_self]
  · rw [hsync, foldFrames_nil, Finset.union_empty]

theorem Ok.reconnect {r : Runtime} (h : r.Ok) : r.reconnect.Ok :=
  Ok.connect ⟨h.toAttached.of_same rfl rfl h.connected, h.synced⟩

theorem ok_construct (backoffScheduleMs : List Nat) (autoConnect : Bool) :
    (construct backoffScheduleMs autoConnect).Ok := by
  have hstart : Ok ⟨⟨backoffScheduleMs, none, .connecting, 0, none, false, .empty⟩, [], [], 0, []⟩ :=
    ok_of_idle (fun k t ht => by simp at ht) rfl (by simp)
  unfold construct
  dsimp only
  split
  · exact hstart.connect
  · exact hstart

/-- Only the transport in use has handlers. -/
theorem Attached.transport_of_hasHandlers {r : Runtime} (h : r.Attached) {k : Nat}
    (hk : r.hasHandlers k = true) : r.client.transport = some k := by
  obtain ⟨t, ht, hhandlers⟩ := Option.any_eq_true .. |>.1 hk
  by_contra hne
  have htorn := (h.others k t ht hne).1
  rw [hhandlers] at htorn
  exact absurd htorn (by decide)

/-- A transport closes by itself. -/
theorem getElem?_close {r : Runtime} {k j : Nat} {t : Transport}
    (ht : (r.transports.modify k .close)[j]? = some t) :
    ∃ u, r.transports[j]? = some u ∧ t.handlers = u.handlers ∧ (u.closed = true → t.closed = true) ∧
      (j ≠ k → t = u) := by
  rw [List.getElem?_modify] at ht
  obtain ⟨u, hu, rfl⟩ := Option.map_eq_some_iff.1 ht
  refine ⟨u, hu, ?_⟩
  rcases eq_or_ne k j with rfl | hj
  · simp [Transport.close]
  · simp [hj]

theorem Ok.closed {r : Runtime} (h : r.Ok) (k : Nat) : (Event.apply r (.closed k)).Ok := by
  have hothers : OthersTornDown { r with transports := r.transports.modify k .close } := by
    intro j t ht hj
    obtain ⟨u, hu, hhandlers, hclosed, -⟩ := getElem?_close ht
    obtain ⟨huh, huc⟩ := h.others j u hu hj
    exact ⟨hhandlers.trans huh, hclosed huc⟩
  rw [Event.apply]
  split
  · exact hothers.handleClose
  next hk =>
    -- the transport in use has its handlers, so it is another one
    have hne : ∀ j, r.client.transport = some j → j ≠ k := by
      rintro j hj rfl
      obtain ⟨t, ht, hhandlers, -⟩ := h.inUse j hj
      exact hk (by rw [hasHandlers, ht, Option.any_some, hhandlers])
    refine ⟨⟨fun j hj => ?_, hothers, h.connected⟩, fun t ht => h.synced t ?_⟩
    · obtain ⟨t, ht, hhandlers, hopen⟩ := h.inUse j hj
      refine ⟨t, ?_, hhandlers, hopen⟩
      simp [(hne j hj).symm, ht]
    · rw [current, Option.bind_eq_some_iff] at ht ⊢
      obtain ⟨j, hj, ht⟩ := ht
      obtain ⟨u, hu, -, -, hsame⟩ := getElem?_close ht
      exact ⟨j, hj, by rw [hsame (hne j hj), hu]⟩

end Runtime

/-! ## Runs -/

theorem Event.ok_apply {r : Runtime} (h : r.Ok) (e : Event) : (e.apply r).Ok := by
  cases e with
  | connect => exact h.connect
  | disconnect => exact h.disconnect
  | subscribe kind id => exact h.subscribe kind id
  | unsubscribe kind id => exact h.unsubscribe kind id
  | opened k =>
    rw [Event.apply]
    split
    next hk =>
      refine h.handleOpen ?_
      rw [h.transport_of_hasHandlers hk]
      simp
    next => exact h
  | closed k => exact h.closed k
  | timer handle =>
    rw [Event.apply]
    split
    · exact Runtime.Ok.reconnect ⟨h.toAttached.of_same rfl rfl h.connected, h.synced⟩
    · exact h

/-- At most one of the transports opened is not closed. -/
def Runtime.OneOpen (r : Runtime) : Prop :=
  ∀ (j k : Nat) t u, r.transports[j]? = some t → r.transports[k]? = some u →
    t.closed = false → u.closed = false → j = k

/-- While connected, the frames sent on the transport in use fold to the subscriptions held. -/
def Runtime.InSync (r : Runtime) : Prop :=
  r.client.state = .connected →
    ∃ t, r.current = some t ∧ foldFrames t.sent = r.client.subscriptions.values.toFinset

theorem Runtime.Ok.oneOpen {r : Runtime} (h : r.Ok) : r.OneOpen := by
  have hopen : ∀ (j : Nat) t, r.transports[j]? = some t → t.closed = false →
      r.client.transport = some j := by
    intro j t ht hc
    by_contra hne
    have htorn := (h.others j t ht hne).2
    rw [hc] at htorn
    exact absurd htorn (by decide)
  intro j k t u ht hu htc huc
  exact Option.some.inj ((hopen j t ht htc).symm.trans (hopen k u hu huc))

theorem Runtime.Ok.inSync {r : Runtime} (h : r.Ok) : r.InSync := by
  intro hc
  obtain ⟨k, hk⟩ := Option.ne_none_iff_exists'.1 (h.connected hc)
  obtain ⟨t, ht, -, -⟩ := h.inUse k hk
  have hcurrent : r.current = some t := by rw [Runtime.current, hk, Option.bind_some, ht]
  have hsync := h.synced t hcurrent
  rw [if_pos hc] at hsync
  exact ⟨t, hcurrent, hsync⟩

/-- In every state of every run, at most one of the transports opened is not closed, and while
connected the frames sent on the transport in use fold to the subscriptions held. -/
theorem subscriptions_in_sync (backoffScheduleMs : List Nat) (autoConnect : Bool)
    (es : List Event) :
    Runs.Always Event.apply (fun r => r.OneOpen ∧ r.InSync)
      (Runtime.construct backoffScheduleMs autoConnect) es := by
  rw [Runs.always_iff_splits]
  intro pre _ _
  have hok := Runs.run_invariant (I := Runtime.Ok) (fun _ e h => Event.ok_apply h e)
    (Runtime.ok_construct backoffScheduleMs autoConnect) pre
  exact ⟨hok.oneOpen, hok.inSync⟩

end FleetCommand.Dashboard
