import FleetCommand.Lib.InsertionMap
import FleetCommand.Streaming.Frames
import Mathlib.Data.Finset.Dedup
import Mathlib.Data.List.Basic

/-!
# The dashboard's socket client

`SocketClient` together with what it acts on: the transports its factory has opened and the timers
it has set (`Runtime`). Each entry point runs to completion, so each is one step: the calls of the
user, and the open, close and timer events, in any order. A transport has its handlers until it is
torn down; an event of a transport without handlers calls nothing. The frames are those `emit`
encodes.
-/

set_option autoImplicit false

namespace FleetCommand.Streaming

deriving instance DecidableEq for SubscriptionKind, SubscribePayload

end FleetCommand.Streaming

namespace FleetCommand.Dashboard

open Streaming

/-- The state shown of the connection. -/
inductive ConnectionState where
  | connecting
  | connected
  | reconnecting
  | offline
  deriving DecidableEq

/-- A frame a client sends. -/
abbrev Frame := ClientEvent × SubscribePayload

/-- A transport the client has opened. -/
structure Transport where
  /-- Whether the client's handlers are set on it. -/
  handlers : Bool
  closed : Bool
  sent : List Frame

/-- As the factory and `connect` leave it. -/
def Transport.opened : Transport := ⟨true, false, []⟩

/-- A frame is sent. -/
def Transport.send (t : Transport) (frame : Frame) : Transport :=
  { t with sent := t.sent ++ [frame] }

/-- The transport is closed. -/
def Transport.close (t : Transport) : Transport := { t with closed := true }

/-- The transport without handlers, and closed. -/
def Transport.teardown (t : Transport) : Transport := { t with handlers := false, closed := true }

/-! ## Subscriptions -/

/-- The room key for a subscription. -/
def subKey (p : SubscribePayload) : String := p.kind.value ++ ":" ++ p.id

theorem subKey_injective : Function.Injective subKey := by
  rintro ⟨k, i⟩ ⟨k', i'⟩ h
  have hlist : k.value.toList ++ ':' :: i.toList = k'.value.toList ++ ':' :: i'.toList := by
    have := congrArg String.toList h
    simpa [subKey, String.toList_append] using this
  cases k <;> cases k' <;> simp [SubscriptionKind.value] at hlist ⊢
  all_goals exact String.toList_inj.1 hlist

/-- The client's subscriptions, each under its own key. -/
structure Subscriptions where
  map : InsertionMap String SubscribePayload
  keyed : ∀ key p, map.get? key = some p → key = subKey p

namespace Subscriptions

/-- No subscription. -/
def empty : Subscriptions := ⟨.empty, fun _ _ h => by simp at h⟩

/-- A subscription is recorded under its key. -/
def set (s : Subscriptions) (p : SubscribePayload) : Subscriptions where
  map := s.map.set (subKey p) p
  keyed key q h := by
    rw [InsertionMap.get?_set] at h
    split at h
    next hkey => rw [hkey, Option.some.inj h]
    next => exact s.keyed key q h

/-- The subscription of a key is forgotten. -/
def delete (s : Subscriptions) (p : SubscribePayload) : Subscriptions where
  map := s.map.delete (subKey p)
  keyed key q h := by
    rw [InsertionMap.get?_delete] at h
    split at h
    · exact absurd h (by simp)
    · exact s.keyed key q h

/-- The subscriptions, in the order of their insertion. -/
def values (s : Subscriptions) : List SubscribePayload := s.map.values

theorem mem_values_iff (s : Subscriptions) (p : SubscribePayload) :
    p ∈ s.values ↔ s.map.get? (subKey p) = some p := by
  rw [values, InsertionMap.mem_values_iff]
  constructor
  · rintro ⟨key, hkey⟩
    rwa [← s.keyed key p hkey]
  · exact fun h => ⟨subKey p, h⟩

@[simp] theorem values_empty : empty.values = [] := rfl

theorem toFinset_values_set (s : Subscriptions) (p : SubscribePayload) :
    (s.set p).values.toFinset = insert p s.values.toFinset := by
  ext q
  rw [List.mem_toFinset, Finset.mem_insert, List.mem_toFinset, mem_values_iff, mem_values_iff, set,
    InsertionMap.get?_set]
  rcases eq_or_ne q p with rfl | hq
  · simp
  · rw [if_neg fun h => hq (subKey_injective h)]
    simp [hq]

theorem toFinset_values_delete (s : Subscriptions) (p : SubscribePayload) :
    (s.delete p).values.toFinset = s.values.toFinset.erase p := by
  ext q
  rw [List.mem_toFinset, Finset.mem_erase, List.mem_toFinset, mem_values_iff, mem_values_iff,
    delete, InsertionMap.get?_delete]
  rcases eq_or_ne q p with rfl | hq
  · simp
  · rw [if_neg fun h => hq (subKey_injective h)]
    simp [hq]

end Subscriptions

/-! ## The client and what it acts on -/

/-- The fields of the client. -/
structure SocketClient where
  /-- The backoff delays in ms. -/
  backoffScheduleMs : List Nat
  /-- The transport in use, by its place among those opened. -/
  transport : Option Nat
  state : ConnectionState
  attempt : Nat
  reconnectHandle : Option Nat
  closedByUser : Bool
  subscriptions : Subscriptions

/-- A pending timer, whose callback is the client's reconnect. -/
structure Timer where
  handle : Nat
  /-- In ms; `none` when the schedule has no delay. -/
  delay : Option Nat
  deriving DecidableEq

/-- The client with its transports, its timers and what it has reported. -/
structure Runtime where
  client : SocketClient
  /-- The transports opened, in order. -/
  transports : List Transport
  /-- The pending timers. -/
  timers : List Timer
  nextHandle : Nat
  /-- The calls each state listener has received. -/
  stateChanges : List ConnectionState

namespace Runtime

/-- The state changes, and the listeners are told, when it is another one. -/
def setState (r : Runtime) (s : ConnectionState) : Runtime :=
  if r.client.state = s then r
  else { r with
    client := { r.client with state := s }
    stateChanges := r.stateChanges ++ [s] }

/-- A call on the transport in use, if there is one. -/
def onTransport (r : Runtime) (f : Transport → Transport) : Runtime :=
  match r.client.transport with
  | some k => { r with transports := r.transports.modify k f }
  | none => r

/-- A client event is sent over the transport in use. -/
def emit (r : Runtime) (event : ClientEvent) (payload : SubscribePayload) : Runtime :=
  r.onTransport fun t => t.send (event, payload)

/-- The transport in use is closed and given up, its handlers removed first. -/
def teardownTransport (r : Runtime) : Runtime :=
  let r := r.onTransport .teardown
  { r with client := { r.client with transport := none } }

/-- `setT` of the reconnect callback. -/
def setTimeout (r : Runtime) (delay : Option Nat) : Runtime :=
  { r with
    client := { r.client with reconnectHandle := some r.nextHandle }
    timers := r.timers ++ [⟨r.nextHandle, delay⟩]
    nextHandle := r.nextHandle + 1 }

/-- The timer whose handle is kept is cancelled. -/
def cancelReconnect (r : Runtime) : Runtime :=
  match r.client.reconnectHandle with
  | some h => { r with
      client := { r.client with reconnectHandle := none }
      timers := r.timers.filter fun timer => timer.handle ≠ h }
  | none => r

/-- A transport is opened unless one is in use. -/
def connect (r : Runtime) : Runtime :=
  let r := { r with client := { r.client with closedByUser := false } }
  match r.client.transport with
  | some _ => r
  | none =>
    let r := r.setState (if r.client.attempt = 0 then .connecting else .reconnecting)
    { r with
      client := { r.client with transport := some r.transports.length }
      transports := r.transports ++ [.opened] }

/-- The connection is closed and no reconnect is wanted. -/
def disconnect (r : Runtime) : Runtime :=
  let r := { r with client := { r.client with closedByUser := true } }
  (r.cancelReconnect.teardownTransport).setState .offline

/-- A subscription is recorded, and sent when connected. -/
def subscribe (r : Runtime) (kind : SubscriptionKind) (id : String) : Runtime :=
  let payload := ⟨kind, id⟩
  let r := { r with client := { r.client with subscriptions := r.client.subscriptions.set payload } }
  if r.client.state = .connected then r.emit .subscribe payload else r

/-- A subscription is dropped, and the server told when connected. -/
def unsubscribe (r : Runtime) (kind : SubscriptionKind) (id : String) : Runtime :=
  let payload := ⟨kind, id⟩
  let r :=
    { r with client := { r.client with subscriptions := r.client.subscriptions.delete payload } }
  if r.client.state = .connected then r.emit .unsubscribe payload else r

/-- The `onopen` handler. -/
def handleOpen (r : Runtime) : Runtime :=
  let r := { r with client := { r.client with attempt := 0 } }
  let r := r.setState .connected
  r.client.subscriptions.values.foldl (fun r sub => r.emit .subscribe sub) r

/-- The `onclose` handler. -/
def handleClose (r : Runtime) : Runtime :=
  let r := r.teardownTransport
  if r.client.closedByUser then r.setState .offline
  else
    let r := r.setState .reconnecting
    let schedule := r.client.backoffScheduleMs
    let delay := schedule[min r.client.attempt (schedule.length - 1)]?
    let r := { r with client := { r.client with attempt := r.client.attempt + 1 } }
    r.setTimeout delay

/-- The callback of a reconnect timer. -/
def reconnect (r : Runtime) : Runtime :=
  { r with client := { r.client with reconnectHandle := none } }.connect

/-- A client just constructed. -/
def construct (backoffScheduleMs : List Nat) (autoConnect : Bool) : Runtime :=
  let r : Runtime :=
    ⟨⟨backoffScheduleMs, none, .connecting, 0, none, false, .empty⟩, [], [], 0, []⟩
  if autoConnect then r.connect else r

/-- Whether an event of transport `k` calls a handler. -/
def hasHandlers (r : Runtime) (k : Nat) : Bool := (r.transports[k]?).any fun t => t.handlers

end Runtime

/-- A call of the user, or an event of a transport or a timer. -/
inductive Event where
  | connect
  | disconnect
  | subscribe (kind : SubscriptionKind) (id : String)
  | unsubscribe (kind : SubscriptionKind) (id : String)
  | opened (k : Nat)
  | closed (k : Nat)
  | timer (handle : Nat)

/-- What an event does; a transport without handlers is not heard. -/
def Event.apply (r : Runtime) : Event → Runtime
  | .connect => r.connect
  | .disconnect => r.disconnect
  | .subscribe kind id => r.subscribe kind id
  | .unsubscribe kind id => r.unsubscribe kind id
  | .opened k => if r.hasHandlers k then r.handleOpen else r
  | .closed k =>
    let r' := { r with transports := r.transports.modify k .close }
    if r.hasHandlers k then r'.handleClose else r'
  | .timer handle =>
    if r.timers.any fun timer => timer.handle = handle then
      { r with timers := r.timers.filter fun timer => timer.handle ≠ handle }.reconnect
    else r

end FleetCommand.Dashboard
