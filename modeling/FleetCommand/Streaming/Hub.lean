import FleetCommand.Lib.GoMap
import FleetCommand.Lib.Json
import FleetCommand.Lib.Runs
import Mathlib.Data.String.Basic

/-!
# The streaming hub

The hub of one replica: the live connections, the members of each room, the rooms each session has
persisted and the status of each session. Every operation runs under the hub's lock, so it is one
step. A `*Client` of the source is the connection id it is registered under; its immutable part
(`Conn`) is what a room's member map is used for. A set kept as a `map[string]bool` is a `Finset`.

The order of a `range` is an argument of the operations that have one.
-/

set_option autoImplicit false

namespace FleetCommand.Streaming

/-- The live signal the hub surfaces for each session. -/
inductive ConnectionStatus where
  | disconnected
  | connected
  deriving DecidableEq

/-- The immutable part of a registered connection; the sink by its identity. -/
structure Conn where
  connID : String
  key : String
  sink : Nat
  deriving DecidableEq

/-- A registered connection and the rooms it has joined. -/
structure Client where
  conn : Conn
  rooms : Finset String

/-- The client with a room recorded on it. -/
def Client.join (c : Client) (room : String) : Client := { c with rooms := insert room c.rooms }

/-- The client with a room cleared on it. -/
def Client.leave (c : Client) (room : String) : Client := { c with rooms := c.rooms.erase room }

/-- An event name and its JSON payload. -/
structure Message (N : Type) where
  event : String
  data : Json N

/-- A message addressed to a room. -/
structure Envelope (N : Type) where
  room : String
  message : Message N

/-! ## Rooms -/

/-- The room of a vehicle. -/
def vehicleRoom (id : String) : String := "vehicle:" ++ id

/-- The room of a delivery. -/
def deliveryRoom (id : String) : String := "delivery:" ++ id

/-- The room of a subscription request; `none` when the kind is not recognized. -/
def roomFor (kind id : String) : Option String :=
  if kind = "vehicle" then some (vehicleRoom id)
  else if kind = "delivery" then some (deliveryRoom id)
  else none

/-! ## The hub -/

/-- The connections, the rooms, and what is kept of a session between connections. -/
structure Hub where
  clients : GoMap String Client
  rooms : GoMap String (GoMap String Conn)
  sessions : GoMap String (Finset String)
  status : GoMap String ConnectionStatus
  /-- The calls each status listener has received. -/
  statusChanges : List (String × ConnectionStatus)

namespace Hub

/-- No connection. -/
def new : Hub := ⟨∅, ∅, ∅, ∅, []⟩

/-- The rooms persisted for a session. -/
def sessionSubscriptions (h : Hub) (key : String) : Finset String := (h.sessions.lookup key).getD ∅

/-- A session without an entry is disconnected. -/
def statusOf (h : Hub) (key : String) : ConnectionStatus := (h.status.lookup key).getD .disconnected

/-- The connection registered in a room's member map under an id. -/
def memberOf (h : Hub) (room connID : String) : Option Conn :=
  (h.rooms.lookup room).bind fun members => members.lookup connID

/-- The status of a session; the listeners are told when it is another one. -/
def setStatusLocked (h : Hub) (key : String) (status : ConnectionStatus) : Hub :=
  if h.statusOf key = status then h
  else { h with
    status := h.status.set key status
    statusChanges := h.statusChanges ++ [(key, status)] }

/-- Adds a client to a room, records it on the client and persists it on the session. -/
def joinLocked (h : Hub) (c : Client) (room : String) : Hub :=
  { h with
    rooms := h.rooms.set room (((h.rooms.lookup room).getD ∅).set c.conn.connID c.conn)
    clients := h.clients.set c.conn.connID (c.join room)
    sessions := h.sessions.set c.conn.key (match h.sessions.lookup c.conn.key with
      | some sess => insert room sess
      | none => {room}) }

/-- Removes a connection from a room's member map, dropping the empty room. -/
def removeFromRoomLocked (h : Hub) (room connID : String) : Hub :=
  match h.rooms.lookup room with
  | none => h
  | some members =>
    if (members.delete connID).keys = ∅ then { h with rooms := h.rooms.delete room }
    else { h with rooms := h.rooms.set room (members.delete connID) }

/-- Removes a client from a room and clears it on the client; the session is not touched. -/
def leaveLocked (h : Hub) (c : Client) (room : String) : Hub :=
  let h := h.removeFromRoomLocked room c.conn.connID
  { h with clients := h.clients.set c.conn.connID (c.leave room) }

/-- A live connection joins a room. -/
def subscribeRoom (h : Hub) (connID room : String) : Hub :=
  match h.clients.lookup connID with
  | some c => h.joinLocked c room
  | none => h

/-- A live connection joins the room of a resource. -/
def subscribe (h : Hub) (connID kind id : String) : Hub :=
  match roomFor kind id with
  | some room => h.subscribeRoom connID room
  | none => h

/-- A live connection leaves a room, which its session forgets. -/
def unsubscribeRoom (h : Hub) (connID room : String) : Hub :=
  match h.clients.lookup connID with
  | none => h
  | some c =>
    let h := h.leaveLocked c room
    match h.sessions.lookup c.conn.key with
    | some sess => { h with sessions := h.sessions.set c.conn.key (sess.erase room) }
    | none => h

/-- A live connection leaves the room of a resource. -/
def unsubscribe (h : Hub) (connID kind id : String) : Hub :=
  match roomFor kind id with
  | some room => h.unsubscribeRoom connID room
  | none => h

/-- Registers a connection and rejoins the rooms its session has persisted. Joining through the
connection id is `joinLocked` of the client just registered. -/
def connect (h : Hub) (connID key : String) (sink : Nat) (order : RangeOrder String) : Hub :=
  let h := { h with clients := h.clients.set connID ⟨⟨connID, key, sink⟩, ∅⟩ }
  let prior := h.sessionSubscriptions key
  let h := match h.sessions.lookup key with
    | some _ => h
    | none => { h with sessions := h.sessions.set key prior }
  let h := (order.list prior).foldl (fun h room => h.subscribeRoom connID room) h
  h.setStatusLocked key .connected

/-- Releases a connection, retaining what its session has persisted. -/
def disconnect (h : Hub) (connID : String) (order : RangeOrder String) : Hub :=
  match h.clients.lookup connID with
  | none => h
  | some c =>
    let h := (order.list c.rooms).foldl (fun h room => h.removeFromRoomLocked room connID) h
    let h := { h with clients := h.clients.delete connID }
    h.setStatusLocked c.conn.key .disconnected

/-- The `Deliver` calls an envelope makes on this replica, in order. -/
def deliverLocal {N : Type} (h : Hub) (order : RangeOrder String) (env : Envelope N) :
    List (Conn × Message N) :=
  let members := (h.rooms.lookup env.room).getD ∅
  (order.list members.keys).filterMap fun connID =>
    (members.lookup connID).map fun c => (c, env.message)

end Hub

/-- A request of one replica's hub. -/
inductive HubOp where
  | connect (connID key : String) (sink : Nat) (order : RangeOrder String)
  | subscribeRoom (connID room : String)
  | subscribe (connID kind id : String)
  | unsubscribeRoom (connID room : String)
  | unsubscribe (connID kind id : String)
  | disconnect (connID : String) (order : RangeOrder String)

/-- The hub after an operation. -/
def HubOp.apply (h : Hub) : HubOp → Hub
  | .connect connID key sink order => h.connect connID key sink order
  | .subscribeRoom connID room => h.subscribeRoom connID room
  | .subscribe connID kind id => h.subscribe connID kind id
  | .unsubscribeRoom connID room => h.unsubscribeRoom connID room
  | .unsubscribe connID kind id => h.unsubscribe connID kind id
  | .disconnect connID order => h.disconnect connID order

/-! ## Replicas on one broker -/

section Replicas

variable {ι : Type} [DecidableEq ι]

/-- Every replica's hub, all new. -/
def startHubs : ι → Hub := fun _ => .new

/-- A request arrives at one replica. -/
def hubStep (hubs : ι → Hub) (e : ι × HubOp) : ι → Hub :=
  Function.update hubs e.1 (e.2.apply (hubs e.1))

/-- A broadcast: the broker hands the envelope once to every replica's `deliverLocal`. -/
def broadcast {N : Type} (hubs : ι → Hub) (orders : ι → RangeOrder String) (room : String)
    (msg : Message N) : ι → List (Conn × Message N) :=
  fun i => (hubs i).deliverLocal (orders i) ⟨room, msg⟩

end Replicas

end FleetCommand.Streaming
