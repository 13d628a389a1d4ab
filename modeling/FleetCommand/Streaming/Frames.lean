import FleetCommand.Streaming.Delivery

/-!
# Frames between the dashboard and the streaming service

`emit` and `handleMessage` are the dashboard's `SocketClient`; `decodeInbound`, `readFrame` and
`writeJSON` are the streaming transport. The client puts what it sends under `payload` and reads
what it receives from there; the transport reads and writes `data`. The transport ignores the
client's unknown key, so a client frame reaches the hub with an empty kind and changes nothing
(`readFrame_emit`), and a server frame calls no listener (`handleMessage_writeJSON`).
`frames_agree_iff` says exactly where that is what was asked for.
-/

set_option autoImplicit false

namespace FleetCommand.Streaming

/-- The subscribable resource kinds. -/
inductive SubscriptionKind where
  | vehicle
  | delivery

/-- The kind as text. -/
def SubscriptionKind.value : SubscriptionKind → String
  | .vehicle => "vehicle"
  | .delivery => "delivery"

/-- The events a client sends. -/
inductive ClientEvent where
  | subscribe
  | unsubscribe

/-- The client event as text. -/
def ClientEvent.value : ClientEvent → String
  | .subscribe => "subscribe"
  | .unsubscribe => "unsubscribe"

/-- The events the server sends. -/
inductive ServerEvent where
  | position
  | zoneEvent
  | assignment
  | routeUpdate

/-- The server event as text. -/
def ServerEvent.value : ServerEvent → String
  | .position => "position"
  | .zoneEvent => "zoneEvent"
  | .assignment => "assignment"
  | .routeUpdate => "routeUpdate"

/-- The server event of a text. -/
def ServerEvent.ofValue? (s : String) : Option ServerEvent :=
  if s = "position" then some .position
  else if s = "zoneEvent" then some .zoneEvent
  else if s = "assignment" then some .assignment
  else if s = "routeUpdate" then some .routeUpdate
  else none

@[simp] theorem ServerEvent.ofValue?_value (e : ServerEvent) : ofValue? e.value = some e := by
  cases e <;> rfl

/-- What a client subscribes to. -/
structure SubscribePayload where
  kind : SubscriptionKind
  id : String

/-- The document of a subscribe payload. -/
def SubscribePayload.json {N : Type} (p : SubscribePayload) : Json N :=
  .obj [("kind", .str p.kind.value), ("id", .str p.id)]

variable {N Text L : Type} (codec : Json.Codec N Text)

/-! ## The dashboard -/

/-- The frame `emit` sends. -/
def emit (event : ClientEvent) (payload : SubscribePayload) : Text :=
  codec.encode (.obj [("event", .str event.value), ("payload", payload.json)])

/-- Destructuring `null` throws. -/
inductive TypeError where
  | destructuredNull

/-- The listener calls `handleMessage` makes, in order. -/
def handleMessage (eventListeners : ServerEvent → List L) (raw : Text) :
    Except TypeError (List (L × Json N)) :=
  match codec.decode raw with
  | none => .ok []
  | some .null => .error .destructuredNull
  | some parsed => match parsed.member? "event", parsed.member? "payload" with
    -- an absent or `null` payload is ignored
    | _, none | _, some .null => .ok []
    | some (.str event), some payload => match ServerEvent.ofValue? event with
      | some e => .ok ((eventListeners e).map fun fn => (fn, payload))
      | none => .ok []
    | _, _ => .ok []

/-! ## The streaming transport -/

/-- The `data` of an inbound frame. -/
structure InboundData where
  kind : String
  id : String

/-- A client to server control frame. -/
structure Inbound where
  event : String
  data : InboundData

/-- The zero value. -/
def Inbound.zero : Inbound := ⟨"", ⟨"", ""⟩⟩

/-- The case folding of member names, for the letters that fold to an ASCII letter: the long s and
the Kelvin sign besides the ASCII capitals. -/
def foldRune (c : Char) : Char :=
  if c = Char.ofNat 0x017F then 's' else if c = Char.ofNat 0x212A then 'k' else c.toLower

/-- Whether a member is decoded into the field with the given (lower case) name. -/
def isField (key name : String) : Bool := key.toList.map foldRune = name.toList

/-- Decoding into a string field: `null` leaves it, another type fails. -/
def decodeString (cur : String) : Json N → Option String
  | .null => some cur
  | .str s => some s
  | _ => none

/-- The members named `kind` and `id` are taken, the others skipped. -/
def decodeData (cur : InboundData) : Json N → Option InboundData
  | .null => some cur
  | .obj members => members.foldlM (fun d m =>
      if isField m.1 "kind" then (decodeString d.kind m.2).map fun s => { d with kind := s }
      else if isField m.1 "id" then (decodeString d.id m.2).map fun s => { d with id := s }
      else some d) cur
  | _ => none

/-- `json.Unmarshal` into the inbound frame type: unknown keys are ignored, absent ones keep the
zero value, and a value of another type fails. -/
def decodeInbound : Json N → Option Inbound
  | .null => some .zero
  | .obj members => members.foldlM (fun f m =>
      if isField m.1 "event" then (decodeString f.event m.2).map fun s => { f with event := s }
      else if isField m.1 "data" then (decodeData f.data m.2).map fun d => { f with data := d }
      else some f) .zero
  | _ => none

/-- The hub after the read loop has handled one frame of a connection. -/
def readFrame (h : Hub) (connID : String) (raw : Text) : Hub :=
  match (codec.decode raw).bind decodeInbound with
  | none => h
  | some f =>
    if f.event = "subscribe" then h.subscribe connID f.data.kind f.data.id
    else if f.event = "unsubscribe" then h.unsubscribe connID f.data.kind f.data.id
    else h

/-- The frame `wsSink` writes for a message. -/
def writeJSON (msg : Message N) : Text :=
  codec.encode (.obj [("event", .str msg.event), ("data", msg.data)])

/-! ## What each side makes of the other's frames -/

/-- The field each member name is decoded into. -/
theorem isField_table :
    isField "event" "event" = true ∧ isField "data" "event" = false ∧
    isField "data" "data" = true ∧ isField "payload" "event" = false ∧
    isField "payload" "data" = false ∧ isField "kind" "kind" = true ∧
    isField "id" "kind" = false ∧ isField "id" "id" = true := by
  decide

/-- The `payload` member is an unknown key. -/
theorem decodeInbound_emit (event : ClientEvent) (payload : SubscribePayload) :
    decodeInbound (N := N) (.obj [("event", .str event.value), ("payload", payload.json)]) =
      some ⟨event.value, ⟨"", ""⟩⟩ := by
  obtain ⟨h1, -, -, h4, h5, -⟩ := isField_table
  simp [decodeInbound, h1, h4, h5, decodeString, Inbound.zero]

/-- The frame the transport documents, with the payload under `data`. -/
theorem decodeInbound_documented (event : ClientEvent) (payload : SubscribePayload) :
    decodeInbound (N := N) (.obj [("event", .str event.value), ("data", payload.json)]) =
      some ⟨event.value, ⟨payload.kind.value, payload.id⟩⟩ := by
  obtain ⟨h1, h2, h3, -, -, h6, h7, h8⟩ := isField_table
  simp [decodeInbound, decodeData, SubscribePayload.json, h1, h2, h3, h6, h7, h8, decodeString,
    Inbound.zero]

/-- A frame the dashboard sends leaves the hub as it is. -/
theorem readFrame_emit (h : Hub) (connID : String) (event : ClientEvent)
    (payload : SubscribePayload) : readFrame codec h connID (emit codec event payload) = h := by
  have hroom : roomFor "" "" = none := rfl
  rw [readFrame, emit, codec.decode_encode, Option.bind_some, decodeInbound_emit]
  cases event with
  | subscribe => simp [ClientEvent.value, Hub.subscribe, hroom]
  | unsubscribe => simp [ClientEvent.value, Hub.unsubscribe, hroom]

/-- A frame the server writes calls no listener, whatever the data. -/
theorem handleMessage_writeJSON (eventListeners : ServerEvent → List L) (msg : Message N) :
    handleMessage codec eventListeners (writeJSON codec msg) = .ok [] := by
  have hpayload : (Json.obj [("event", .str msg.event), ("data", msg.data)]).member? "payload" =
      none := rfl
  simp only [handleMessage, writeJSON, codec.decode_encode, hpayload]

/-- The transport does what a frame in its own vocabulary asks for. -/
theorem readFrame_documented (h : Hub) (connID : String) (payload : SubscribePayload) :
    readFrame codec h connID
        (codec.encode (.obj [("event", .str ClientEvent.subscribe.value), ("data", payload.json)])) =
      h.subscribe connID payload.kind.value payload.id ∧
    readFrame codec h connID
        (codec.encode (.obj [("event", .str ClientEvent.unsubscribe.value), ("data", payload.json)])) =
      h.unsubscribe connID payload.kind.value payload.id := by
  constructor
  · rw [readFrame, codec.decode_encode, Option.bind_some, decodeInbound_documented]
    simp [ClientEvent.value]
  · rw [readFrame, codec.decode_encode, Option.bind_some, decodeInbound_documented]
    simp [ClientEvent.value]

/-! ## Where that is what was asked for -/

namespace Hub

/-- A subscription that changes nothing: the connection is not live, or it is in the room and its
session has the room persisted. -/
def AlreadySubscribed (h : Hub) (connID room : String) : Prop :=
  ∀ c ∈ h.clients.lookup connID, room ∈ c.rooms ∧ room ∈ h.sessionSubscriptions c.conn.key

/-- An unsubscription that changes nothing. -/
def AlreadyUnsubscribed (h : Hub) (connID room : String) : Prop :=
  ∀ c ∈ h.clients.lookup connID, room ∉ c.rooms ∧ room ∉ h.sessionSubscriptions c.conn.key

instance (h : Hub) (connID room : String) : Decidable (h.AlreadySubscribed connID room) :=
  inferInstanceAs (Decidable (∀ c ∈ h.clients.lookup connID, _))

instance (h : Hub) (connID room : String) : Decidable (h.AlreadyUnsubscribed connID room) :=
  inferInstanceAs (Decidable (∀ c ∈ h.clients.lookup connID, _))

theorem mem_sessionSubscriptions (h : Hub) (key room : String) :
    room ∈ h.sessionSubscriptions key ↔ ∃ sess, h.sessions.lookup key = some sess ∧ room ∈ sess := by
  rw [sessionSubscriptions]
  cases h.sessions.lookup key <;> simp

theorem subscribeRoom_eq_self_iff {h : Hub} (hc : Consistent h) (connID room : String) :
    h.subscribeRoom connID room = h ↔ h.AlreadySubscribed connID room := by
  rw [AlreadySubscribed]
  cases hx : h.clients.lookup connID with
  | none =>
    rw [subscribeRoom_of_none hx]
    simp
  | some c =>
    rw [subscribeRoom_of_some hx]
    simp only [Option.mem_def, Option.some.injEq, forall_eq']
    constructor
    · intro heq
      have hclients := lookup_clients_set hc hx (c.join room) connID
      have hjoined : (h.joinLocked c room).clients.lookup connID = some (c.join room) := by
        rw [joinLocked, hclients, if_pos rfl]
      -- the client after joining has the room, so it has it already
      rw [heq, hx, Option.some.injEq] at hjoined
      have hroom : room ∈ c.rooms := by
        rw [hjoined]
        exact Finset.mem_insert_self ..
      -- and so has its session
      have hsess : room ∈ (h.joinLocked c room).sessionSubscriptions c.conn.key := by
        rw [sessionSubscriptions, joinLocked, GoMap.lookup_set, if_pos rfl]
        cases h.sessions.lookup c.conn.key <;> simp
      rw [heq] at hsess
      exact ⟨hroom, hsess⟩
    · rintro ⟨hroom, hsess⟩
      -- every map is written with the value it has
      have hid := hc.connID connID c hx
      obtain ⟨sess, hsess, hmem⟩ := (mem_sessionSubscriptions h _ _).1 hsess
      -- the member map of the room already has the connection
      have hmember := hc.members room connID
      rw [hx, Option.bind_some, if_pos hroom, memberOf, Option.bind_eq_some_iff] at hmember
      obtain ⟨members, hmembers, hlookup⟩ := hmember
      have hjoin : c.join room = c := by rw [Client.join, Finset.insert_eq_of_mem hroom]
      rw [← hid] at hlookup hx
      simp only [joinLocked, hmembers, Option.getD_some, GoMap.set_eq_self hlookup,
        GoMap.set_eq_self hmembers, hjoin, GoMap.set_eq_self hx, hsess,
        Finset.insert_eq_of_mem hmem, GoMap.set_eq_self hsess]

theorem unsubscribeRoom_eq_self_iff {h : Hub} (hc : Consistent h) (connID room : String) :
    h.unsubscribeRoom connID room = h ↔ h.AlreadyUnsubscribed connID room := by
  rw [AlreadyUnsubscribed]
  cases hx : h.clients.lookup connID with
  | none =>
    rw [unsubscribeRoom_of_none hx]
    simp
  | some c =>
    simp only [Option.mem_def, Option.some.injEq, forall_eq']
    constructor
    · intro heq
      -- the client after leaving has not the room, so it never had, and so with its session
      have hleft := lookup_unsubscribeRoom hc connID room connID
      rw [heq, if_pos rfl, hx, Option.map_some, Option.some.injEq] at hleft
      have hroom : room ∉ c.rooms := by
        rw [hleft]
        exact Finset.notMem_erase room c.rooms
      have hsess : room ∉ (h.unsubscribeRoom connID room).sessionSubscriptions c.conn.key := by
        rw [unsubscribeRoom_of_some hx, sessionSubscriptions]
        cases hs : h.sessions.lookup c.conn.key with
        | none => simp [hs]
        | some sess => simp [GoMap.lookup_set]
      rw [heq] at hsess
      exact ⟨hroom, hsess⟩
    · rintro ⟨hroom, hsess⟩
      have hid := hc.connID connID c hx
      have hleave : c.leave room = c := by rw [Client.leave, Finset.erase_eq_of_notMem hroom]
      -- no member map of the room has the connection; the room is not dropped, having members
      have hremove : h.removeFromRoomLocked room connID = h := by
        rw [removeFromRoomLocked]
        split
        next => rfl
        next members hmembers =>
          have hmember := hc.members room connID
          rw [hx, Option.bind_some, if_neg hroom, memberOf, hmembers, Option.bind_some] at hmember
          rw [GoMap.delete_eq_self hmember, if_neg (hc.noEmptyRoom room members hmembers),
            GoMap.set_eq_self hmembers]
      have hpersisted : ∀ sess, h.sessions.lookup c.conn.key = some sess → sess.erase room = sess := by
        intro sess hs
        refine Finset.erase_eq_of_notMem fun hmem => hsess ?_
        exact (mem_sessionSubscriptions h _ _).2 ⟨sess, hs, hmem⟩
      rw [unsubscribeRoom_of_some hx]
      simp only [leaveLocked, hid, hremove, hleave, GoMap.set_eq_self hx]
      cases hs : h.sessions.lookup c.conn.key with
      | none => rfl
      | some sess => simp only [hpersisted sess hs, GoMap.set_eq_self hs]

end Hub

/-- The room of a subscribe payload. -/
def SubscribePayload.room (p : SubscribePayload) : String :=
  match p.kind with
  | .vehicle => vehicleRoom p.id
  | .delivery => deliveryRoom p.id

/-- The hub after the operation a client event asks for. -/
def Hub.requested (h : Hub) (connID : String) (event : ClientEvent) (p : SubscribePayload) : Hub :=
  match event with
  | .subscribe => h.subscribeRoom connID p.room
  | .unsubscribe => h.unsubscribeRoom connID p.room

/-- The operation a client event asks for changes nothing. -/
def Hub.AlreadyDone (h : Hub) (connID : String) (event : ClientEvent) (p : SubscribePayload) :
    Prop :=
  match event with
  | .subscribe => h.AlreadySubscribed connID p.room
  | .unsubscribe => h.AlreadyUnsubscribed connID p.room

/-- On every hub a run reaches, a frame of the dashboard does what it asks for exactly when that
changes nothing, and a frame of the server calls the listeners of its event exactly when there are
none. -/
theorem frames_agree_iff {ι : Type} [DecidableEq ι] (es : List (ι × HubOp))
    (hfresh : Runs.AllSteps hubStep ConnectsFresh startHubs es) :
    (∀ (i : ι) (connID : String) (event : ClientEvent) (p : SubscribePayload),
      readFrame codec (Runs.run hubStep startHubs es i) connID (emit codec event p) =
          (Runs.run hubStep startHubs es i).requested connID event p ↔
        (Runs.run hubStep startHubs es i).AlreadyDone connID event p) ∧
    ∀ (eventListeners : ServerEvent → List L) (event : ServerEvent) (data : Json N), data ≠ .null →
      (handleMessage codec eventListeners (writeJSON codec ⟨event.value, data⟩) =
          .ok ((eventListeners event).map fun fn => (fn, data)) ↔
        eventListeners event = []) := by
  have hcons : ∀ i, (Runs.run hubStep startHubs es i).Consistent :=
    (run_spec (fun _ => Hub.consistent_new) hfresh).1
  constructor
  · intro i connID event p
    rw [readFrame_emit, eq_comm]
    cases event with
    | subscribe => exact Hub.subscribeRoom_eq_self_iff (hcons i) connID p.room
    | unsubscribe => exact Hub.unsubscribeRoom_eq_self_iff (hcons i) connID p.room
  -- no listener is called: that is every listener exactly when there is none
  · intro eventListeners event data _
    rw [handleMessage_writeJSON, Except.ok.injEq, eq_comm, List.map_eq_nil_iff]

/-- A connection that has joined the room of vehicle `v`. -/
def subscribedRun : List (Fin 1 × HubOp) :=
  [(0, .connect "c1" "s" 1 (.sorted String)), (0, .subscribe "c1" "vehicle" "v")]

/-- Subscribing again changes nothing, and so does the frame. -/
theorem subscribedRun_frame :
    readFrame (.document ℕ) (Runs.run hubStep startHubs subscribedRun 0) "c1"
        (emit (.document ℕ) .subscribe ⟨.vehicle, "v"⟩) =
      (Runs.run hubStep startHubs subscribedRun 0).requested "c1" .subscribe ⟨.vehicle, "v"⟩ :=
  ((frames_agree_iff (L := String) (.document ℕ) subscribedRun (by decide +kernel)).1 0 "c1"
    .subscribe ⟨.vehicle, "v"⟩).2 (show Hub.AlreadySubscribed _ _ _ by decide +kernel)

/-- A subscribe frame for another vehicle does not subscribe the connection, and a position message
does not reach the one listener of its event. -/
theorem frames_disagree :
    readFrame (.document ℕ) (Runs.run hubStep startHubs subscribedRun 0) "c1"
        (emit (.document ℕ) .subscribe ⟨.vehicle, "w"⟩) ≠
      (Runs.run hubStep startHubs subscribedRun 0).requested "c1" .subscribe ⟨.vehicle, "w"⟩ ∧
    handleMessage (.document ℕ) (fun _ => ["listener"])
        (writeJSON (.document ℕ) ⟨ServerEvent.position.value, .obj [("vehicleId", .str "v")]⟩) ≠
      .ok [("listener", .obj [("vehicleId", .str "v")])] := by
  constructor
  · intro h
    -- only the hub asked for has the connection in the room of `w`
    have hmember := congrArg (fun hub => hub.memberOf "vehicle:w" "c1") h
    revert hmember
    decide +kernel
  · rw [handleMessage_writeJSON]
    simp

end FleetCommand.Streaming
