import FleetCommand.Streaming.Delivery

/-!
# Sessions of a hub

What each request does to the rooms a session has persisted and to its status. Both are kept per
session, while membership is kept per connection; so with several live connections of one session
they can drift apart. A live connection's rooms stay persisted exactly while no request unsubscribes
a room that another live connection of the session is in (`rooms_resumable_iff`), and the status
stays truthful exactly while no connection drops that is not the last of its session
(`status_truthful_iff`).
-/

set_option autoImplicit false

namespace FleetCommand.Streaming

namespace Hub

/-- The session of a live connection. -/
def sessionOf (h : Hub) (connID : String) : Option String :=
  (h.clients.lookup connID).map fun c => c.conn.key

/-- The connection ids in a room's member map. -/
def membersOf (h : Hub) (room : String) : Finset String := ((h.rooms.lookup room).getD ∅).keys

theorem sessionOf_eq_some_iff {h : Hub} {x key : String} :
    h.sessionOf x = some key ↔ ∃ c, h.clients.lookup x = some c ∧ c.conn.key = key :=
  Option.map_eq_some_iff

theorem isSome_sessionOf_iff (h : Hub) (x : String) :
    (h.sessionOf x).isSome ↔ x ∈ h.clients.keys := by
  rw [GoMap.mem_keys_iff, sessionOf, Option.isSome_map, Option.isSome_iff_exists]

theorem isSome_memberOf_iff (h : Hub) (room x : String) :
    (h.memberOf room x).isSome ↔ x ∈ h.membersOf room := by
  rw [membersOf, memberOf, GoMap.mem_keys_iff, Option.isSome_iff_exists]
  cases h.rooms.lookup room <;> simp

/-- A consistent hub's member map of a room holds the live connections that have the room. -/
theorem Consistent.isSome_memberOf_iff {h : Hub} (hc : Consistent h) (room x : String) :
    (h.memberOf room x).isSome ↔ ∃ c, h.clients.lookup x = some c ∧ room ∈ c.rooms := by
  rw [hc.members]
  cases h.clients.lookup x with
  | none => simp
  | some c =>
    by_cases hr : room ∈ c.rooms
    · simp [hr]
    · simp [hr]

/-- A request for a kind and id is one for their room, or is ignored. -/
theorem subscribe_cases {P : Hub → Prop} {h : Hub} {x : String} (hP : P h)
    (hroom : ∀ room, P (h.subscribeRoom x room)) (kind id : String) :
    P (h.subscribe x kind id) := by
  rw [subscribe]
  split
  · exact hroom _
  · exact hP

theorem unsubscribe_cases {P : Hub → Prop} {h : Hub} {x : String} (hP : P h)
    (hroom : ∀ room, P (h.unsubscribeRoom x room)) (kind id : String) :
    P (h.unsubscribe x kind id) := by
  rw [unsubscribe]
  split
  · exact hroom _
  · exact hP

/-! ## What the requests do to the persisted rooms -/

theorem sessionSubscriptions_joinLocked (h : Hub) (c : Client) (room key : String) :
    (h.joinLocked c room).sessionSubscriptions key =
      if c.conn.key = key then insert room (h.sessionSubscriptions key)
      else h.sessionSubscriptions key := by
  rw [sessionSubscriptions, joinLocked, GoMap.lookup_set]
  rcases eq_or_ne c.conn.key key with rfl | hkey
  · rw [if_pos rfl, if_pos rfl, sessionSubscriptions]
    cases h.sessions.lookup c.conn.key <;> rfl
  · rw [if_neg hkey.symm, if_neg hkey, sessionSubscriptions]

theorem sessionSubscriptions_subscribeRoom (h : Hub) (x room key : String) :
    (h.subscribeRoom x room).sessionSubscriptions key =
      if h.sessionOf x = some key then insert room (h.sessionSubscriptions key)
      else h.sessionSubscriptions key := by
  cases hx : h.clients.lookup x with
  | none => rw [subscribeRoom_of_none hx, sessionOf, hx, if_neg (by simp)]
  | some c =>
    rw [subscribeRoom_of_some hx, sessionSubscriptions_joinLocked, sessionOf, hx]
    simp only [Option.map_some, Option.some.injEq]

theorem sessionSubscriptions_unsubscribeRoom (h : Hub) (x room key : String) :
    (h.unsubscribeRoom x room).sessionSubscriptions key =
      if h.sessionOf x = some key then (h.sessionSubscriptions key).erase room
      else h.sessionSubscriptions key := by
  cases hx : h.clients.lookup x with
  | none => rw [unsubscribeRoom_of_none hx, sessionOf, hx, if_neg (by simp)]
  | some c =>
    rw [unsubscribeRoom_of_some hx, sessionOf, hx]
    simp only [Option.map_some, Option.some.injEq, sessionSubscriptions]
    rcases eq_or_ne c.conn.key key with rfl | hkey
    · rw [if_pos rfl]
      cases hsess : h.sessions.lookup c.conn.key with
      | none => simp [hsess]
      | some sess => simp [GoMap.lookup_set]
    · rw [if_neg hkey]
      cases h.sessions.lookup c.conn.key with
      | none => rfl
      | some sess => simp only [GoMap.lookup_set, if_neg hkey.symm]

theorem sessionOf_subscribeRoom {h : Hub} (hc : Consistent h) (x room y : String) :
    (h.subscribeRoom x room).sessionOf y = h.sessionOf y := by
  rw [sessionOf, lookup_subscribeRoom hc, sessionOf]
  split
  · rw [Option.map_map]
    rfl
  · rfl

theorem sessionOf_unsubscribeRoom {h : Hub} (hc : Consistent h) (x room y : String) :
    (h.unsubscribeRoom x room).sessionOf y = h.sessionOf y := by
  rw [sessionOf, lookup_unsubscribeRoom hc, sessionOf]
  split
  · rw [Option.map_map]
    rfl
  · rfl

/-- Rejoining rooms a session has persisted already persists nothing new. -/
theorem sessionSubscriptions_rejoin {h : Hub} (hc : Consistent h) {x key : String}
    (hx : h.sessionOf x = some key) {rooms : List String}
    (hrooms : ∀ room ∈ rooms, room ∈ h.sessionSubscriptions key) (k : String) :
    (rooms.foldl (fun h room => h.subscribeRoom x room) h).sessionSubscriptions k =
      h.sessionSubscriptions k := by
  induction rooms generalizing h with
  | nil => rfl
  | cons room rooms ih =>
    have hsame : ∀ k, (h.subscribeRoom x room).sessionSubscriptions k =
        h.sessionSubscriptions k := by
      intro k
      rw [sessionSubscriptions_subscribeRoom]
      split
      next hk =>
        obtain rfl := Option.some.inj (hx.symm.trans hk)
        exact Finset.insert_eq_of_mem (hrooms room List.mem_cons_self)
      next => rfl
    have hx' : (h.subscribeRoom x room).sessionOf x = some key :=
      (sessionOf_subscribeRoom hc x room x).trans hx
    rw [List.foldl_cons, ih (hc.subscribeRoom x room) hx', hsame]
    intro r hr
    rw [hsame]
    exact hrooms r (List.mem_cons_of_mem room hr)

theorem sessionSubscriptions_connect {h : Hub} (hc : Consistent h) {x : String}
    (hx : h.clients.lookup x = none) (key : String) (sink : Nat) (order : RangeOrder String)
    (k : String) :
    (h.connect x key sink order).sessionSubscriptions k = h.sessionSubscriptions k := by
  have hreg := hc.register hx key sink
  have hlive : ∀ h' : Hub, h'.clients = h.clients.set x ⟨⟨x, key, sink⟩, ∅⟩ →
      h'.sessionOf x = some key := by
    intro h' hclients
    rw [sessionOf, hclients, GoMap.lookup_set, if_pos rfl, Option.map_some]
  have hprior : ∀ room ∈ order.list (h.sessionSubscriptions key),
      room ∈ h.sessionSubscriptions key := fun room hr => (order.mem_list _ room).1 hr
  rw [connect]
  dsimp only
  cases hsess : h.sessions.lookup key with
  | some sess =>
    rw [sessionSubscriptions, setStatusLocked_sessions]
    exact sessionSubscriptions_rejoin hreg (hlive _ rfl) hprior k
  | none =>
    -- a session without an entry gets an empty one, which reads the same
    have hnew : ∀ k', Hub.sessionSubscriptions
        { h with clients := h.clients.set x ⟨⟨x, key, sink⟩, ∅⟩
                 sessions := h.sessions.set key (h.sessionSubscriptions key) } k' =
        h.sessionSubscriptions k' := by
      intro k'
      rw [sessionSubscriptions, GoMap.lookup_set]
      split
      next hk => rw [hk, Option.getD_some]
      next => rfl
    rw [sessionSubscriptions, setStatusLocked_sessions]
    refine (sessionSubscriptions_rejoin (hreg.withSessions _) (hlive _ rfl) ?_ k).trans (hnew k)
    exact fun room hr => (Finset.ext_iff.1 (hnew key) room).2 (hprior room hr)

theorem sessionSubscriptions_disconnect (h : Hub) (x : String) (order : RangeOrder String)
    (key : String) :
    (h.disconnect x order).sessionSubscriptions key = h.sessionSubscriptions key := by
  have hrelease : ∀ rooms : List String,
      (rooms.foldl (fun h room => h.removeFromRoomLocked room x) h).sessions = h.sessions :=
    Runs.run_invariant (I := fun h' => h'.sessions = h.sessions)
      (fun h' room hs => (removeFromRoomLocked_sessions h' room x).trans hs) rfl
  cases hx : h.clients.lookup x with
  | none => rw [disconnect_of_none hx]
  | some c =>
    rw [disconnect_of_some hx, sessionSubscriptions, setStatusLocked_sessions]
    dsimp only
    rw [hrelease, sessionSubscriptions]

/-! ## What the requests do to the sessions of connections and to the statuses -/

theorem sessionOf_connect {h : Hub} (hc : Consistent h) {x : String}
    (hx : h.clients.lookup x = none) (key : String) (sink : Nat) (order : RangeOrder String)
    (y : String) :
    (h.connect x key sink order).sessionOf y = if y = x then some key else h.sessionOf y := by
  rw [sessionOf, (connect_spec hc hx key sink order).2]
  split <;> rfl

theorem sessionOf_disconnect {h : Hub} (hc : Consistent h) (x : String) (order : RangeOrder String)
    (y : String) :
    (h.disconnect x order).sessionOf y = if y = x then none else h.sessionOf y := by
  rw [sessionOf, (disconnect_spec hc x order).2]
  split <;> rfl

theorem statusOf_setStatusLocked (h : Hub) (k : String) (s : ConnectionStatus) (key : String) :
    (h.setStatusLocked k s).statusOf key = if key = k then s else h.statusOf key := by
  rw [setStatusLocked]
  split
  next hs =>
    split
    next hk => rw [hk, hs]
    next => rfl
  next =>
    rw [statusOf, GoMap.lookup_set]
    split
    next => rfl
    next => rfl

theorem statusOf_subscribeRoom (h : Hub) (x room key : String) :
    (h.subscribeRoom x room).statusOf key = h.statusOf key := by
  cases hx : h.clients.lookup x with
  | none => rw [subscribeRoom_of_none hx]
  | some c =>
    rw [subscribeRoom_of_some hx]
    rfl

theorem statusOf_removeFromRoomLocked (h : Hub) (room x key : String) :
    (h.removeFromRoomLocked room x).statusOf key = h.statusOf key := by
  rw [removeFromRoomLocked]
  split
  · rfl
  · split <;> rfl

theorem statusOf_unsubscribeRoom (h : Hub) (x room key : String) :
    (h.unsubscribeRoom x room).statusOf key = h.statusOf key := by
  cases hx : h.clients.lookup x with
  | none => rw [unsubscribeRoom_of_none hx]
  | some c =>
    rw [unsubscribeRoom_of_some hx]
    exact statusOf_removeFromRoomLocked h room c.conn.connID key

theorem statusOf_connect (h : Hub) (x k : String) (sink : Nat) (order : RangeOrder String)
    (key : String) :
    (h.connect x k sink order).statusOf key =
      if key = k then .connected else h.statusOf key := by
  have hrange : ∀ (rooms : List String) (h' : Hub),
      (rooms.foldl (fun h room => h.subscribeRoom x room) h').statusOf key = h'.statusOf key := by
    intro rooms h'
    exact Runs.run_invariant (I := fun h'' => h''.statusOf key = h'.statusOf key)
      (fun h'' room hs => (statusOf_subscribeRoom h'' x room key).trans hs) rfl rooms
  rw [connect]
  dsimp only
  split
  · rw [statusOf_setStatusLocked, hrange]
    rfl
  · rw [statusOf_setStatusLocked, hrange]
    rfl

theorem statusOf_disconnect (h : Hub) (x : String) (order : RangeOrder String) (key : String) :
    (h.disconnect x order).statusOf key =
      if h.sessionOf x = some key then .disconnected else h.statusOf key := by
  cases hx : h.clients.lookup x with
  | none => rw [disconnect_of_none hx, sessionOf, hx, if_neg (by simp)]
  | some c =>
    have hrange : ∀ rooms : List String,
        (rooms.foldl (fun h room => h.removeFromRoomLocked room x) h).statusOf key =
          h.statusOf key :=
      Runs.run_invariant (I := fun h' => h'.statusOf key = h.statusOf key)
        (fun h' room hs => (statusOf_removeFromRoomLocked h' room x key).trans hs) rfl
    rw [disconnect_of_some hx, statusOf_setStatusLocked, sessionOf, hx, Option.map_some]
    rcases eq_or_ne key c.conn.key with rfl | hkey
    · rw [if_pos rfl, if_pos rfl]
    · rw [if_neg hkey, if_neg fun hk => hkey (Option.some.inj hk).symm]
      exact hrange _

end Hub

/-! ## The rooms of live connections -/

/-- A `Connect` has a fresh connection id: no live connection of the hub has it. -/
def FreshConnect (h : Hub) : HubOp → Prop
  | .connect connID _ _ _ => h.clients.lookup connID = none
  | _ => True

instance (h : Hub) (op : HubOp) : Decidable (FreshConnect h op) := by
  unfold FreshConnect
  cases op <;> infer_instance

theorem HubOp.consistent_apply {h : Hub} (hc : h.Consistent) {op : HubOp}
    (hfresh : FreshConnect h op) : (op.apply h).Consistent := by
  refine (HubOp.apply_spec hc op ?_).1
  rintro connID key sink order rfl
  exact hfresh

namespace Hub

/-- Every room a live connection is a member of is persisted for its session. -/
def RoomsPersisted (h : Hub) : Prop :=
  ∀ x key, h.sessionOf x = some key → ∀ room, (h.memberOf room x).isSome →
    room ∈ h.sessionSubscriptions key

/-- When a live connection drops and its session connects again, the new connection is a member of
every room the dropped one was in. -/
def ReconnectRejoins (h : Hub) : Prop :=
  ∀ x key, h.sessionOf x = some key → ∀ y sink order order',
    (h.disconnect x order).clients.lookup y = none → ∀ room, (h.memberOf room x).isSome →
      (((h.disconnect x order).connect y key sink order').memberOf room y).isSome

theorem Consistent.roomsPersisted_iff {h : Hub} (hc : Consistent h) :
    h.RoomsPersisted ↔
      ∀ x c, h.clients.lookup x = some c → c.rooms ⊆ h.sessionSubscriptions c.conn.key := by
  constructor
  · intro hp x c hx room hr
    exact hp x c.conn.key (sessionOf_eq_some_iff.2 ⟨c, hx, rfl⟩) room
      ((hc.isSome_memberOf_iff room x).2 ⟨c, hx, hr⟩)
  · intro hp x key hkey room hr
    obtain ⟨c, hx, rfl⟩ := sessionOf_eq_some_iff.1 hkey
    obtain ⟨d, hd, hroom⟩ := (hc.isSome_memberOf_iff room x).1 hr
    obtain rfl := Option.some.inj (hx.symm.trans hd)
    exact hp x c hx hroom

/-- The connection that resumes a session is a member of exactly the session's persisted rooms. -/
theorem isSome_memberOf_connect {h : Hub} (hc : Consistent h) {x : String}
    (hx : h.clients.lookup x = none) (key : String) (sink : Nat) (order : RangeOrder String)
    (room : String) :
    ((h.connect x key sink order).memberOf room x).isSome ↔ room ∈ h.sessionSubscriptions key := by
  obtain ⟨hcons, hlive⟩ := connect_spec hc hx key sink order
  rw [hcons.isSome_memberOf_iff, hlive, if_pos rfl]
  simp

theorem RoomsPersisted.reconnectRejoins {h : Hub} (hc : Consistent h) (hp : h.RoomsPersisted) :
    h.ReconnectRejoins := by
  intro x key hkey y sink order order' hy room hr
  rw [isSome_memberOf_connect (disconnect_spec hc x order).1 hy,
    sessionSubscriptions_disconnect]
  exact hp x key hkey room hr

theorem RoomsPersisted.connect {h : Hub} (hc : Consistent h) (hp : h.RoomsPersisted) {x : String}
    (hx : h.clients.lookup x = none) (key : String) (sink : Nat) (order : RangeOrder String) :
    (h.connect x key sink order).RoomsPersisted := by
  obtain ⟨hcons, hlive⟩ := connect_spec hc hx key sink order
  rw [hcons.roomsPersisted_iff]
  rw [hc.roomsPersisted_iff] at hp
  intro y c hy
  rw [sessionSubscriptions_connect hc hx]
  rw [hlive] at hy
  split at hy
  next =>
    -- the new connection has joined exactly what is persisted
    obtain rfl := Option.some.inj hy
    exact Finset.Subset.refl _
  next => exact hp y c hy

theorem RoomsPersisted.subscribeRoom {h : Hub} (hc : Consistent h) (hp : h.RoomsPersisted)
    (x room : String) : (h.subscribeRoom x room).RoomsPersisted := by
  rw [(hc.subscribeRoom x room).roomsPersisted_iff]
  rw [hc.roomsPersisted_iff] at hp
  intro y c hy
  rw [sessionSubscriptions_subscribeRoom]
  rw [lookup_subscribeRoom hc] at hy
  split at hy
  next hyx =>
    -- the room joined is persisted for the session that joins it
    subst hyx
    obtain ⟨d, hd, rfl⟩ := Option.map_eq_some_iff.1 hy
    have hkey : h.sessionOf y = some (d.join room).conn.key :=
      sessionOf_eq_some_iff.2 ⟨d, hd, rfl⟩
    rw [if_pos hkey]
    exact Finset.insert_subset_insert room (hp y d hd)
  next =>
    split
    · exact (hp y c hy).trans (Finset.subset_insert room _)
    · exact hp y c hy

theorem RoomsPersisted.disconnect {h : Hub} (hc : Consistent h) (hp : h.RoomsPersisted)
    (x : String) (order : RangeOrder String) : (h.disconnect x order).RoomsPersisted := by
  obtain ⟨hcons, hlive⟩ := disconnect_spec hc x order
  rw [hcons.roomsPersisted_iff]
  rw [hc.roomsPersisted_iff] at hp
  intro y c hy
  rw [sessionSubscriptions_disconnect]
  rw [hlive] at hy
  split at hy
  · exact absurd hy (by simp)
  · exact hp y c hy

/-- No other member of the room is of the session of connection `x`. -/
def AloneIn (h : Hub) (x room : String) : Prop :=
  ∀ y, (h.memberOf room y).isSome → h.sessionOf y = h.sessionOf x → y = x

instance (h : Hub) (x room : String) : Decidable (h.AloneIn x room) :=
  decidable_of_iff (∀ y ∈ h.membersOf room, h.sessionOf y = h.sessionOf x → y = x)
    (forall_congr' fun y => by rw [isSome_memberOf_iff])

/-- Unsubscribing keeps the rooms of live connections persisted exactly when no other connection of
the session is in the room. -/
theorem roomsPersisted_unsubscribeRoom_iff {h : Hub} (hc : Consistent h) (hp : h.RoomsPersisted)
    (x room : String) : (h.unsubscribeRoom x room).RoomsPersisted ↔ h.AloneIn x room := by
  rw [(hc.unsubscribeRoom x room).roomsPersisted_iff]
  rw [hc.roomsPersisted_iff] at hp
  constructor
  · intro hp' y hy hkey
    by_contra hne
    obtain ⟨c, hlive, hr⟩ := (hc.isSome_memberOf_iff room y).1 hy
    -- the other connection still has the room, which its session has forgotten
    have hsub := hp' y c (by rw [lookup_unsubscribeRoom hc, if_neg hne, hlive])
    rw [sessionSubscriptions_unsubscribeRoom,
      if_pos (hkey.symm.trans (sessionOf_eq_some_iff.2 ⟨c, hlive, rfl⟩))] at hsub
    exact Finset.notMem_erase room _ (hsub hr)
  · intro halone y c hy
    rw [sessionSubscriptions_unsubscribeRoom]
    rw [lookup_unsubscribeRoom hc] at hy
    split at hy
    next hyx =>
      subst hyx
      obtain ⟨d, hd, rfl⟩ := Option.map_eq_some_iff.1 hy
      have hkey : h.sessionOf y = some (d.leave room).conn.key :=
        sessionOf_eq_some_iff.2 ⟨d, hd, rfl⟩
      rw [if_pos hkey]
      exact Finset.erase_subset_erase room (hp y d hd)
    next hne =>
      split
      next hkey =>
        have hr : room ∉ c.rooms := by
          intro hr
          refine hne (halone y ((hc.isSome_memberOf_iff room y).2 ⟨c, hy, hr⟩) ?_)
          rw [hkey]
          exact sessionOf_eq_some_iff.2 ⟨c, hy, rfl⟩
        exact Finset.subset_erase.2 ⟨hp y c hy, hr⟩
      next => exact hp y c hy

end Hub

/-- The request does not unsubscribe a room that another connection of the session is in. -/
def SparesOthers (h : Hub) : HubOp → Prop
  | .unsubscribeRoom connID room => h.AloneIn connID room
  | .unsubscribe connID kind id => ∀ room ∈ roomFor kind id, h.AloneIn connID room
  | _ => True

instance (h : Hub) (op : HubOp) : Decidable (SparesOthers h op) := by
  unfold SparesOthers
  cases op <;> infer_instance

/-- A request keeps the rooms of live connections persisted exactly when it spares the others. -/
theorem HubOp.roomsPersisted_apply_iff {h : Hub} (hc : h.Consistent) (hp : h.RoomsPersisted)
    {op : HubOp} (hfresh : FreshConnect h op) :
    (op.apply h).RoomsPersisted ↔ SparesOthers h op := by
  cases op with
  | connect connID key sink order =>
    exact iff_of_true (hp.connect hc hfresh key sink order) trivial
  | subscribeRoom connID room => exact iff_of_true (hp.subscribeRoom hc connID room) trivial
  | subscribe connID kind id =>
    exact iff_of_true (Hub.subscribe_cases hp (hp.subscribeRoom hc connID) kind id) trivial
  | unsubscribeRoom connID room =>
    exact Hub.roomsPersisted_unsubscribeRoom_iff hc hp connID room
  | unsubscribe connID kind id =>
    rw [HubOp.apply, Hub.unsubscribe, SparesOthers]
    cases roomFor kind id with
    | none => exact iff_of_true hp (by simp)
    | some room => simpa using Hub.roomsPersisted_unsubscribeRoom_iff hc hp connID room
  | disconnect connID order => exact iff_of_true (hp.disconnect hc connID order) trivial

theorem Hub.roomsPersisted_new : Hub.new.RoomsPersisted := by
  intro x key hkey
  simp [Hub.sessionOf, Hub.new] at hkey

/-- In a run with fresh connection ids, the rooms of live connections are persisted, and rejoined by
the session's next connection, in every state exactly when no request unsubscribes a room that
another connection of the session is in. -/
theorem rooms_resumable_iff (ops : List HubOp)
    (hfresh : Runs.AllSteps HubOp.apply FreshConnect Hub.new ops) :
    Runs.Always HubOp.apply (fun h => h.RoomsPersisted ∧ h.ReconnectRejoins) Hub.new ops ↔
      Runs.AllSteps HubOp.apply SparesOthers Hub.new ops := by
  have hstart : Hub.new.RoomsPersisted ∧ Hub.new.ReconnectRejoins :=
    ⟨Hub.roomsPersisted_new, Hub.roomsPersisted_new.reconnectRejoins Hub.consistent_new⟩
  apply Runs.always_iff_allSteps_of (I := Hub.Consistent)
    (fun h op hc hf => HubOp.consistent_apply hc hf) ?_ Hub.consistent_new hstart hfresh
  intro h op hc hf hP
  rw [← HubOp.roomsPersisted_apply_iff hc hP.1 hf]
  constructor
  · exact fun hp => hp.1
  · exact fun hp => ⟨hp, hp.reconnectRejoins (HubOp.consistent_apply hc hf)⟩

/-- Two tabs of one session in one room; the first unsubscribes it. -/
def twoTabs : List HubOp :=
  [.connect "c1" "s" 1 (.sorted String), .subscribe "c1" "vehicle" "v",
    .connect "c2" "s" 2 (.sorted String), .unsubscribe "c1" "vehicle" "v"]

/-- The second tab stays in the room its session has forgotten. -/
theorem twoTabs_not_resumable :
    ¬ ∀ ops, Runs.AllSteps HubOp.apply FreshConnect Hub.new ops →
      Runs.Always HubOp.apply (fun h => h.RoomsPersisted ∧ h.ReconnectRejoins) Hub.new ops := by
  intro hall
  have hlast := (hall twoTabs (by decide +kernel)).last
  have hroom := hlast.1 "c2" "s" (by decide +kernel) "vehicle:v" (by decide +kernel)
  exact absurd hroom (by decide +kernel)

/-- Two tabs of which only the first is in the room it unsubscribes. -/
def separateTabs : List HubOp :=
  [.connect "c1" "s" 1 (.sorted String), .connect "c2" "s" 2 (.sorted String),
    .subscribe "c1" "vehicle" "v", .unsubscribe "c1" "vehicle" "v"]

theorem separateTabs_resumable :
    Runs.Always HubOp.apply (fun h => h.RoomsPersisted ∧ h.ReconnectRejoins) Hub.new
      separateTabs :=
  (rooms_resumable_iff separateTabs (by decide +kernel)).2 (by decide +kernel)

/-! ## The status of sessions -/

/-- A session is connected exactly while some connection of it is live. -/
def Hub.StatusTruthful (h : Hub) : Prop :=
  ∀ key, h.statusOf key = .connected ↔ ∃ x, h.sessionOf x = some key

/-- The request does not drop a connection while another of its session is live. -/
def DropsLast (h : Hub) : HubOp → Prop
  | .disconnect connID _ =>
    ∀ y, (h.sessionOf y).isSome → h.sessionOf y = h.sessionOf connID → y = connID
  | _ => True

instance (h : Hub) (op : HubOp) : Decidable (DropsLast h op) := by
  cases op
  case disconnect connID order =>
    exact decidable_of_iff
      (∀ y ∈ h.clients.keys, h.sessionOf y = h.sessionOf connID → y = connID)
      (forall_congr' fun y => by rw [h.isSome_sessionOf_iff])
  all_goals exact inferInstanceAs (Decidable True)

namespace Hub

/-- A request that changes neither a status nor the session of a connection keeps the status
truthful. -/
theorem StatusTruthful.of_same {h h' : Hub} (ht : h.StatusTruthful)
    (hstatus : ∀ key, h'.statusOf key = h.statusOf key)
    (hsession : ∀ x, h'.sessionOf x = h.sessionOf x) : h'.StatusTruthful := by
  intro key
  simp only [hstatus, hsession]
  exact ht key

theorem StatusTruthful.subscribeRoom {h : Hub} (hc : Consistent h) (ht : h.StatusTruthful)
    (x room : String) : (h.subscribeRoom x room).StatusTruthful :=
  ht.of_same (statusOf_subscribeRoom h x room) (sessionOf_subscribeRoom hc x room)

theorem StatusTruthful.unsubscribeRoom {h : Hub} (hc : Consistent h) (ht : h.StatusTruthful)
    (x room : String) : (h.unsubscribeRoom x room).StatusTruthful :=
  ht.of_same (statusOf_unsubscribeRoom h x room) (sessionOf_unsubscribeRoom hc x room)

theorem StatusTruthful.connect {h : Hub} (hc : Consistent h) (ht : h.StatusTruthful) {x : String}
    (hx : h.clients.lookup x = none) (k : String) (sink : Nat) (order : RangeOrder String) :
    (h.connect x k sink order).StatusTruthful := by
  intro key
  rw [statusOf_connect]
  simp only [sessionOf_connect hc hx]
  rcases eq_or_ne key k with rfl | hkey
  · rw [if_pos rfl]
    exact iff_of_true rfl ⟨x, if_pos rfl⟩
  · rw [if_neg hkey, ht key]
    -- the new connection is of session `k`, and no connection was live under its id
    constructor
    · rintro ⟨y, hy⟩
      refine ⟨y, ?_⟩
      rw [if_neg, hy]
      rintro rfl
      simp [sessionOf, hx] at hy
    · rintro ⟨y, hy⟩
      split at hy
      · exact absurd (Option.some.inj hy).symm hkey
      · exact ⟨y, hy⟩

/-- A drop keeps the status truthful exactly when no other connection of the session is live. -/
theorem statusTruthful_disconnect_iff {h : Hub} (hc : Consistent h) (ht : h.StatusTruthful)
    (x : String) (order : RangeOrder String) :
    (h.disconnect x order).StatusTruthful ↔ DropsLast h (.disconnect x order) := by
  constructor
  · intro ht' y hy hkey
    by_contra hne
    obtain ⟨key, hk⟩ := Option.isSome_iff_exists.1 hy
    -- the other connection is still live, but its session has been reported disconnected
    have hstatus := (ht' key).2 ⟨y, by rw [sessionOf_disconnect hc, if_neg hne, hk]⟩
    rw [statusOf_disconnect, if_pos (hkey.symm.trans hk)] at hstatus
    exact absurd hstatus (by decide)
  · intro hlast key
    rw [statusOf_disconnect]
    simp only [sessionOf_disconnect hc]
    split
    next hx =>
      refine iff_of_false (by decide) ?_
      rintro ⟨y, hy⟩
      split at hy
      · exact absurd hy (by simp)
      next hne => exact hne (hlast y (by rw [hy]; rfl) (hy.trans hx.symm))
    next hx =>
      rw [ht key]
      constructor
      · rintro ⟨y, hy⟩
        refine ⟨y, ?_⟩
        rw [if_neg, hy]
        rintro rfl
        exact hx hy
      · rintro ⟨y, hy⟩
        split at hy
        · exact absurd hy (by simp)
        · exact ⟨y, hy⟩

end Hub

theorem HubOp.statusTruthful_apply_iff {h : Hub} (hc : h.Consistent) (ht : h.StatusTruthful)
    {op : HubOp} (hfresh : FreshConnect h op) :
    (op.apply h).StatusTruthful ↔ DropsLast h op := by
  cases op with
  | connect connID key sink order =>
    exact iff_of_true (ht.connect hc hfresh key sink order) trivial
  | subscribeRoom connID room => exact iff_of_true (ht.subscribeRoom hc connID room) trivial
  | subscribe connID kind id =>
    exact iff_of_true (Hub.subscribe_cases ht (ht.subscribeRoom hc connID) kind id) trivial
  | unsubscribeRoom connID room => exact iff_of_true (ht.unsubscribeRoom hc connID room) trivial
  | unsubscribe connID kind id =>
    exact iff_of_true (Hub.unsubscribe_cases ht (ht.unsubscribeRoom hc connID) kind id) trivial
  | disconnect connID order => exact Hub.statusTruthful_disconnect_iff hc ht connID order

theorem Hub.statusTruthful_new : Hub.new.StatusTruthful := by
  intro key
  simp [Hub.statusOf, Hub.sessionOf, Hub.new]

/-- In a run with fresh connection ids, the status of every session is truthful in every state
exactly when no connection drops while another of its session is live. -/
theorem status_truthful_iff (ops : List HubOp)
    (hfresh : Runs.AllSteps HubOp.apply FreshConnect Hub.new ops) :
    Runs.Always HubOp.apply Hub.StatusTruthful Hub.new ops ↔
      Runs.AllSteps HubOp.apply DropsLast Hub.new ops :=
  Runs.always_iff_allSteps_of (I := Hub.Consistent)
    (fun _ _ hc hf => HubOp.consistent_apply hc hf)
    (fun _ _ hc hf ht => HubOp.statusTruthful_apply_iff hc ht hf)
    Hub.consistent_new Hub.statusTruthful_new hfresh

/-- A reconnect before the old socket is reaped. -/
def lateReap : List HubOp :=
  [.connect "c1" "s" 1 (.sorted String), .connect "c2" "s" 2 (.sorted String),
    .disconnect "c1" (.sorted String)]

/-- The session of the live connection is reported disconnected. -/
theorem lateReap_not_truthful :
    ¬ ∀ ops, Runs.AllSteps HubOp.apply FreshConnect Hub.new ops →
      Runs.Always HubOp.apply Hub.StatusTruthful Hub.new ops := by
  intro hall
  have hlast := (hall lateReap (by decide +kernel)).last
  have hstatus := (hlast "s").2 ⟨"c2", by decide +kernel⟩
  exact absurd hstatus (by decide +kernel)

/-- A drop before the reconnect. -/
def earlyReap : List HubOp :=
  [.connect "c1" "s" 1 (.sorted String), .disconnect "c1" (.sorted String),
    .connect "c2" "s" 2 (.sorted String)]

theorem earlyReap_truthful : Runs.Always HubOp.apply Hub.StatusTruthful Hub.new earlyReap :=
  (status_truthful_iff earlyReap (by decide +kernel)).2 (by decide +kernel)

end FleetCommand.Streaming
