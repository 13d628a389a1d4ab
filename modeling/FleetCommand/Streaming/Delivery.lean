import FleetCommand.Streaming.Hub
import Mathlib.Data.Finset.Dedup

/-!
# Exact delivery

What a hub's requests do to its three maps, and that the maps agree (`Hub.Consistent`): a room's
member map holds exactly the live connections that have the room in their own set, under their ids,
and no member map is empty. A broadcast then reaches each live connection of the room once
(`broadcast_exact`), where the room set of a connection is followed through the run by `roomSet`.
-/

set_option autoImplicit false

namespace FleetCommand.Streaming

/-- In a list without two entries of one key, the entries of the key of an entry are that entry. -/
theorem filter_eq_singleton_of_nodup_map {α β : Type} [DecidableEq β] {f : α → β} {l : List α}
    (hl : (l.map f).Nodup) {a : α} (ha : a ∈ l) : l.filter (fun b => f b = f a) = [a] := by
  induction l with
  | nil => exact absurd ha List.not_mem_nil
  | cons b l ih =>
    rw [List.map_cons, List.nodup_cons] at hl
    rcases List.mem_cons.1 ha with rfl | ha
    · have hrest : l.filter (fun b => f b = f a) = [] := by
        rw [List.filter_eq_nil_iff]
        intro b hb hf
        exact hl.1 (of_decide_eq_true hf ▸ List.mem_map_of_mem hb)
      rw [List.filter_cons_of_pos (by simp), hrest]
    · have hne : f b ≠ f a := fun hf => hl.1 (hf ▸ List.mem_map_of_mem ha)
      rw [List.filter_cons_of_neg (by simpa using hne), ih hl.2 ha]

namespace Hub

/-! ## What the requests do to the maps -/

@[simp] theorem setStatusLocked_clients (h : Hub) (key : String) (s : ConnectionStatus) :
    (h.setStatusLocked key s).clients = h.clients := by
  rw [setStatusLocked]
  split <;> rfl

@[simp] theorem setStatusLocked_rooms (h : Hub) (key : String) (s : ConnectionStatus) :
    (h.setStatusLocked key s).rooms = h.rooms := by
  rw [setStatusLocked]
  split <;> rfl

@[simp] theorem setStatusLocked_sessions (h : Hub) (key : String) (s : ConnectionStatus) :
    (h.setStatusLocked key s).sessions = h.sessions := by
  rw [setStatusLocked]
  split <;> rfl

@[simp] theorem removeFromRoomLocked_clients (h : Hub) (room x : String) :
    (h.removeFromRoomLocked room x).clients = h.clients := by
  rw [removeFromRoomLocked]
  split
  · rfl
  · split <;> rfl

@[simp] theorem removeFromRoomLocked_sessions (h : Hub) (room x : String) :
    (h.removeFromRoomLocked room x).sessions = h.sessions := by
  rw [removeFromRoomLocked]
  split
  · rfl
  · split <;> rfl

theorem memberOf_joinLocked (h : Hub) (c : Client) (room r x : String) :
    (h.joinLocked c room).memberOf r x =
      if r = room ∧ x = c.conn.connID then some c.conn else h.memberOf r x := by
  rw [memberOf, joinLocked, GoMap.lookup_set]
  rcases eq_or_ne r room with rfl | hr
  · rw [if_pos rfl, Option.bind_some, GoMap.lookup_set]
    -- within the room: a client has one entry, under its id
    rcases eq_or_ne x c.conn.connID with rfl | hx
    · simp
    · rw [if_neg hx, if_neg fun hrx => hx hrx.2, memberOf]
      cases h.rooms.lookup r <;> simp
  · rw [if_neg hr, if_neg fun hrx => hr hrx.1, memberOf]

theorem memberOf_removeFromRoomLocked (h : Hub) (room x r y : String) :
    (h.removeFromRoomLocked room x).memberOf r y =
      if r = room ∧ y = x then none else h.memberOf r y := by
  rw [removeFromRoomLocked]
  cases hroom : h.rooms.lookup room with
  | none =>
    rcases eq_or_ne r room with rfl | hr
    · simp [memberOf, hroom]
    · simp [hr]
  | some members =>
    have hdel : (members.delete x).lookup y = if y = x then none else members.lookup y :=
      GoMap.lookup_delete ..
    rcases eq_or_ne r room with rfl | hr
    · have hold : h.memberOf r y = members.lookup y := by rw [memberOf, hroom, Option.bind_some]
      simp only [true_and, hold, ← hdel]
      split
      next hempty =>
        -- the dropped member map has no entry left
        have hnone : (members.delete x).lookup y = none := by
          rw [Finmap.lookup_eq_none, ← Finmap.mem_keys, hempty]
          exact Finset.notMem_empty y
        simp [memberOf, GoMap.lookup_delete, hnone]
      next => simp [memberOf, GoMap.lookup_set]
    · simp only [hr, false_and, if_false]
      split
      · simp [memberOf, GoMap.lookup_delete, hr]
      · simp [memberOf, GoMap.lookup_set, hr]

/-- No member map is empty. -/
def NoEmptyRoom (h : Hub) : Prop :=
  ∀ room members, h.rooms.lookup room = some members → members.keys ≠ ∅

/-- The three maps of the hub agree. -/
structure Consistent (h : Hub) : Prop where
  connID : ∀ x c, h.clients.lookup x = some c → c.conn.connID = x
  members : ∀ room x, h.memberOf room x =
    (h.clients.lookup x).bind fun c => if room ∈ c.rooms then some c.conn else none
  noEmptyRoom : h.NoEmptyRoom

theorem consistent_new : Consistent new where
  connID _ _ h := by simp [new] at h
  members _ _ := by simp [memberOf, new]
  noEmptyRoom _ _ h := by simp [new] at h

theorem NoEmptyRoom.removeFromRoomLocked {h : Hub} (hn : h.NoEmptyRoom) (room x : String) :
    (h.removeFromRoomLocked room x).NoEmptyRoom := by
  intro r ms hr
  unfold Hub.removeFromRoomLocked at hr
  cases hroom : h.rooms.lookup room with
  | none =>
    rw [hroom] at hr
    exact hn r ms hr
  | some members =>
    simp only [hroom] at hr
    split at hr
    · rw [GoMap.lookup_delete] at hr
      split at hr
      · exact absurd hr (by simp)
      · exact hn r ms hr
    next hne =>
      rw [GoMap.lookup_set] at hr
      split at hr
      · obtain rfl := Option.some.inj hr
        exact hne
      · exact hn r ms hr

/-- Setting the status leaves the maps as they are. -/
theorem Consistent.setStatusLocked {h : Hub} (hc : Consistent h) (key : String)
    (s : ConnectionStatus) : Consistent (h.setStatusLocked key s) where
  connID x c := by
    rw [setStatusLocked_clients]
    exact hc.connID x c
  members room x := by
    rw [memberOf, setStatusLocked_rooms, setStatusLocked_clients]
    exact hc.members room x
  noEmptyRoom := by
    rw [NoEmptyRoom, setStatusLocked_rooms]
    exact hc.noEmptyRoom

/-- A client of the hub replaced under its id. -/
theorem lookup_clients_set {h : Hub} (hc : Consistent h) {x : String} {c : Client}
    (hx : h.clients.lookup x = some c) (c' : Client) (y : String) :
    (h.clients.set c.conn.connID c').lookup y =
      if y = x then some c' else h.clients.lookup y := by
  rw [GoMap.lookup_set, hc.connID x c hx]

/-- A client replaced by one of the same connection is still stored under its id. -/
theorem connID_clients_set {h : Hub} (hc : Consistent h) {x : String} {c : Client}
    (hx : h.clients.lookup x = some c) {c' : Client} (hconn : c'.conn = c.conn) (y : String)
    (d : Client) (hd : (h.clients.set c.conn.connID c').lookup y = some d) : d.conn.connID = y := by
  rw [lookup_clients_set hc hx] at hd
  split at hd
  next hy =>
    obtain rfl := Option.some.inj hd
    rw [hy, hconn]
    exact hc.connID x c hx
  next => exact hc.connID y d hd

theorem Consistent.joinLocked {h : Hub} (hc : Consistent h) {x : String} {c : Client}
    (hx : h.clients.lookup x = some c) (room : String) : Consistent (h.joinLocked c room) where
  connID := connID_clients_set hc hx rfl
  members r y := by
    rw [memberOf_joinLocked, Hub.joinLocked, lookup_clients_set hc hx, hc.connID x c hx, hc.members]
    rcases eq_or_ne y x with rfl | hy
    · simp only [and_true, if_true, hx, Option.bind_some, Client.join, Finset.mem_insert]
      -- whether `r` is the joined room, and whether `x` was in it
      split <;> split <;> simp_all
    · rw [if_neg fun h => hy h.2, if_neg hy]
  noEmptyRoom := by
    intro r ms hr
    rw [Hub.joinLocked, GoMap.lookup_set] at hr
    split at hr
    · obtain rfl := Option.some.inj hr
      -- the member map of the joined room has the client itself
      have hmem : c.conn.connID ∈ (((h.rooms.lookup room).getD ∅).set c.conn.connID c.conn).keys :=
        (GoMap.mem_keys_iff _ _).2 ⟨c.conn, by rw [GoMap.lookup_set, if_pos rfl]⟩
      exact Finset.ne_empty_of_mem hmem
    · exact hc.noEmptyRoom r ms hr

theorem Consistent.leaveLocked {h : Hub} (hc : Consistent h) {x : String} {c : Client}
    (hx : h.clients.lookup x = some c) (room : String) : Consistent (h.leaveLocked c room) where
  connID y d hd := by
    rw [Hub.leaveLocked, removeFromRoomLocked_clients] at hd
    have hconn : (c.leave room).conn = c.conn := rfl
    exact connID_clients_set hc hx hconn y d hd
  members r y := by
    -- recording the client under its id changes no member map
    have hleft : (h.leaveLocked c room).memberOf r y =
        (h.removeFromRoomLocked room c.conn.connID).memberOf r y := rfl
    rw [hleft, memberOf_removeFromRoomLocked, Hub.leaveLocked, removeFromRoomLocked_clients,
      lookup_clients_set hc hx, hc.connID x c hx, hc.members]
    rcases eq_or_ne y x with rfl | hy
    · simp only [and_true, if_true, hx, Option.bind_some, Client.leave, Finset.mem_erase]
      split <;> split <;> simp_all
    · rw [if_neg fun h => hy h.2, if_neg hy]
  noEmptyRoom := hc.noEmptyRoom.removeFromRoomLocked room c.conn.connID

/-- A change of the persisted rooms leaves the other maps as they are. -/
theorem Consistent.withSessions {h : Hub} (hc : Consistent h)
    (sessions : GoMap String (Finset String)) : Consistent { h with sessions := sessions } :=
  ⟨hc.connID, hc.members, hc.noEmptyRoom⟩

/-! ## Subscribing -/

theorem subscribeRoom_of_none {h : Hub} {x : String} (hx : h.clients.lookup x = none)
    (room : String) : h.subscribeRoom x room = h := by
  rw [Hub.subscribeRoom, hx]

theorem subscribeRoom_of_some {h : Hub} {x : String} {c : Client}
    (hx : h.clients.lookup x = some c) (room : String) :
    h.subscribeRoom x room = h.joinLocked c room := by
  rw [Hub.subscribeRoom, hx]

theorem unsubscribeRoom_of_none {h : Hub} {x : String} (hx : h.clients.lookup x = none)
    (room : String) : h.unsubscribeRoom x room = h := by
  rw [Hub.unsubscribeRoom, hx]

theorem unsubscribeRoom_of_some {h : Hub} {x : String} {c : Client}
    (hx : h.clients.lookup x = some c) (room : String) :
    h.unsubscribeRoom x room = { h.leaveLocked c room with
      sessions := match h.sessions.lookup c.conn.key with
        | some sess => h.sessions.set c.conn.key (sess.erase room)
        | none => h.sessions } := by
  -- the session is looked up after leaving, which does not touch it
  have hsessions : (h.leaveLocked c room).sessions = h.sessions :=
    removeFromRoomLocked_sessions h room c.conn.connID
  rw [Hub.unsubscribeRoom, hx]
  simp only [hsessions]
  cases h.sessions.lookup c.conn.key with
  | none => simp only [← hsessions]
  | some sess => rfl

theorem Consistent.subscribeRoom {h : Hub} (hc : Consistent h) (x room : String) :
    Consistent (h.subscribeRoom x room) := by
  cases hx : h.clients.lookup x with
  | none =>
    rw [subscribeRoom_of_none hx]
    exact hc
  | some c =>
    rw [subscribeRoom_of_some hx]
    exact hc.joinLocked hx room

theorem Consistent.unsubscribeRoom {h : Hub} (hc : Consistent h) (x room : String) :
    Consistent (h.unsubscribeRoom x room) := by
  cases hx : h.clients.lookup x with
  | none =>
    rw [unsubscribeRoom_of_none hx]
    exact hc
  | some c =>
    rw [unsubscribeRoom_of_some hx]
    exact (hc.leaveLocked hx room).withSessions _

theorem lookup_subscribeRoom {h : Hub} (hc : Consistent h) (x room y : String) :
    (h.subscribeRoom x room).clients.lookup y =
      if y = x then (h.clients.lookup y).map (·.join room) else h.clients.lookup y := by
  cases hx : h.clients.lookup x with
  | none =>
    rw [subscribeRoom_of_none hx]
    split
    next hy => rw [hy, hx, Option.map_none]
    next => rfl
  | some c =>
    rw [subscribeRoom_of_some hx, Hub.joinLocked, lookup_clients_set hc hx]
    split
    next hy => rw [hy, hx, Option.map_some]
    next => rfl

theorem lookup_unsubscribeRoom {h : Hub} (hc : Consistent h) (x room y : String) :
    (h.unsubscribeRoom x room).clients.lookup y =
      if y = x then (h.clients.lookup y).map (·.leave room) else h.clients.lookup y := by
  cases hx : h.clients.lookup x with
  | none =>
    rw [unsubscribeRoom_of_none hx]
    split
    next hy => rw [hy, hx, Option.map_none]
    next => rfl
  | some c =>
    rw [unsubscribeRoom_of_some hx, Hub.leaveLocked, removeFromRoomLocked_clients,
      lookup_clients_set hc hx]
    split
    next hy => rw [hy, hx, Option.map_some]
    next => rfl

/-! ## Connecting -/

/-- Rejoining a list of rooms. -/
theorem rejoin {h : Hub} (hc : Consistent h) (x : String) (rooms : List String) :
    Consistent (rooms.foldl (fun h room => h.subscribeRoom x room) h) ∧
    ∀ y, (rooms.foldl (fun h room => h.subscribeRoom x room) h).clients.lookup y =
      if y = x then (h.clients.lookup y).map fun c => ⟨c.conn, c.rooms ∪ rooms.toFinset⟩
      else h.clients.lookup y := by
  induction rooms generalizing h with
  | nil =>
    refine ⟨hc, fun y => ?_⟩
    split <;> simp
  | cons room rooms ih =>
    obtain ⟨hcons, hrooms⟩ := ih (hc.subscribeRoom x room)
    refine ⟨hcons, fun y => ?_⟩
    rw [List.foldl_cons, hrooms, lookup_subscribeRoom hc]
    split
    -- joining one room and then the others
    · rw [Option.map_map, List.toFinset_cons]
      congr 1
      funext c
      simp [Client.join, Finset.insert_union]
    · rfl

/-- A fresh connection id: no live connection of the hub has it. -/
theorem Consistent.register {h : Hub} (hc : Consistent h) {x : String}
    (hx : h.clients.lookup x = none) (key : String) (sink : Nat) :
    Consistent { h with clients := h.clients.set x ⟨⟨x, key, sink⟩, ∅⟩ } where
  connID y d hd := by
    rw [GoMap.lookup_set] at hd
    split at hd
    next hy =>
      obtain rfl := Option.some.inj hd
      exact hy.symm
    next => exact hc.connID y d hd
  members r y := by
    have hmember := hc.members r y
    rw [GoMap.lookup_set]
    split
    next hy =>
      -- a connection that was not live was in no member map
      subst hy
      rw [hx, Option.bind_none] at hmember
      rw [Option.bind_some, if_neg (Finset.notMem_empty r)]
      exact hmember
    next => exact hmember
  noEmptyRoom := hc.noEmptyRoom

theorem connect_spec {h : Hub} (hc : Consistent h) {x : String}
    (hx : h.clients.lookup x = none) (key : String) (sink : Nat) (order : RangeOrder String) :
    Consistent (h.connect x key sink order) ∧
    ∀ y, (h.connect x key sink order).clients.lookup y =
      if y = x then some ⟨⟨x, key, sink⟩, h.sessionSubscriptions key⟩ else h.clients.lookup y := by
  have hreg := hc.register hx key sink
  have hlist : (order.list (h.sessionSubscriptions key)).toFinset = h.sessionSubscriptions key := by
    ext r
    rw [List.mem_toFinset, order.mem_list]
  -- the entry `Connect` may add to `sessions` changes neither the clients nor the members
  have hfold : ∀ h' : Hub, Consistent h' →
      h'.clients = h.clients.set x ⟨⟨x, key, sink⟩, ∅⟩ → ∀ prior, prior = h.sessionSubscriptions key →
      Consistent (((order.list prior).foldl (fun h room => h.subscribeRoom x room) h').setStatusLocked
        key .connected) ∧
      ∀ y, (((order.list prior).foldl (fun h room => h.subscribeRoom x room) h').setStatusLocked
        key .connected).clients.lookup y =
        if y = x then some ⟨⟨x, key, sink⟩, h.sessionSubscriptions key⟩
        else h.clients.lookup y := by
    rintro h' hc' hclients prior rfl
    -- the range visits each persisted room once; joining is a union, so its order is no matter
    obtain ⟨hcons, hrooms⟩ := rejoin hc' x (order.list (h.sessionSubscriptions key))
    refine ⟨hcons.setStatusLocked key .connected, fun y => ?_⟩
    rw [setStatusLocked_clients, hrooms, hclients, GoMap.lookup_set, hlist]
    split
    · simp
    · rfl
  rw [Hub.connect]
  dsimp only
  split
  · exact hfold _ hreg rfl _ rfl
  · exact hfold _ (hreg.withSessions _) rfl _ rfl

/-! ## Disconnecting -/

theorem release (h : Hub) (x : String) (rooms : List String) :
    (rooms.foldl (fun h room => h.removeFromRoomLocked room x) h).clients = h.clients ∧
    (h.NoEmptyRoom → (rooms.foldl (fun h room => h.removeFromRoomLocked room x) h).NoEmptyRoom) ∧
    ∀ r y, (rooms.foldl (fun h room => h.removeFromRoomLocked room x) h).memberOf r y =
      if r ∈ rooms ∧ y = x then none else h.memberOf r y := by
  induction rooms generalizing h with
  | nil => simp
  | cons room rooms ih =>
    obtain ⟨hclients, hempty, hmembers⟩ := ih (h.removeFromRoomLocked room x)
    refine ⟨?_, fun hn => hempty (hn.removeFromRoomLocked room x), fun r y => ?_⟩
    · rw [List.foldl_cons, hclients, removeFromRoomLocked_clients]
    · rw [List.foldl_cons, hmembers, memberOf_removeFromRoomLocked]
      simp only [List.mem_cons]
      rcases eq_or_ne y x with rfl | hy
      · simp only [and_true]
        split <;> split <;> simp_all
      · simp [hy]

theorem disconnect_of_none {h : Hub} {x : String} (hx : h.clients.lookup x = none)
    (order : RangeOrder String) : h.disconnect x order = h := by
  rw [Hub.disconnect, hx]

theorem disconnect_of_some {h : Hub} {x : String} {c : Client}
    (hx : h.clients.lookup x = some c) (order : RangeOrder String) :
    h.disconnect x order =
      let h' := (order.list c.rooms).foldl (fun h room => h.removeFromRoomLocked room x) h
      { h' with clients := h'.clients.delete x }.setStatusLocked c.conn.key .disconnected := by
  rw [Hub.disconnect, hx]

theorem disconnect_spec {h : Hub} (hc : Consistent h) (x : String) (order : RangeOrder String) :
    Consistent (h.disconnect x order) ∧
    ∀ y, (h.disconnect x order).clients.lookup y = if y = x then none else h.clients.lookup y := by
  cases hx : h.clients.lookup x with
  | none =>
    rw [disconnect_of_none hx]
    refine ⟨hc, fun y => ?_⟩
    split
    next hy => rw [hy, hx]
    next => rfl
  | some c =>
    -- the range over the client's rooms leaves every member map it was in
    obtain ⟨hclients, hempty, hmembers⟩ := release h x (order.list c.rooms)
    rw [disconnect_of_some hx]
    dsimp only
    generalize (order.list c.rooms).foldl (fun h room => h.removeFromRoomLocked room x) h = h'
      at hclients hempty hmembers
    have hcons : Consistent { h' with clients := h'.clients.delete x } := by
      constructor
      · intro y d hd
        rw [GoMap.lookup_delete, hclients] at hd
        split at hd
        · exact absurd hd (by simp)
        · exact hc.connID y d hd
      · intro r y
        have hsame : Hub.memberOf { h' with clients := h'.clients.delete x } r y = h'.memberOf r y :=
          rfl
        rw [hsame, hmembers, hc.members, GoMap.lookup_delete, hclients]
        -- the rooms visited are the rooms of the client, so no member map mentions it any more
        rcases eq_or_ne y x with rfl | hy
        · simp only [and_true, if_true, hx, Option.bind_some, Option.bind_none, order.mem_list]
          split
          · rfl
          · rfl
        · rw [if_neg fun h => hy h.2, if_neg hy]
      · exact hempty hc.noEmptyRoom
    refine ⟨hcons.setStatusLocked _ _, fun y => ?_⟩
    rw [setStatusLocked_clients, GoMap.lookup_delete, hclients]

/-! ## Delivering -/

/-- The deliveries of a consistent hub: one to each live connection of the room. -/
theorem deliverLocal_spec {N : Type} {h : Hub} (hc : Consistent h) (order : RangeOrder String)
    (env : Envelope N) :
    ((h.deliverLocal order env).map fun d => d.1.connID).Nodup ∧
    ∀ conn msg, (conn, msg) ∈ h.deliverLocal order env ↔ msg = env.message ∧
      ∃ c, h.clients.lookup conn.connID = some c ∧ c.conn = conn ∧ env.room ∈ c.rooms := by
  -- a room without an entry is read as an empty member map
  have hmember : ∀ x conn, ((h.rooms.lookup env.room).getD ∅).lookup x = some conn ↔
      ∃ c, h.clients.lookup x = some c ∧ c.conn = conn ∧ env.room ∈ c.rooms := by
    intro x conn
    have hget : ((h.rooms.lookup env.room).getD ∅).lookup x = h.memberOf env.room x := by
      rw [memberOf]
      cases h.rooms.lookup env.room <;> simp
    rw [hget, hc.members]
    cases hx : h.clients.lookup x with
    | none => simp
    | some c =>
      rw [Option.bind_some]
      split
      next hr => simp [hr]
      next hr => simp [hr]
  -- a member map registers a connection under its own id, so the id names the entry
  have hid : ∀ x conn, ((h.rooms.lookup env.room).getD ∅).lookup x = some conn →
      conn.connID = x := by
    intro x conn hx
    obtain ⟨c, hlookup, rfl, -⟩ := (hmember x conn).1 hx
    exact hc.connID x c hlookup
  unfold Hub.deliverLocal
  dsimp only
  generalize (h.rooms.lookup env.room).getD ∅ = members at hmember hid
  constructor
  · -- the ids delivered to are the keys of the member map, each once
    have hmap : ((order.list members.keys).filterMap fun x =>
        (members.lookup x).map fun c => (c, env.message)).map (fun d => d.1.connID) =
        order.list members.keys := by
      have hall : ∀ xs : List String, (∀ x ∈ xs, x ∈ members.keys) →
          (xs.filterMap fun x => (members.lookup x).map fun c => (c, env.message)).map
            (fun d => d.1.connID) = xs := by
        intro xs
        induction xs with
        | nil => simp
        | cons x xs ih =>
          intro hxs
          obtain ⟨conn, hconn⟩ := (GoMap.mem_keys_iff members x).1 (hxs x List.mem_cons_self)
          rw [List.filterMap_cons, hconn, Option.map_some, List.map_cons, hid x conn hconn,
            ih fun y hy => hxs y (List.mem_cons_of_mem x hy)]
      exact hall _ fun x hx => (order.mem_list _ x).1 hx
    rw [hmap]
    exact order.nodup _
  · intro conn msg
    simp only [List.mem_filterMap, order.mem_list, GoMap.mem_keys_iff, Option.map_eq_some_iff,
      Prod.mk.injEq]
    constructor
    · rintro ⟨x, -, conn', hx, rfl, rfl⟩
      rw [← hmember, hid x conn' hx]
      exact ⟨rfl, hx⟩
    · rintro ⟨rfl, hlive⟩
      have hx := (hmember conn.connID conn).2 hlive
      exact ⟨conn.connID, ⟨conn, hx⟩, conn, hx, rfl, rfl⟩

/-- What one connection id receives from a consistent hub. -/
theorem deliverLocal_filter {N : Type} {h : Hub} (hc : Consistent h) (order : RangeOrder String)
    (env : Envelope N) (x : String) :
    (h.deliverLocal order env).filter (fun d => d.1.connID = x) =
      match h.clients.lookup x with
      | some c => if env.room ∈ c.rooms then [(c.conn, env.message)] else []
      | none => [] := by
  obtain ⟨hnodup, hmem⟩ := deliverLocal_spec hc order env
  -- without a live connection in the room under `x`, no delivery has the id
  have hnone : (∀ c, h.clients.lookup x = some c → env.room ∉ c.rooms) →
      (h.deliverLocal order env).filter (fun d => d.1.connID = x) = [] := by
    intro hno
    rw [List.filter_eq_nil_iff]
    rintro ⟨conn, msg⟩ hd
    obtain ⟨-, c, hc', -, hr⟩ := (hmem conn msg).1 hd
    rw [decide_eq_true_eq]
    rintro rfl
    exact hno c hc' hr
  cases hx : h.clients.lookup x with
  | none => exact hnone fun c hc' => absurd hc' (by rw [hx]; simp)
  | some c =>
    dsimp only
    split
    next hr =>
      have hd : (c.conn, env.message) ∈ h.deliverLocal order env := by
        rw [hmem, hc.connID x c hx]
        exact ⟨rfl, c, hx, rfl, hr⟩
      rw [← hc.connID x c hx]
      exact filter_eq_singleton_of_nodup_map hnodup hd
    next hr =>
      refine hnone fun c' hc' => ?_
      rw [hx] at hc'
      obtain rfl := Option.some.inj hc'
      exact hr

end Hub

/-! ## Runs over all replicas -/

section Replicas

variable {ι : Type} [DecidableEq ι]

/-- A `Connect` has a fresh connection id: no live connection of its replica has it. -/
def ConnectsFresh (hubs : ι → Hub) (e : ι × HubOp) : Prop :=
  match e.2 with
  | .connect connID _ _ _ => (hubs e.1).clients.lookup connID = none
  | _ => True

instance (hubs : ι → Hub) (e : ι × HubOp) : Decidable (ConnectsFresh hubs e) := by
  unfold ConnectsFresh
  cases e.2 <;> infer_instance

/-- The live connection under an id after one request of its hub, with its room set, from the one
before; `none` while no connection is live under the id. The room set starts with what the session
has persisted. -/
def liveStep (h : Hub) (x : String) (live : Option Client) : HubOp → Option Client
  | .connect connID key sink _ =>
    if x = connID then some ⟨⟨connID, key, sink⟩, h.sessionSubscriptions key⟩ else live
  | .subscribeRoom connID room => if x = connID then live.map (·.join room) else live
  | .subscribe connID kind id => match roomFor kind id with
    | some room => if x = connID then live.map (·.join room) else live
    | none => live
  | .unsubscribeRoom connID room => if x = connID then live.map (·.leave room) else live
  | .unsubscribe connID kind id => match roomFor kind id with
    | some room => if x = connID then live.map (·.leave room) else live
    | none => live
  | .disconnect connID _ => if x = connID then none else live

/-- The live connection under id `x` on replica `i` after a run, from the one before. -/
def liveAfter (i : ι) (x : String) :
    (ι → Hub) → Option Client → List (ι × HubOp) → Option Client
  | _, live, [] => live
  | hubs, live, e :: es =>
    liveAfter i x (hubStep hubs e) (if e.1 = i then liveStep (hubs i) x live e.2 else live) es

/-- After a `Disconnect` no member map of its replica mentions the connection or is empty. -/
def ReleasesRooms (hubs : ι → Hub) (e : ι × HubOp) : Prop :=
  match e.2 with
  | .disconnect connID _ => ∀ room members,
      (hubStep hubs e e.1).rooms.lookup room = some members →
        members.lookup connID = none ∧ members.keys ≠ ∅
  | _ => True

/-- One request keeps the maps consistent and changes the live connections as `liveStep` says. -/
theorem HubOp.apply_spec {h : Hub} (hc : h.Consistent) (op : HubOp)
    (hfresh : ∀ connID key sink order, op = .connect connID key sink order →
      h.clients.lookup connID = none) :
    (op.apply h).Consistent ∧
    ∀ x, (op.apply h).clients.lookup x = liveStep h x (h.clients.lookup x) op := by
  cases op with
  | connect connID key sink order =>
    exact Hub.connect_spec hc (hfresh connID key sink order rfl) key sink order
  | subscribeRoom connID room =>
    exact ⟨hc.subscribeRoom connID room, Hub.lookup_subscribeRoom hc connID room⟩
  | subscribe connID kind id =>
    simp only [HubOp.apply, Hub.subscribe, liveStep]
    cases roomFor kind id with
    | none => exact ⟨hc, fun _ => rfl⟩
    | some room => exact ⟨hc.subscribeRoom connID room, Hub.lookup_subscribeRoom hc connID room⟩
  | unsubscribeRoom connID room =>
    exact ⟨hc.unsubscribeRoom connID room, Hub.lookup_unsubscribeRoom hc connID room⟩
  | unsubscribe connID kind id =>
    simp only [HubOp.apply, Hub.unsubscribe, liveStep]
    cases roomFor kind id with
    | none => exact ⟨hc, fun _ => rfl⟩
    | some room =>
      exact ⟨hc.unsubscribeRoom connID room, Hub.lookup_unsubscribeRoom hc connID room⟩
  | disconnect connID order => exact Hub.disconnect_spec hc connID order

theorem hubStep_spec {hubs : ι → Hub} (hc : ∀ i, (hubs i).Consistent) (e : ι × HubOp)
    (hfresh : ConnectsFresh hubs e) :
    (∀ i, (hubStep hubs e i).Consistent) ∧
    ∀ i x, (hubStep hubs e i).clients.lookup x =
      if e.1 = i then liveStep (hubs i) x ((hubs i).clients.lookup x) e.2
      else (hubs i).clients.lookup x := by
  have happly := HubOp.apply_spec (hc e.1) e.2 (by
    intro connID key sink order he
    simpa only [ConnectsFresh, he] using hfresh)
  constructor
  · intro i
    -- only the replica the request arrived at has changed
    rcases eq_or_ne i e.1 with rfl | hi
    · rw [hubStep, Function.update_self]
      exact happly.1
    · rw [hubStep, Function.update_of_ne hi]
      exact hc i
  · intro i x
    rcases eq_or_ne i e.1 with rfl | hi
    · rw [hubStep, Function.update_self, if_pos rfl]
      exact happly.2 x
    · rw [hubStep, Function.update_of_ne hi, if_neg hi.symm]

/-- A run keeps every replica's maps consistent, and `liveAfter` follows its live connections. -/
theorem run_spec {hubs : ι → Hub} (hc : ∀ i, (hubs i).Consistent) {es : List (ι × HubOp)}
    (hfresh : Runs.AllSteps hubStep ConnectsFresh hubs es) :
    (∀ i, (Runs.run hubStep hubs es i).Consistent) ∧
    ∀ i x, (Runs.run hubStep hubs es i).clients.lookup x =
      liveAfter i x hubs ((hubs i).clients.lookup x) es := by
  -- on the requests: consistency carries the invariant the next request needs
  induction es generalizing hubs with
  | nil => exact ⟨hc, fun _ _ => rfl⟩
  | cons e es ih =>
    obtain ⟨hstep, hrooms⟩ := hubStep_spec hc e hfresh.1
    obtain ⟨hrun, hset⟩ := ih hstep hfresh.2
    refine ⟨hrun, fun i x => ?_⟩
    rw [Runs.run_cons, hset, hrooms, liveAfter]

theorem releasesRooms {hubs : ι → Hub} (hc : ∀ i, (hubs i).Consistent) (e : ι × HubOp) :
    ReleasesRooms hubs e := by
  rw [ReleasesRooms]
  split
  next connID order he =>
    intro room members hroom
    rw [hubStep, Function.update_self, he] at hroom
    obtain ⟨hcons, hlive⟩ := Hub.disconnect_spec (hc e.1) connID order
    -- the connection is no longer live, so by consistency no member map has it
    have hmember := hcons.members room connID
    rw [hlive, if_pos rfl, Option.bind_none, Hub.memberOf] at hmember
    have hroom' : ((hubs e.1).disconnect connID order).rooms.lookup room = some members := hroom
    rw [hroom', Option.bind_some] at hmember
    exact ⟨hmember, hcons.noEmptyRoom room members hroom'⟩
  next => trivial

/-- After every run with fresh connection ids, a broadcast reaches each live connection whose room
set contains the room exactly once and no other connection, on every replica and with the message
broadcast; and every `Disconnect` of the run releases the connection's rooms. -/
theorem broadcast_exact {N : Type} (es : List (ι × HubOp))
    (hfresh : Runs.AllSteps hubStep ConnectsFresh startHubs es) :
    (∀ (orders : ι → RangeOrder String) (room : String) (msg : Message N) (i : ι) (x : String),
      (broadcast (Runs.run hubStep startHubs es) orders room msg i).filter
          (fun d => d.1.connID = x) =
        match liveAfter i x startHubs none es with
        | some c => if room ∈ c.rooms then [(c.conn, msg)] else []
        | none => []) ∧
    Runs.AllSteps hubStep ReleasesRooms startHubs es := by
  have hstart : ∀ i : ι, (startHubs i).Consistent := fun _ => Hub.consistent_new
  constructor
  · intro orders room msg i x
    obtain ⟨hcons, hlive⟩ := run_spec hstart hfresh
    have hx : (Runs.run hubStep startHubs es i).clients.lookup x =
        liveAfter i x startHubs none es := hlive i x
    rw [← hx, broadcast]
    exact Hub.deliverLocal_filter (hcons i) (orders i) ⟨room, msg⟩ x
  -- a `Disconnect` of the run starts from the hubs the requests before it reach
  · rw [Runs.allSteps_iff_splits] at hfresh ⊢
    intro pre e post hes
    have hpre : Runs.AllSteps hubStep ConnectsFresh startHubs pre := by
      rw [Runs.allSteps_iff_splits]
      intro p e' q hp
      exact hfresh p e' (q ++ e :: post) (by rw [hes, hp]; simp)
    exact releasesRooms (run_spec hstart hpre).1 e

end Replicas

/-- A session that subscribes, drops and reconnects on replica 0, and connects on replica 1. -/
def resumedRun : List (Fin 2 × HubOp) :=
  [(0, .connect "c1" "s" 1 (.sorted String)), (0, .subscribe "c1" "vehicle" "v"),
    (0, .disconnect "c1" (.sorted String)), (0, .connect "c2" "s" 2 (.sorted String)),
    (1, .connect "c3" "s" 3 (.sorted String))]

/-- The reconnected session is delivered to once. -/
theorem resumedRun_delivers :
    (broadcast (Runs.run hubStep startHubs resumedRun) (fun _ => .sorted String)
        "vehicle:v" ⟨"position", (.null : Json ℕ)⟩ 0).filter (fun d => d.1.connID = "c2") =
      [(⟨"c2", "s", 2⟩, ⟨"position", .null⟩)] :=
  (broadcast_exact resumedRun (by decide +kernel)).1 (fun _ => .sorted String)
    "vehicle:v" ⟨"position", .null⟩ 0 "c2"

end FleetCommand.Streaming
