import FleetCommand.Lib.Observation
import FleetCommand.Streaming.Sessions

/-!
# What the status listeners hear

`OnStatusChange` of the hub. A request sets the status of a session when it connects one of its
connections or disconnects a live one (`signals`); the hub notifies its listeners of a session only
when the status it sets is another one. So what they hear of a session is what an observer of the
signals records, and alternates (`notifications_exact`).
-/

set_option autoImplicit false

namespace FleetCommand.Streaming

open Observation Runs Hub

/-! ## The signals of a session -/

/-- The session of each live connection after a request. -/
def HubOp.attach (live : String → Option String) : HubOp → String → Option String
  | .connect connID key _ _ => Function.update live connID (some key)
  | .disconnect connID _ => Function.update live connID none
  | _ => live

/-- The status a request gives to a session, if any. -/
def HubOp.signal (key : String) (live : String → Option String) : HubOp → Option ConnectionStatus
  | .connect _ key' _ _ => if key' = key then some .connected else none
  | .disconnect connID _ => if live connID = some key then some .disconnected else none
  | _ => none

/-- The statuses that requests give to a session, in order. -/
def signals (key : String) : (String → Option String) → List HubOp → List ConnectionStatus
  | _, [] => []
  | live, op :: ops => (op.signal key live).toList ++ signals key (op.attach live) ops

/-- The statuses that the listeners have heard of a session, in order. -/
def Hub.notifications (h : Hub) (key : String) : List ConnectionStatus :=
  (h.statusChanges.filter fun c => c.1 = key).map Prod.snd

/-- An observer has the status that the session has, and has recorded what the listeners heard. -/
structure Hub.Heard (h : Hub) (key : String) (o : Observed ConnectionStatus) : Prop where
  status : h.statusOf key = o.current
  notifications : h.notifications key = o.changes

namespace Hub

variable {h h' : Hub} {key : String} {o : Observed ConnectionStatus}

/-- Statuses and notifications are those of another hub. -/
def SameStatus (h h' : Hub) : Prop := h.status = h'.status ∧ h.statusChanges = h'.statusChanges

theorem Heard.of_same (hh : Heard h key o) (hsame : SameStatus h' h) : Heard h' key o where
  status := by
    rw [statusOf, hsame.1]
    exact hh.status
  notifications := by
    rw [Hub.notifications, hsame.2]
    exact hh.notifications

theorem Heard.setStatusLocked (hh : Heard h key o) (key' : String) (status : ConnectionStatus) :
    Heard (h.setStatusLocked key' status) key (if key' = key then observe o status else o) := by
  refine ⟨?_, ?_⟩
  · rw [statusOf_setStatusLocked, hh.status]
    by_cases hkey : key' = key
    · rw [if_pos hkey.symm, if_pos hkey, observe]
      split
      next heq => exact heq
      next => rfl
    · rw [if_neg fun heq => hkey heq.symm, if_neg hkey]
  · rw [Hub.setStatusLocked]
    by_cases hkey : key' = key
    · subst hkey
      rw [if_pos rfl, observe, hh.status]
      by_cases heq : status = o.current
      · rw [if_pos heq.symm, if_pos heq]
        exact hh.notifications
      · rw [if_neg fun h => heq h.symm, if_neg heq, ← hh.notifications]
        simp [Hub.notifications]
    · rw [if_neg hkey, ← hh.notifications]
      split
      next => rfl
      next => simp [Hub.notifications, hkey]

theorem sameStatus_subscribeRoom (h : Hub) (x room : String) :
    SameStatus (h.subscribeRoom x room) h := by
  cases hx : h.clients.lookup x with
  | none =>
    rw [subscribeRoom_of_none hx]
    exact ⟨rfl, rfl⟩
  | some c =>
    rw [subscribeRoom_of_some hx]
    exact ⟨rfl, rfl⟩

theorem sameStatus_removeFromRoomLocked (h : Hub) (room x : String) :
    SameStatus (h.removeFromRoomLocked room x) h := by
  rw [removeFromRoomLocked]
  split
  · exact ⟨rfl, rfl⟩
  · split <;> exact ⟨rfl, rfl⟩

theorem sameStatus_unsubscribeRoom (h : Hub) (x room : String) :
    SameStatus (h.unsubscribeRoom x room) h := by
  rw [unsubscribeRoom]
  split
  · exact ⟨rfl, rfl⟩
  · dsimp only
    split <;> exact sameStatus_removeFromRoomLocked h room _

theorem SameStatus.trans {h'' : Hub} (hs : SameStatus h h') (hs' : SameStatus h' h'') :
    SameStatus h h'' := ⟨hs.1.trans hs'.1, hs.2.trans hs'.2⟩

/-- Work on rooms leaves statuses and notifications. -/
theorem sameStatus_foldl {f : Hub → String → Hub} (hf : ∀ h room, SameStatus (f h room) h) (h : Hub)
    (rooms : List String) : SameStatus (rooms.foldl f h) h :=
  run_invariant (I := fun h' => SameStatus h' h) (fun h' room hs => (hf h' room).trans hs)
    ⟨rfl, rfl⟩ rooms

theorem Heard.connect (hh : Heard h key o) (x key' : String) (sink : Nat)
    (order : RangeOrder String) :
    Heard (h.connect x key' sink order) key (if key' = key then observe o .connected else o) := by
  rw [Hub.connect]
  refine Heard.setStatusLocked (hh.of_same ?_) key' .connected
  refine (sameStatus_foldl (fun h room => sameStatus_subscribeRoom h x room) _ _).trans ?_
  dsimp only
  split <;> exact ⟨rfl, rfl⟩

theorem Heard.disconnect (hh : Heard h key o) (x : String) (order : RangeOrder String) :
    Heard (h.disconnect x order) key
      (if h.sessionOf x = some key then observe o .disconnected else o) := by
  cases hx : h.clients.lookup x with
  | none =>
    rw [disconnect_of_none hx, sessionOf, hx, if_neg (by simp)]
    exact hh
  | some c =>
    -- leaving the rooms signals nothing; the status is set once, at the end
    let released := (order.list c.rooms).foldl (fun h room => h.removeFromRoomLocked room x) h
    have hsame : SameStatus { released with clients := released.clients.delete x } h :=
      sameStatus_foldl (fun h room => sameStatus_removeFromRoomLocked h room x) h _
    have hkey : h.sessionOf x = some key ↔ c.conn.key = key := by
      rw [sessionOf, hx, Option.map_some, Option.some.injEq]
    rw [disconnect_of_some hx]
    simp only [hkey]
    exact Heard.setStatusLocked (hh.of_same hsame) c.conn.key .disconnected

/-- A request signals what it gives the session, and keeps track of the live connections. -/
theorem Heard.apply (hc : h.Consistent) (hh : Heard h key o) {op : HubOp}
    (hop : FreshConnect h op) :
    Heard (op.apply h) key (((op.signal key h.sessionOf).elim o (observe o))) ∧
      (op.apply h).sessionOf = op.attach h.sessionOf := by
  -- joining and leaving rooms signals nothing
  have hsubscribe (x room : String) : Heard (h.subscribeRoom x room) key o ∧
      (h.subscribeRoom x room).sessionOf = h.sessionOf :=
    ⟨hh.of_same (sameStatus_subscribeRoom h x room), funext (sessionOf_subscribeRoom hc x room)⟩
  have hunsubscribe (x room : String) : Heard (h.unsubscribeRoom x room) key o ∧
      (h.unsubscribeRoom x room).sessionOf = h.sessionOf :=
    ⟨hh.of_same (sameStatus_unsubscribeRoom h x room),
      funext (sessionOf_unsubscribeRoom hc x room)⟩
  cases op with
  | connect x key' sink order =>
    refine ⟨?_, funext fun y => ?_⟩
    · have hconnect := hh.connect x key' sink order
      by_cases hkey : key' = key
      · rw [if_pos hkey] at hconnect
        simp only [HubOp.signal, if_pos hkey]
        exact hconnect
      · rw [if_neg hkey] at hconnect
        simp only [HubOp.signal, if_neg hkey]
        exact hconnect
    · rw [HubOp.apply, sessionOf_connect hc hop, HubOp.attach, Function.update_apply]
  | subscribeRoom x room => exact hsubscribe x room
  | subscribe x kind id =>
    exact subscribe_cases (P := fun h' => Heard h' key o ∧ h'.sessionOf = h.sessionOf) ⟨hh, rfl⟩
      (hsubscribe x) kind id
  | unsubscribeRoom x room => exact hunsubscribe x room
  | unsubscribe x kind id =>
    exact unsubscribe_cases (P := fun h' => Heard h' key o ∧ h'.sessionOf = h.sessionOf) ⟨hh, rfl⟩
      (hunsubscribe x) kind id
  | disconnect x order =>
    refine ⟨?_, funext fun y => ?_⟩
    · have hdisconnect := hh.disconnect x order
      by_cases hkey : h.sessionOf x = some key
      · rw [if_pos hkey] at hdisconnect
        simp only [HubOp.signal, if_pos hkey]
        exact hdisconnect
      · rw [if_neg hkey] at hdisconnect
        simp only [HubOp.signal, if_neg hkey]
        exact hdisconnect
    · rw [HubOp.apply, sessionOf_disconnect hc, HubOp.attach, Function.update_apply]

theorem Heard.run (hc : h.Consistent) (hh : Heard h key o) {ops : List HubOp}
    (hops : AllSteps HubOp.apply FreshConnect h ops) :
    Heard (Runs.run HubOp.apply h ops) key
      (Runs.run observe o (signals key h.sessionOf ops)) := by
  induction ops generalizing h o with
  | nil => exact hh
  | cons op ops ih =>
    obtain ⟨hnext, hsessions⟩ := hh.apply hc hops.1
    have hrest := ih (HubOp.consistent_apply hc hops.1) hnext hops.2
    rw [hsessions] at hrest
    rw [signals, run_append]
    cases hsignal : op.signal key h.sessionOf with
    | none =>
      rw [hsignal] at hrest
      exact hrest
    | some status =>
      rw [hsignal] at hrest
      exact hrest

end Hub

/-- In every run of one hub, whose connects have fresh connection ids: what the listeners hear of a
session are the changes among the statuses that the requests give it, from disconnected on; no
status is heard twice in a row, the first heard is connected, and the last one heard is the status
of the session. -/
theorem notifications_exact (ops : List HubOp)
    (hops : AllSteps HubOp.apply FreshConnect Hub.new ops) (key : String) :
    let h := run HubOp.apply Hub.new ops
    let o := observeAll .disconnected (signals key (fun _ => none) ops)
    h.notifications key = o.changes ∧ h.statusOf key = o.current ∧
      (ConnectionStatus.disconnected :: h.notifications key).IsChain (· ≠ ·) ∧
      h.statusOf key = (h.notifications key).getLast?.getD .disconnected := by
  intro h o
  have hheard : Hub.Heard h key o :=
    Heard.run Hub.consistent_new (o := ⟨.disconnected, []⟩) ⟨rfl, rfl⟩ hops
  refine ⟨hheard.notifications, hheard.status, ?_, ?_⟩
  · rw [hheard.notifications]
    exact isChain_changes _ _
  · rw [hheard.status, hheard.notifications]
    exact current_eq_last_change _ _

/-- Two connections of one session, and the first is reaped. -/
theorem lateReap_notifications :
    let h := run HubOp.apply Hub.new lateReap
    let o := observeAll .disconnected (signals "s" (fun _ => none) lateReap)
    h.notifications "s" = o.changes ∧ h.statusOf "s" = o.current ∧
      (ConnectionStatus.disconnected :: h.notifications "s").IsChain (· ≠ ·) ∧
      h.statusOf "s" = (h.notifications "s").getLast?.getD .disconnected :=
  notifications_exact lateReap (by decide +kernel) "s"

/-- The second connection is not heard of, and the session is heard to drop with the first. -/
example : signals "s" (fun _ => none) lateReap = [.connected, .connected, .disconnected] ∧
    (observeAll .disconnected (signals "s" (fun _ => none) lateReap)).changes =
      [.connected, .disconnected] := by
  decide

end FleetCommand.Streaming
