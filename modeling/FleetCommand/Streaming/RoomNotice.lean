import FleetCommand.Streaming.Delivery
import FleetCommand.Streaming.ZoneEvents

/-!
# Notifying a room from any replica

`hubZoneEventSender` publishes only when its own replica has a connection in the room, while a
publish reaches the room's connections on every replica. So a replica notifies a room that has a
live member somewhere exactly when it has one itself (`notifies_iff`); a replica without one queues
the event for retry and no member receives it (`remoteMember_not_notified`).
-/

set_option autoImplicit false

namespace FleetCommand.Streaming

open Resumption

/-- A live connection of this replica is in the room. -/
def Hub.HasMember (h : Hub) (room : String) : Prop :=
  ∃ x c, h.clients.lookup x = some c ∧ room ∈ c.rooms

namespace Hub

theorem lookup_members (h : Hub) (room x : String) :
    ((h.rooms.lookup room).getD ∅).lookup x = h.memberOf room x := by
  rw [memberOf]
  cases h.rooms.lookup room <;> simp

/-- The size of a room counts its live members. -/
theorem roomSize_eq_zero_iff {h : Hub} (hc : Consistent h) (room : String) :
    h.roomSize room = 0 ↔ ¬ h.HasMember room := by
  rw [roomSize, Finset.card_eq_zero, Finset.eq_empty_iff_forall_notMem]
  constructor
  · rintro hempty ⟨x, c, hx, hroom⟩
    refine hempty x ((GoMap.mem_keys_iff _ x).2 ⟨c.conn, ?_⟩)
    rw [lookup_members, hc.members, hx, Option.bind_some, if_pos hroom]
  · intro hno x hkey
    obtain ⟨conn, hconn⟩ := (GoMap.mem_keys_iff _ x).1 hkey
    rw [lookup_members, hc.members] at hconn
    cases hx : h.clients.lookup x with
    | none => simp [hx] at hconn
    | some c =>
      rw [hx, Option.bind_some] at hconn
      split at hconn
      next hroom => exact hno ⟨x, c, hx, hroom⟩
      next => simp at hconn

end Hub

section Notice

variable {ι N : Type}

/-- The retry queue of a replica over its hub's sender; every publish succeeds. -/
abbrev roomDelivery (i : ι) (room : String) (orders : ι → RangeOrder String) :
    Handler (DeliveryOp.Resp (E := ZoneEventMessage))
      (ZoneEventDelivery ZoneEventMessage (Fleet ι N)) :=
  zoneEventDelivery (hubZoneEventSender i room orders none)

/-- The sender of replica `i` notifies the room: it returns true, every live member of the room on
every replica receives the event once, and `Deliver` leaves the pending list as it is. -/
structure Notifies (i : ι) (room : String) (orders : ι → RangeOrder String) (z : ZoneEventMessage)
    (d : ZoneEventDelivery ZoneEventMessage (Fleet ι N)) : Prop where
  succeeds : (hubZoneEventSender i room orders none z d.sender).1 = true
  receives : ∀ j x c, (d.sender.hubs j).clients.lookup x = some c → room ∈ c.rooms →
    ∃ new, (hubZoneEventSender i room orders none z d.sender).2.delivered j =
        d.sender.delivered j ++ new ∧
      new.filter (fun m => m.1.connID = x) = [(c.conn, zoneEvent z)]
  notQueued : ((deliver z).run (roomDelivery i room orders) d).2.pending = d.pending

theorem hubZoneEventSender_of_empty {i : ι} {room : String} {fleet : Fleet ι N}
    (h : (fleet.hubs i).roomSize room = 0) (orders : ι → RangeOrder String)
    (publishErr : Option String) (z : ZoneEventMessage) :
    hubZoneEventSender i room orders publishErr z fleet = (false, fleet) := by
  unfold hubZoneEventSender
  rw [if_pos h]

theorem hubZoneEventSender_of_member {i : ι} {room : String} {fleet : Fleet ι N}
    (h : (fleet.hubs i).roomSize room ≠ 0) (orders : ι → RangeOrder String) (z : ZoneEventMessage) :
    hubZoneEventSender i room orders none z fleet = (true, { fleet with
      delivered := fun j =>
        fleet.delivered j ++ broadcast fleet.hubs orders room (zoneEvent z) j }) := by
  rw [hubZoneEventSender]
  rw [if_neg h]

/-- The initial attempt keeps the pending list exactly when it succeeds. -/
theorem pending_deliver_iff {E τ : Type} (send : E → τ → Bool × τ) (event : E)
    (d : ZoneEventDelivery E τ) :
    ((deliver event).run (zoneEventDelivery send) d).2.pending = d.pending ↔
      (send event d.sender).1 = true := by
  have hrun : (deliver event).run (zoneEventDelivery send) d =
      if (send event d.sender).1 = true then (true, { d with sender := (send event d.sender).2 })
      else (false, ⟨d.pending ++ [⟨event, 0⟩], (send event d.sender).2⟩) := by
    by_cases hok : (send event d.sender).1 = true <;>
      simp [deliver, performDelivery, zoneEventDelivery, hok]
  rw [hrun]
  split
  next hok => exact iff_of_true rfl hok
  next hok => exact iff_of_false (by simp) hok

variable [DecidableEq ι]

/-- After any requests to any replicas, the sender of a replica notifies a room exactly when its own
replica has a live member of the room, whoever else has. -/
theorem notifies_iff (es : List (ι × HubOp))
    (hfresh : Runs.AllSteps hubStep ConnectsFresh startHubs es)
    (d : ZoneEventDelivery ZoneEventMessage (Fleet ι N))
    (hhubs : d.sender.hubs = Runs.run hubStep startHubs es) (i : ι) (room : String)
    (orders : ι → RangeOrder String) (z : ZoneEventMessage) :
    Notifies i room orders z d ↔ (d.sender.hubs i).HasMember room := by
  have hcons : ∀ j, (d.sender.hubs j).Consistent := by
    rw [hhubs]
    exact (run_spec (fun _ => Hub.consistent_new) hfresh).1
  have hsize := Hub.roomSize_eq_zero_iff (hcons i) room
  constructor
  · intro h
    by_contra hno
    have hsend := h.succeeds
    rw [hubZoneEventSender_of_empty (hsize.2 hno)] at hsend
    exact Bool.false_ne_true hsend
  · intro hlocal
    have hsend : hubZoneEventSender i room orders none z d.sender = _ :=
      hubZoneEventSender_of_member (fun hzero => hsize.1 hzero hlocal) orders z
    refine ⟨by rw [hsend], ?_, (pending_deliver_iff _ z d).2 (by rw [hsend])⟩
    intro j x c hx hroom
    refine ⟨_, by rw [hsend], ?_⟩
    rw [broadcast, Hub.deliverLocal_filter (hcons j) (orders j) ⟨room, zoneEvent z⟩ x, hx]
    exact if_pos hroom

end Notice

/-! ## A member on another replica -/

/-- A connection of replica 1 in the dashboard room. -/
def dashboardRun : List (Fin 2 × HubOp) :=
  [(.last 1, .connect "c1" "s" 1 (.sorted String)),
    (.last 1, .subscribeRoom "c1" "dashboard:global")]

/-- Two replicas after `dashboardRun`, nothing pending and nothing delivered. -/
def dashboardFleet : ZoneEventDelivery ZoneEventMessage (Fleet (Fin 2) ℕ) :=
  ⟨[], Runs.run hubStep startHubs dashboardRun, fun _ => []⟩

/-- A vehicle enters the depot. -/
def enteredDepot : ZoneEventMessage := ⟨"v", "depot", "Enter", none, "2024-01-01T00:00:00Z"⟩

theorem dashboardFleet_member : (dashboardFleet.sender.hubs 1).HasMember "dashboard:global" :=
  ⟨"c1", ⟨⟨"c1", "s", 1⟩, {"dashboard:global"}⟩, rfl, by decide⟩

/-- The replica of the connection notifies it. -/
theorem localMember_notified :
    Notifies 1 "dashboard:global" (fun _ => .sorted String) enteredDepot dashboardFleet :=
  (notifies_iff dashboardRun (by decide +kernel) dashboardFleet rfl 1 "dashboard:global" _
    enteredDepot).2 dashboardFleet_member

/-- The other replica does not: its attempt fails, nothing is delivered and the event is queued. -/
theorem remoteMember_not_notified :
    (∃ j, (dashboardFleet.sender.hubs j).HasMember "dashboard:global") ∧
    ¬ Notifies 0 "dashboard:global" (fun _ => .sorted String) enteredDepot dashboardFleet ∧
    ((deliver enteredDepot).run
      (roomDelivery 0 "dashboard:global" fun _ => .sorted String) dashboardFleet).2.pending =
        [⟨enteredDepot, 0⟩] := by
  have hempty : (dashboardFleet.sender.hubs 0).roomSize "dashboard:global" = 0 := by decide +kernel
  refine ⟨⟨1, dashboardFleet_member⟩, ?_, ?_⟩
  · intro h
    have hsend := h.succeeds
    rw [hubZoneEventSender_of_empty hempty] at hsend
    exact Bool.false_ne_true hsend
  · simp only [deliver, performDelivery, Prog.perform_bind, Prog.run_call, zoneEventDelivery,
      hubZoneEventSender_of_empty hempty]
    rfl

end FleetCommand.Streaming
