import FleetCommand.Lib.Resumption
import FleetCommand.Streaming.Hub

/-!
# Delivery of zone events

`deliver` and `retry` are programs over the retry queue and the injected sender (`DeliveryOp`): each
send and each access to the pending list under its lock is one atomic step, and between two steps
other deliveries and retry passes run. `zoneEventDelivery` is the queue over any sender, which acts
on a state of its own; `hubZoneEventSender` is the sender that broadcasts on one replica's hub.
-/

set_option autoImplicit false

namespace FleetCommand.Streaming

open Resumption

/-- The redelivery attempts made for a zone event at most. -/
def maxZoneEventRetries : ℕ := 3

/-- A retained, undelivered event and the redelivery attempts already made for it. -/
structure PendingZoneEvent (E : Type) where
  event : E
  retries : ℕ

/-- A send, or an access to the pending list: append to it, take it whole, or put the kept events
back in front of it, which answers its length. -/
inductive DeliveryOp (E : Type) where
  | send (event : E)
  | append (p : PendingZoneEvent E)
  | take
  | putBack (keep : List (PendingZoneEvent E))

/-- What the calls answer. -/
@[reducible] def DeliveryOp.Resp {E : Type} : DeliveryOp E → Type
  | .send _ => Bool
  | .append _ => Unit
  | .take => List (PendingZoneEvent E)
  | .putBack _ => ℕ

/-- The pending list, and what the sender acts on. -/
structure ZoneEventDelivery (E τ : Type) where
  pending : List (PendingZoneEvent E)
  sender : τ

/-- The queue over a sender. -/
def zoneEventDelivery {E τ : Type} (send : E → τ → Bool × τ) :
    Handler (DeliveryOp.Resp (E := E)) (ZoneEventDelivery E τ)
  | .send event, d => ((send event d.sender).1, { d with sender := (send event d.sender).2 })
  | .append p, d => ((), { d with pending := d.pending ++ [p] })
  | .take, d => (d.pending, { d with pending := [] })
  | .putBack keep, d => ((keep ++ d.pending).length, { d with pending := keep ++ d.pending })

section Queue

variable {E : Type}

/-- A program over the queue. -/
abbrev DeliveryProg (E : Type) (α : Type) := Prog (DeliveryOp.Resp (E := E)) α

/-- A send or an access to the pending list. -/
def performDelivery (op : DeliveryOp E) : DeliveryProg E op.Resp := Prog.perform op

/-- The initial attempt; a failed one leaves the event pending with no retries recorded. -/
def deliver (event : E) : DeliveryProg E Bool := do
  if ← performDelivery (.send event) then
    return true
  else
    performDelivery (.append ⟨event, 0⟩)
    return false

/-- One attempt for each entry of the batch; what is returned stays within the retry budget. -/
def retryLoop (keep : List (PendingZoneEvent E)) :
    List (PendingZoneEvent E) → DeliveryProg E (List (PendingZoneEvent E))
  | [] => return keep
  | p :: batch => do
    if ← performDelivery (.send p.event) then
      retryLoop keep batch
    else if p.retries + 1 < maxZoneEventRetries then
      retryLoop (keep ++ [{ p with retries := p.retries + 1 }]) batch
    else
      retryLoop keep batch

/-- The rest of a retry pass: the remaining attempts, then the kept entries are put back. -/
def retryBatch (keep batch : List (PendingZoneEvent E)) : DeliveryProg E ℕ := do
  let keep ← retryLoop keep batch
  performDelivery (.putBack keep)

/-- One more attempt for every retained event; answers how many are pending afterwards. -/
def retry : DeliveryProg E ℕ := do
  let batch ← performDelivery .take
  retryBatch [] batch

end Queue

/-! ## The sender of a replica -/

/-- The zone event sent to the clients. -/
structure ZoneEventMessage where
  vehicleID : String
  zoneID : String
  type : String
  label : Option String
  timestamp : String
  deriving DecidableEq

/-- The event name of a zone event. -/
def eventZoneEvent : String := "zoneEvent"

/-- The document of a zone event; an absent label is omitted. -/
def ZoneEventMessage.json {N : Type} (z : ZoneEventMessage) : Json N :=
  .obj ([("vehicleId", .str z.vehicleID), ("zoneId", .str z.zoneID), ("type", .str z.type)] ++
    (z.label.map fun label => ("label", .str label)).toList ++ [("timestamp", .str z.timestamp)])

/-- The message of a zone event; marshalling strings does not fail. -/
def zoneEvent {N : Type} (z : ZoneEventMessage) : Message N := ⟨eventZoneEvent, z.json⟩

/-- The number of live connections in a room of this replica. -/
def Hub.roomSize (h : Hub) (room : String) : ℕ := ((h.rooms.lookup room).getD ∅).keys.card

/-- The replicas' hubs on one broker, and what each replica has delivered, in order. -/
structure Fleet (ι N : Type) where
  hubs : ι → Hub
  delivered : ι → List (Conn × Message N)

/-- One attempt of replica `i` to deliver a zone event to a room: `publishErr` is what `Publish`
returns, and a successful publish is handed once to every replica. -/
def hubZoneEventSender {ι N : Type} (i : ι) (room : String) (orders : ι → RangeOrder String)
    (publishErr : Option String) (z : ZoneEventMessage) (fleet : Fleet ι N) : Bool × Fleet ι N :=
  if (fleet.hubs i).roomSize room = 0 then (false, fleet)
  else match publishErr with
    | some _ => (false, fleet)
    | none => (true, { fleet with
        delivered := fun j => fleet.delivered j ++ broadcast fleet.hubs orders room (zoneEvent z) j })

end FleetCommand.Streaming
