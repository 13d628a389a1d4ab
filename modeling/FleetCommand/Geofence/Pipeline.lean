import FleetCommand.Geofence.Observed
import FleetCommand.Ingestion.SequentialRun
import FleetCommand.Lib.LogReader
import Mathlib.Data.Rat.Defs
import Mathlib.Algebra.Order.Ring.Rat

/-!
# From accepted pings to zone events

The ingestion service and the geofence engine with the queue of accepted-ping events between them.
The queue is the log of what the ingestion service published; the engine reads it at its own pace,
and an event whose delivery is not acknowledged is delivered again. Requests and deliveries come in
any order (`Pipeline.Act`).

`Pipeline.Sound` is what every run keeps: the events are those of the persisted pings, in order; the
engine has evaluated a reading of the log (`LogReader.Reads`), and the zone events are of the
vehicles and times it evaluated, each generated by one delivery (`exists_generates`). While the
catalog answers the same zones (`Act.Steady`), the membership of a vehicle is that of the last ping
delivered (`Located`), and an event delivered again finds nothing to report.
-/

set_option autoImplicit false

namespace FleetCommand.Geofence

open Ingestion (AcceptedPingEvent StoredPing)
open LogReader Observation

variable {K : Type}

/-! ## The two services and the queue -/

/-- The ping the engine reads off an accepted-ping event: the members of the same names. -/
def AcceptedPing.ofEvent (e : AcceptedPingEvent K) : AcceptedPing K where
  pingID := e.pingID
  vehicleID := e.vehicleID
  driverID := e.driverID
  lat := e.lat
  lng := e.lng
  timestamp := e.timestamp

/-- What the environment decides about the delivery of an event to the engine. -/
structure Delivery (K : Type) where
  zones : Except Error (List (Zone K))
  lookup : String → Except Error (Option (Zone K))
  enterOrder : RangeOrder String
  exitOrder : RangeOrder String
  publishErr : ZoneEvent → Option Error

/-- The evaluation of a delivered event. -/
def Delivery.call (d : Delivery K) (e : AcceptedPingEvent K) : PingCall K where
  ping := .ofEvent e
  zones := d.zones
  lookup := d.lookup
  enterOrder := d.enterOrder
  exitOrder := d.exitOrder
  publishErr := d.publishErr

/-- Both services, how many events of the queue the engine has acknowledged, and the zone events
generated so far. -/
structure Pipeline (K : Type) where
  ingestion : Ingestion.State K
  position : Nat
  engine : State
  zoneEvents : List ZoneEvent

namespace Pipeline

/-- A request to the ingestion service, or the delivery of the next event to the engine. -/
inductive Act (K : Type) where
  | ingest (c : Ingestion.Call K)
  | deliver (d : Delivery K) (acked : Bool)

/-- The queue. -/
def queue (s : Pipeline K) : List (AcceptedPingEvent K) := s.ingestion.publisher.events

/-- Nothing persisted, published or delivered. -/
def new : Pipeline K := ⟨Ingestion.State.new, 0, State.new, []⟩

variable [Add K] [Sub K] [Mul K] [Div K] [Neg K] [LT K] [DecidableLT K] [Min K] [Max K] [BEq K]
  [IntCast K]

/-- One act. A delivery evaluates the event at the position, and moves on when acknowledged. -/
def step (s : Pipeline K) : Act K → Pipeline K
  | .ingest c => { s with ingestion := Ingestion.serve s.ingestion c }
  | .deliver d acked =>
    match s.queue[s.position]? with
    | none => s
    | some e =>
      { s with
        position := if acked then s.position + 1 else s.position
        engine := evaluate s.engine (d.call e)
        zoneEvents := s.zoneEvents ++ eventsOf s.engine (d.call e) }

end Pipeline

/-! ## What is published -/

/-- The event published for a persisted ping. -/
def eventOf (p : StoredPing K) : AcceptedPingEvent K where
  pingID := p.id
  vehicleID := p.vehicleID
  driverID := p.driverID
  lat := p.lat
  lng := p.lng
  timestamp := p.timestamp
  telemetry := p.telemetry

/-- Of one vehicle, the second event is not before the first. -/
def NotBefore (a b : AcceptedPingEvent K) : Prop :=
  a.vehicleID = b.vehicleID → a.timestamp ≤ b.timestamp

/-- The events are those of persisted pings, in the order of persistence. -/
structure Announces (s : Ingestion.State K) : Prop where
  ordered : Ingestion.Ordered s
  published : s.publisher.events.Sublist (s.store.persisted.map eventOf)

theorem announces_new : Announces (Ingestion.State.new (K := K)) :=
  ⟨Ingestion.ordered_new, List.nil_sublist _⟩

section Ingest

variable [LT K] [DecidableLT K] [IntCast K]

theorem Announces.serve {s : Ingestion.State K} (h : Announces s) (c : Ingestion.Call K) :
    Announces (Ingestion.serve s c) := by
  refine ⟨h.ordered.serve c, ?_⟩
  rw [Ingestion.serve, Ingestion.run_ingest]
  split
  next =>
    simp only [Ingestion.State.record, Ingestion.MemoryStore.persist, List.map_append,
      Ingestion.CollectingPublisher.publish]
    split
    · exact h.published.append (List.Sublist.refl _)
    · exact h.published.trans (List.sublist_append_left _ _)
  next => exact h.published

/-- The queue only grows. -/
theorem events_serve (s : Ingestion.State K) (c : Ingestion.Call K) :
    ∃ later, (Ingestion.serve s c).publisher.events = s.publisher.events ++ later := by
  rw [Ingestion.serve, Ingestion.run_ingest]
  split
  next =>
    simp only [Ingestion.State.record, Ingestion.CollectingPublisher.publish]
    split
    · exact ⟨_, rfl⟩
    · exact ⟨[], (List.append_nil _).symm⟩
  next => exact ⟨[], (List.append_nil _).symm⟩

/-- While no publish fails, every persisted ping has its event. -/
theorem published_serve {s : Ingestion.State K}
    (h : s.publisher.events = s.store.persisted.map eventOf) {c : Ingestion.Call K}
    (hc : c.publishErr = none) :
    (Ingestion.serve s c).publisher.events = (Ingestion.serve s c).store.persisted.map eventOf := by
  rw [Ingestion.serve, Ingestion.run_ingest]
  split
  next =>
    simp only [Ingestion.State.record, Ingestion.MemoryStore.persist, List.map_append,
      Ingestion.CollectingPublisher.publish, hc, Option.isNone_none, if_true, h]
    rfl
  next => exact h

end Ingest

/-- Each vehicle's events are in timestamp order. -/
theorem Announces.notBefore {s : Ingestion.State K} (h : Announces s) :
    s.publisher.events.Pairwise NotBefore := by
  refine List.Pairwise.sublist h.published ?_
  rw [List.pairwise_map]
  have hlist (ps : List (StoredPing K))
      (hps : ∀ v, ((ps.filter fun p => p.vehicleID = v).map StoredPing.timestamp).Pairwise
        (· ≤ ·)) :
      ps.Pairwise fun p q => NotBefore (eventOf p) (eventOf q) := by
    induction ps with
    | nil => exact .nil
    | cons p ps ih =>
      refine .cons (fun q hq hv => ?_) (ih fun v => ?_)
      · -- the later ping is one of the same vehicle
        have hown := hps p.vehicleID
        rw [List.filter_cons_of_pos (by simp), List.map_cons, List.pairwise_cons] at hown
        refine hown.1 _ (List.mem_map_of_mem (List.mem_filter.2 ⟨hq, ?_⟩))
        exact decide_eq_true hv.symm
      · refine (hps v).sublist (List.Sublist.map _ (List.Sublist.filter _ ?_))
        exact List.sublist_cons_self p ps
  exact hlist _ h.ordered.sorted

/-- No event is later than its vehicle's high-water mark. -/
theorem Announces.le_mark {s : Ingestion.State K} (h : Announces s) {e : AcceptedPingEvent K}
    (he : e ∈ s.publisher.events) :
    ∃ p ∈ s.store.persisted, eventOf p = e ∧
      ∃ mark, s.hwm.latest e.vehicleID = some mark ∧ e.timestamp ≤ mark := by
  obtain ⟨p, hp, rfl⟩ := List.mem_map.1 (h.published.subset he)
  refine ⟨p, hp, rfl, ?_⟩
  have hmem : p.timestamp ∈ s.store.timestamps p.vehicleID :=
    List.mem_map_of_mem (List.mem_filter.2 ⟨hp, decide_eq_true rfl⟩)
  -- the mark is the latest of the vehicle's timestamps, of which this is one
  cases hmark : s.hwm.latest p.vehicleID with
  | none =>
    rw [h.ordered.mark, Ingestion.latestOf_eq_none_iff] at hmark
    rw [hmark] at hmem
    exact absurd hmem List.not_mem_nil
  | some mark =>
    refine ⟨mark, hmark, ?_⟩
    rw [h.ordered.mark, Ingestion.latestOf_eq_some_iff] at hmark
    exact hmark.2 hmem

/-! ## What is generated -/

section Generate

variable [Add K] [Sub K] [Mul K] [Div K] [Neg K] [LT K] [DecidableLT K] [Min K] [Max K] [BEq K]
  [IntCast K]

/-- The ids of the zones that contain a point. -/
def zonesAt (zones : List (Zone K)) (p : Point K) : Finset String :=
  ((zones.filter fun z => z.polygon.containsInclusive p).map Zone.id).toFinset

/-- The events of a ping carry its vehicle and timestamp, and enter the zones that contain its
point and no others. -/
theorem eventsOf_ping {s : State} {c : PingCall K} {z : ZoneEvent} (hz : z ∈ eventsOf s c) :
    z.vehicleID = c.ping.vehicleID ∧ z.timestamp = c.ping.timestamp ∧
      ∃ zones, c.zones = .ok zones ∧ (z.type = .enter ↔ z.zoneID ∈ zonesAt zones c.ping.point) := by
  cases hzones : c.zones with
  | error e =>
    rw [eventsOf, returned, run_onAcceptedPing_error hzones] at hz
    exact absurd hz List.not_mem_nil
  | ok zones =>
    obtain ⟨hreturned, -⟩ := run_diffAndPublish c
      (currentZones (zones.filter fun z => z.polygon.containsInclusive c.ping.point)) s
    rw [eventsOf, returned, run_onAcceptedPing_ok hzones, hreturned] at hz
    refine ⟨events_vehicleID c _ _ hz, ?_, zones, rfl, ?_⟩
    · rcases (mem_events c _ _ z).1 hz with ⟨_, -, -, rfl⟩ | ⟨_, -, -, rfl⟩ <;> rfl
    · exact (type_of_mem_events c _ _ hz).2.trans (mem_zonesContaining c zones z.zoneID).symm

/-- Of one vehicle, the second event is not before the first. -/
def ZoneEvent.NotBefore (a b : ZoneEvent) : Prop :=
  a.vehicleID = b.vehicleID → a.timestamp ≤ b.timestamp

/-- A zone event of the vehicle and the time of an event. -/
def CausedBy (z : ZoneEvent) (e : AcceptedPingEvent K) : Prop :=
  z.vehicleID = e.vehicleID ∧ z.timestamp = e.timestamp

namespace Pipeline

/-- The delivery generates a zone event, evaluating the event at the engine's position. -/
def Generates (s : Pipeline K) (d : Delivery K) (e : AcceptedPingEvent K) (z : ZoneEvent) : Prop :=
  s.queue[s.position]? = some e ∧ z ∈ eventsOf s.engine (d.call e)

/-- What every run keeps. -/
structure Sound (s : Pipeline K) : Prop where
  announces : Announces s.ingestion
  consistent : Consistent s.engine s.zoneEvents
  ordered : s.zoneEvents.Pairwise ZoneEvent.NotBefore
  caused : ∃ read, Reads s.queue s.position read ∧ ∀ z ∈ s.zoneEvents, ∃ e ∈ read, CausedBy z e

omit [Add K] [Sub K] [Mul K] [Div K] [Neg K] [LT K] [DecidableLT K] [Min K] [Max K] [BEq K]
  [IntCast K] in
theorem sound_new : Sound (new (K := K)) where
  announces := announces_new
  consistent := consistent_new
  ordered := .nil
  caused := ⟨[], .start, fun _ hz => absurd hz List.not_mem_nil⟩

theorem Sound.step {s : Pipeline K} (h : Sound s) (a : Act K) : Sound (s.step a) := by
  obtain ⟨read, hread, hcaused⟩ := h.caused
  cases a with
  | ingest c =>
    obtain ⟨later, hlater⟩ := events_serve s.ingestion c
    refine ⟨h.announces.serve c, h.consistent, h.ordered, read, ?_, hcaused⟩
    show Reads (Ingestion.serve s.ingestion c).publisher.events s.position read
    rw [hlater]
    exact hread.grow later
  | deliver d acked =>
    rw [Pipeline.step]
    cases he : s.queue[s.position]? with
    | none => exact h
    | some e =>
      have hgenerated : ∀ z ∈ eventsOf s.engine (d.call e), CausedBy z e :=
        fun z hz => ⟨(eventsOf_ping hz).1, (eventsOf_ping hz).2.1⟩
      refine ⟨h.announces, h.consistent.evaluate _, ?_, read ++ [e], hread.deliver he acked,
        fun z hz => ?_⟩
      · refine List.pairwise_append.2 ⟨h.ordered, List.pairwise_of_forall_mem_list ?_, ?_⟩
        · intro a ha b hb _
          exact ((hgenerated a ha).2.trans (hgenerated b hb).2.symm).le
        · -- what was read before is not later than the event at the position
          intro a ha b hb hv
          obtain ⟨e', he', hvehicle, htime⟩ := hcaused a ha
          obtain ⟨hvehicle', htime'⟩ := hgenerated b hb
          have hnot := hread.rel h.announces.notBefore (fun _ _ => le_rfl) he' le_rfl he
          rw [htime, htime']
          exact hnot (hvehicle.symm.trans (hv.trans hvehicle'))
      · rcases List.mem_append.1 hz with hbefore | hnew
        · obtain ⟨e', he', hcause⟩ := hcaused z hbefore
          exact ⟨e', List.mem_append_left _ he', hcause⟩
        · exact ⟨e, List.mem_append_right _ (List.mem_singleton_self e), hgenerated z hnew⟩

/-- Every zone event of a run was generated by one of its deliveries. -/
theorem exists_generates {acts : List (Act K)} {z : ZoneEvent}
    (hz : z ∈ (Runs.run Pipeline.step new acts).zoneEvents) :
    ∃ before d acked after e, acts = before ++ .deliver d acked :: after ∧
      (Runs.run Pipeline.step new before).Generates d e z := by
  induction acts using List.reverseRecOn with
  | nil => exact absurd hz List.not_mem_nil
  | append_singleton acts a ih =>
    have hearlier : z ∈ (Runs.run Pipeline.step new acts).zoneEvents →
        ∃ before d acked after e, acts ++ [a] = before ++ .deliver d acked :: after ∧
          (Runs.run Pipeline.step new before).Generates d e z := by
      intro h
      obtain ⟨before, d, acked, after, e, rfl, hgenerates⟩ := ih h
      exact ⟨before, d, acked, after ++ [a], e, by rw [List.append_assoc, List.cons_append],
        hgenerates⟩
    rw [Runs.run_concat] at hz
    cases a with
    | ingest c => exact hearlier hz
    | deliver d acked =>
      rw [Pipeline.step] at hz
      cases he : (Runs.run Pipeline.step new acts).queue[
          (Runs.run Pipeline.step new acts).position]? with
      | none =>
        rw [he] at hz
        exact hearlier hz
      | some e =>
        rw [he] at hz
        rcases List.mem_append.1 hz with hz | hz
        · exact hearlier hz
        · exact ⟨acts, d, acked, [], e, rfl, he, hz⟩

/-- What is queued stays queued. -/
theorem mem_queue_run {s : Pipeline K} {e : AcceptedPingEvent K} (he : e ∈ s.queue)
    (acts : List (Act K)) : e ∈ (Runs.run Pipeline.step s acts).queue := by
  refine Runs.run_invariant (I := fun s : Pipeline K => e ∈ s.queue) (fun s a hs => ?_) he acts
  cases a with
  | ingest c =>
    obtain ⟨later, hlater⟩ := events_serve s.ingestion c
    show e ∈ (Ingestion.serve s.ingestion c).publisher.events
    rw [hlater]
    exact List.mem_append_left _ hs
  | deliver d acked =>
    rw [Pipeline.step]
    split
    next => exact hs
    next => exact hs

/-- After any requests and deliveries in any order the zone events of a vehicle and a zone
alternate, those of a vehicle are in timestamp order, and each is of a persisted ping of its
vehicle, not past the vehicle's high-water mark. It was generated by a delivery of that ping's
event, and enters the zone exactly when the catalog's answer to that delivery has the position of
the ping in the zone. -/
theorem zone_events_run (acts : List (Act K)) :
    let s := Runs.run Pipeline.step new acts
    (∀ v z, Alternates (transitionsOf v z s.zoneEvents)) ∧
    s.zoneEvents.Pairwise ZoneEvent.NotBefore ∧
    ∀ z ∈ s.zoneEvents, ∃ p ∈ s.ingestion.store.persisted,
      p.vehicleID = z.vehicleID ∧ p.timestamp = z.timestamp ∧
      (∃ mark, s.ingestion.hwm.latest z.vehicleID = some mark ∧ z.timestamp ≤ mark) ∧
      ∃ before d acked after zones, acts = before ++ .deliver d acked :: after ∧
        (Runs.run Pipeline.step new before).Generates d (eventOf p) z ∧ d.zones = .ok zones ∧
        (z.type = .enter ↔ z.zoneID ∈ zonesAt zones ⟨p.lat, p.lng⟩) := by
  intro s
  have hsound : Sound s := Runs.run_invariant (fun _ a h => h.step a) sound_new acts
  refine ⟨fun v z => (hsound.consistent v z).1, hsound.ordered, fun z hz => ?_⟩
  obtain ⟨before, d, acked, after, e, hacts, hnext, hgenerated⟩ := exists_generates hz
  obtain ⟨hvehicle, htime, zones, hzones, htype⟩ := eventsOf_ping hgenerated
  -- the event was queued before the delivery, and is that of a ping persisted
  have hqueued : e ∈ s.queue := by
    have h := mem_queue_run (List.mem_of_getElem? hnext) (.deliver d acked :: after)
    rwa [← Runs.run_append, ← hacts] at h
  obtain ⟨p, hp, rfl, mark, hmark, hle⟩ := hsound.announces.le_mark hqueued
  have hmark' : s.ingestion.hwm.latest z.vehicleID = some mark := by
    rw [hvehicle]
    exact hmark
  exact ⟨p, hp, hvehicle.symm, htime.symm, ⟨mark, hmark', htime ▸ hle⟩, before, d, acked, after,
    zones, hacts, ⟨hnext, hgenerated⟩, hzones, htype⟩

/-! ## An engine that has caught up -/

/-- No publish fails, and the catalog answers `zones` or fails, in which case the delivery is not
acknowledged. -/
def Act.Steady (zones : List (Zone K)) : Act K → Prop
  | .ingest c => c.publishErr = none
  | .deliver d acked => d.zones = .ok zones ∨ (∃ err, d.zones = .error err) ∧ acked = false

/-- An observer of the zone sees an event of the vehicle. -/
def sees (zones : List (Zone K)) (v z : String) (o : Observed Bool) (e : AcceptedPingEvent K) :
    Observed Bool :=
  if e.vehicleID = v then observe o (decide (z ∈ zonesAt zones ⟨e.lat, e.lng⟩)) else o

theorem sees_sees (zones : List (Zone K)) (v z : String) (o : Observed Bool)
    (e : AcceptedPingEvent K) :
    sees zones v z (sees zones v z o e) e = sees zones v z o e := by
  by_cases hv : e.vehicleID = v
  · simp only [sees, hv, if_true, observe_observe]
  · simp only [sees, hv, if_false]

/-- The events of other vehicles are not seen. -/
theorem run_sees (zones : List (Zone K)) (v z : String) (o : Observed Bool)
    (es : List (AcceptedPingEvent K)) :
    Runs.run (sees zones v z) o es = Runs.run observe o
      ((es.filter fun e => e.vehicleID = v).map fun e =>
        decide (z ∈ zonesAt zones ⟨e.lat, e.lng⟩)) := by
  induction es generalizing o with
  | nil => rfl
  | cons e es ih =>
    rw [Runs.run_cons, ih, sees]
    by_cases hv : e.vehicleID = v
    · rw [if_pos hv, List.filter_cons, if_pos (decide_eq_true hv), List.map_cons, Runs.run_cons]
    · rw [if_neg hv, List.filter_cons, if_neg (by simpa using hv)]

/-- What a run of steady acts keeps. -/
structure Located (zones : List (Zone K)) (s : Pipeline K) : Prop where
  announces : Announces s.ingestion
  published : s.queue = s.ingestion.store.persisted.map eventOf
  observed : ∃ read, Reads s.queue s.position read ∧
    ∀ v z, Agrees v z (Runs.run (sees zones v z) ⟨false, []⟩ read) s.engine
      (transitionsOf v z s.zoneEvents)

theorem located_new (zones : List (Zone K)) : Located zones (new (K := K)) :=
  ⟨announces_new, rfl, [], .start, fun _ _ => ⟨rfl, rfl⟩⟩

theorem Located.step {zones : List (Zone K)} {s : Pipeline K} (h : Located zones s) (a : Act K)
    (ha : a.Steady zones) : Located zones (s.step a) := by
  obtain ⟨read, hread, hagrees⟩ := h.observed
  cases a with
  | ingest c =>
    obtain ⟨later, hlater⟩ := events_serve s.ingestion c
    refine ⟨h.announces.serve c, published_serve h.published ha, read, ?_, hagrees⟩
    show Reads (Ingestion.serve s.ingestion c).publisher.events s.position read
    rw [hlater]
    exact hread.grow later
  | deliver d acked =>
    rw [Pipeline.step]
    cases he : s.queue[s.position]? with
    | none => exact h
    | some e =>
      refine ⟨h.announces, h.published, ?_⟩
      have hnext (v z : String) := (hagrees v z).evaluate (d.call e)
      rcases ha with hzones | ⟨⟨err, herr⟩, rfl⟩
      · refine ⟨read ++ [e], hread.deliver he acked, fun v z => ?_⟩
        have hseen : ((d.call e).observation v z).elim
            (Runs.run (sees zones v z) ⟨false, []⟩ read)
              (observe (Runs.run (sees zones v z) ⟨false, []⟩ read)) =
            Runs.run (sees zones v z) ⟨false, []⟩ (read ++ [e]) := by
          rw [Runs.run_concat, PingCall.observation, sees]
          have hcall : (d.call e).zones = .ok zones := hzones
          simp only [hcall]
          by_cases hv : e.vehicleID = v
          · rw [if_pos hv, if_pos (show (d.call e).ping.vehicleID = v from hv)]
            rfl
          · rw [if_neg hv, if_neg (show ¬ (d.call e).ping.vehicleID = v from hv)]
            rfl
        rw [← hseen]
        show Agrees v z _ _ (transitionsOf v z (s.zoneEvents ++ eventsOf s.engine (d.call e)))
        rw [transitionsOf_append]
        exact hnext v z
      · -- the evaluation fails: nothing is observed, and the event is read again
        refine ⟨read, hread, fun v z => ?_⟩
        have hnone : (d.call e).observation v z = none := by
          have hcall : (d.call e).zones = .error err := herr
          rw [PingCall.observation]
          simp only [hcall, ite_self]
        show Agrees v z _ _ (transitionsOf v z (s.zoneEvents ++ eventsOf s.engine (d.call e)))
        rw [transitionsOf_append]
        have hsame := hnext v z
        rwa [hnone] at hsame

/-- While no publish fails and the catalog lists the same zones, an engine that has acknowledged the
whole queue, whatever was delivered more than once, has generated for every vehicle and zone exactly
the changes of membership from persisted ping to persisted ping, and holds the membership of the
last one, which is the ping at the vehicle's high-water mark. -/
theorem caught_up {zones : List (Zone K)} {acts : List (Act K)} (hacts : ∀ a ∈ acts, a.Steady zones)
    (hend : (Runs.run Pipeline.step new acts).position =
      (Runs.run Pipeline.step new acts).queue.length) (v z : String) :
    let s := Runs.run Pipeline.step new acts
    let pings := s.ingestion.store.persisted.filter fun p => p.vehicleID = v
    let o := observeAll false (pings.map fun p => decide (z ∈ zonesAt zones ⟨p.lat, p.lng⟩))
    transitionsOf v z s.zoneEvents = o.changes.map EventType.into ∧
    decide (z ∈ s.engine.members.insideZones v) = o.current ∧
    ∀ p, pings.getLast? = some p → s.ingestion.hwm.latest v = some p.timestamp ∧
      (z ∈ s.engine.members.insideZones v ↔ z ∈ zonesAt zones ⟨p.lat, p.lng⟩) := by
  intro s pings o
  have hsteady : Runs.AllSteps Pipeline.step (fun _ a => a.Steady zones) new acts :=
    Runs.allSteps_of_mem hacts new
  have hlocated : Located zones s :=
    (Runs.always_of_allSteps (I := Located zones) (fun _ a h ha => h.step a ha)
      (located_new zones) hsteady).last
  obtain ⟨read, hread, hagrees⟩ := hlocated.observed
  rw [hend] at hread
  -- what was delivered again makes no difference to an observer
  have hobserver : Runs.run (sees zones v z) ⟨false, []⟩ read = o := by
    rw [hread.run_eq (sees_sees zones v z), hlocated.published, run_sees, List.filter_map,
      List.map_map]
    rfl
  have hagree := hagrees v z
  rw [hobserver] at hagree
  refine ⟨hagree.changes, hagree.current.symm, fun p hp => ⟨?_, ?_⟩⟩
  · -- the timestamps are in order, so the last is the greatest
    have hord := hlocated.announces.ordered
    rw [hord.mark, Ingestion.latestOf_eq_some_iff]
    obtain ⟨before, hbefore⟩ := List.getLast?_eq_some_iff.1 hp
    have htimes : s.ingestion.store.timestamps v =
        before.map StoredPing.timestamp ++ [p.timestamp] := by
      show pings.map StoredPing.timestamp = _
      rw [hbefore, List.map_append, List.map_cons, List.map_nil]
    have hsorted := hord.sorted v
    rw [htimes] at hsorted ⊢
    refine ⟨List.mem_append_right _ (List.mem_singleton_self _), fun t ht => ?_⟩
    rcases List.mem_append.1 ht with ht | ht
    · exact (List.pairwise_append.1 hsorted).2.2 t ht _ (List.mem_singleton_self _)
    · exact (List.mem_singleton.1 ht).le
  · have hlast : o.current = decide (z ∈ zonesAt zones ⟨p.lat, p.lng⟩) := by
      rw [current_observeAll, List.getLast?_map, hp]
      rfl
    rw [← decide_eq_decide, ← hlast]
    exact hagree.current.symm

end Pipeline

end Generate

/-- A request for vehicle `v` at the given point, whose event is published. -/
def requestAt (lat lng : ℚ) (timestamp id : String) : Ingestion.Call ℚ where
  req := ⟨some "v", some lat, some lng, some timestamp, none⟩
  driverForVehicle := none
  newID := id
  now := 0
  persistErr := none
  publishErr := none

/-- A square around the origin. -/
def depot : Zone ℚ := ⟨"depot", none, ⟨[⟨-1, -1⟩, ⟨-1, 1⟩, ⟨1, 1⟩, ⟨1, -1⟩]⟩⟩

/-- A delivery with the given answer of the catalog. -/
def deliveryOf (zones : Except Error (List (Zone ℚ))) : Delivery ℚ where
  zones := zones
  lookup _ := .ok none
  enterOrder := .sorted String
  exitOrder := .sorted String
  publishErr _ := none

/-- Vehicle `v` drives into the zone and out of it; the catalog fails once, and one event is
delivered twice. -/
def depotVisit : List (Pipeline.Act ℚ) :=
  [.ingest (requestAt 0 0 "2024-01-01T00:00:05Z" "a"), .deliver (deliveryOf (.error "down")) false,
    .deliver (deliveryOf (.ok [depot])) false,
    .ingest (requestAt 5 5 "2024-01-01T00:00:30Z" "b"), .deliver (deliveryOf (.ok [depot])) true,
    .deliver (deliveryOf (.ok [depot])) true]

theorem depotVisit_caught_up :
    let s := Runs.run Pipeline.step Pipeline.new depotVisit
    let pings := s.ingestion.store.persisted.filter fun p => p.vehicleID = "v"
    let o := observeAll false (pings.map fun p => decide ("depot" ∈ zonesAt [depot] ⟨p.lat, p.lng⟩))
    transitionsOf "v" "depot" s.zoneEvents = o.changes.map EventType.into ∧
    decide ("depot" ∈ s.engine.members.insideZones "v") = o.current ∧
    ∀ p, pings.getLast? = some p → s.ingestion.hwm.latest "v" = some p.timestamp ∧
      ("depot" ∈ s.engine.members.insideZones "v" ↔ "depot" ∈ zonesAt [depot] ⟨p.lat, p.lng⟩) :=
  Pipeline.caught_up (by simp [depotVisit, Pipeline.Act.Steady, requestAt, deliveryOf])
    (by decide +kernel) "v" "depot"

end FleetCommand.Geofence
