import FleetCommand.Geofence.Transitions

/-!
# Streams of pings evaluated one after another

`evaluate` is `onAcceptedPing` run to its end before the next ping. `evaluates_stream` says what
each ping of a stream does to the membership and returns, whatever the catalog and the publisher do,
and that the transitions a stream produces alternate for each vehicle and zone.

The alternation is carried by `Consistent`: the transitions produced so far alternate, and the last
one is `Enter` exactly for the zones the membership store holds.
-/

set_option autoImplicit false

namespace FleetCommand.Geofence

open Resumption

/-! ## The calls after the read, run alone -/

section Calls

variable {K : Type} (c : PingCall K)

/-- The `Set` calls of a list of updates leave the vehicle in the zones last set and in those it was
in and that no update names; nothing is published. -/
theorem after_updates (us : List (String × Bool)) (h : (us.map Prod.fst).Nodup) (s : State) :
    (Prog.after engine s (us.map c.setOp)).publishCalls = s.publishCalls ∧
    ∀ w z, z ∈ (Prog.after engine s (us.map c.setOp)).members.insideZones w ↔
      if w = c.ping.vehicleID ∧ z ∈ us.map Prod.fst then (z, true) ∈ us
      else z ∈ s.members.insideZones w := by
  induction us generalizing s with
  | nil => simp
  | cons u us ih =>
    obtain ⟨y, b⟩ := u
    rw [List.map_cons, List.nodup_cons] at h
    obtain ⟨hpub, hmem⟩ := ih h.2 (engine (c.setOp (y, b)) s).2
    refine ⟨hpub, fun w z => ?_⟩
    rw [List.map_cons, Prog.after_cons, hmem]
    have hset : (engine (c.setOp (y, b)) s).2.members = s.members.set c.ping.vehicleID y b := rfl
    rw [hset, MemoryMembership.mem_insideZones_set]
    by_cases hw : w = c.ping.vehicleID
    · by_cases hz : z = y
      · -- the zone set first is not named again
        have hus : ∀ b', (y, b') ∉ us := by
          intro b' hb
          exact h.1 (List.mem_map.2 ⟨(y, b'), hb, rfl⟩)
        subst hz
        simp [hw, h.1, hus, eq_comm]
      · simp [hw, hz]
    · simp [hw]

/-- The `Publish` calls of a list of events leave the membership as it is. -/
theorem after_events (evs : List ZoneEvent) (s : State) :
    Prog.after engine s (evs.map c.publishOp) =
      ⟨s.members, s.publishCalls ++ evs.map fun e => (e, c.publishErr e)⟩ := by
  induction evs generalizing s with
  | nil => simp
  | cons ev evs ih =>
    rw [List.map_cons, Prog.after_cons, ih]
    simp [PingCall.publishOp, engine]

/-- The calls after the read, from a state whose membership is what was read. -/
theorem run_diffAndPublish (current : GoMap String (Zone K)) (s : State) :
    let prior := s.members.insideZones c.ping.vehicleID
    let r := (diffAndPublish c current prior).run engine s
    r.1 = .ok (c.events current prior) ∧
    r.2.publishCalls = s.publishCalls ++
      (c.events current prior).map (fun e => (e, c.publishErr e)) ∧
    ∀ w z, z ∈ r.2.members.insideZones w ↔
      if w = c.ping.vehicleID then z ∈ current.keys else z ∈ s.members.insideZones w := by
  intro prior r
  obtain ⟨hpub, hmem⟩ := after_updates c _ (updates_nodup c current prior) s
  have hr : r = (.ok (c.events current prior),
      Prog.after engine (Prog.after engine s ((c.updates current prior).map c.setOp))
        ((c.events current prior).map c.publishOp)) := by
    rw [show r = (diffAndPublish c current prior).run engine s from rfl, diffAndPublish_eq,
      Prog.run_calls, Prog.run_ret, Prog.after_append]
  rw [hr, after_events]
  refine ⟨rfl, by rw [hpub], fun w z => ?_⟩
  rw [hmem]
  by_cases hw : w = c.ping.vehicleID
  · subst hw
    -- the zones set are those in exactly one of the two memberships
    have hz : z ∈ (c.updates current prior).map Prod.fst ↔
        (z ∈ current.keys ∧ z ∉ prior) ∨ (z ∈ prior ∧ z ∉ current.keys) := by
      simp only [List.mem_map, Prod.exists, mem_updates, exists_and_right, exists_eq_right]
      simp [or_comm]
    simp only [hz, mem_updates, true_and, if_true]
    by_cases hc : z ∈ current.keys <;> by_cases hp : z ∈ prior <;> simp [hc, hp]
    · exact hp
    · exact hp
  · simp [hw]

end Calls

/-! ## Evaluating one ping -/

section Stream

variable {K : Type} [Add K] [Sub K] [Mul K] [Div K] [Neg K] [LT K] [DecidableLT K] [Min K] [Max K]
  [BEq K] [IntCast K]

/-- The state a ping leaves. -/
def evaluate (s : State) (c : PingCall K) : State := ((onAcceptedPing c).run engine s).2

/-- What the evaluation of a ping returns. -/
def returned (s : State) (c : PingCall K) : Except Error (List ZoneEvent) :=
  ((onAcceptedPing c).run engine s).1

/-- The events a ping produces; none when its evaluation fails. -/
def eventsOf (s : State) (c : PingCall K) : List ZoneEvent :=
  match returned s c with
  | .ok events => events
  | .error _ => []

/-- The events a stream of pings produces, in order. -/
def produced : State → List (PingCall K) → List ZoneEvent
  | _, [] => []
  | s, c :: cs => eventsOf s c ++ produced (evaluate s c) cs

/-- The ids of the listed zones whose polygon contains the ping's point. -/
def PingCall.zonesContaining (c : PingCall K) (zones : List (Zone K)) : Finset String :=
  ((zones.filter fun z => z.polygon.containsInclusive c.ping.point).map Zone.id).toFinset

/-- What a ping does when the catalog lists `zones`: `events` are returned. -/
structure Evaluates (s : State) (c : PingCall K) (zones : List (Zone K))
    (events : List ZoneEvent) : Prop where
  membership : (evaluate s c).members.insideZones c.ping.vehicleID = c.zonesContaining zones
  others : ∀ w, w ≠ c.ping.vehicleID →
    (evaluate s c).members.insideZones w = s.members.insideZones w
  ordered : (events.map ZoneEvent.zoneID).Pairwise (· < ·)
  vehicle : ∀ e ∈ events, e.vehicleID = c.ping.vehicleID
  enters : ∀ z, (∃ e ∈ events, e.zoneID = z ∧ e.type = .enter) ↔
    z ∈ c.zonesContaining zones \ s.members.insideZones c.ping.vehicleID
  exits : ∀ z, (∃ e ∈ events, e.zoneID = z ∧ e.type = .exit) ↔
    z ∈ s.members.insideZones c.ping.vehicleID \ c.zonesContaining zones
  published : (evaluate s c).publishCalls =
    s.publishCalls ++ events.map fun e => (e, c.publishErr e)

/-- What a ping does, by the catalog's answer; the publisher's errors change neither the membership
nor the events. -/
def EvaluatesPing (s : State) (c : PingCall K) : Prop :=
  (match c.zones with
    | .error e => returned s c = .error e ∧ evaluate s c = s
    | .ok zones => ∃ events, returned s c = .ok events ∧ Evaluates s c zones events) ∧
  ∀ publishErr, (evaluate s { c with publishErr := publishErr }).members = (evaluate s c).members ∧
    returned s { c with publishErr := publishErr } = returned s c

theorem run_onAcceptedPing_error {c : PingCall K} {e : Error} (h : c.zones = .error e) (s : State) :
    (onAcceptedPing c).run engine s = (.error e, s) := by
  simp [onAcceptedPing, perform, PingCall.containing, h, engine, Except.map]

theorem run_onAcceptedPing_ok {c : PingCall K} {zones : List (Zone K)} (h : c.zones = .ok zones)
    (s : State) :
    (onAcceptedPing c).run engine s =
      (diffAndPublish c
        (currentZones (zones.filter fun z => z.polygon.containsInclusive c.ping.point))
        (s.members.insideZones c.ping.vehicleID)).run engine s := by
  simp [onAcceptedPing, readAndDiff, perform, PingCall.containing, h, engine, Except.map]

theorem mem_zonesContaining (c : PingCall K) (zones : List (Zone K)) (z : String) :
    z ∈ c.zonesContaining zones ↔
      z ∈ (currentZones (zones.filter fun z => z.polygon.containsInclusive c.ping.point)).keys := by
  rw [mem_keys_currentZones]
  simp only [PingCall.zonesContaining, List.mem_toFinset, List.mem_map]

theorem evaluates_of_ok {c : PingCall K} {zones : List (Zone K)} (h : c.zones = .ok zones)
    (s : State) : ∃ events, returned s c = .ok events ∧ Evaluates s c zones events := by
  have hrun := run_onAcceptedPing_ok h s
  have hkeys := mem_zonesContaining c zones
  generalize currentZones (zones.filter fun z => z.polygon.containsInclusive c.ping.point) = current
    at hrun hkeys
  obtain ⟨hret, hpub, hmem⟩ := run_diffAndPublish c current s
  rw [← hrun] at hret hpub hmem
  refine ⟨_, hret, ?_, ?_, events_strict c current _, ?_, ?_, ?_, hpub⟩
  · ext z
    rw [evaluate, hmem, if_pos rfl, hkeys]
  · intro w hw
    ext z
    rw [evaluate, hmem, if_neg hw]
  · exact fun e he => events_vehicleID c current _ he
  · intro z
    rw [exists_enter_iff, Finset.mem_sdiff, hkeys]
  · intro z
    rw [exists_exit_iff, Finset.mem_sdiff, hkeys]

/-- Neither the membership nor the result reads what `Publish` returns. -/
theorem evaluate_publishErr (s : State) (c : PingCall K) (publishErr : ZoneEvent → Option Error) :
    (evaluate s { c with publishErr := publishErr }).members = (evaluate s c).members ∧
      returned s { c with publishErr := publishErr } = returned s c := by
  have hzones : (∃ e, c.zones = .error e) ∨ ∃ zones, c.zones = .ok zones := by
    cases c.zones <;> simp
  rcases hzones with ⟨e, h⟩ | ⟨zones, h⟩
  · have h' : ({ c with publishErr := publishErr } : PingCall K).zones = .error e := h
    rw [evaluate, evaluate, returned, returned, run_onAcceptedPing_error h,
      run_onAcceptedPing_error h']
    exact ⟨rfl, rfl⟩
  · have h' : ({ c with publishErr := publishErr } : PingCall K).zones = .ok zones := h
    rw [evaluate, evaluate, returned, returned, run_onAcceptedPing_ok h, run_onAcceptedPing_ok h',
      diffAndPublish_eq, diffAndPublish_eq, Prog.run_calls, Prog.run_calls, Prog.after_append,
      Prog.after_append, after_events, after_events]
    exact ⟨rfl, rfl⟩

theorem evaluatesPing (s : State) (c : PingCall K) : EvaluatesPing s c := by
  refine ⟨?_, evaluate_publishErr s c⟩
  cases h : c.zones with
  | error e => simp [returned, evaluate, run_onAcceptedPing_error h]
  | ok zones => exact evaluates_of_ok h s

/-! ## Alternation over a stream -/

/-- The transitions produced so far alternate and the last one agrees with the membership. -/
def Consistent (s : State) (history : List ZoneEvent) : Prop :=
  ∀ v z, Tracks (transitionsOf v z history) (z ∈ s.members.insideZones v)

theorem consistent_new : Consistent State.new [] := by
  intro v z
  simpa [State.new] using tracks_nil

/-- The transition of a pair in the events of one ping, by the memberships before and after. -/
theorem transitionsOf_evaluates {s : State} {c : PingCall K} {zones : List (Zone K)}
    {events : List ZoneEvent} (h : Evaluates s c zones events) (v z : String) :
    transitionsOf v z events =
      if z ∈ (evaluate s c).members.insideZones v then
        if z ∈ s.members.insideZones v then [] else [.enter]
      else if z ∈ s.members.insideZones v then [.exit] else [] := by
  have hnodup : (events.map ZoneEvent.zoneID).Nodup := h.ordered.imp ne_of_lt
  by_cases hv : v = c.ping.vehicleID
  · subst hv
    -- one ping has at most one event of a zone
    have hsingle : ∀ t, (∃ e ∈ events, e.zoneID = z ∧ e.type = t) →
        transitionsOf c.ping.vehicleID z events = [t] := by
      rintro t ⟨e, he, rfl, rfl⟩
      rw [← h.vehicle e he]
      exact transitionsOf_eq_singleton hnodup he
    have hnone : (∀ t, ¬ ∃ e ∈ events, e.zoneID = z ∧ e.type = t) →
        transitionsOf c.ping.vehicleID z events = [] := fun hno =>
      transitionsOf_eq_nil fun e he hp => hno e.type ⟨e, he, hp.2, rfl⟩
    rw [h.membership]
    -- the zone before and after the ping: two of the four cases have an event
    by_cases hnew : z ∈ c.zonesContaining zones
    · by_cases hold : z ∈ s.members.insideZones c.ping.vehicleID
      · rw [if_pos hnew, if_pos hold]
        refine hnone fun t => ?_
        cases t with
        | enter => simp [h.enters, hold]
        | exit => simp [h.exits, hnew]
      · rw [if_pos hnew, if_neg hold]
        exact hsingle .enter ((h.enters z).2 (Finset.mem_sdiff.2 ⟨hnew, hold⟩))
    · by_cases hold : z ∈ s.members.insideZones c.ping.vehicleID
      · rw [if_neg hnew, if_pos hold]
        exact hsingle .exit ((h.exits z).2 (Finset.mem_sdiff.2 ⟨hold, hnew⟩))
      · rw [if_neg hnew, if_neg hold]
        refine hnone fun t => ?_
        cases t with
        | enter => simp [h.enters, hnew]
        | exit => simp [h.exits, hold]
  · have hnone : transitionsOf v z events = [] := by
      refine transitionsOf_eq_nil fun e he hp => hv ?_
      rw [← hp.1, h.vehicle e he]
    rw [h.others v hv, hnone]
    split <;> rfl

/-- One ping keeps the transitions alternating. -/
theorem Consistent.evaluate {s : State} {history : List ZoneEvent} (h : Consistent s history)
    (c : PingCall K) : Consistent (evaluate s c) (history ++ eventsOf s c) := by
  intro v z
  have hstep := (evaluatesPing s c).1
  cases hz : c.zones with
  | error e =>
    rw [hz] at hstep
    simpa [eventsOf, hstep.1, hstep.2] using h v z
  | ok zones =>
    rw [hz] at hstep
    obtain ⟨events, hret, hev⟩ := hstep
    rw [eventsOf, hret, transitionsOf_append, transitionsOf_evaluates hev]
    have hold := h v z
    by_cases hnew : z ∈ (Geofence.evaluate s c).members.insideZones v <;>
      by_cases hin : z ∈ s.members.insideZones v
    · simpa [hnew, hin] using hold
    · simpa [hnew, hin] using hold.append_singleton (t := .enter) (by simp [hin])
    · simpa [hnew, hin] using hold.append_singleton (t := .exit) (by simp [hin])
    · simpa [hnew, hin] using hold

theorem Consistent.run {s : State} {history : List ZoneEvent} (h : Consistent s history)
    (cs : List (PingCall K)) : Consistent (Runs.run Geofence.evaluate s cs)
      (history ++ produced s cs) := by
  induction cs generalizing s history with
  | nil => simpa [produced] using h
  | cons c cs ih =>
    rw [Runs.run_cons, produced, ← List.append_assoc]
    exact ih (h.evaluate c)

/-- Every ping of a stream does what `EvaluatesPing` says, and the transitions produced for a
vehicle and a zone alternate, starting with `Enter`. -/
theorem evaluates_stream (cs : List (PingCall K)) :
    Runs.AllSteps evaluate EvaluatesPing State.new cs ∧
    ∀ v z, Alternates (transitionsOf v z (produced State.new cs)) := by
  constructor
  · exact (Runs.allSteps_iff_splits _ _).2 fun pre c _ _ => evaluatesPing _ c
  · intro v z
    have h := (consistent_new.run cs v z).1
    rwa [List.nil_append] at h

end Stream

end FleetCommand.Geofence
