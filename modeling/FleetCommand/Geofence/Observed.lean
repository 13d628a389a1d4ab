import FleetCommand.Geofence.Stream
import FleetCommand.Lib.Observation

/-!
# The engine as an observer

What the engine is for, one vehicle and one zone at a time: it observes whether the vehicle is in
the zone and reports the changes (`Observation.observe`). `Agrees` relates a state of the engine and
the transitions produced so far to such an observer; every ping keeps it, and so every stream
(`transitions_exact`).
-/

set_option autoImplicit false

namespace FleetCommand.Geofence

open Observation

/-- The transition that leads to a membership. -/
def EventType.into (inside : Bool) : EventType := if inside then .enter else .exit

/-- The observer of the zone holds what the engine does of the vehicle, and has recorded the
transitions. -/
structure Agrees (v z : String) (o : Observed Bool) (s : State) (transitions : List EventType) :
    Prop where
  current : o.current = decide (z ∈ s.members.insideZones v)
  changes : transitions = o.changes.map EventType.into

section Evaluate

variable {K : Type} [Add K] [Sub K] [Mul K] [Div K] [Neg K] [LT K] [DecidableLT K] [Min K] [Max K]
  [BEq K] [IntCast K]

/-- Whether a ping finds the vehicle in the zone; nothing when it is of another vehicle or the
catalog fails. -/
def PingCall.observation (v z : String) (c : PingCall K) : Option Bool :=
  if c.ping.vehicleID = v then
    match c.zones with
    | .ok zones => some (decide (z ∈ c.zonesContaining zones))
    | .error _ => none
  else none

variable {v z : String} {o : Observed Bool} {s : State} {ts : List EventType}

/-- A ping that observes nothing changes nothing of the vehicle in the zone. -/
theorem evaluate_unobserved {c : PingCall K} (hc : c.observation v z = none) :
    transitionsOf v z (eventsOf s c) = [] ∧
      (evaluate s c).members.insideZones v = s.members.insideZones v := by
  have hping := (evaluatesPing s c).1
  cases hzones : c.zones with
  | error e =>
    rw [hzones] at hping
    rw [eventsOf, hping.1, hping.2]
    exact ⟨rfl, rfl⟩
  | ok zones =>
    rw [hzones] at hping
    obtain ⟨events, hreturned, heval⟩ := hping
    -- zones were found, so the ping is of another vehicle
    have hv : c.ping.vehicleID ≠ v := by
      intro hv
      simp [PingCall.observation, hv, hzones] at hc
    refine ⟨?_, heval.others v fun heq => hv heq.symm⟩
    rw [eventsOf, hreturned]
    exact transitionsOf_eq_nil fun e he hp => hv ((heval.vehicle e he).symm.trans hp.1)

/-- A ping that observes the vehicle produces the transition to what it observes when that is a
change. -/
theorem evaluate_observed {c : PingCall K} {inside : Bool}
    (hc : c.observation v z = some inside) :
    transitionsOf v z (eventsOf s c) =
        (if inside = decide (z ∈ s.members.insideZones v) then [] else [.into inside]) ∧
      decide (z ∈ (evaluate s c).members.insideZones v) = inside := by
  have hping := (evaluatesPing s c).1
  rw [PingCall.observation] at hc
  split at hc
  next hv =>
    subst hv
    cases hzones : c.zones with
    | error e => simp [hzones] at hc
    | ok zones =>
      rw [hzones] at hping hc
      obtain ⟨events, hreturned, heval⟩ := hping
      rw [Option.some.injEq] at hc
      subst hc
      have hevents : eventsOf s c = events := by rw [eventsOf, hreturned]
      rw [hevents, transitionsOf_evaluates heval, heval.membership]
      refine ⟨?_, rfl⟩
      -- inside or not, before and now
      by_cases hnew : z ∈ c.zonesContaining zones <;>
        by_cases hold : z ∈ s.members.insideZones c.ping.vehicleID <;>
        simp [hnew, hold, EventType.into]
  next => exact absurd hc (by simp)

/-- The observer goes on as the ping observes. -/
theorem Agrees.evaluate (h : Agrees v z o s ts) (c : PingCall K) :
    Agrees v z ((c.observation v z).elim o (observe o)) (evaluate s c)
      (ts ++ transitionsOf v z (eventsOf s c)) := by
  cases hc : c.observation v z with
  | none =>
    obtain ⟨hnone, hsame⟩ := evaluate_unobserved (s := s) hc
    refine ⟨?_, ?_⟩
    · rw [hsame]
      exact h.current
    · rw [hnone, List.append_nil]
      exact h.changes
  | some inside =>
    obtain ⟨htransitions, hinside⟩ := evaluate_observed (s := s) hc
    rw [← h.current] at htransitions
    rw [Option.elim_some, observe, htransitions, h.changes]
    split
    next heq => exact ⟨heq.symm.trans hinside.symm, List.append_nil _⟩
    next =>
      refine ⟨hinside.symm, ?_⟩
      rw [List.map_append]
      rfl

theorem Agrees.run (h : Agrees v z o s ts) (cs : List (PingCall K)) :
    Agrees v z (Runs.run observe o (cs.filterMap (PingCall.observation v z)))
      (Runs.run Geofence.evaluate s cs) (ts ++ transitionsOf v z (produced s cs)) := by
  -- on the pings, from the first: the rest starts from what it leaves
  induction cs generalizing o s ts with
  | nil =>
    rw [produced, transitionsOf_nil, List.append_nil]
    exact h
  | cons c cs ih =>
    have hnext := ih (h.evaluate c)
    rw [produced, transitionsOf_append, ← List.append_assoc]
    cases hc : c.observation v z with
    | none =>
      rw [List.filterMap_cons_none hc]
      rw [hc] at hnext
      exact hnext
    | some inside =>
      rw [List.filterMap_cons_some hc]
      rw [hc] at hnext
      exact hnext

/-- From any state and for any stream of pings, whatever the catalog answers to each: the
transitions produced for a vehicle and a zone are the changes of membership from ping to ping, a
ping whose evaluation fails not counted, and the membership held is the one observed last. -/
theorem transitions_exact (s : State) (cs : List (PingCall K)) (v z : String) :
    let o := observeAll (decide (z ∈ s.members.insideZones v))
      (cs.filterMap (PingCall.observation v z))
    transitionsOf v z (produced s cs) = o.changes.map EventType.into ∧
    decide (z ∈ (Runs.run Geofence.evaluate s cs).members.insideZones v) = o.current := by
  intro o
  have hstart : Agrees v z ⟨decide (z ∈ s.members.insideZones v), []⟩ s [] := ⟨rfl, rfl⟩
  have hrun := hstart.run cs
  exact ⟨hrun.changes, hrun.current.symm⟩

end Evaluate

end FleetCommand.Geofence
