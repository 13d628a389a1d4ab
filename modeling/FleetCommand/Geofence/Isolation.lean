import FleetCommand.Geofence.Stream
import FleetCommand.Geofence.Race
import FleetCommand.Lib.Isolation

/-!
# Geofence, vehicles in parallel

The membership store is one nested map, and every evaluation reads and sets only the zone map of its
own vehicle (`EngineOp.About`, `engine_confined`). So an interleaving of the streams of distinct
vehicles is no different, for each vehicle, from its stream run alone on an empty store
(`streams_isolated`), also when the runtime ranges over the maps in another order or the publisher
answers differently (`SameEvaluation`).
-/

set_option autoImplicit false

namespace FleetCommand.Geofence

open Resumption

/-! ## The part of the store a vehicle sees -/

section About

variable {K : Type}

/-- A call that names no vehicle but `v` to the membership store. -/
def EngineOp.About (v : String) : EngineOp K → Prop
  | .containing _ => True
  | .insideZones w => w = v
  | .set w _ _ => w = v
  | .publish _ _ => True

/-- A vehicle sees its zone map. -/
def State.seenBy (v : String) (s : State) : GoMap String Bool := s.members.zonesOf v

theorem insideZones_of_seenBy {v : String} {s s' : State} (h : s.seenBy v = s'.seenBy v) :
    s.members.insideZones v = s'.members.insideZones v := by
  have hz : s.members.zonesOf v = s'.members.zonesOf v := h
  rw [MemoryMembership.insideZones, MemoryMembership.insideZones, hz]

/-- A `Set` changes the zone map of its vehicle as that map determines and no other, the first one
of a vehicle included. -/
theorem engine_confined :
    Confined (engine (K := K)) EngineOp.About fun v s => s.seenBy v where
  answer v op s s' hop hs := by
    cases op with
    | containing answer => rfl
    | insideZones w =>
      obtain rfl : w = v := hop
      exact insideZones_of_seenBy hs
    | set w z b => rfl
    | publish e err => rfl
  own v op s s' hop hs := by
    cases op with
    | containing answer => exact hs
    | insideZones w => exact hs
    | set w z b =>
      obtain rfl : w = v := hop
      have hz : s.members.zonesOf w = s'.members.zonesOf w := hs
      show (s.members.set w z b).zonesOf w = (s'.members.set w z b).zonesOf w
      rw [MemoryMembership.zonesOf_set, MemoryMembership.zonesOf_set, if_pos rfl, if_pos rfl, hz]
    | publish e err => exact hs
  other v w op s hop hw := by
    cases op with
    | containing answer => rfl
    | insideZones u => rfl
    | set u z b =>
      obtain rfl : u = v := hop
      show (s.members.set u z b).zonesOf w = s.members.zonesOf w
      rw [MemoryMembership.zonesOf_set, if_neg hw]
    | publish e err => rfl

end About

/-! ## What an evaluation does not depend on -/

section SameEvaluation

variable {K : Type}

/-- The same ping on the same catalog; the orders in which the maps are ranged over and the
publisher's answers may differ. -/
structure SameEvaluation (c c' : PingCall K) : Prop where
  ping : c.ping = c'.ping
  zones : c.zones = c'.zones
  lookup : c.lookup = c'.lookup

/-- Events of distinct zones in zone id order are determined by which they are. -/
theorem events_eq_of_mem_iff {es es' : List ZoneEvent}
    (hes : (es.map ZoneEvent.zoneID).Pairwise (· < ·))
    (hes' : (es'.map ZoneEvent.zoneID).Pairwise (· < ·)) (h : ∀ e, e ∈ es ↔ e ∈ es') : es = es' := by
  rw [List.pairwise_map] at hes hes'
  have hne : ∀ a b : ZoneEvent, a.zoneID < b.zoneID → a ≠ b := by
    rintro a b hab rfl
    exact lt_irrefl _ hab
  have hperm : es.Perm es' :=
    (List.perm_ext_iff_of_nodup (hes.imp (hne _ _)) (hes'.imp (hne _ _))).2 h
  refine List.Perm.eq_of_pairwise ?_ hes hes' hperm
  intro a b _ _ hab hba
  exact absurd (hab.trans hba) (lt_irrefl _)

theorem SameEvaluation.events {c c' : PingCall K} (h : SameEvaluation c c')
    (current : GoMap String (Zone K)) (prior : Finset String) :
    c.events current prior = c'.events current prior := by
  refine events_eq_of_mem_iff (events_strict c current prior) (events_strict c' current prior) ?_
  intro e
  have henter : c.enterEvent current = c'.enterEvent current := by
    funext z
    simp only [PingCall.enterEvent, h.ping]
  have hexit : c.exitEvent = c'.exitEvent := by
    funext z
    simp only [PingCall.exitEvent, h.ping, h.lookup]
  rw [mem_events, mem_events, henter, hexit]

end SameEvaluation

section Isolation

variable {K : Type} [Add K] [Sub K] [Mul K] [Div K] [Neg K] [LT K] [DecidableLT K] [Min K] [Max K]
  [BEq K] [IntCast K]

/-! ## Streams -/

/-- The accepted pings of one vehicle, in order. -/
structure Stream (K : Type) (vehicleID : String) where
  calls : List (PingCall K)
  vehicle : ∀ c ∈ calls, c.ping.vehicleID = vehicleID

/-- One call of `OnAcceptedPing` after another, and what each returned. -/
def onAcceptedPings : List (PingCall K) → EngineProg K (List (Except Error (List ZoneEvent)))
  | [] => return []
  | c :: cs => do
    let r ← onAcceptedPing c
    let rs ← onAcceptedPings cs
    return r :: rs

/-- The streams of all vehicles at their start, on an empty membership store; a vehicle that sends
no ping has the empty stream. -/
def startStreams (streams : (v : String) → Stream K v) :
    Pool String (EngineOp.Resp (K := K)) (List (Except Error (List ZoneEvent))) State :=
  ⟨fun v => onAcceptedPings (streams v).calls, State.new⟩

theorem onAcceptedPing_about (c : PingCall K) :
    (onAcceptedPing c).CallsOnly (EngineOp.About c.ping.vehicleID) := by
  refine ⟨trivial, fun answer => ?_⟩
  cases answer with
  | error e => trivial
  | ok containing =>
    refine ⟨rfl, fun prior => ?_⟩
    show (diffAndPublish c (currentZones containing) prior).CallsOnly _
    rw [diffAndPublish_eq]
    refine Prog.CallsOnly.calls ?_ trivial
    intro op hop
    rcases List.mem_append.1 hop with hset | hpublish
    · obtain ⟨u, -, rfl⟩ := List.mem_map.1 hset
      rfl
    · obtain ⟨e, -, rfl⟩ := List.mem_map.1 hpublish
      trivial

theorem Stream.about {v : String} (stream : Stream K v) :
    (onAcceptedPings stream.calls).CallsOnly (EngineOp.About v) := by
  obtain ⟨calls, hvehicle⟩ := stream
  induction calls with
  | nil => trivial
  | cons c cs ih =>
    have hhead : (onAcceptedPing c).CallsOnly (EngineOp.About v) :=
      hvehicle c List.mem_cons_self ▸ onAcceptedPing_about c
    refine hhead.bind fun r => ?_
    exact (ih fun c' hc' => hvehicle c' (List.mem_cons_of_mem c hc')).bind fun rs => trivial

/-! ## One stream alone -/

/-- One evaluation returns the same and leaves its vehicle in the same zones. -/
theorem SameEvaluation.evaluate {c c' : PingCall K} (h : SameEvaluation c c') {s s' : State}
    (hs : s.members.insideZones c.ping.vehicleID = s'.members.insideZones c.ping.vehicleID) :
    returned s c = returned s' c' ∧
    (evaluate s c).members.insideZones c.ping.vehicleID =
      (evaluate s' c').members.insideZones c.ping.vehicleID := by
  have hping := h.ping
  cases hz : c.zones with
  | error e =>
    have hz' : c'.zones = .error e := h.zones ▸ hz
    rw [returned, returned, Geofence.evaluate, Geofence.evaluate, run_onAcceptedPing_error hz,
      run_onAcceptedPing_error hz']
    exact ⟨rfl, hs⟩
  | ok zones =>
    have hz' : c'.zones = .ok zones := h.zones ▸ hz
    rw [returned, returned, Geofence.evaluate, Geofence.evaluate, run_onAcceptedPing_ok hz,
      run_onAcceptedPing_ok hz', ← hping]
    generalize currentZones (zones.filter fun z => z.polygon.containsInclusive c.ping.point) =
      current
    obtain ⟨hret, -, hmem⟩ := run_diffAndPublish c current s
    obtain ⟨hret', -, hmem'⟩ := run_diffAndPublish c' current s'
    rw [← hping] at hret' hmem'
    refine ⟨?_, ?_⟩
    · rw [hret, hret', hs, h.events]
    · ext z
      rw [hmem, hmem', if_pos rfl, if_pos rfl]

/-- A stream run alone returns the same and leaves its vehicle in the same zones. -/
theorem SameEvaluation.run {cs cs' : List (PingCall K)} (h : List.Forall₂ SameEvaluation cs cs')
    {v : String} (hv : ∀ c ∈ cs, c.ping.vehicleID = v) {s s' : State}
    (hs : s.members.insideZones v = s'.members.insideZones v) :
    ((onAcceptedPings cs).run engine s).1 = ((onAcceptedPings cs').run engine s').1 ∧
    ((onAcceptedPings cs).run engine s).2.members.insideZones v =
      ((onAcceptedPings cs').run engine s').2.members.insideZones v := by
  induction h generalizing s s' with
  | nil => exact ⟨rfl, hs⟩
  | @cons c c' cs cs' hc _ ih =>
    obtain rfl := hv c List.mem_cons_self
    obtain ⟨hret, hafter⟩ := hc.evaluate hs
    obtain ⟨hrest, hlast⟩ := ih (fun c'' hc'' => hv c'' (List.mem_cons_of_mem c hc'')) hafter
    simp only [onAcceptedPings, Prog.run_bind, Prog.run_pure]
    exact ⟨List.cons_eq_cons.2 ⟨hret, hrest⟩, hlast⟩

/-! ## Vehicles do not interfere -/

/-- In every interleaving of the streams of distinct vehicles, each vehicle's stream is where its
own calls made alone on an empty store leave it, with the same zone map; once all its calls have
returned, they returned what they return alone and the vehicle is inside the same zones, whatever
the range orders and the publisher's answers of the run alone; and they have all returned after
finitely many steps of the vehicle. -/
theorem streams_isolated (streams alone : (v : String) → Stream K v)
    (hsame : ∀ v, List.Forall₂ SameEvaluation (streams v).calls (alone v).calls) (v : String) :
    (∀ sched : List String,
      let c := (startStreams streams).exec engine sched
      let own := (onAcceptedPings (streams v).calls).steps engine (sched.count v) State.new
      c.threads v = own.1 ∧ c.shared.members.zonesOf v = own.2.members.zonesOf v) ∧
    (∀ sched rs, ((startStreams streams).exec engine sched).threads v = .ret rs →
      let aloneRun := (onAcceptedPings (alone v).calls).run engine State.new
      rs = aloneRun.1 ∧
      ((startStreams streams).exec engine sched).shared.members.insideZones v =
        aloneRun.2.members.insideZones v) ∧
    ∃ n, ∀ sched : List String, n ≤ sched.count v →
      ∃ rs, ((startStreams streams).exec engine sched).threads v = .ret rs := by
  have hown : ∀ sched : List String, _ := fun sched =>
    engine_confined.exec (c := startStreams streams) (fun w => (streams w).about) sched v
  refine ⟨hown, ?_, ?_⟩
  · intro sched rs hrs
    obtain ⟨hthread, hview⟩ := hown sched
    rw [hrs] at hthread
    have hrun := Prog.run_of_steps engine hthread.symm
    obtain ⟨hret, hzones⟩ := SameEvaluation.run (hsame v) (streams v).vehicle
      (rfl : State.new.members.insideZones v = State.new.members.insideZones v)
    have hstart : onAcceptedPings (streams v).calls = (startStreams streams).threads v := rfl
    have hnew : State.new = (startStreams streams).shared := rfl
    rw [hstart, hnew, hrun] at hret hzones
    exact ⟨hret, (insideZones_of_seenBy hview).trans hzones⟩
  · obtain ⟨n, hn⟩ := Prog.exists_steps_ret engine (onAcceptedPings (streams v).calls) State.new
    refine ⟨n, fun sched hsched => ?_⟩
    obtain ⟨rs, hrs⟩ := hn _ hsched
    exact ⟨rs, (hown sched).1.trans hrs⟩

end Isolation

/-- A ping of a vehicle at the given point, with the one zone of `pingAtPoint`. -/
def pingFrom (vehicleID : String) (lat lng : ℚ) (publishErr : ZoneEvent → Option Error) :
    PingCall ℚ :=
  let c := pingAtPoint lat lng
  { c with ping := { c.ping with vehicleID := vehicleID }, publishErr := publishErr }

/-- Vehicles `v` and `w` each send a ping inside the zone and a ping outside it. -/
def crossingStreams (publishErr : ZoneEvent → Option Error) (v : String) : Stream ℚ v where
  calls := if v = "v" ∨ v = "w" then [pingFrom v 0 0 publishErr, pingFrom v 5 5 publishErr] else []
  vehicle := by
    split <;> simp [pingFrom]

theorem crossingStreams_same (v : String) :
    List.Forall₂ SameEvaluation (crossingStreams (fun _ => none) v).calls
      (crossingStreams (fun _ => some "down") v).calls := by
  unfold crossingStreams
  split
  · exact .cons ⟨rfl, rfl, rfl⟩ (.cons ⟨rfl, rfl, rfl⟩ .nil)
  · exact .nil

/-- After the interleaving vehicle `v` has the zone map its five calls alone leave it. -/
theorem crossingStreams_isolated :
    ((startStreams (crossingStreams fun _ => none)).exec engine
      ["v", "w", "v", "w", "w", "v", "v", "w", "w", "v"]).shared.members.zonesOf "v" =
    ((onAcceptedPings (crossingStreams (fun _ => none) "v").calls).steps engine 5
      State.new).2.members.zonesOf "v" :=
  ((streams_isolated _ _ crossingStreams_same "v").1
    ["v", "w", "v", "w", "w", "v", "v", "w", "w", "v"]).2

end FleetCommand.Geofence
