import FleetCommand.Geofence.Transitions
import Mathlib.Data.Rat.Defs
import Mathlib.Algebra.Order.Ring.Rat
import Mathlib.Data.Fintype.Basic

/-!
# Geofence, pings in parallel

The read of the prior membership, the `Set` calls and the `Publish` calls of one evaluation are
separate steps, so evaluations of one vehicle interleave. `Stage` names the control points of
`onAcceptedPing`; an evaluation that has read the membership carries what it still has to set and to
publish.

Two evaluations that read before either has set both publish the same transition
(`crossingTwice_not_alternating`). The transitions alternate in every interleaving in which no
evaluation reads the membership while another still has to publish an event of a zone the reader
finds changed (`transitions_alternate`): then at most one evaluation has an event of a zone pending,
and `Pending` says how the published transitions, the membership and what is pending fit together.
-/

set_option autoImplicit false

namespace FleetCommand.Geofence

open Resumption

/-- A control point of `onAcceptedPing`: nothing called yet, the catalog has answered, or the
membership has been read and the given `Set` and `Publish` calls remain. -/
inductive Stage (K : Type) where
  | start
  | listed (containing : List (Zone K))
  | running (sets : List (String × Bool)) (pubs : List ZoneEvent)
      (result : Except Error (List ZoneEvent))

namespace Stage

variable {K : Type}

/-- The catalog's answer of an evaluation about to read the membership. -/
def reading : Stage K → Option (List (Zone K))
  | .listed containing => some containing
  | _ => none

/-- The membership updates still to make. -/
def sets : Stage K → List (String × Bool)
  | .running sets _ _ => sets
  | _ => []

/-- The events still to publish. -/
def pubs : Stage K → List ZoneEvent
  | .running _ pubs _ => pubs
  | _ => []

variable [Add K] [Sub K] [Mul K] [Div K] [Neg K] [LT K] [DecidableLT K] [Min K] [Max K] [BEq K]
  [IntCast K] (c : PingCall K)

/-- What `onAcceptedPing` still has to do at a control point. -/
def code : Stage K → EngineProg K (Except Error (List ZoneEvent))
  | .start => onAcceptedPing c
  | .listed containing => readAndDiff c containing
  | .running sets pubs result =>
    Prog.calls (sets.map c.setOp ++ pubs.map c.publishOp) (.ret result)

/-- The next control point, and the state after the interface call made on the way. -/
def next : Stage K → State → Stage K × State
  | .start, s => match c.containing with
    | .error e => (.running [] [] (.error e), s)
    | .ok containing => (.listed containing, s)
  | .listed containing, s =>
    let current := currentZones containing
    let prior := s.members.insideZones c.ping.vehicleID
    (.running (c.updates current prior) (c.events current prior) (.ok (c.events current prior)), s)
  | .running (u :: sets) pubs result, s =>
    (.running sets pubs result, { s with members := s.members.set c.ping.vehicleID u.1 u.2 })
  | .running [] (e :: pubs) result, s =>
    (.running [] pubs result, { s with publishCalls := s.publishCalls ++ [(e, c.publishErr e)] })
  | .running [] [] result, s => (.running [] [] result, s)

theorem code_next (l : Stage K) (s : State) :
    (l.code c).step engine s = ((l.next c s).1.code c, (l.next c s).2) := by
  cases l with
  | start =>
    simp only [code, next, onAcceptedPing]
    cases hc : c.containing <;> simp [perform, Prog.step, engine, Prog.pure_eq, Prog.calls]
  | listed containing =>
    simp only [code, next, readAndDiff, ← diffAndPublish_eq]
    rfl
  | running sets pubs result =>
    cases sets with
    | cons u sets => rfl
    | nil =>
      cases pubs with
      | cons e pubs => rfl
      | nil => rfl

end Stage

section Race

variable {K ι : Type} (calls : ι → PingCall K)

/-- Every evaluation at its first control point, on an empty membership store. -/
def startStages : Config ι (Stage K) State := ⟨fun _ => .start, State.new⟩

/-- The published events, in publish order. -/
def State.published (s : State) : List ZoneEvent := s.publishCalls.map Prod.fst

/-- The published transitions of every vehicle and zone alternate, starting with `Enter`. -/
def Alternating (s : State) : Prop := ∀ v z, Alternates (transitionsOf v z s.published)

/-- Where evaluation `i` is about to read the membership, no evaluation of its vehicle still has to
publish an event of a zone whose membership the reader will change. -/
def ReadsSettled (c : Config ι (Stage K) State) (i : ι) : Prop :=
  ∀ containing ∈ (c.locs i).reading, ∀ j,
    (calls j).ping.vehicleID = (calls i).ping.vehicleID → ∀ e ∈ (c.locs j).pubs,
      (e.zoneID ∈ (currentZones containing).keys ↔
        e.zoneID ∈ c.shared.members.insideZones (calls i).ping.vehicleID)

instance [Fintype ι] (c : Config ι (Stage K) State) (i : ι) : Decidable (ReadsSettled calls c i) :=
  inferInstanceAs (Decidable (∀ containing ∈ (c.locs i).reading, _))

/-! ## One step -/

/-- What one step of evaluation `i` does. -/
inductive StageStep (c c' : Config ι (Stage K) State) (i : ι) : Prop where
  | quiet (hsets : (c'.locs i).sets = (c.locs i).sets) (hpubs : (c'.locs i).pubs = (c.locs i).pubs)
      (hshared : c'.shared = c.shared)
  | read (containing : List (Zone K)) (hold : c.locs i = .listed containing)
      (hsets : (c'.locs i).sets = (calls i).updates (currentZones containing)
        (c.shared.members.insideZones (calls i).ping.vehicleID))
      (hpubs : (c'.locs i).pubs = (calls i).events (currentZones containing)
        (c.shared.members.insideZones (calls i).ping.vehicleID))
      (hshared : c'.shared = c.shared)
  | set (z : String) (b : Bool) (hold : (c.locs i).sets = (z, b) :: (c'.locs i).sets)
      (hpubs : (c'.locs i).pubs = (c.locs i).pubs)
      (hmembers : c'.shared.members = c.shared.members.set (calls i).ping.vehicleID z b)
      (hpublished : c'.shared.published = c.shared.published)
  | publish (e : ZoneEvent) (hold : (c.locs i).sets = []) (hsets : (c'.locs i).sets = [])
      (hpubs : (c.locs i).pubs = e :: (c'.locs i).pubs)
      (hmembers : c'.shared.members = c.shared.members)
      (hpublished : c'.shared.published = c.shared.published ++ [e])

/-! ## What is pending -/

/-- The updates and events an evaluation of vehicle `v` still has to make: at most one of each zone,
and each update with its event. -/
structure Owes (v : String) (sets : List (String × Bool)) (pubs : List ZoneEvent) : Prop where
  sets_nodup : (sets.map Prod.fst).Nodup
  pubs_nodup : (pubs.map ZoneEvent.zoneID).Nodup
  vehicle : ∀ e ∈ pubs, e.vehicleID = v
  event_of_set : ∀ z b, (z, b) ∈ sets → ∃ e ∈ pubs, e.zoneID = z ∧ (b = true ↔ e.type = .enter)

theorem owes_updates_events (c : PingCall K) (current : GoMap String (Zone K))
    (prior : Finset String) :
    Owes c.ping.vehicleID (c.updates current prior) (c.events current prior) where
  sets_nodup := updates_nodup c current prior
  pubs_nodup := (events_strict c current prior).imp ne_of_lt
  vehicle _ he := events_vehicleID c current prior he
  event_of_set _ _ h := event_of_mem_updates c current prior h

theorem Owes.eq_of_zoneID_eq {v : String} {sets : List (String × Bool)} {pubs : List ZoneEvent}
    (h : Owes v sets pubs) {e e' : ZoneEvent} (he : e ∈ pubs) (he' : e' ∈ pubs)
    (hz : e.zoneID = e'.zoneID) : e = e' :=
  List.inj_on_of_nodup_map h.pubs_nodup he he' hz

/-- How the published transitions, the membership and the pending calls of the evaluations fit
together. -/
structure Pending (c : Config ι (Stage K) State) : Prop where
  owes : ∀ i, Owes (calls i).ping.vehicleID (c.locs i).sets (c.locs i).pubs
  /-- At most one evaluation has an event of a zone pending. -/
  exclusive : ∀ i j, (calls i).ping.vehicleID = (calls j).ping.vehicleID →
    ∀ e ∈ (c.locs i).pubs, ∀ e' ∈ (c.locs j).pubs, e.zoneID = e'.zoneID → i = j
  /-- A pending event is the next transition; the membership is already updated unless its `Set` is
  pending too. -/
  next : ∀ i, ∀ e ∈ (c.locs i).pubs,
    Tracks (transitionsOf (calls i).ping.vehicleID e.zoneID c.shared.published) (e.type = .exit) ∧
    (e.zoneID ∈ c.shared.members.insideZones (calls i).ping.vehicleID ↔
      if e.zoneID ∈ (c.locs i).sets.map Prod.fst then e.type = .exit else e.type = .enter)
  /-- With no event of a zone pending, the last transition agrees with the membership. -/
  idle : ∀ v z, (∀ i, (calls i).ping.vehicleID = v → ∀ e ∈ (c.locs i).pubs, e.zoneID ≠ z) →
    Tracks (transitionsOf v z c.shared.published) (z ∈ c.shared.members.insideZones v)

theorem pending_start : Pending calls startStages where
  owes i := ⟨List.nodup_nil, List.nodup_nil, fun _ he => absurd he List.not_mem_nil,
    fun _ _ hs => absurd hs List.not_mem_nil⟩
  exclusive i j _ e he := absurd he List.not_mem_nil
  next i e he := absurd he List.not_mem_nil
  idle v z _ := by simpa [startStages, State.new, State.published] using tracks_nil

/-- The published transitions alternate, whatever is pending. -/
theorem Pending.alternating {c : Config ι (Stage K) State} (h : Pending calls c) :
    Alternating c.shared := by
  intro v z
  rcases Classical.em (∀ i, (calls i).ping.vehicleID = v → ∀ e ∈ (c.locs i).pubs, e.zoneID ≠ z)
    with hidle | hbusy
  · exact (h.idle v z hidle).1
  · push Not at hbusy
    obtain ⟨i, rfl, e, he, rfl⟩ := hbusy
    exact (h.next i e he).1.1

section Step

variable {calls} {c c' : Config ι (Stage K) State} {i : ι}
  (hne : ∀ j, j ≠ i → c'.locs j = c.locs j)
include hne

theorem Pending.quiet (h : Pending calls c) (hsets : (c'.locs i).sets = (c.locs i).sets)
    (hpubs : (c'.locs i).pubs = (c.locs i).pubs) (hshared : c'.shared = c.shared) :
    Pending calls c' := by
  have hs : ∀ j, (c'.locs j).sets = (c.locs j).sets := by
    intro j
    rcases eq_or_ne j i with rfl | hj
    · exact hsets
    · rw [hne j hj]
  have hp : ∀ j, (c'.locs j).pubs = (c.locs j).pubs := by
    intro j
    rcases eq_or_ne j i with rfl | hj
    · exact hpubs
    · rw [hne j hj]
  constructor
  · simpa only [hs, hp] using h.owes
  · simpa only [hp] using h.exclusive
  · simpa only [hs, hp, hshared] using h.next
  · simpa only [hp, hshared] using h.idle

/-- The read: the zones the reader finds changed are idle, so its events are the next ones. -/
theorem Pending.read (h : Pending calls c) (hr : ReadsSettled calls c i)
    {containing : List (Zone K)} (hold : c.locs i = .listed containing)
    (hsets : (c'.locs i).sets = (calls i).updates (currentZones containing)
      (c.shared.members.insideZones (calls i).ping.vehicleID))
    (hpubs : (c'.locs i).pubs = (calls i).events (currentZones containing)
      (c.shared.members.insideZones (calls i).ping.vehicleID))
    (hshared : c'.shared = c.shared) : Pending calls c' := by
  have hempty : (c.locs i).pubs = [] := by rw [hold]; rfl
  have hr := hr containing (by rw [hold]; rfl)
  -- an event of the reader is of a zone no evaluation of the vehicle still has to publish
  have hfresh : ∀ j, (calls j).ping.vehicleID = (calls i).ping.vehicleID →
      ∀ e ∈ (c'.locs i).pubs, ∀ e' ∈ (c.locs j).pubs, e'.zoneID ≠ e.zoneID := by
    intro j hv e he e' he' hz
    rw [hpubs] at he
    have htype := type_of_mem_events _ _ _ he
    have hiff := hr j hv e' he'
    rw [hz, ← htype.1, ← htype.2] at hiff
    cases ht : e.type <;> simp [ht] at hiff
  constructor
  · intro j
    rcases eq_or_ne j i with rfl | hj
    · rw [hsets, hpubs]
      exact owes_updates_events ..
    · rw [hne j hj]
      exact h.owes j
  -- exclusive: a clash with another evaluation is excluded by `hfresh`
  · intro a b hv e he e' he' hz
    rcases eq_or_ne a i with rfl | ha
    · rcases eq_or_ne b a with rfl | hb
      · rfl
      · rw [hne b hb] at he'
        exact absurd hz.symm (hfresh b hv.symm e he e' he')
    · rw [hne a ha] at he
      rcases eq_or_ne b i with rfl | hb
      · exact absurd hz (hfresh a hv e' he' e he)
      · rw [hne b hb] at he'
        exact h.exclusive a b hv e he e' he' hz
  · intro j e he
    rw [hshared]
    rcases eq_or_ne j i with rfl | hj
    -- the zone of a new event is idle, so its last transition agrees with the membership read
    · have hidle := h.idle (calls j).ping.vehicleID e.zoneID fun k hk e' he' =>
        hfresh k hk e he e' he'
      rw [hpubs] at he
      have htype := (type_of_mem_events _ _ _ he).1
      rw [hsets, if_pos (update_of_mem_events _ _ _ he), htype]
      exact ⟨hidle, Iff.rfl⟩
    · rw [hne j hj] at he ⊢
      exact h.next j e he
  · intro v z hidle
    rw [hshared]
    refine h.idle v z fun k hk e he => ?_
    rcases eq_or_ne k i with rfl | hj
    · rw [hempty] at he
      exact absurd he List.not_mem_nil
    · exact hidle k hk e (by rwa [hne k hj])

/-- A `Set`: its zone is pending for this evaluation alone. -/
theorem Pending.set (h : Pending calls c) {z : String} {b : Bool}
    (hold : (c.locs i).sets = (z, b) :: (c'.locs i).sets)
    (hpubs : (c'.locs i).pubs = (c.locs i).pubs)
    (hmembers : c'.shared.members = c.shared.members.set (calls i).ping.vehicleID z b)
    (hpublished : c'.shared.published = c.shared.published) : Pending calls c' := by
  have hp : ∀ j, (c'.locs j).pubs = (c.locs j).pubs := by
    intro j
    rcases eq_or_ne j i with rfl | hj
    · exact hpubs
    · rw [hne j hj]
  obtain ⟨hnodup, -, -, hevent⟩ := hold ▸ h.owes i
  obtain ⟨e₀, he₀, hz₀, hb₀⟩ := hevent z b List.mem_cons_self
  rw [List.map_cons, List.nodup_cons] at hnodup
  constructor
  · intro j
    rw [hp j]
    rcases eq_or_ne j i with rfl | hj
    · exact ⟨hnodup.2, (h.owes j).pubs_nodup, (h.owes j).vehicle,
        fun y b' hy => hevent y b' (List.mem_cons_of_mem _ hy)⟩
    · rw [hne j hj]
      exact h.owes j
  · simpa only [hp] using h.exclusive
  · intro j e he
    rw [hp j] at he
    rw [hpublished, hmembers, MemoryMembership.mem_insideZones_set]
    obtain ⟨htracks, hinside⟩ := h.next j e he
    refine ⟨htracks, ?_⟩
    rcases eq_or_ne j i with rfl | hj
    · simp only [hold, List.map_cons, List.mem_cons] at hinside
      rcases eq_or_ne e.zoneID z with hez | hez
      · -- the event of the update just made: the membership now agrees with it
        have hee : e = e₀ := (h.owes j).eq_of_zoneID_eq he he₀ (hez.trans hz₀.symm)
        have hgone : e.zoneID ∉ (c'.locs j).sets.map Prod.fst := by
          rw [hez]
          exact hnodup.1
        rw [if_pos ⟨rfl, hez⟩, if_neg hgone, hb₀, hee]
      · simpa [hez] using hinside
    -- the zone is pending for `i`, so no event of another evaluation is about it
    · have hother : ¬ ((calls j).ping.vehicleID = (calls i).ping.vehicleID ∧ e.zoneID = z) := by
        rintro ⟨hv, hez⟩
        exact hj (h.exclusive j i hv e he e₀ he₀ (hez.trans hz₀.symm))
      rw [if_neg hother, hne j hj]
      exact hinside
  · intro v y hidle
    simp only [hp] at hidle
    have hother : ¬ (v = (calls i).ping.vehicleID ∧ y = z) := by
      rintro ⟨rfl, rfl⟩
      exact hidle i rfl e₀ he₀ hz₀
    rw [hpublished, hmembers]
    have hmem := MemoryMembership.mem_insideZones_set c.shared.members
      (calls i).ping.vehicleID z v y b
    rw [if_neg hother] at hmem
    rw [hmem]
    exact h.idle v y hidle

/-- A `Publish`: the event is the next transition of its zone, which is idle from then on. -/
theorem Pending.publish (h : Pending calls c) {e : ZoneEvent} (hold : (c.locs i).sets = [])
    (hsets : (c'.locs i).sets = []) (hpubs : (c.locs i).pubs = e :: (c'.locs i).pubs)
    (hmembers : c'.shared.members = c.shared.members)
    (hpublished : c'.shared.published = c.shared.published ++ [e]) : Pending calls c' := by
  -- what is pending after the step was pending before it
  have hsub : ∀ j, ∀ e' ∈ (c'.locs j).pubs, e' ∈ (c.locs j).pubs := by
    intro j e' he'
    rcases eq_or_ne j i with rfl | hj
    · rw [hpubs]
      exact List.mem_cons_of_mem _ he'
    · rwa [hne j hj] at he'
  have hmem : e ∈ (c.locs i).pubs := by
    rw [hpubs]
    exact List.mem_cons_self
  have hvehicle := (h.owes i).vehicle e hmem
  have hnodup : ((e :: (c'.locs i).pubs).map ZoneEvent.zoneID).Nodup := by
    rw [← hpubs]
    exact (h.owes i).pubs_nodup
  rw [List.map_cons, List.nodup_cons] at hnodup
  have htrans : ∀ v z, transitionsOf v z c'.shared.published =
      if (calls i).ping.vehicleID = v ∧ e.zoneID = z then
        transitionsOf v z c.shared.published ++ [e.type]
      else transitionsOf v z c.shared.published := by
    intro v z
    rw [hpublished, transitionsOf_append, transitionsOf_cons, hvehicle]
    split <;> simp
  constructor
  · intro j
    rcases eq_or_ne j i with rfl | hj
    · rw [hsets]
      exact ⟨List.nodup_nil, hnodup.2, fun e' he' => (h.owes j).vehicle e' (hsub j e' he'),
        fun _ _ hs => absurd hs List.not_mem_nil⟩
    · rw [hne j hj]
      exact h.owes j
  · intro a b hv e₁ he₁ e₂ he₂ hz
    exact h.exclusive a b hv e₁ (hsub a e₁ he₁) e₂ (hsub b e₂ he₂) hz
  · intro j e' he'
    have hother : ¬ ((calls i).ping.vehicleID = (calls j).ping.vehicleID ∧
        e.zoneID = e'.zoneID) := by
      rintro ⟨hv, hz⟩
      obtain rfl := h.exclusive i j hv e hmem e' (hsub j e' he') hz
      exact hnodup.1 (hz ▸ List.mem_map_of_mem he')
    have hsame : (c'.locs j).sets = (c.locs j).sets := by
      rcases eq_or_ne j i with rfl | hj
      · rw [hsets, hold]
      · rw [hne j hj]
    rw [htrans, if_neg hother, hmembers, hsame]
    exact h.next j e' (hsub j e' he')
  · intro v z hidle
    rw [htrans, hmembers]
    split
    next hvz =>
      obtain ⟨rfl, rfl⟩ := hvz
      -- all sets of `i` are made, so the membership agrees with the event just published
      obtain ⟨htracks, hinside⟩ := h.next i e hmem
      rw [hold, List.map_nil, if_neg List.not_mem_nil] at hinside
      rw [hinside]
      exact htracks.append_singleton Iff.rfl
    next hvz =>
      refine h.idle v z fun k hk e' he' hz => ?_
      rcases eq_or_ne k i with rfl | hj
      · rw [hpubs] at he'
        rcases List.mem_cons.1 he' with rfl | he'
        · exact hvz ⟨hk, hz⟩
        · exact hidle k hk e' he' hz
      · exact hidle k hk e' (by rwa [hne k hj]) hz

end Step

/-! ## The engine -/

variable [DecidableEq ι] [Add K] [Sub K] [Mul K] [Div K] [Neg K] [LT K] [DecidableLT K] [Min K]
  [Max K] [BEq K] [IntCast K]

/-- The evaluations of one engine by control points. -/
def engineFlow : Flow (engine (K := K)) ι (Stage K) (Except Error (List ZoneEvent)) where
  code i l := l.code (calls i)
  next i l s := l.next (calls i) s
  code_next i l s := l.code_next (calls i) s

/-- Every evaluation at its start, on an empty membership store. -/
def startPings : Pool ι (EngineOp.Resp (K := K)) (Except Error (List ZoneEvent)) State :=
  ⟨fun i => onAcceptedPing (calls i), State.new⟩

theorem stageStep (c : Config ι (Stage K) State) (i : ι) :
    StageStep calls c ((engineFlow calls).step c i) i := by
  have hloc : ((engineFlow calls).step c i).locs i = ((c.locs i).next (calls i) c.shared).1 :=
    Flow.step_locs_self ..
  have hshared : ((engineFlow calls).step c i).shared = ((c.locs i).next (calls i) c.shared).2 :=
    rfl
  cases hl : c.locs i with
  | start =>
    rw [hl] at hloc hshared
    cases hc : (calls i).containing with
    | error e =>
      simp only [Stage.next, hc] at hloc hshared
      exact .quiet (by rw [hloc, hl]; rfl) (by rw [hloc, hl]; rfl) hshared
    | ok containing =>
      simp only [Stage.next, hc] at hloc hshared
      exact .quiet (by rw [hloc, hl]; rfl) (by rw [hloc, hl]; rfl) hshared
  | listed containing =>
    rw [hl] at hloc hshared
    exact .read containing hl (by rw [hloc]; rfl) (by rw [hloc]; rfl) hshared
  | running sets pubs result =>
    rw [hl] at hloc hshared
    cases sets with
    | cons u sets =>
      exact .set u.1 u.2 (by rw [hloc, hl]; rfl) (by rw [hloc, hl]; rfl) (by rw [hshared]; rfl)
        (by rw [hshared]; rfl)
    | nil =>
      cases pubs with
      | cons e pubs =>
        refine .publish e (by rw [hl]; rfl) (by rw [hloc]; rfl) (by rw [hloc, hl]; rfl)
          (by rw [hshared]; rfl) ?_
        rw [hshared]
        simp [Stage.next, State.published]
      | nil => exact .quiet (by rw [hloc, hl]; rfl) (by rw [hloc, hl]; rfl) hshared

/-- A step that meets `ReadsSettled` keeps what is pending in order. -/
theorem Pending.step {c : Config ι (Stage K) State} (h : Pending calls c) (i : ι)
    (hr : ReadsSettled calls c i) : Pending calls ((engineFlow calls).step c i) := by
  have hne : ∀ j, j ≠ i → ((engineFlow calls).step c i).locs j = c.locs j :=
    fun j hj => (engineFlow calls).step_locs_ne c hj
  cases stageStep calls c i with
  | quiet hsets hpubs hshared => exact h.quiet hne hsets hpubs hshared
  | read containing hold hsets hpubs hshared => exact h.read hne hr hold hsets hpubs hshared
  | set z b hold hpubs hmembers hpublished => exact h.set hne hold hpubs hmembers hpublished
  | publish e hold hsets hpubs hmembers hpublished =>
    exact h.publish hne hold hsets hpubs hmembers hpublished

/-- In every interleaving of any evaluations in which every read of the membership is settled, the
published transitions of every vehicle and zone alternate after every step. -/
theorem transitions_alternate (sched : List ι)
    (h : Runs.AllSteps (engineFlow calls).step (ReadsSettled calls) startStages sched) :
    Runs.Always (Pool.step engine) (fun c => Alternating c.shared) (startPings calls) sched := by
  have hstart : startPings calls = (engineFlow calls).toPool startStages := rfl
  rw [hstart, Runs.always_map (engineFlow calls).toPool_step]
  have hpending := Runs.always_of_allSteps (I := Pending calls) (fun _ i hp hr => hp.step calls i hr)
    (pending_start calls) h
  rw [Runs.always_iff_splits] at hpending ⊢
  intro pre post hsched
  exact (hpending pre post hsched).alternating calls

end Race

/-! ## Two evaluations that read the same membership -/

/-- A ping of vehicle `v` at the given point, with one zone in the catalog: a square around the
origin. -/
def pingAtPoint (lat lng : ℚ) : PingCall ℚ where
  ping := ⟨"p", "v", "d", lat, lng, 0⟩
  zones := .ok [⟨"depot", none, ⟨[⟨-1, -1⟩, ⟨-1, 1⟩, ⟨1, 1⟩, ⟨1, -1⟩]⟩⟩]
  lookup _ := .ok none
  enterOrder := .sorted String
  exitOrder := .sorted String
  publishErr _ := none

/-- A ping inside the zone and a ping outside it. -/
def crossing : Fin 2 → PingCall ℚ
  | 0 => pingAtPoint 0 0
  | 1 => pingAtPoint 5 5

/-- The vehicle enters, and leaves once the first evaluation has read and set the membership and
published. -/
theorem crossing_alternating :
    Runs.Always (Pool.step engine) (fun c => Alternating c.shared) (startPings crossing)
      [0, 1, 0, 0, 0, 1, 1, 1] :=
  transitions_alternate crossing [0, 1, 0, 0, 0, 1, 1, 1] (by decide +kernel)

/-- Two pings inside the zone. -/
def crossingTwice : Fin 2 → PingCall ℚ := fun _ => pingAtPoint 0 0

/-- Both evaluations read before either sets the membership: two `Enter` events for one crossing. -/
theorem crossingTwice_not_alternating :
    ¬ Alternating ((startPings crossingTwice).exec engine [0, 0, 1, 1, 0, 1, 0, 1]).shared := by
  intro h
  have h' := h "v" "depot"
  revert h'
  decide +kernel

end FleetCommand.Geofence
