import FleetCommand.Geofence.Engine
import Mathlib.Data.List.Chain

/-!
# Zone transitions of one ping

After its read of the prior membership an evaluation makes a fixed sequence of calls
(`diffAndPublish_eq`): one `Set` for each changed zone, then one `Publish` for each event. The
events are one for each changed zone, in strictly increasing zone id order. `Alternates` is the
property of a vehicle's transitions in one zone that the engine is for.
-/

set_option autoImplicit false

namespace FleetCommand.Geofence

open Resumption

variable {K : Type}

/-! ## The event order -/

theorem eventLess_eq_false_iff (a b : ZoneEvent) :
    eventLess b a = false ↔
      a.zoneID < b.zoneID ∨ a.zoneID = b.zoneID ∧ ¬ (b.type = .enter ∧ a.type = .exit) := by
  rw [eventLess]
  by_cases h : b.zoneID = a.zoneID
  · simp [h]
  · have h' : a.zoneID ≠ b.zoneID := fun he => h he.symm
    simp only [ne_eq, h, not_false_eq_true, if_true, decide_eq_false_iff_not, not_lt, h', false_and,
      or_false]
    exact ⟨fun hle => lt_of_le_of_ne hle h', le_of_lt⟩

instance : Std.Total fun a b : ZoneEvent => eventLess b a = false where
  total a b := by
    rw [eventLess_eq_false_iff, eventLess_eq_false_iff]
    rcases lt_trichotomy a.zoneID b.zoneID with h | h | h
    · exact Or.inl (Or.inl h)
    · by_cases hba : b.type = .enter ∧ a.type = .exit
      · exact Or.inr (Or.inr ⟨h.symm, by simp [hba]⟩)
      · exact Or.inl (Or.inr ⟨h, hba⟩)
    · exact Or.inr (Or.inl h)

instance : IsTrans ZoneEvent fun a b => eventLess b a = false where
  trans a b c hab hbc := by
    rw [eventLess_eq_false_iff] at hab hbc ⊢
    rcases hab with hab | ⟨hab, hab'⟩ <;> rcases hbc with hbc | ⟨hbc, hbc'⟩
    · exact Or.inl (hab.trans hbc)
    · exact Or.inl (hbc ▸ hab)
    · exact Or.inl (hab ▸ hbc)
    · refine Or.inr ⟨hab.trans hbc, fun h => ?_⟩
      cases hb : b.type with
      | enter => exact hab' ⟨hb, h.2⟩
      | exit => exact hbc' ⟨h.1, hb⟩

theorem mem_sortEvents (e : ZoneEvent) (es : List ZoneEvent) : e ∈ sortEvents es ↔ e ∈ es :=
  List.mem_insertionSort _

/-- Events of distinct zones are sorted into strictly increasing zone id order. -/
theorem sortEvents_strict {es : List ZoneEvent} (h : (es.map ZoneEvent.zoneID).Nodup) :
    ((sortEvents es).map ZoneEvent.zoneID).Pairwise (· < ·) := by
  have hsorted := List.pairwise_insertionSort (fun a b => eventLess b a = false) es
  have hnodup : ((sortEvents es).map ZoneEvent.zoneID).Nodup :=
    ((List.perm_insertionSort _ es).map _).nodup_iff.2 h
  rw [List.pairwise_map]
  rw [List.Nodup, List.pairwise_map] at hnodup
  refine (hsorted.and hnodup).imp fun {a b} hab => ?_
  rcases (eventLess_eq_false_iff a b).1 hab.1 with hlt | ⟨heq, -⟩
  · exact hlt
  · exact absurd heq hab.2

/-! ## The calls of one evaluation -/

section Script

variable (c : PingCall K) (current : GoMap String (Zone K)) (prior : Finset String)

/-- The zones newly containing the point, in the order the range visits them. -/
def PingCall.entering : List String := (c.enterOrder.list current.keys).filter fun z => z ∉ prior

/-- The zones left, in the order the range visits them. -/
def PingCall.leaving : List String := (c.exitOrder.list prior).filter fun z => z ∉ current.keys

/-- The membership updates, in order: a zone and whether the vehicle is now inside. -/
def PingCall.updates : List (String × Bool) :=
  (c.entering current prior).map (·, true) ++ (c.leaving current prior).map (·, false)

/-- The events, in the order they are published and returned. -/
def PingCall.events : List ZoneEvent :=
  sortEvents ((c.entering current prior).map (c.enterEvent current) ++
    (c.leaving current prior).map c.exitEvent)

/-- The `Set` call of an update. -/
def PingCall.setOp (u : String × Bool) : EngineOp K := .set c.ping.vehicleID u.1 u.2

/-- The `Publish` call of an event. -/
def PingCall.publishOp (e : ZoneEvent) : EngineOp K := .publish e (c.publishErr e)

theorem enterLoop_eq (ids : List String) :
    enterLoop c current prior ids =
      Prog.calls ((ids.filter fun z => z ∉ prior).map fun z => c.setOp (z, true))
        (.ret ((ids.filter fun z => z ∉ prior).map (c.enterEvent current))) := by
  induction ids with
  | nil => rfl
  | cons id ids ih =>
    rw [enterLoop]
    by_cases h : id ∈ prior
    · simp [h, ih]
    · simp only [h, if_false, ih, perform, Prog.perform_bind, Prog.calls_bind, Prog.ret_bind,
        not_false_eq_true, decide_true, List.filter_cons_of_pos, List.map_cons, Prog.calls]
      rfl

theorem exitLoop_eq (ids : List String) :
    exitLoop c current ids =
      Prog.calls ((ids.filter fun z => z ∉ current.keys).map fun z => c.setOp (z, false))
        (.ret ((ids.filter fun z => z ∉ current.keys).map c.exitEvent)) := by
  induction ids with
  | nil => rfl
  | cons id ids ih =>
    rw [exitLoop]
    by_cases h : id ∈ current.keys
    · simp [h, ih]
    · simp only [h, if_false, ih, perform, Prog.perform_bind, Prog.calls_bind, Prog.ret_bind,
        not_false_eq_true, decide_true, List.filter_cons_of_pos, List.map_cons, Prog.calls]
      rfl

theorem publishLoop_eq (evs : List ZoneEvent) :
    publishLoop c evs = Prog.calls (evs.map c.publishOp) (.ret ()) := by
  induction evs with
  | nil => rfl
  | cons ev evs ih =>
    simp only [publishLoop, perform, Prog.perform_bind, ih, List.map_cons, Prog.calls]
    rfl

/-- After the read of the prior membership: every update, then every event, then return. -/
theorem diffAndPublish_eq :
    diffAndPublish c current prior =
      Prog.calls ((c.updates current prior).map c.setOp ++
          (c.events current prior).map c.publishOp)
        (.ret (.ok (c.events current prior))) := by
  simp only [diffAndPublish, enterLoop_eq, exitLoop_eq, publishLoop_eq, Prog.calls_bind,
    Prog.ret_bind, PingCall.updates, PingCall.events, PingCall.entering, PingCall.leaving,
    List.map_append, List.map_map, Prog.calls_append]
  rfl

/-! ## The changed zones -/

theorem mem_entering (z : String) :
    z ∈ c.entering current prior ↔ z ∈ current.keys ∧ z ∉ prior := by
  simp [PingCall.entering, c.enterOrder.mem_list]

theorem mem_leaving (z : String) :
    z ∈ c.leaving current prior ↔ z ∈ prior ∧ z ∉ current.keys := by
  simp [PingCall.leaving, c.exitOrder.mem_list]

theorem changed_nodup : (c.entering current prior ++ c.leaving current prior).Nodup := by
  refine List.nodup_append.2 ⟨(c.enterOrder.nodup _).filter _, (c.exitOrder.nodup _).filter _, ?_⟩
  intro a ha b hb hab
  rw [mem_entering] at ha
  rw [mem_leaving] at hb
  exact ha.2 (hab ▸ hb.1)

theorem mem_updates (z : String) (b : Bool) :
    (z, b) ∈ c.updates current prior ↔
      (b = true ∧ z ∈ current.keys ∧ z ∉ prior) ∨ (b = false ∧ z ∈ prior ∧ z ∉ current.keys) := by
  rw [PingCall.updates, List.mem_append]
  cases b with
  | true => simp [mem_entering]
  | false => simp [mem_leaving]

theorem updates_nodup : ((c.updates current prior).map Prod.fst).Nodup := by
  have h := changed_nodup c current prior
  simp only [PingCall.updates, List.map_append, List.map_map]
  simpa [Function.comp_def] using h

theorem mem_events (e : ZoneEvent) :
    e ∈ c.events current prior ↔
      (∃ z, z ∈ current.keys ∧ z ∉ prior ∧ c.enterEvent current z = e) ∨
      (∃ z, z ∈ prior ∧ z ∉ current.keys ∧ c.exitEvent z = e) := by
  simp only [PingCall.events, mem_sortEvents, List.mem_append, List.mem_map, mem_entering,
    mem_leaving, and_assoc]

theorem events_strict : ((c.events current prior).map ZoneEvent.zoneID).Pairwise (· < ·) := by
  refine sortEvents_strict ?_
  have h := changed_nodup c current prior
  simpa [Function.comp_def, PingCall.enterEvent, PingCall.exitEvent] using h

theorem events_vehicleID {e : ZoneEvent} (he : e ∈ c.events current prior) :
    e.vehicleID = c.ping.vehicleID := by
  rcases (mem_events c current prior e).1 he with ⟨z, -, -, rfl⟩ | ⟨z, -, -, rfl⟩ <;> rfl

/-- An event exits a zone the vehicle was in or enters a zone containing the point. -/
theorem type_of_mem_events {e : ZoneEvent} (he : e ∈ c.events current prior) :
    (e.type = .exit ↔ e.zoneID ∈ prior) ∧ (e.type = .enter ↔ e.zoneID ∈ current.keys) := by
  rcases (mem_events c current prior e).1 he with ⟨z, hz, hp, rfl⟩ | ⟨z, hp, hz, rfl⟩
  · simp [PingCall.enterEvent, hz, hp]
  · simp [PingCall.exitEvent, hz, hp]

/-- Every update has its event. -/
theorem event_of_mem_updates {z : String} {b : Bool} (h : (z, b) ∈ c.updates current prior) :
    ∃ e ∈ c.events current prior, e.zoneID = z ∧ (b = true ↔ e.type = .enter) := by
  rcases (mem_updates c current prior z b).1 h with ⟨rfl, hz, hp⟩ | ⟨rfl, hp, hz⟩
  · exact ⟨c.enterEvent current z, (mem_events ..).2 (Or.inl ⟨z, hz, hp, rfl⟩), rfl,
      by simp [PingCall.enterEvent]⟩
  · exact ⟨c.exitEvent z, (mem_events ..).2 (Or.inr ⟨z, hp, hz, rfl⟩), rfl,
      by simp [PingCall.exitEvent]⟩

/-- Every event has its update. -/
theorem update_of_mem_events {e : ZoneEvent} (he : e ∈ c.events current prior) :
    e.zoneID ∈ (c.updates current prior).map Prod.fst := by
  rcases (mem_events c current prior e).1 he with ⟨z, hz, hp, rfl⟩ | ⟨z, hp, hz, rfl⟩
  · exact List.mem_map.2 ⟨(z, true), (mem_updates ..).2 (Or.inl ⟨rfl, hz, hp⟩), rfl⟩
  · exact List.mem_map.2 ⟨(z, false), (mem_updates ..).2 (Or.inr ⟨rfl, hp, hz⟩), rfl⟩

/-- The zones of the `Enter` events are those newly containing the point. -/
theorem exists_enter_iff (z : String) :
    (∃ e ∈ c.events current prior, e.zoneID = z ∧ e.type = .enter) ↔
      z ∈ current.keys ∧ z ∉ prior := by
  constructor
  · rintro ⟨e, he, rfl, ht⟩
    rcases (mem_events c current prior e).1 he with ⟨z, hz, hp, rfl⟩ | ⟨z, hp, hz, rfl⟩
    · exact ⟨hz, hp⟩
    · simp [PingCall.exitEvent] at ht
  · rintro ⟨hz, hp⟩
    exact ⟨_, (mem_events c current prior _).2 (Or.inl ⟨z, hz, hp, rfl⟩), rfl, rfl⟩

/-- The zones of the `Exit` events are those left. -/
theorem exists_exit_iff (z : String) :
    (∃ e ∈ c.events current prior, e.zoneID = z ∧ e.type = .exit) ↔
      z ∈ prior ∧ z ∉ current.keys := by
  constructor
  · rintro ⟨e, he, rfl, ht⟩
    rcases (mem_events c current prior e).1 he with ⟨z, hz, hp, rfl⟩ | ⟨z, hp, hz, rfl⟩
    · simp [PingCall.enterEvent] at ht
    · exact ⟨hp, hz⟩
  · rintro ⟨hp, hz⟩
    exact ⟨_, (mem_events c current prior _).2 (Or.inr ⟨z, hp, hz, rfl⟩), rfl, rfl⟩

end Script

theorem mem_keys_currentZones (containing : List (Zone K)) (z : String) :
    z ∈ (currentZones containing).keys ↔ ∃ zone ∈ containing, zone.id = z := by
  have key : ∀ (zs : List (Zone K)) (m : GoMap String (Zone K)),
      z ∈ (zs.foldl (fun m z => m.set z.id z) m).keys ↔ z ∈ m.keys ∨ ∃ zone ∈ zs, zone.id = z := by
    intro zs
    induction zs with
    | nil => simp
    | cons zone zs ih =>
      intro m
      have hset : z ∈ (m.set zone.id zone).keys ↔ z = zone.id ∨ z ∈ m.keys := by
        simp only [GoMap.set, Finmap.mem_keys, Finmap.mem_insert]
      rw [List.foldl_cons, ih, hset]
      simp only [List.mem_cons, exists_eq_or_imp]
      constructor
      · rintro ((rfl | h) | h)
        · exact Or.inr (Or.inl rfl)
        · exact Or.inl h
        · exact Or.inr (Or.inr h)
      · rintro (h | rfl | h)
        · exact Or.inl (Or.inr h)
        · exact Or.inl (Or.inl rfl)
        · exact Or.inr h
  simpa [currentZones] using key containing ∅

/-! ## Alternation -/

/-- The transitions alternate, starting with `Enter`. -/
def Alternates (ts : List EventType) : Prop :=
  ts.IsChain (· ≠ ·) ∧ ∀ t ∈ ts.head?, t = .enter

instance (ts : List EventType) : Decidable (Alternates ts) :=
  inferInstanceAs (Decidable (_ ∧ _))

theorem alternates_nil : Alternates [] := ⟨List.isChain_nil, by simp⟩

/-- Alternating transitions go on alternating exactly with the other type, `Enter` when there is
none yet. -/
theorem alternates_append_singleton {ts : List EventType} (h : Alternates ts) (t : EventType) :
    Alternates (ts ++ [t]) ↔ (ts.getLast? = some .enter ↔ t = .exit) := by
  rcases ts.eq_nil_or_concat with rfl | ⟨ts', x, rfl⟩
  · cases t <;> simp [Alternates]
  · rw [List.concat_eq_append] at h ⊢
    obtain ⟨hchain, hhead⟩ := h
    have hhead' : ∀ y ∈ (ts' ++ [x] ++ [t]).head?, y = .enter := by
      intro y hy
      cases ts' with
      | nil => exact hhead y (by simpa using hy)
      | cons a ts' => exact hhead y (by simpa using hy)
    have hstep : Alternates (ts' ++ [x] ++ [t]) ↔ x ≠ t := by
      rw [Alternates, and_iff_left hhead', List.isChain_append]
      simp only [hchain, true_and]
      simp
    rw [hstep]
    cases x <;> cases t <;> simp

/-- The transitions alternate and leave the vehicle inside exactly when `inside`. -/
def Tracks (ts : List EventType) (inside : Prop) : Prop :=
  Alternates ts ∧ (ts.getLast? = some .enter ↔ inside)

theorem tracks_nil : Tracks [] False := ⟨alternates_nil, by simp⟩

/-- A crossing: the next transition is the one the recorded membership admits. -/
theorem Tracks.append_singleton {ts : List EventType} {inside : Prop} (h : Tracks ts inside)
    {t : EventType} (ht : inside ↔ t = .exit) : Tracks (ts ++ [t]) (t = .enter) := by
  refine ⟨(alternates_append_singleton h.1 t).2 (h.2.trans ht), ?_⟩
  simp

/-! ## The transitions of one vehicle in one zone -/

/-- The types of the events of a vehicle in a zone, in order. -/
def transitionsOf (v z : String) (es : List ZoneEvent) : List EventType :=
  (es.filter fun e => e.vehicleID = v ∧ e.zoneID = z).map ZoneEvent.type

@[simp] theorem transitionsOf_nil (v z : String) : transitionsOf v z [] = [] := rfl

theorem transitionsOf_append (v z : String) (es es' : List ZoneEvent) :
    transitionsOf v z (es ++ es') = transitionsOf v z es ++ transitionsOf v z es' := by
  simp [transitionsOf]

theorem transitionsOf_cons (v z : String) (e : ZoneEvent) (es : List ZoneEvent) :
    transitionsOf v z (e :: es) =
      if e.vehicleID = v ∧ e.zoneID = z then e.type :: transitionsOf v z es
      else transitionsOf v z es := by
  unfold transitionsOf
  rw [List.filter_cons]
  split <;> simp_all

/-- No event of the pair, no transition. -/
theorem transitionsOf_eq_nil {v z : String} {es : List ZoneEvent}
    (h : ∀ e ∈ es, ¬ (e.vehicleID = v ∧ e.zoneID = z)) : transitionsOf v z es = [] := by
  rw [transitionsOf, List.map_eq_nil_iff, List.filter_eq_nil_iff]
  intro e he
  simpa using h e he

/-- Events of distinct zones have at most one transition of a pair. -/
theorem transitionsOf_eq_singleton {es : List ZoneEvent} (h : (es.map ZoneEvent.zoneID).Nodup)
    {e : ZoneEvent} (he : e ∈ es) : transitionsOf e.vehicleID e.zoneID es = [e.type] := by
  induction es with
  | nil => exact absurd he List.not_mem_nil
  | cons a es ih =>
    rw [List.map_cons, List.nodup_cons] at h
    rw [transitionsOf_cons]
    rcases List.mem_cons.1 he with rfl | he
    · have hrest : transitionsOf e.vehicleID e.zoneID es = [] :=
        transitionsOf_eq_nil fun e' he' hp => h.1 (hp.2 ▸ List.mem_map_of_mem he')
      rw [if_pos ⟨rfl, rfl⟩, hrest]
    · have hne : a.zoneID ≠ e.zoneID := fun hz => h.1 (hz ▸ List.mem_map_of_mem he)
      rw [if_neg fun hp => hne hp.2, ih h.2 he]

end FleetCommand.Geofence
