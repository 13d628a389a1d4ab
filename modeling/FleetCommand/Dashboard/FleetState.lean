import FleetCommand.Dashboard.Traces
import FleetCommand.Lib.InsertionMap
import FleetCommand.Lib.Runs

/-!
# The live fleet

`useFleetState` of the dashboard: the vehicles on the map and their traces, from a demo seed and the
position events received. A trace is pruned at every event of its vehicle, by age and to the last
2000 pings. Pruning by age loses nothing that a trace shows later; the cap does, and what is shown is
that of the full history in every state of a run exactly when the cap never takes effect
(`shows_history_iff`).
-/

set_option autoImplicit false

namespace FleetCommand.Dashboard

open Management Runs StableSort

/-- The transport kind of a vehicle. -/
inductive VehicleKind where
  | ground
  | air
  | sea
  deriving DecidableEq

/-- A vehicle's live state on the map. -/
structure VehicleState where
  vehicleId : String
  lat : JsNumber
  lng : JsNumber
  driverStatus : String
  heading : Option JsNumber
  label : Option String
  kind : Option VehicleKind
  zoneIds : Option (List String)
  active : Option Bool
  deriving DecidableEq

/-- The telemetry of a position event. -/
structure Telemetry where
  speed : Option JsNumber
  heading : Option JsNumber
  battery : Option JsNumber
  deriving DecidableEq

/-- A position received from the server. -/
structure PositionEvent where
  vehicleId : String
  lat : JsNumber
  lng : JsNumber
  timestamp : String
  telemetry : Option Telemetry
  deriving DecidableEq

/-- The transport kind an id stands for. -/
def kindFromId (id : String) : VehicleKind :=
  if id.startsWith "FLT" then .air
  else if id.startsWith "SHP" then .sea
  else .ground

/-- The vehicles of the demo fleet. -/
def seedVehicles : List VehicleState :=
  [⟨"VAN-014", .fin 47.6062, .fin (-122.3321), "On_Delivery", some (.fin 45), some "VAN-014",
      some .ground, some ["zone-dt"], some true⟩,
    ⟨"VAN-022", .fin 47.6205, .fin (-122.3493), "Available", some (.fin 200), some "VAN-022",
      some .ground, none, some true⟩,
    ⟨"TRK-003", .fin 47.5952, .fin (-122.3316), "On_Break", some (.fin 310), some "TRK-003",
      some .ground, some ["zone-sodo"], some true⟩,
    ⟨"VAN-031", .fin 47.6145, .fin (-122.3201), "On_Delivery", some (.fin 120), some "VAN-031",
      some .ground, none, some true⟩]

/-- The vehicles on the map and their traces. -/
structure FleetState where
  vehicles : InsertionMap String VehicleState
  tracesByVehicle : InsertionMap String (List TracePing)

/-- The trace of a vehicle; none is an empty one. -/
def FleetState.trace (s : FleetState) (vehicleId : String) : List TracePing :=
  (s.tracesByVehicle.get? vehicleId).getD []

/-- A short recent track for one vehicle; `sin` is `Math.sin`. -/
def seedTraces (sin : ℚ → ℚ) (now : ℚ) : InsertionMap String (List TracePing) :=
  InsertionMap.empty.set "VAN-014" ((List.range 13).reverse.map fun i =>
    { lat := .fin (47.6 + i * 0.0009 + sin (i / 2) * 0.0004)
      lng := .fin (-122.34 + i * 0.0011)
      timestamp := .epoch (.fin (now - i * 4 * 60 * 1000)) })

/-- The fleet at the start: the demo vehicles and the trace of one of them. -/
def FleetState.seed (sin : ℚ → ℚ) (now : ℚ) : FleetState where
  vehicles := seedVehicles.foldl (fun m v => m.set v.vehicleId v) .empty
  tracesByVehicle := seedTraces sin now

variable (dateParse : String → Option ℤ)

/-- The time is at or after the cutoff. -/
def keeps (cutoff : ℚ) (p : TracePing) : Bool :=
  match toEpoch dateParse p.timestamp with
  | .fin t => cutoff ≤ t
  | .posInf => true
  | _ => false

/-- The pings of the last hour, at most 2000 of them. -/
def bounded (pings : List TracePing) (now : ℚ) : List TracePing :=
  let kept := pings.filter (keeps dateParse (now - traceWindowMs))
  -- a hard cap keeps the memory bounded under sustained streaming
  if kept.length > 2000 then kept.drop (kept.length - 2000) else kept

/-- The ping of a position event. -/
def PositionEvent.ping (p : PositionEvent) : TracePing := ⟨p.lat, p.lng, .iso p.timestamp⟩

/-- The vehicle after a position event; what the event does not say stays. -/
def PositionEvent.vehicle (p : PositionEvent) (existing : Option VehicleState) : VehicleState where
  vehicleId := p.vehicleId
  lat := p.lat
  lng := p.lng
  heading := (p.telemetry.bind Telemetry.heading).or (existing.bind VehicleState.heading)
  driverStatus := (existing.map VehicleState.driverStatus).getD "On_Delivery"
  label := some ((existing.bind VehicleState.label).getD p.vehicleId)
  kind := some ((existing.bind VehicleState.kind).getD (kindFromId p.vehicleId))
  active := some true
  zoneIds := existing.bind VehicleState.zoneIds

/-- The handler of a position event; `now` is what the clock reads. -/
def FleetState.onPosition (s : FleetState) (p : PositionEvent) (now : ℚ) : FleetState where
  vehicles := s.vehicles.set p.vehicleId (p.vehicle (s.vehicles.get? p.vehicleId))
  tracesByVehicle :=
    s.tracesByVehicle.set p.vehicleId (bounded dateParse (s.trace p.vehicleId ++ [p.ping]) now)

/-! ## Runs -/

/-- A position event and the clock when it is handled. -/
structure Received where
  event : PositionEvent
  now : ℚ

/-- The fleet, with the clock and the pings of each vehicle that the source does not keep. -/
structure Observed where
  fleet : FleetState
  history : String → List TracePing
  clock : ℚ

/-- At the start the history is the seed. -/
def Observed.start (sin : ℚ → ℚ) (now : ℚ) : Observed where
  fleet := .seed sin now
  history := (FleetState.seed sin now).trace
  clock := now

/-- A position event is handled, and its ping is added to the full history. -/
def Observed.step (s : Observed) (e : Received) : Observed where
  fleet := s.fleet.onPosition dateParse e.event e.now
  history v := if v = e.event.vehicleId then s.history v ++ [e.event.ping] else s.history v
  clock := e.now

/-- What a trace shows at `now`. -/
def shown (pings : List TracePing) (now : ℚ) : List TracePing :=
  windowTrace dateParse TracePing.timestamp pings now traceWindowMs

/-- From now on every trace shows what the full history of its vehicle does. -/
def ShowsHistory (s : Observed) : Prop :=
  ∀ v now, s.clock ≤ now →
    shown dateParse (s.fleet.trace v) now = shown dateParse (s.history v) now

/-- The clock does not go back. -/
def ClockKept (s : Observed) (e : Received) : Prop := s.clock ≤ e.now

instance (s : Observed) (e : Received) : Decidable (ClockKept s e) :=
  inferInstanceAs (Decidable (_ ≤ _))

/-- At most 2000 pings of the vehicle's history, the new one included, are not too old. -/
def WithinCap (s : Observed) (e : Received) : Prop :=
  (s.history e.event.vehicleId ++ [e.event.ping]).countP
    (keeps dateParse (e.now - traceWindowMs)) ≤ 2000

instance (s : Observed) (e : Received) : Decidable (WithinCap dateParse s e) :=
  inferInstanceAs (Decidable (_ ≤ _))

variable {dateParse}

/-! ## Pruning -/

theorem keeps_of_le {c c' : ℚ} (hle : c ≤ c') {p : TracePing} (h : keeps dateParse c' p = true) :
    keeps dateParse c p = true := by
  unfold keeps at h ⊢
  split at h
  next t _ => exact decide_eq_true (hle.trans (of_decide_eq_true h))
  next => rfl
  next => exact absurd h Bool.false_ne_true

/-- A later cutoff after an earlier one is the later one. -/
theorem filter_keeps_keeps {c c' : ℚ} (hle : c ≤ c') (l : List TracePing) :
    (l.filter (keeps dateParse c)).filter (keeps dateParse c') = l.filter (keeps dateParse c') := by
  rw [List.filter_filter]
  apply List.filter_congr
  intro p _
  cases h : keeps dateParse c' p with
  | false => rfl
  | true => exact keeps_of_le hle h

/-- Lists that agree on what an earlier cutoff keeps agree on what a later one does. -/
theorem filter_keeps_congr {c c' : ℚ} (hle : c ≤ c') {l l' : List TracePing}
    (h : l.filter (keeps dateParse c) = l'.filter (keeps dateParse c)) :
    l.filter (keeps dateParse c') = l'.filter (keeps dateParse c') := by
  rw [← filter_keeps_keeps hle l, h, filter_keeps_keeps hle l']

theorem bounded_sublist (l : List TracePing) (now : ℚ) : (bounded dateParse l now).Sublist l := by
  rw [bounded]
  split
  · exact (List.drop_sublist _ _).trans List.filter_sublist
  · exact List.filter_sublist

/-- What is kept are pings that are not too old: all of them when they are at most 2000. -/
theorem filter_bounded_iff (l : List TracePing) (now : ℚ) :
    (bounded dateParse l now).filter (keeps dateParse (now - traceWindowMs)) =
        l.filter (keeps dateParse (now - traceWindowMs)) ↔
      l.countP (keeps dateParse (now - traceWindowMs)) ≤ 2000 := by
  rw [List.countP_eq_length_filter, bounded]
  have hself : ∀ l' : List TracePing,
      l'.Sublist (l.filter (keeps dateParse (now - traceWindowMs))) →
      l'.filter (keeps dateParse (now - traceWindowMs)) = l' := fun l' hl' =>
    List.filter_eq_self.2 fun p hp => (List.mem_filter.1 (hl'.subset hp)).2
  split
  next hlong =>
    rw [hself _ (List.drop_sublist _ _)]
    refine iff_of_false (fun h => ?_) (not_le.2 hlong)
    have hlength := congrArg List.length h
    rw [List.length_drop] at hlength
    omega
  next hshort => exact iff_of_true (hself _ (List.Sublist.refl _)) (not_lt.1 hshort)

/-! ## What a trace shows -/

theorem keeps_of_inWindow {c now : ℚ} {p : TracePing}
    (h : InWindow dateParse c now p.timestamp = true) : keeps dateParse c p = true := by
  unfold InWindow timeInWindow at h
  unfold keeps
  split at h
  next t ht =>
    rw [ht]
    split at h
    next hin => exact decide_eq_true hin.1
    next => exact absurd h Bool.false_ne_true
  next => exact absurd h Bool.false_ne_true

/-- What is too old is not shown. -/
theorem shown_filter_keeps {c now : ℚ} (hle : c ≤ now - traceWindowMs) (l : List TracePing) :
    shown dateParse (l.filter (keeps dateParse c)) now = shown dateParse l now := by
  rw [shown, shown, windowTrace, windowTrace]
  rw [List.filterMap_filter]
  congr 2
  apply List.filterMap_congr
  intro p _
  split
  next => rfl
  next hdrop =>
    have hout : timeInWindow dateParse (now - traceWindowMs) now p.timestamp = none :=
      Option.not_isSome_iff_eq_none.1 fun hin => hdrop (keeps_of_le hle (keeps_of_inWindow hin))
    rw [hout]
    rfl

theorem shown_congr {c now : ℚ} (hle : c ≤ now - traceWindowMs) {l l' : List TracePing}
    (h : l.filter (keeps dateParse c) = l'.filter (keeps dateParse c)) :
    shown dateParse l now = shown dateParse l' now := by
  rw [← shown_filter_keeps hle, h, shown_filter_keeps hle]

/-- A ping that is not too old and has a finite time is shown at that time or, if it is past, now. -/
theorem exists_inWindow {clock : ℚ} {p : TracePing}
    (h : keeps dateParse (clock - traceWindowMs) p = true)
    (hfinite : toEpoch dateParse p.timestamp ≠ .posInf) :
    ∃ now, clock ≤ now ∧ InWindow dateParse (now - traceWindowMs) now p.timestamp = true := by
  have hwindow : 0 ≤ traceWindowMs := by norm_num [traceWindowMs]
  unfold keeps at h
  split at h
  next t ht =>
    have hkept : clock - traceWindowMs ≤ t := of_decide_eq_true h
    have hin : max clock t - traceWindowMs ≤ t ∧ t ≤ max clock t := by
      refine ⟨?_, le_max_right clock t⟩
      rw [sub_le_iff_le_add]
      exact max_le (sub_le_iff_le_add.1 hkept) (le_add_of_nonneg_right hwindow)
    refine ⟨max clock t, le_max_left clock t, ?_⟩
    rw [InWindow, timeInWindow, ht]
    dsimp only
    rw [if_pos hin]
    rfl
  next hinf => exact absurd hinf hfinite
  next => exact absurd h Bool.false_ne_true

/-- Lists that show the same show each ping equally often. -/
theorem count_eq_of_shown {l l' : List TracePing} {now : ℚ} {p : TracePing}
    (h : shown dateParse l now = shown dateParse l' now)
    (hp : InWindow dateParse (now - traceWindowMs) now p.timestamp = true) :
    l.count p = l'.count p := by
  have hcount : ∀ l : List TracePing, (shown dateParse l now).count p = l.count p := fun l => by
    rw [shown, (windowTrace_isStableSort dateParse _ l now traceWindowMs).perm.count_eq]
    exact List.count_filter hp
  rw [← hcount l, h, hcount l']

/-- A part of a history shows the same from `clock` on exactly when it holds all pings of the history
that are not too old. -/
theorem shown_eq_iff {clock : ℚ} {l h : List TracePing} (hsub : l.Sublist h)
    (hfinite : ∀ p ∈ h, toEpoch dateParse p.timestamp ≠ .posInf) :
    (∀ now, clock ≤ now → shown dateParse l now = shown dateParse h now) ↔
      l.filter (keeps dateParse (clock - traceWindowMs)) =
        h.filter (keeps dateParse (clock - traceWindowMs)) := by
  constructor
  · intro hshown
    refine (hsub.filter _).eq_of_length (List.Perm.length_eq (List.perm_iff_count.2 fun p => ?_))
    cases hkeeps : keeps dateParse (clock - traceWindowMs) p with
    | false =>
      have hnot : ∀ l : List TracePing, p ∉ l.filter (keeps dateParse (clock - traceWindowMs)) :=
        fun l hp => Bool.false_ne_true (hkeeps.symm.trans (List.mem_filter.1 hp).2)
      rw [List.count_eq_zero_of_not_mem (hnot l), List.count_eq_zero_of_not_mem (hnot h)]
    | true =>
      rw [List.count_filter hkeeps, List.count_filter hkeeps]
      by_cases hp : p ∈ h
      · obtain ⟨now, hle, hin⟩ := exists_inWindow hkeeps (hfinite p hp)
        exact count_eq_of_shown (hshown now hle) hin
      · rw [List.count_eq_zero_of_not_mem hp,
          List.count_eq_zero_of_not_mem fun hl => hp (hsub.subset hl)]
  · intro hagree now hle
    exact shown_congr (sub_le_sub_right hle _) hagree

/-! ## One event -/

/-- The traces hold no ping that is not in the history, and no time in it is infinite. -/
structure Observed.Ok (dateParse : String → Option ℤ) (s : Observed) : Prop where
  part : ∀ v, (s.fleet.trace v).Sublist (s.history v)
  finite : ∀ v, ∀ p ∈ s.history v, toEpoch dateParse p.timestamp ≠ .posInf

/-- Traces and history agree on what is not too old. -/
def Agree (dateParse : String → Option ℤ) (s : Observed) : Prop :=
  ∀ v, (s.fleet.trace v).filter (keeps dateParse (s.clock - traceWindowMs)) =
    (s.history v).filter (keeps dateParse (s.clock - traceWindowMs))

theorem showsHistory_iff_agree {s : Observed} (h : s.Ok dateParse) :
    ShowsHistory dateParse s ↔ Agree dateParse s :=
  forall_congr' fun v => shown_eq_iff (h.part v) (h.finite v)

theorem trace_onPosition (s : FleetState) (p : PositionEvent) (now : ℚ) (v : String) :
    (s.onPosition dateParse p now).trace v =
      if v = p.vehicleId then bounded dateParse (s.trace v ++ [p.ping]) now else s.trace v := by
  rw [FleetState.trace, FleetState.onPosition, InsertionMap.get?_set]
  split
  next hv =>
    rw [hv]
    rfl
  next => rfl

theorem Observed.Ok.start (sin : ℚ → ℚ) (now : ℚ) : (Observed.start sin now).Ok dateParse where
  part v := List.Sublist.refl _
  finite v p hp := by
    simp only [Observed.start, FleetState.trace, FleetState.seed, seedTraces,
      InsertionMap.get?_set] at hp
    split at hp
    · obtain ⟨i, -, rfl⟩ := List.mem_map.1 hp
      simp [toEpoch]
    · exact absurd hp List.not_mem_nil

theorem Observed.Ok.step {s : Observed} (h : s.Ok dateParse) (e : Received) :
    (s.step dateParse e).Ok dateParse := by
  constructor
  · intro v
    rw [Observed.step, trace_onPosition]
    dsimp only
    split
    · exact (bounded_sublist _ _).trans ((h.part v).append (List.Sublist.refl _))
    · exact h.part v
  · intro v p hp
    rw [Observed.step] at hp
    dsimp only at hp
    split at hp
    · rcases List.mem_append.1 hp with hp | hp
      · exact h.finite v p hp
      · rw [List.mem_singleton.1 hp, PositionEvent.ping, toEpoch]
        cases dateParse e.event.timestamp <;> simp
    · exact h.finite v p hp

/-- Where traces and history agree, they agree after an event exactly when it is within the cap. -/
theorem agree_step_iff {s : Observed} {e : Received} (hclock : ClockKept s e)
    (h : Agree dateParse s) : Agree dateParse (s.step dateParse e) ↔ WithinCap dateParse s e := by
  have hle : s.clock - traceWindowMs ≤ e.now - traceWindowMs := sub_le_sub_right hclock _
  -- what is not too old before the pruning
  have hkept : (s.fleet.trace e.event.vehicleId ++ [e.event.ping]).filter
        (keeps dateParse (e.now - traceWindowMs)) =
      (s.history e.event.vehicleId ++ [e.event.ping]).filter
        (keeps dateParse (e.now - traceWindowMs)) := by
    rw [List.filter_append, List.filter_append, filter_keeps_congr hle (h e.event.vehicleId)]
  rw [WithinCap, List.countP_eq_length_filter, ← hkept, ← List.countP_eq_length_filter,
    ← filter_bounded_iff, hkept]
  simp only [Agree, Observed.step, trace_onPosition]
  constructor
  · intro hagree
    have hself := hagree e.event.vehicleId
    rwa [if_pos rfl, if_pos rfl] at hself
  · intro hself v
    split
    next hv => rwa [hv]
    next => exact filter_keeps_congr hle (h v)

/-! ## The traces of a run -/

variable (dateParse)

/-- With a clock that does not go back, every trace shows what the full history of its vehicle does in
every state of a run exactly when at every event at most 2000 pings of the vehicle's history are not
too old. -/
theorem shows_history_iff (sin : ℚ → ℚ) (now : ℚ) (events : List Received)
    (hclock : AllSteps (Observed.step dateParse) ClockKept (.start sin now) events) :
    Always (Observed.step dateParse) (ShowsHistory dateParse) (.start sin now) events ↔
      AllSteps (Observed.step dateParse) (WithinCap dateParse) (.start sin now) events := by
  refine always_iff_allSteps_of (I := Observed.Ok dateParse) (fun s e h _ => h.step e) ?_
    (Observed.Ok.start sin now) (fun v t _ => rfl) hclock
  intro s e h hclock hshows
  rw [showsHistory_iff_agree (h.step e)]
  exact agree_step_iff hclock ((showsHistory_iff_agree h).1 hshows)

/-- A position at the first millisecond, received then. -/
def firstPosition : Received :=
  ⟨⟨"v", .fin 0, .fin 0, "1970-01-01T00:00:00.001Z", none⟩, 1⟩

/-- Positions of two vehicles, and one of the first vehicle more than an hour later. -/
def hourApart : List Received :=
  [firstPosition, ⟨⟨"w", .fin 1, .fin 1, "1970-01-01T00:00:00.001Z", none⟩, 1⟩,
    ⟨⟨"v", .fin 1, .fin 0, "1970-01-01T00:00:00.002Z", none⟩, 3600002⟩]

/-- The first position is pruned, and every trace shows what the full history does. -/
theorem hourApart_shows :
    Always (Observed.step parseTwo) (ShowsHistory parseTwo) (.start id 1) hourApart ∧
      (run (Observed.step parseTwo) (.start id 1) hourApart).history "v" =
        firstPosition.event.ping ::
          (run (Observed.step parseTwo) (.start id 1) hourApart).fleet.trace "v" := by
  have hclock : AllSteps (Observed.step parseTwo) ClockKept (.start id 1) hourApart :=
    ⟨by decide +kernel, by decide +kernel, by decide +kernel, trivial⟩
  have hcap : AllSteps (Observed.step parseTwo) (WithinCap parseTwo) (.start id 1) hourApart :=
    ⟨by decide +kernel, by decide +kernel, by decide +kernel, trivial⟩
  exact ⟨(shows_history_iff parseTwo id 1 hourApart hclock).2 hcap, by decide +kernel⟩

/-! ## More than 2000 events in an hour -/

theorem clockKept_replicate {e : Received} (n : ℕ) {s : Observed} (h : s.clock ≤ e.now) :
    AllSteps (Observed.step dateParse) ClockKept s (List.replicate n e) := by
  induction n generalizing s with
  | zero => trivial
  | succ n ih => exact ⟨h, ih (le_refl e.now)⟩

theorem history_replicate (e : Received) (n : ℕ) (s : Observed) :
    (run (Observed.step dateParse) s (List.replicate n e)).history e.event.vehicleId =
      s.history e.event.vehicleId ++ List.replicate n e.event.ping := by
  induction n generalizing s with
  | zero => exact (List.append_nil _).symm
  | succ n ih =>
    rw [List.replicate_succ, run_cons, ih, Observed.step, List.replicate_succ]
    dsimp only
    rw [if_pos rfl, List.append_assoc, List.singleton_append]

/-- Of 2001 positions of one moment the trace shows 2000. -/
theorem manyPositions_lost : ¬ ∀ sin now events,
    AllSteps (Observed.step parseTwo) ClockKept (.start sin now) events →
      ShowsHistory parseTwo (run (Observed.step parseTwo) (.start sin now) events) := by
  intro hclaim
  have hshows : ∀ n, ShowsHistory parseTwo
      (run (Observed.step parseTwo) (.start id 1) (List.replicate n firstPosition)) :=
    fun n => hclaim id 1 _ (clockKept_replicate parseTwo n (le_refl _))
  have hok : ∀ n, (run (Observed.step parseTwo) (.start id 1)
      (List.replicate n firstPosition)).Ok parseTwo :=
    fun n => run_invariant (fun s e h => h.step e) (Observed.Ok.start id 1) _
  -- the last of 2001 events
  have hlast := hshows 2001
  have hlastOk := hok 2001
  have hclock := clockKept_replicate parseTwo 2001 (s := .start id 1) (e := firstPosition) (le_refl _)
  rw [List.replicate_succ', run_concat] at hlast hlastOk
  rw [List.replicate_succ', allSteps_append] at hclock
  have hcap := (agree_step_iff hclock.2.1 ((showsHistory_iff_agree (hok 2000)).1 (hshows 2000))).1
    ((showsHistory_iff_agree hlastOk).1 hlast)
  rw [WithinCap, history_replicate, List.append_assoc, ← List.replicate_succ',
    List.countP_append, List.countP_replicate, if_pos (by decide +kernel)] at hcap
  omega

end FleetCommand.Dashboard
