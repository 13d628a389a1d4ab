import FleetCommand.Dashboard.RouteAdvance
import FleetCommand.Lib.Observation
import Mathlib.Algebra.Order.BigOperators.Group.Finset

/-!
# Runs of the fleet simulation

Ticks one after another. Where a vehicle is after a run, and the zones it is in, depend on the time
that has passed and not on how it was cut into ticks: two places the same metres along a route are
one place (`Advanced.unique`), and the zones are those of the place (`Moved`). What a run emits is
consistent in itself: the zone events of a vehicle are the changes of containment between the
positions it reports.
-/

set_option autoImplicit false

namespace FleetCommand.Dashboard

open WhileLoop SimVehicle Observation

variable {K : Type} [Field K] [LinearOrder K] [IsStrictOrderedRing K]
variable (geometry : SegmentGeometry K)

/-- Ticks one after another, each with its milliseconds and its time. -/
def ticks [FloorRing K] (fuel : Nat) :
    List (K × String) → List (SimVehicle K) → Option (List (SimVehicle K) × List (SimFrame K))
  | [], vehicles => some (vehicles, [])
  | (dtMs, now) :: rest, vehicles => do
    let (vehicles, frames) ← tick geometry fuel dtMs now vehicles
    let (vehicles, later) ← ticks fuel rest vehicles
    return (vehicles, frames ++ later)

/-- The milliseconds of some ticks. -/
def elapsed (ts : List (K × String)) : K := (ts.map Prod.fst).sum

/-- Lists related element by element through a third. -/
theorem forall₂_comp {α β γ : Type} {R : α → β → Prop} {S : β → γ → Prop} {T : α → γ → Prop}
    (hRST : ∀ a b c, R a b → S b c → T a c) {l : List α} {l' : List β} {l'' : List γ}
    (h : List.Forall₂ R l l') (h' : List.Forall₂ S l' l'') : List.Forall₂ T l l'' := by
  induction h generalizing l'' with
  | nil =>
    cases h'
    exact .nil
  | cons hfirst _ ih =>
    cases h' with
    | cons hfirst' hrest' => exact .cons (hRST _ _ _ hfirst hfirst') (ih hrest')

/-! ## One place for the metres -/

section Unique

variable {geometry} {route : List (K × K)}

omit [IsStrictOrderedRing K] in
/-- The metres from one segment to a later one. -/
theorem metresBetween_sub (i p k : Nat) (f f' f'' : K) :
    metresBetween geometry route i f (p + (k + 1)) f'' - metresBetween geometry route i f p f' =
      (1 - f') * routeMetres geometry route (i + p) +
        ∑ j ∈ Finset.range k, routeMetres geometry route (i + (p + (j + 1))) +
        f'' * routeMetres geometry route (i + (p + (k + 1))) := by
  rw [metresBetween, metresBetween, Finset.sum_range_add, Finset.sum_range_succ', Nat.add_zero]
  ring

/-- A later segment is reached after more metres. -/
theorem metresBetween_lt (hpos : ∀ i, 0 < routeMetres geometry route i) (i : Nat) {p p' : Nat}
    (hlt : p < p') (f : K) {f' f'' : K} (hf' : f' < 1) (hf'' : 0 ≤ f'') :
    metresBetween geometry route i f p f' < metresBetween geometry route i f p' f'' := by
  obtain ⟨k, rfl⟩ := Nat.exists_eq_add_of_lt hlt
  rw [Nat.add_assoc, ← sub_pos, metresBetween_sub]
  have hrest : 0 < (1 - f') * routeMetres geometry route (i + p) :=
    mul_pos (sub_pos.2 hf') (hpos _)
  have hpassed : 0 ≤ ∑ j ∈ Finset.range k, routeMetres geometry route (i + (p + (j + 1))) :=
    Finset.sum_nonneg fun j _ => (hpos _).le
  have hlast : 0 ≤ f'' * routeMetres geometry route (i + (p + (k + 1))) :=
    mul_nonneg hf'' (hpos _).le
  linarith

/-- One place is so many metres along the route. -/
theorem SimVehicle.Advanced.unique (hlen : ∀ a b, 0 ≤ geometry.segmentMetres a b)
    {v v' v'' : SimVehicle K} {metres : K} (h' : v.Advanced geometry metres v')
    (h'' : v.Advanced geometry metres v'') :
    v''.segIndex = v'.segIndex ∧ v''.segFrac = v'.segFrac := by
  obtain ⟨p', hindex', hmetres'⟩ := h'.metres
  obtain ⟨p'', hindex'', hmetres''⟩ := h''.metres
  have hpos : ∀ i, 0 < routeMetres geometry v.route i := fun i => segLen_pos geometry hlen _ _
  -- the same number of segments was passed
  have hpassed : p'' = p' := by
    rcases lt_trichotomy p'' p' with hlt | heq | hlt
    · have hless := metresBetween_lt hpos v.segIndex hlt v.segFrac h''.onRoute.frac_lt
        h'.onRoute.frac_nonneg
      exact absurd (hmetres''.trans hmetres'.symm) hless.ne
    · exact heq
    · have hless := metresBetween_lt hpos v.segIndex hlt v.segFrac h'.onRoute.frac_lt
        h''.onRoute.frac_nonneg
      exact absurd (hmetres'.trans hmetres''.symm) hless.ne
  subst hpassed
  refine ⟨hindex''.trans hindex'.symm, ?_⟩
  have hsame := hmetres''.trans hmetres'.symm
  simp only [metresBetween, sub_left_inj, add_right_inj] at hsame
  exact mul_right_cancel₀ (hpos _).ne' hsame

end Unique

/-! ## The zones of a place -/

namespace SimVehicle

variable {now : String} {v : SimVehicle K} {zone other : SimZone K}

omit [IsStrictOrderedRing K] in
theorem mem_inside_meetZone : zone.id ∈ (v.meetZone now zone).1.inside ↔
    pointInRing v.lng v.lat zone.ring = true := by
  rw [meetZone]
  by_cases hin : pointInRing v.lng v.lat zone.ring = true <;>
    by_cases hwas : zone.id ∈ v.inside <;> simp [hin, hwas]

omit [IsStrictOrderedRing K] in
/-- A zone changes its own membership only. -/
theorem mem_inside_meetZone_of_ne {id : String} (hid : id ≠ zone.id) :
    id ∈ (v.meetZone now zone).1.inside ↔ id ∈ v.inside := by
  rw [meetZone]
  by_cases hin : pointInRing v.lng v.lat zone.ring = true <;>
    by_cases hwas : zone.id ∈ v.inside <;> simp [hin, hwas, hid]

omit [IsStrictOrderedRing K] in
theorem meetZones_cons (now : String) (zone : SimZone K) (zones : List (SimZone K))
    (v : SimVehicle K) :
    v.meetZones now (zone :: zones) =
      (((v.meetZone now zone).1.meetZones now zones).1,
        (v.meetZone now zone).2 ++ ((v.meetZone now zone).1.meetZones now zones).2) := rfl

omit [IsStrictOrderedRing K] in
theorem mem_inside_meetZones_of_not_mem {id : String} {zones : List (SimZone K)}
    (hid : ∀ zone ∈ zones, id ≠ zone.id) (v : SimVehicle K) :
    id ∈ (v.meetZones now zones).1.inside ↔ id ∈ v.inside := by
  induction zones generalizing v with
  | nil => exact Iff.rfl
  | cons zone zones ih =>
    rw [meetZones_cons]
    refine (ih (fun z hz => hid z (List.mem_cons_of_mem _ hz)) _).trans ?_
    exact mem_inside_meetZone_of_ne (hid zone List.mem_cons_self)

omit [IsStrictOrderedRing K] in
/-- After the zones are met the vehicle is in those that contain its place. -/
theorem mem_inside_meetZones {zones : List (SimZone K)} (hzones : (zones.map SimZone.id).Nodup)
    (hzone : zone ∈ zones) (v : SimVehicle K) :
    zone.id ∈ (v.meetZones now zones).1.inside ↔ pointInRing v.lng v.lat zone.ring = true := by
  induction zones generalizing v with
  | nil => exact absurd hzone List.not_mem_nil
  | cons first zones ih =>
    rw [List.map_cons, List.nodup_cons] at hzones
    rw [meetZones_cons]
    rcases List.mem_cons.1 hzone with rfl | hlater
    · -- the zones that follow have other ids
      have hother : ∀ z ∈ zones, zone.id ≠ z.id :=
        fun z hz heq => hzones.1 (heq ▸ List.mem_map_of_mem hz)
      rw [mem_inside_meetZones_of_not_mem hother, mem_inside_meetZone]
    · obtain ⟨inside, hfirst⟩ := meetZone_fst now v first
      rw [ih hzones.2 hlater, hfirst]

end SimVehicle

omit [LinearOrder K] [IsStrictOrderedRing K] in
theorem simZones_nodup : ((simZones (K := K)).map SimZone.id).Nodup := by
  have hids : (simZones (K := K)).map SimZone.id = ["zone-dt", "zone-sodo"] := rfl
  rw [hids]
  decide

/-! ## A tick of one vehicle -/

/-- `v'` is `v` so many metres along its route, placed there, in the zones of the place. -/
structure SimVehicle.Moved (v : SimVehicle K) (metres : K) (v' : SimVehicle K) : Prop where
  advanced : v.Advanced geometry metres v'
  vehicleId : v'.vehicleId = v.vehicleId
  driverStatus : v'.driverStatus = v.driverStatus
  placed : v'.place = v'
  zones : ∀ zone ∈ simZones, zone.id ∈ v'.inside ↔ pointInRing v'.lng v'.lat zone.ring = true
  elsewhere : ∀ id, (∀ zone ∈ simZones (K := K), id ≠ zone.id) →
    (id ∈ v'.inside ↔ id ∈ v.inside)

namespace SimVehicle

variable {geometry} {v v' v'' : SimVehicle K} {metres metres' : K}

omit [IsStrictOrderedRing K] in
theorem Moved.trans (h : v.Moved geometry metres v') (h' : v'.Moved geometry metres' v'') :
    v.Moved geometry (metres + metres') v'' where
  advanced := h.advanced.trans h'.advanced
  vehicleId := h'.vehicleId.trans h.vehicleId
  driverStatus := h'.driverStatus.trans h.driverStatus
  placed := h'.placed
  zones := h'.zones
  elsewhere id hid := (h'.elsewhere id hid).trans (h.elsewhere id hid)

/-- But for the heading, the vehicle is determined by the metres. -/
theorem Moved.unique (hlen : ∀ a b, 0 ≤ geometry.segmentMetres a b)
    (h' : v.Moved geometry metres v') (h'' : v.Moved geometry metres v'') :
    v'' = { v' with heading := v''.heading } := by
  obtain ⟨hindex, hfrac⟩ := h'.advanced.unique hlen h''.advanced
  have hroute := h''.advanced.route.trans h'.advanced.route.symm
  have hspeed := h''.advanced.speed.trans h'.advanced.speed.symm
  -- the coordinates are those of the place
  have hplace : v''.place.lng = v'.place.lng ∧ v''.place.lat = v'.place.lat := by
    simp only [place, segStart, segEnd, hindex, hfrac, hroute, and_self]
  rw [h'.placed, h''.placed] at hplace
  have hinside : v''.inside = v'.inside := by
    ext id
    by_cases hid : ∃ zone ∈ simZones (K := K), id = zone.id
    · obtain ⟨zone, hzone, rfl⟩ := hid
      rw [h''.zones zone hzone, h'.zones zone hzone, hplace.1, hplace.2]
    · have helse : ∀ zone ∈ simZones (K := K), id ≠ zone.id :=
        fun zone hzone heq => hid ⟨zone, hzone, heq⟩
      rw [h''.elsewhere id helse, h'.elsewhere id helse]
  have hid := h''.vehicleId.trans h'.vehicleId.symm
  have hstatus := h''.driverStatus.trans h'.driverStatus.symm
  cases v'
  cases v''
  simp_all

omit [IsStrictOrderedRing K] in
/-- The loop changes the place and the heading only. -/
theorem exec_keeps {fuel : Nat} {remaining remaining' : K}
    (h : exec (turn geometry) fuel (v, remaining) = some (v', remaining')) :
    v'.vehicleId = v.vehicleId ∧ v'.driverStatus = v.driverStatus ∧ v'.inside = v.inside := by
  induction fuel generalizing v remaining with
  | zero =>
    rw [exec] at h
    split at h
    · obtain ⟨rfl, rfl⟩ := Prod.mk.inj (Option.some.inj h)
      exact ⟨rfl, rfl, rfl⟩
    · exact absurd h (by simp)
  | succ fuel ih =>
    cases hturn : turn geometry (v, remaining) with
    | none =>
      rw [exec_of_none hturn] at h
      obtain ⟨rfl, rfl⟩ := Prod.mk.inj (Option.some.inj h)
      exact ⟨rfl, rfl, rfl⟩
    | some s =>
      obtain ⟨w, r⟩ := s
      rw [exec_of_some hturn] at h
      obtain ⟨hid, hstatus, hinside⟩ := ih h
      -- a turn of the loop writes the place and the segment only
      have hw : w.vehicleId = v.vehicleId ∧ w.driverStatus = v.driverStatus ∧
          w.inside = v.inside := by
        rw [turn] at hturn
        dsimp only at hturn
        split at hturn
        · split at hturn
          · obtain ⟨rfl, rfl⟩ := Prod.mk.inj (Option.some.inj hturn)
            exact ⟨rfl, rfl, rfl⟩
          · obtain ⟨rfl, rfl⟩ := Prod.mk.inj (Option.some.inj hturn)
            exact ⟨rfl, rfl, rfl⟩
        · exact absurd hturn (by simp)
      exact ⟨hid.trans hw.1, hstatus.trans hw.2.1, hinside.trans hw.2.2⟩

/-- What a vehicle reports after its loop is its place the metres of the tick further along. -/
theorem moved_report [FloorRing K] (hlen : ∀ a b, 0 ≤ geometry.segmentMetres a b) (hv : v.OnRoute)
    {dtMs : K} (hmetres : 0 ≤ v.tickMetres dtMs) {fuel : Nat} (now : String)
    (h : advance geometry fuel dtMs v = some v') :
    v.Moved geometry (v.tickMetres dtMs) (v'.report now).1 := by
  obtain ⟨w, turns, hw, hadvanced⟩ := advance_returns hlen hv hmetres
  rw [advance, Option.map_eq_some_iff] at h
  obtain ⟨⟨u, remaining⟩, hexec, rfl⟩ := h
  obtain ⟨hid, hstatus, hinside⟩ := exec_keeps hexec
  -- more turns have the same result
  have hmore := exec_mono hexec (Nat.le_max_left fuel turns)
  have hplace : w = u.place := by
    have hresult := hw _ (Nat.le_max_right fuel turns)
    rw [advance, hmore, Option.map_some, Option.some.injEq] at hresult
    exact hresult.symm
  obtain ⟨inside, hzones⟩ := meetZones_fst now simZones u.place
  have hreport : (u.place.report now).1 = (u.place.meetZones now simZones).1 := rfl
  refine ⟨?_, ?_, ?_, ?_, fun zone hzone => ?_, fun id hother => ?_⟩
  · rw [hreport, hzones]
    exact (hplace ▸ hadvanced).of_same rfl rfl rfl rfl
  · rw [hreport, hzones]
    exact hid
  · rw [hreport, hzones]
    exact hstatus
  · rw [hreport, hzones]
    rfl
  · rw [hreport, mem_inside_meetZones simZones_nodup hzone, hzones]
  · rw [hreport, mem_inside_meetZones_of_not_mem hother, ← hinside]
    rfl

end SimVehicle

/-! ## A tick of the fleet -/

section Fleet

variable [FloorRing K] {geometry} {fuel : Nat} {dtMs : K} {now : String}
  {vehicles vehicles' : List (SimVehicle K)} {frames : List (SimFrame K)}

omit [IsStrictOrderedRing K] in
theorem tick_cons {v : SimVehicle K}
    (h : tick geometry fuel dtMs now (v :: vehicles) = some (vehicles', frames)) :
    ∃ w rest later, v.advance geometry fuel dtMs = some w ∧
      tick geometry fuel dtMs now vehicles = some (rest, later) ∧
      vehicles' = (w.report now).1 :: rest ∧ frames = (w.report now).2 ++ later := by
  rw [tick] at h
  simp only [Option.bind_eq_bind, Option.bind_eq_some_iff] at h
  obtain ⟨w, hw, ⟨rest, later⟩, hrest, hresult⟩ := h
  obtain ⟨rfl, rfl⟩ := Prod.mk.inj (Option.some.inj hresult)
  exact ⟨w, rest, later, hw, hrest, rfl, rfl⟩

/-- The vehicle is on its route, and moves. -/
structure SimVehicle.Moving (v : SimVehicle K) : Prop where
  onRoute : v.OnRoute
  speed : 0 < v.speed

omit [FloorRing K] in
theorem SimVehicle.Moving.tickMetres_nonneg {v : SimVehicle K} (h : v.Moving) (hdt : 0 ≤ dtMs) :
    0 ≤ v.tickMetres dtMs :=
  mul_nonneg h.speed.le (div_nonneg hdt (by norm_num))

omit [FloorRing K] [IsStrictOrderedRing K] in
theorem SimVehicle.Moved.moving {v v' : SimVehicle K} {metres : K}
    (h : v.Moved geometry metres v') (hv : v.Moving) : v'.Moving :=
  ⟨h.advanced.onRoute, h.advanced.speed ▸ hv.speed⟩

theorem laps_moving : ∀ v ∈ [SimVehicle.laps], v.Moving := by
  intro v hv
  obtain rfl := List.mem_singleton.1 hv
  exact ⟨⟨by decide, by decide +kernel, by decide +kernel⟩, by decide +kernel⟩

theorem tick_moves (hlen : ∀ a b, 0 ≤ geometry.segmentMetres a b) (hdt : 0 ≤ dtMs)
    (hvehicles : ∀ v ∈ vehicles, v.Moving)
    (h : tick geometry fuel dtMs now vehicles = some (vehicles', frames)) :
    List.Forall₂ (fun v v' => v.Moved geometry (v.tickMetres dtMs) v') vehicles vehicles' := by
  induction vehicles generalizing vehicles' frames with
  | nil =>
    obtain ⟨rfl, -⟩ := Prod.mk.inj (Option.some.inj h)
    exact .nil
  | cons v vehicles ih =>
    obtain ⟨w, rest, later, hw, hrest, rfl, -⟩ := tick_cons h
    have hv := hvehicles v List.mem_cons_self
    refine .cons (SimVehicle.moved_report hlen hv.onRoute (hv.tickMetres_nonneg hdt) now hw) ?_
    exact ih (fun u hu => hvehicles u (List.mem_cons_of_mem v hu)) hrest

omit [FloorRing K] [IsStrictOrderedRing K] in
theorem forall_moving {metres : SimVehicle K → K}
    (h : List.Forall₂ (fun v v' => v.Moved geometry (metres v) v') vehicles vehicles')
    (hvehicles : ∀ v ∈ vehicles, v.Moving) : ∀ v ∈ vehicles', v.Moving := by
  induction h with
  | nil => exact hvehicles
  | cons hfirst _ ih =>
    intro v hv
    rcases List.mem_cons.1 hv with rfl | hv
    · exact hfirst.moving (hvehicles _ List.mem_cons_self)
    · exact ih (fun u hu => hvehicles u (List.mem_cons_of_mem _ hu)) v hv

/-! ## Runs -/

/-- A run of ticks has a result, given enough turns. -/
theorem ticks_return (hlen : ∀ a b, 0 ≤ geometry.segmentMetres a b) {ts : List (K × String)}
    (hts : ∀ t ∈ ts, 0 ≤ t.1) (hvehicles : ∀ v ∈ vehicles, v.Moving) :
    ∃ vehicles' frames turns, ∀ fuel, turns ≤ fuel →
      ticks geometry fuel ts vehicles = some (vehicles', frames) := by
  induction ts generalizing vehicles with
  | nil => exact ⟨vehicles, [], 0, fun _ _ => rfl⟩
  | cons t ts ih =>
    have hdt := hts t List.mem_cons_self
    obtain ⟨moved, frames, turns, htick, -⟩ := tick_advances hlen hdt t.2
      fun v hv => ⟨(hvehicles v hv).onRoute, (hvehicles v hv).speed⟩
    -- the vehicles after the tick move too, so the later ticks return
    have hmoves := tick_moves hlen hdt hvehicles (htick turns le_rfl)
    obtain ⟨vehicles', later, turns', hrest⟩ :=
      ih (fun u hu => hts u (List.mem_cons_of_mem t hu)) (forall_moving hmoves hvehicles)
    refine ⟨vehicles', frames ++ later, max turns turns', fun fuel hfuel => ?_⟩
    rw [ticks, htick fuel ((Nat.le_max_left _ _).trans hfuel)]
    dsimp only [Option.bind_eq_bind, Option.bind_some]
    rw [hrest fuel ((Nat.le_max_right _ _).trans hfuel)]
    rfl

omit [IsStrictOrderedRing K] in
theorem ticks_cons {t : K × String} {ts : List (K × String)}
    (h : ticks geometry fuel (t :: ts) vehicles = some (vehicles', frames)) :
    ∃ moved first later, tick geometry fuel t.1 t.2 vehicles = some (moved, first) ∧
      ticks geometry fuel ts moved = some (vehicles', later) ∧ frames = first ++ later := by
  rw [ticks] at h
  simp only [Option.bind_eq_bind, Option.bind_eq_some_iff] at h
  obtain ⟨⟨moved, first⟩, htick, ⟨rest, later⟩, hrest, hresult⟩ := h
  obtain ⟨rfl, rfl⟩ := Prod.mk.inj (Option.some.inj hresult)
  exact ⟨moved, first, later, htick, hrest, rfl⟩

omit [FloorRing K] [IsStrictOrderedRing K] in
theorem SimVehicle.advance_mono {v w : SimVehicle K} {fuel fuel' : Nat}
    (h : v.advance geometry fuel dtMs = some w) (hle : fuel ≤ fuel') :
    v.advance geometry fuel' dtMs = some w := by
  rw [advance, Option.map_eq_some_iff] at h ⊢
  obtain ⟨result, hexec, hplace⟩ := h
  exact ⟨result, WhileLoop.exec_mono hexec hle, hplace⟩

omit [IsStrictOrderedRing K] in
theorem tick_mono {fuel fuel' : Nat}
    (h : tick geometry fuel dtMs now vehicles = some (vehicles', frames)) (hle : fuel ≤ fuel') :
    tick geometry fuel' dtMs now vehicles = some (vehicles', frames) := by
  induction vehicles generalizing vehicles' frames with
  | nil => exact h
  | cons v vehicles ih =>
    obtain ⟨w, rest, later, hw, hrest, rfl, rfl⟩ := tick_cons h
    rw [tick, SimVehicle.advance_mono hw hle, ih hrest]
    rfl

omit [IsStrictOrderedRing K] in
/-- A run that returns has the same result with more turns for its loops. -/
theorem ticks_mono {ts : List (K × String)} {fuel fuel' : Nat}
    (h : ticks geometry fuel ts vehicles = some (vehicles', frames)) (hle : fuel ≤ fuel') :
    ticks geometry fuel' ts vehicles = some (vehicles', frames) := by
  induction ts generalizing vehicles frames with
  | nil => exact h
  | cons t ts ih =>
    obtain ⟨moved, first, later, htick, hrest, rfl⟩ := ticks_cons h
    rw [ticks, tick_mono htick hle]
    show (ticks geometry fuel' ts moved).bind _ = _
    rw [ih hrest]
    rfl

/-- After a run with a tick in it every vehicle is the metres of the time that has passed further
along its route. -/
theorem ticks_move (hlen : ∀ a b, 0 ≤ geometry.segmentMetres a b) {t : K × String}
    {ts : List (K × String)} (hts : ∀ u ∈ t :: ts, 0 ≤ u.1) (hvehicles : ∀ v ∈ vehicles, v.Moving)
    (h : ticks geometry fuel (t :: ts) vehicles = some (vehicles', frames)) :
    List.Forall₂ (fun v v' => v.Moved geometry (v.tickMetres (elapsed (t :: ts))) v') vehicles
      vehicles' := by
  induction ts generalizing t vehicles frames with
  | nil =>
    obtain ⟨moved, first, later, htick, hrest, rfl⟩ := ticks_cons h
    obtain ⟨rfl, -⟩ := Prod.mk.inj (Option.some.inj hrest)
    have helapsed : elapsed [t] = t.1 := by simp [elapsed]
    rw [helapsed]
    exact tick_moves hlen (hts t List.mem_cons_self) hvehicles htick
  | cons u ts ih =>
    obtain ⟨moved, first, later, htick, hrest, rfl⟩ := ticks_cons h
    have hfirst := tick_moves hlen (hts t List.mem_cons_self) hvehicles htick
    have hlater := ih (fun w hw => hts w (List.mem_cons_of_mem t hw))
      (forall_moving hfirst hvehicles) hrest
    -- vehicle by vehicle the metres of the two parts add up
    refine forall₂_comp (fun v w v' hmoved hmoved' => ?_) hfirst hlater
    have hsum : v.tickMetres t.1 + w.tickMetres (elapsed (u :: ts)) =
        v.tickMetres (elapsed (t :: u :: ts)) := by
      rw [SimVehicle.tickMetres, SimVehicle.tickMetres, SimVehicle.tickMetres,
        hmoved.advanced.speed]
      simp only [elapsed, List.map_cons, List.sum_cons]
      ring
    rw [← hsum]
    exact hmoved.trans hmoved'

/-- After the same time, however it was cut into ticks, every vehicle is at the same place, with the
same coordinates and in the same zones. -/
theorem place_of_elapsed (hlen : ∀ a b, 0 ≤ geometry.segmentMetres a b)
    (hvehicles : ∀ v ∈ vehicles, v.Moving) {ts ts' : List (K × String)} (hne : ts ≠ [])
    (hne' : ts' ≠ []) (hts : ∀ t ∈ ts, 0 ≤ t.1) (hts' : ∀ t ∈ ts', 0 ≤ t.1)
    (helapsed : elapsed ts = elapsed ts') :
    ∃ turns, ∀ fuel, turns ≤ fuel → ∃ after frames after' frames',
      ticks geometry fuel ts vehicles = some (after, frames) ∧
      ticks geometry fuel ts' vehicles = some (after', frames') ∧
      List.Forall₂ (fun v v' => v' = { v with heading := v'.heading }) after after' := by
  obtain ⟨after, frames, turns, hrun⟩ := ticks_return hlen hts hvehicles
  obtain ⟨after', frames', turns', hrun'⟩ := ticks_return hlen hts' hvehicles
  refine ⟨max turns turns', fun fuel hfuel => ⟨after, frames, after', frames',
    hrun fuel ((Nat.le_max_left _ _).trans hfuel),
    hrun' fuel ((Nat.le_max_right _ _).trans hfuel), ?_⟩⟩
  obtain ⟨t, rest, rfl⟩ := List.exists_cons_of_ne_nil hne
  obtain ⟨t', rest', rfl⟩ := List.exists_cons_of_ne_nil hne'
  -- both runs move each vehicle by the elapsed time, and there is one such place
  have hmoves := ticks_move hlen hts hvehicles (hrun turns le_rfl)
  have hmoves' := ticks_move hlen hts' hvehicles (hrun' turns' le_rfl)
  rw [← helapsed] at hmoves'
  exact forall₂_comp (fun v' v v'' hmoved hmoved' => SimVehicle.Moved.unique hlen hmoved hmoved')
    hmoves.flip hmoves'

theorem taxicab_nonneg (a b : ℚ × ℚ) : 0 ≤ taxicab.segmentMetres a b :=
  add_nonneg (abs_nonneg _) (abs_nonneg _)

/-- A tick of a second, and two of half a second. -/
theorem laps_place : ∃ turns, ∀ fuel, turns ≤ fuel → ∃ after frames after' frames',
    ticks taxicab fuel [(1000, "t")] [laps] = some (after, frames) ∧
    ticks taxicab fuel [(500, "t"), (500, "u")] [laps] = some (after', frames') ∧
    List.Forall₂ (fun v v' => v' = { v with heading := v'.heading }) after after' :=
  place_of_elapsed taxicab_nonneg laps_moving
    (List.cons_ne_nil _ _) (List.cons_ne_nil _ _) (by decide +kernel) (by decide +kernel)
    (by decide +kernel)

end Fleet

/-! ## What a run emits -/

/-- The place a frame reports of a vehicle, longitude first. -/
def SimFrame.place? (id : String) : SimFrame K → Option (K × K)
  | .position vehicleId lat lng _ _ _ => if vehicleId = id then some (lng, lat) else none
  | .zoneEvent _ _ _ _ _ => none

/-- The crossing of a zone a frame reports of a vehicle. -/
def SimFrame.crossing? (id zoneId : String) : SimFrame K → Option ZoneEventType
  | .position _ _ _ _ _ _ => none
  | .zoneEvent vehicleId zone type _ _ =>
    if vehicleId = id ∧ zone = zoneId then some type else none

/-- The places some frames report of a vehicle, in order. -/
def placesOf (id : String) (frames : List (SimFrame K)) : List (K × K) :=
  frames.filterMap (SimFrame.place? id)

/-- The crossings of a zone some frames report of a vehicle, in order. -/
def crossingsOf (id zoneId : String) (frames : List (SimFrame K)) : List ZoneEventType :=
  frames.filterMap (SimFrame.crossing? id zoneId)

/-- The crossing that leads to a membership. -/
def crossingTo (inside : Bool) : ZoneEventType := if inside then .enter else .exit

/-- The crossings between two memberships. -/
def crossingsBetween (was isIn : Bool) : List ZoneEventType :=
  if isIn = was then [] else [crossingTo isIn]

section Frames

omit [Field K] [LinearOrder K] [IsStrictOrderedRing K]

variable {id zoneId : String} {frames later : List (SimFrame K)}

theorem placesOf_append : placesOf id (frames ++ later) = placesOf id frames ++ placesOf id later :=
  List.filterMap_append

theorem crossingsOf_append : crossingsOf id zoneId (frames ++ later) =
    crossingsOf id zoneId frames ++ crossingsOf id zoneId later :=
  List.filterMap_append

end Frames

namespace SimVehicle

variable {now : String} {zone : SimZone K}

omit [IsStrictOrderedRing K] in
theorem crossingsOf_meetZone (v : SimVehicle K) :
    crossingsOf v.vehicleId zone.id (v.meetZone now zone).2 =
      crossingsBetween (decide (zone.id ∈ v.inside)) (pointInRing v.lng v.lat zone.ring) := by
  rw [meetZone]
  by_cases hin : pointInRing v.lng v.lat zone.ring = true <;>
    by_cases hwas : zone.id ∈ v.inside <;>
    simp [hin, hwas, crossingsOf, crossingsBetween, crossingTo, SimFrame.crossing?]

omit [IsStrictOrderedRing K] in
/-- A zone reports its own crossing of this vehicle only, and no place. -/
theorem meetZone_silent (now : String) (zone : SimZone K) (v : SimVehicle K) :
    (∀ id, placesOf id (v.meetZone now zone).2 = []) ∧
    ∀ id zoneId, id ≠ v.vehicleId ∨ zoneId ≠ zone.id →
      crossingsOf id zoneId (v.meetZone now zone).2 = [] := by
  have hother : ∀ (type : ZoneEventType) (label id zoneId : String),
      id ≠ v.vehicleId ∨ zoneId ≠ zone.id →
      crossingsOf (K := K) id zoneId [.zoneEvent v.vehicleId zone.id type label now] = [] := by
    intro type label id zoneId hne
    -- the one event reported names the vehicle and the zone
    have hcond : ¬ (v.vehicleId = id ∧ zone.id = zoneId) := by
      rintro ⟨rfl, rfl⟩
      exact hne.elim (fun h => h rfl) fun h => h rfl
    simp [crossingsOf, SimFrame.crossing?, hcond]
  rw [meetZone]
  split
  · exact ⟨fun _ => rfl, hother _ _⟩
  split
  · exact ⟨fun _ => rfl, hother _ _⟩
  · exact ⟨fun _ => rfl, fun _ _ _ => rfl⟩

omit [IsStrictOrderedRing K] in
theorem meetZones_silent (zones : List (SimZone K)) (v : SimVehicle K) :
    (∀ id, placesOf id (v.meetZones now zones).2 = []) ∧
    ∀ id zoneId, (id ≠ v.vehicleId ∨ ∀ zone ∈ zones, zoneId ≠ zone.id) →
      crossingsOf id zoneId (v.meetZones now zones).2 = [] := by
  induction zones generalizing v with
  | nil => exact ⟨fun _ => rfl, fun _ _ _ => rfl⟩
  | cons zone zones ih =>
    obtain ⟨hplaces, hcrossings⟩ := meetZone_silent now zone v
    obtain ⟨inside, hfirst⟩ := meetZone_fst now v zone
    obtain ⟨hplaces', hcrossings'⟩ := ih (v.meetZone now zone).1
    rw [meetZones_cons]
    constructor
    · intro id
      rw [placesOf_append, hplaces, hplaces', List.append_nil]
    · intro id zoneId hne
      rw [crossingsOf_append, hcrossings, hcrossings', List.append_nil]
      · rw [hfirst]
        exact hne.imp_right fun h z hz => h z (List.mem_cons_of_mem _ hz)
      · exact hne.imp_right fun h => h zone List.mem_cons_self

omit [IsStrictOrderedRing K] in
theorem crossingsOf_meetZones {zones : List (SimZone K)} (hzones : (zones.map SimZone.id).Nodup)
    (hzone : zone ∈ zones) (v : SimVehicle K) :
    crossingsOf v.vehicleId zone.id (v.meetZones now zones).2 =
      crossingsBetween (decide (zone.id ∈ v.inside)) (pointInRing v.lng v.lat zone.ring) := by
  induction zones generalizing v with
  | nil => exact absurd hzone List.not_mem_nil
  | cons first zones ih =>
    rw [List.map_cons, List.nodup_cons] at hzones
    obtain ⟨inside, hfirst⟩ := meetZone_fst now v first
    rw [meetZones_cons, crossingsOf_append]
    rcases List.mem_cons.1 hzone with rfl | hlater
    · -- the zones that follow report nothing of it
      have hother : ∀ z ∈ zones, zone.id ≠ z.id :=
        fun z hz heq => hzones.1 (heq ▸ List.mem_map_of_mem hz)
      rw [crossingsOf_meetZone, (meetZones_silent zones _).2 _ _ (.inr hother), List.append_nil]
    · have hne : zone.id ≠ first.id := fun heq => hzones.1 (heq ▸ List.mem_map_of_mem hlater)
      have hid : (v.meetZone now first).1.vehicleId = v.vehicleId := by rw [hfirst]
      have hlng : (v.meetZone now first).1.lng = v.lng := by rw [hfirst]
      have hlat : (v.meetZone now first).1.lat = v.lat := by rw [hfirst]
      have hrest := ih hzones.2 hlater (v.meetZone now first).1
      rw [hid, hlng, hlat, decide_eq_decide.2 (mem_inside_meetZone_of_ne hne)] at hrest
      rw [(meetZone_silent now first v).2 _ _ (.inr hne), List.nil_append, hrest]

end SimVehicle

section Fleet

variable [FloorRing K] {geometry} {fuel : Nat} {dtMs : K} {now : String}
  {vehicles vehicles' : List (SimVehicle K)} {frames : List (SimFrame K)} {zone : SimZone K}

omit [IsStrictOrderedRing K] in
theorem report_snd (v : SimVehicle K) : (v.report now).2 =
    .position v.vehicleId v.lat v.lng now (SimVehicle.mathRound v.heading)
      (SimVehicle.mathRound (v.speed * 3.6)) :: (v.meetZones now simZones).2 := rfl

omit [IsStrictOrderedRing K] in
/-- What a vehicle reports of itself: its place, and the changes of its memberships. -/
theorem report_own (now : String) (v : SimVehicle K) :
    placesOf v.vehicleId (v.report now).2 = [(v.lng, v.lat)] ∧
    ∀ zone ∈ simZones, crossingsOf v.vehicleId zone.id (v.report now).2 =
      crossingsBetween (decide (zone.id ∈ v.inside)) (pointInRing v.lng v.lat zone.ring) := by
  rw [report_snd]
  constructor
  · rw [placesOf, List.filterMap_cons_some (by simp [SimFrame.place?]) (b := (v.lng, v.lat))]
    exact congrArg _ ((v.meetZones_silent simZones).1 v.vehicleId)
  · intro zone hzone
    rw [crossingsOf, List.filterMap_cons_none rfl]
    exact SimVehicle.crossingsOf_meetZones simZones_nodup hzone v

omit [IsStrictOrderedRing K] in
/-- A vehicle reports nothing of another. -/
theorem report_other (now : String) {id : String} (v : SimVehicle K) (hid : id ≠ v.vehicleId) :
    placesOf id (v.report now).2 = [] ∧ ∀ zoneId, crossingsOf id zoneId (v.report now).2 = [] := by
  rw [report_snd]
  constructor
  · rw [placesOf, List.filterMap_cons_none (by simp [SimFrame.place?, hid.symm])]
    exact (v.meetZones_silent simZones).1 id
  · intro zoneId
    rw [crossingsOf, List.filterMap_cons_none rfl]
    exact (v.meetZones_silent simZones).2 id zoneId (.inl hid)

omit [FloorRing K] [IsStrictOrderedRing K] in
theorem advance_keeps {v w : SimVehicle K} (h : v.advance geometry fuel dtMs = some w) :
    w.vehicleId = v.vehicleId ∧ w.inside = v.inside := by
  rw [SimVehicle.advance, Option.map_eq_some_iff] at h
  obtain ⟨⟨u, remaining⟩, hexec, rfl⟩ := h
  obtain ⟨hid, -, hinside⟩ := SimVehicle.exec_keeps hexec
  exact ⟨hid, hinside⟩

omit [IsStrictOrderedRing K] in
theorem report_vehicleId (v : SimVehicle K) : (v.report now).1.vehicleId = v.vehicleId := by
  obtain ⟨inside, hzones⟩ := SimVehicle.meetZones_fst now simZones v
  have hreport : (v.report now).1 = (v.meetZones now simZones).1 := rfl
  rw [hreport, hzones]

omit [IsStrictOrderedRing K] in
theorem tick_ids (h : tick geometry fuel dtMs now vehicles = some (vehicles', frames)) :
    vehicles'.map SimVehicle.vehicleId = vehicles.map SimVehicle.vehicleId := by
  induction vehicles generalizing vehicles' frames with
  | nil =>
    obtain ⟨rfl, -⟩ := Prod.mk.inj (Option.some.inj h)
    rfl
  | cons v vehicles ih =>
    obtain ⟨w, rest, later, hw, hrest, rfl, -⟩ := tick_cons h
    rw [List.map_cons, List.map_cons, ih hrest, report_vehicleId, (advance_keeps hw).1]

omit [IsStrictOrderedRing K] in
theorem tick_silent (h : tick geometry fuel dtMs now vehicles = some (vehicles', frames))
    {id : String} (hid : id ∉ vehicles.map SimVehicle.vehicleId) :
    placesOf id frames = [] ∧ ∀ zoneId, crossingsOf id zoneId frames = [] := by
  induction vehicles generalizing vehicles' frames with
  | nil =>
    obtain ⟨-, rfl⟩ := Prod.mk.inj (Option.some.inj h)
    exact ⟨rfl, fun _ => rfl⟩
  | cons v vehicles ih =>
    obtain ⟨w, rest, later, hw, hrest, -, rfl⟩ := tick_cons h
    rw [List.map_cons, List.mem_cons, not_or] at hid
    obtain ⟨hplaces, hcrossings⟩ := ih hrest hid.2
    obtain ⟨hplaces', hcrossings'⟩ :=
      report_other now w fun heq => hid.1 (heq.trans (advance_keeps hw).1)
    refine ⟨?_, fun zoneId => ?_⟩
    · rw [placesOf_append, hplaces, hplaces', List.append_nil]
    · rw [crossingsOf_append, hcrossings, hcrossings', List.append_nil]

/-- What a tick reports of a vehicle that is `v` before it and `v'` after it. -/
structure TickReports (v v' : SimVehicle K) (frames : List (SimFrame K)) : Prop where
  vehicleId : v'.vehicleId = v.vehicleId
  places : placesOf v.vehicleId frames = [(v'.lng, v'.lat)]
  inside : ∀ zone ∈ simZones, zone.id ∈ v'.inside ↔ pointInRing v'.lng v'.lat zone.ring = true
  crossings : ∀ zone ∈ simZones, crossingsOf v.vehicleId zone.id frames =
    crossingsBetween (decide (zone.id ∈ v.inside)) (pointInRing v'.lng v'.lat zone.ring)

omit [IsStrictOrderedRing K] in
theorem tick_reports (hids : (vehicles.map SimVehicle.vehicleId).Nodup)
    (h : tick geometry fuel dtMs now vehicles = some (vehicles', frames)) {v : SimVehicle K}
    (hv : v ∈ vehicles) : ∃ v' ∈ vehicles', TickReports v v' frames := by
  induction vehicles generalizing vehicles' frames with
  | nil => exact absurd hv List.not_mem_nil
  | cons first vehicles ih =>
    obtain ⟨w, rest, later, hw, hrest, rfl, rfl⟩ := tick_cons h
    rw [List.map_cons, List.nodup_cons] at hids
    obtain ⟨hid, hinside⟩ := advance_keeps hw
    rcases List.mem_cons.1 hv with rfl | hv
    · -- the vehicles that follow report nothing of it
      obtain ⟨hplaces, hcrossings⟩ := tick_silent hrest hids.1
      obtain ⟨hown, hchanges⟩ := report_own now w
      rw [hid] at hown hchanges
      obtain ⟨inside, hzones⟩ := SimVehicle.meetZones_fst now simZones w
      have hreport : (w.report now).1 = (w.meetZones now simZones).1 := rfl
      refine ⟨(w.report now).1, List.mem_cons_self, (report_vehicleId w).trans hid, ?_, ?_, ?_⟩
      · rw [placesOf_append, hplaces, hown, hreport, hzones]
        rfl
      · intro zone hzone
        rw [hreport, SimVehicle.mem_inside_meetZones simZones_nodup hzone, hzones]
      · intro zone hzone
        rw [crossingsOf_append, hcrossings, hchanges zone hzone, List.append_nil, hinside, hreport,
          hzones]
    -- the first vehicle reports nothing of a later one
    · obtain ⟨v', hv', hreports⟩ := ih hids.2 hrest hv
      have hne : v.vehicleId ≠ w.vehicleId := by
        rw [hid]
        exact fun heq => hids.1 (heq ▸ List.mem_map_of_mem hv)
      obtain ⟨hplaces, hcrossings⟩ := report_other now w hne
      refine ⟨v', List.mem_cons_of_mem _ hv', hreports.vehicleId, ?_, hreports.inside, ?_⟩
      · rw [placesOf_append, hplaces, List.nil_append, hreports.places]
      · intro zone hzone
        rw [crossingsOf_append, hcrossings, List.nil_append, hreports.crossings zone hzone]

/-- The memberships of the places some frames report of a vehicle. -/
def observed (id : String) (zone : SimZone K) (frames : List (SimFrame K)) : List Bool :=
  (placesOf id frames).map fun p => pointInRing p.1 p.2 zone.ring

omit [IsStrictOrderedRing K] in
theorem ticks_crossings {ts : List (K × String)}
    (hids : (vehicles.map SimVehicle.vehicleId).Nodup)
    (h : ticks geometry fuel ts vehicles = some (vehicles', frames)) {v : SimVehicle K}
    (hv : v ∈ vehicles) (hzone : zone ∈ simZones) :
    (placesOf v.vehicleId frames).length = ts.length ∧
    crossingsOf v.vehicleId zone.id frames =
      (observeAll (decide (zone.id ∈ v.inside))
        (observed v.vehicleId zone frames)).changes.map crossingTo := by
  induction ts generalizing vehicles v frames with
  | nil =>
    obtain ⟨-, rfl⟩ := Prod.mk.inj (Option.some.inj h)
    exact ⟨rfl, rfl⟩
  | cons t ts ih =>
    obtain ⟨moved, first, later, htick, hrest, rfl⟩ := ticks_cons h
    obtain ⟨v', hv', hreports⟩ := tick_reports hids htick hv
    obtain ⟨hlength, hlater⟩ := ih (tick_ids htick ▸ hids) hrest hv'
    rw [hreports.vehicleId] at hlength hlater
    have hinside : decide (zone.id ∈ v'.inside) = pointInRing v'.lng v'.lat zone.ring := by
      rw [Bool.eq_iff_iff, decide_eq_true_iff, hreports.inside zone hzone]
    rw [hinside] at hlater
    constructor
    · rw [placesOf_append, hreports.places, List.length_append, hlength, List.length_singleton,
        List.length_cons, Nat.add_comm]
    -- the tick shows one place, and its crossing is the change that place makes
    · have hobserved : observed v.vehicleId zone (first ++ later) =
          pointInRing v'.lng v'.lat zone.ring :: observed v.vehicleId zone later := by
        rw [observed, placesOf_append, hreports.places]
        rfl
      rw [hobserved, observeAll_cons, List.map_append, ← hlater, crossingsOf_append,
        hreports.crossings zone hzone, crossingsBetween]
      split <;> rfl

/-- In a run of ticks every vehicle reports its place once a tick, and the crossings of a zone it
reports are the changes of membership from place to place. -/
theorem crossings_of_places (hlen : ∀ a b, 0 ≤ geometry.segmentMetres a b)
    (hvehicles : ∀ v ∈ vehicles, v.Moving) (hids : (vehicles.map SimVehicle.vehicleId).Nodup)
    {ts : List (K × String)} (hts : ∀ t ∈ ts, 0 ≤ t.1) :
    ∃ turns, ∀ fuel, turns ≤ fuel → ∃ vehicles' frames,
      ticks geometry fuel ts vehicles = some (vehicles', frames) ∧
      ∀ v ∈ vehicles, ∀ zone ∈ simZones,
        (placesOf v.vehicleId frames).length = ts.length ∧
        crossingsOf v.vehicleId zone.id frames =
          (observeAll (decide (zone.id ∈ v.inside))
            (observed v.vehicleId zone frames)).changes.map crossingTo := by
  obtain ⟨vehicles', frames, turns, hrun⟩ := ticks_return hlen hts hvehicles
  refine ⟨turns, fun fuel hfuel => ⟨vehicles', frames, hrun fuel hfuel, fun v hv zone hzone => ?_⟩⟩
  exact ticks_crossings hids (hrun fuel hfuel) hv hzone

/-! ### A crossing -/

/-- A vehicle that goes through downtown from west to east and back. -/
def crossTown : SimVehicle ℚ :=
  ⟨"VAN-014", "On_Delivery", 0.02, [(-122.35, 47.606), (-122.31, 47.606)], 0, 0, -122.35, 47.606, 0,
    ∅⟩

/-- Two seconds, in two ticks: into downtown and out on the other side. -/
def trip : List (ℚ × String) := [(1000, "t"), (1000, "u")]

/-- The vehicle after the trip and the frames of the trip. -/
def tripRun : List (SimVehicle ℚ) × List (SimFrame ℚ) :=
  (ticks taxicab 2 trip [crossTown]).getD ([], [])

theorem crossTown_moving : ∀ v ∈ [crossTown], v.Moving := by
  intro v hv
  obtain rfl := List.mem_singleton.1 hv
  exact ⟨⟨by decide, by decide +kernel, by decide +kernel⟩, by decide +kernel⟩

theorem trip_nonneg : ∀ t ∈ trip, 0 ≤ t.1 := by decide +kernel

theorem ticks_trip {fuel : Nat} (hfuel : 2 ≤ fuel) :
    ticks taxicab fuel trip [crossTown] = some tripRun := by
  have hreturns : (ticks taxicab 2 trip [crossTown]).isSome = true := by decide +kernel
  obtain ⟨run, hrun⟩ := Option.isSome_iff_exists.1 hreturns
  rw [tripRun, hrun]
  exact ticks_mono hrun hfuel

/-- The trip is reported in two positions, and as an enter and an exit of downtown. -/
theorem trip_crossings : (placesOf "VAN-014" tripRun.2).length = 2 ∧
    ∀ zone ∈ simZones (K := ℚ), crossingsOf "VAN-014" zone.id tripRun.2 =
      if zone.id = "zone-dt" then [.enter, .exit] else [] := by
  obtain ⟨turns, hturns⟩ := crossings_of_places taxicab_nonneg crossTown_moving
    (List.nodup_singleton _) trip_nonneg
  obtain ⟨vehicles', frames, hrun, hcrossings⟩ := hturns (max turns 2) (le_max_left _ _)
  obtain rfl : tripRun.2 = frames :=
    congrArg Prod.snd (Option.some.inj ((ticks_trip (le_max_right _ _)).symm.trans hrun))
  have hzones := hcrossings crossTown List.mem_cons_self
  refine ⟨(hzones _ List.mem_cons_self).1, fun zone hzone => ?_⟩
  rw [← show crossTown.vehicleId = "VAN-014" from rfl, (hzones zone hzone).2]
  revert zone
  decide +kernel

end Fleet

end FleetCommand.Dashboard
