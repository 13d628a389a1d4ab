import FleetCommand.Dashboard.FleetSimulation
import Mathlib.Algebra.BigOperators.Intervals
import Mathlib.Data.Finset.Max
import Mathlib.Data.Rat.Floor
import Mathlib.Tactic.FieldSimp
import Mathlib.Tactic.Linarith
import Mathlib.Tactic.Ring

/-!
# The advance of a simulated vehicle

The loop of `FleetSimulation.tick` that advances a vehicle. A turn covers the metres it subtracts
(`turn_advanced`), and the lengths covered by turns add up (`Advanced.trans`); a turn either is the
last or leaves a whole segment to cover, so the loop ends (`loop_ends`). What it ends in is the place
the metres of the tick along the cyclic route from the start (`advance_conserves`), and the tick of a
fleet ends (`tick_advances`).
-/

set_option autoImplicit false

namespace FleetCommand.Dashboard

open WhileLoop

variable {K : Type} [Field K] [LinearOrder K] [IsStrictOrderedRing K]
variable (geometry : SegmentGeometry K)

/-- The length the loop uses for the segment that starts at an index, counted around the route. -/
def routeMetres (route : List (K × K)) (i : Nat) : K :=
  geometry.segLen (routeAt route (i % route.length)) (routeAt route ((i + 1) % route.length))

/-- The length from the fraction `f` of segment `i` to the fraction `f'` of the segment that starts
`passed` positions on. -/
def metresBetween (route : List (K × K)) (i : Nat) (f : K) (passed : Nat) (f' : K) : K :=
  ∑ j ∈ Finset.range passed, routeMetres geometry route (i + j) +
    f' * routeMetres geometry route (i + passed) - f * routeMetres geometry route i

/-- The vehicle's place is on its route. -/
structure SimVehicle.OnRoute (v : SimVehicle K) : Prop where
  index : v.segIndex < v.route.length
  frac_nonneg : 0 ≤ v.segFrac
  frac_lt : v.segFrac < 1

/-- `v'` is where `v` is after so many metres along its route. -/
structure SimVehicle.Advanced (v : SimVehicle K) (metres : K) (v' : SimVehicle K) : Prop where
  onRoute : v'.OnRoute
  route : v'.route = v.route
  speed : v'.speed = v.speed
  metres : ∃ passed, v'.segIndex = (v.segIndex + passed) % v.route.length ∧
    metresBetween geometry v.route v.segIndex v.segFrac passed v'.segFrac = metres

/-! ## Lengths along a route -/

section Lengths

variable {route : List (K × K)}

omit [IsStrictOrderedRing K] in
theorem routeMetres_mod_add (i j : Nat) :
    routeMetres geometry route (i % route.length + j) = routeMetres geometry route (i + j) := by
  rw [routeMetres, routeMetres, Nat.mod_add_mod, Nat.add_assoc, Nat.mod_add_mod, Nat.add_assoc]

omit [IsStrictOrderedRing K] in
theorem routeMetres_mod (i : Nat) :
    routeMetres geometry route (i % route.length) = routeMetres geometry route i :=
  routeMetres_mod_add geometry i 0

omit [IsStrictOrderedRing K] in
theorem metresBetween_add (i passed passed' : Nat) (f f' f'' : K) :
    metresBetween geometry route i f passed f' +
        metresBetween geometry route ((i + passed) % route.length) f' passed' f'' =
      metresBetween geometry route i f (passed + passed') f'' := by
  simp only [metresBetween, routeMetres_mod_add, routeMetres_mod, Finset.sum_range_add,
    Nat.add_assoc]
  ring

theorem segLen_pos (hlen : ∀ a b, 0 ≤ geometry.segmentMetres a b) (a b : K × K) :
    0 < geometry.segLen a b := by
  rw [SegmentGeometry.segLen]
  split
  next => exact one_pos
  next hne => exact lt_of_le_of_ne (hlen a b) (Ne.symm hne)

/-- A route has a shortest segment. -/
theorem exists_le_routeMetres (hlen : ∀ a b, 0 ≤ geometry.segmentMetres a b)
    (hroute : 0 < route.length) : ∃ m : K, 0 < m ∧ ∀ i, m ≤ routeMetres geometry route i := by
  obtain ⟨k, -, hk⟩ := Finset.exists_min_image (Finset.range route.length)
    (routeMetres geometry route) ⟨0, Finset.mem_range.2 hroute⟩
  refine ⟨routeMetres geometry route k, segLen_pos geometry hlen _ _, fun i => ?_⟩
  rw [← routeMetres_mod geometry i]
  exact hk _ (Finset.mem_range.2 (Nat.mod_lt i hroute))

end Lengths

/-! ## One turn -/

namespace SimVehicle

variable {geometry} {v v' v'' : SimVehicle K} {remaining remaining' metres metres' : K}

omit [IsStrictOrderedRing K] in
theorem OnRoute.segLen_eq (h : v.OnRoute) :
    geometry.segLen v.segStart v.segEnd = routeMetres geometry v.route v.segIndex := by
  rw [routeMetres, Nat.mod_eq_of_lt h.index]
  rfl

omit [IsStrictOrderedRing K] in
/-- What a turn does, with the length of the vehicle's segment named. -/
theorem turn_cases (h : turn geometry (v, remaining) = some (v', remaining')) (hv : v.OnRoute) :
    ∃ segLen, segLen = routeMetres geometry v.route v.segIndex ∧ 0 < remaining ∧
      v'.route = v.route ∧ v'.speed = v.speed ∧
      ((remaining < segLen * (1 - v.segFrac) ∧ v'.segIndex = v.segIndex ∧
          v'.segFrac = v.segFrac + remaining / segLen ∧ remaining' = 0) ∨
        (segLen * (1 - v.segFrac) ≤ remaining ∧
          v'.segIndex = (v.segIndex + 1) % v.route.length ∧ v'.segFrac = 0 ∧
          remaining' = remaining - segLen * (1 - v.segFrac))) := by
  rw [turn] at h
  dsimp only at h
  split at h
  next hpos =>
    rw [hv.segLen_eq] at h
    refine ⟨_, rfl, hpos, ?_⟩
    split at h
    next hlt =>
      obtain ⟨rfl, rfl⟩ := Prod.mk.inj (Option.some.inj h)
      exact ⟨rfl, rfl, Or.inl ⟨hlt, rfl, rfl, rfl⟩⟩
    next hle =>
      obtain ⟨rfl, rfl⟩ := Prod.mk.inj (Option.some.inj h)
      exact ⟨rfl, rfl, Or.inr ⟨not_lt.1 hle, rfl, rfl, rfl⟩⟩
  next => exact absurd h (by simp)

omit [IsStrictOrderedRing K] in
theorem Advanced.refl (hv : v.OnRoute) : Advanced geometry v 0 v where
  onRoute := hv
  route := rfl
  speed := rfl
  metres := ⟨0, (Nat.mod_eq_of_lt hv.index).symm, by simp [metresBetween]⟩

omit [IsStrictOrderedRing K] in
/-- Lengths add up. -/
theorem Advanced.trans (h : Advanced geometry v metres v')
    (h' : Advanced geometry v' metres' v'') : Advanced geometry v (metres + metres') v'' := by
  obtain ⟨passed, hindex, hmetres⟩ := h.metres
  obtain ⟨passed', hindex', hmetres'⟩ := h'.metres
  rw [h.route, hindex] at hindex' hmetres'
  refine ⟨h'.onRoute, h'.route.trans h.route, h'.speed.trans h.speed, passed + passed', ?_, ?_⟩
  · rw [hindex', Nat.mod_add_mod, Nat.add_assoc]
  · rw [← hmetres, ← hmetres', metresBetween_add]

/-- A turn covers the metres it subtracts. -/
theorem turn_advanced (hlen : ∀ a b, 0 ≤ geometry.segmentMetres a b) (hv : v.OnRoute)
    (h : turn geometry (v, remaining) = some (v', remaining')) :
    Advanced geometry v (remaining - remaining') v' ∧ 0 ≤ remaining' := by
  obtain ⟨segLen, hsegLen, hpos, hroute, hspeed, hcase⟩ := turn_cases h hv
  have hsegLen_pos : 0 < segLen := hsegLen ▸ segLen_pos geometry hlen _ _
  rcases hcase with ⟨hlt, hindex, hfrac, rfl⟩ | ⟨hle, hindex, hfrac, rfl⟩
  · -- the turn ends within the segment
    have hshare : remaining / segLen < 1 - v.segFrac := by
      rw [div_lt_iff₀ hsegLen_pos, mul_comm]
      exact hlt
    refine ⟨⟨⟨?_, ?_, ?_⟩, hroute, hspeed, 0, ?_, ?_⟩, le_refl 0⟩
    · rw [hindex, hroute]
      exact hv.index
    · rw [hfrac]
      exact add_nonneg hv.frac_nonneg (div_nonneg hpos.le hsegLen_pos.le)
    · rw [hfrac]
      linarith
    · rw [hindex, Nat.add_zero, Nat.mod_eq_of_lt hv.index]
    · rw [metresBetween, Finset.range_zero, Finset.sum_empty, Nat.add_zero, ← hsegLen, hfrac]
      field_simp
      ring
  · -- the turn goes on to the next segment
    refine ⟨⟨⟨?_, hfrac.ge, ?_⟩, hroute, hspeed, 1, hindex, ?_⟩, sub_nonneg.2 hle⟩
    · rw [hindex, hroute]
      exact Nat.mod_lt _ (Nat.zero_lt_of_lt hv.index)
    · rw [hfrac]
      exact one_pos
    · rw [metresBetween, Finset.sum_range_one, Nat.add_zero, ← hsegLen, hfrac]
      ring

/-! ## The loop -/

/-- A bound on the turns the loop still makes, on a route whose segments are at least `m` long: one
for every `m` metres, one where it does not start at a segment's start, and the last. -/
def turnsLeft [FloorRing K] (m : K) : SimVehicle K × K → Nat
  | (v, remaining) =>
    if remaining ≤ 0 then 0 else ⌈remaining / m⌉₊ + if 0 < v.segFrac then 2 else 1

theorem turnsLeft_lt [FloorRing K] {m : K} (hm : 0 < m)
    (hlen : ∀ i, m ≤ routeMetres geometry v.route i) (hv : v.OnRoute)
    (h : turn geometry (v, remaining) = some (v', remaining')) :
    turnsLeft m (v', remaining') < turnsLeft m (v, remaining) := by
  obtain ⟨segLen, rfl, hpos, -, -, hcase⟩ := turn_cases h hv
  rw [turnsLeft, turnsLeft, if_neg hpos.not_ge]
  by_cases hend : remaining' ≤ 0
  · rw [if_pos hend]
    split <;> omega
  rcases hcase with ⟨-, -, -, rfl⟩ | ⟨-, -, hfrac, rfl⟩
  · exact absurd (le_refl 0) hend
  have hsegLen := hlen v.segIndex
  generalize routeMetres geometry v.route v.segIndex = segLen at hend hsegLen
  rw [if_neg hend, if_neg hfrac.le.not_gt]
  by_cases hstart : 0 < v.segFrac
  · -- the rest of the first segment, however short
    rw [if_pos hstart]
    have hrest : 0 ≤ segLen * (1 - v.segFrac) :=
      mul_nonneg (hm.le.trans hsegLen) (sub_nonneg.2 hv.frac_lt.le)
    have hceil : ⌈(remaining - segLen * (1 - v.segFrac)) / m⌉₊ ≤ ⌈remaining / m⌉₊ :=
      Nat.ceil_mono (div_le_div_of_nonneg_right (sub_le_self _ hrest) hm.le)
    omega
  · -- a whole segment
    rw [if_neg hstart]
    have hzero : v.segFrac = 0 := le_antisymm (not_lt.1 hstart) hv.frac_nonneg
    have hless : (remaining - segLen * (1 - v.segFrac)) / m ≤ remaining / m - 1 := by
      rw [hzero, sub_zero, mul_one, sub_div]
      exact sub_le_sub_left ((one_le_div hm).2 hsegLen) _
    have hceil : ⌈(remaining - segLen * (1 - v.segFrac)) / m⌉₊ ≤ ⌈remaining / m⌉₊ - 1 := by
      rw [← Nat.ceil_sub_one]
      exact Nat.ceil_mono hless
    have hone : 0 < ⌈remaining / m⌉₊ := Nat.ceil_pos.2 (div_pos hpos hm)
    omega

/-- The loop ends, and the vehicle has covered the metres it was given. -/
theorem loop_ends [FloorRing K] (hlen : ∀ a b, 0 ≤ geometry.segmentMetres a b) (hv : v.OnRoute)
    (hmetres : 0 ≤ metres) :
    ∃ v', Ends (turn geometry) (v, metres) (v', 0) ∧ Advanced geometry v metres v' := by
  obtain ⟨m, hm, hroute⟩ :=
    exists_le_routeMetres geometry hlen (Nat.zero_lt_of_lt hv.index)
  have hturn : ∀ s s' : SimVehicle K × K,
      Advanced geometry v (metres - s.2) s.1 ∧ 0 ≤ s.2 → turn geometry s = some s' →
      (Advanced geometry v (metres - s'.2) s'.1 ∧ 0 ≤ s'.2) ∧ turnsLeft m s' < turnsLeft m s := by
    rintro ⟨w, r⟩ ⟨w', r'⟩ ⟨hw, -⟩ h
    obtain ⟨hstep, hr'⟩ := turn_advanced hlen hw.onRoute h
    have hsum : metres - r + (r - r') = metres - r' := by ring
    exact ⟨⟨hsum ▸ hw.trans hstep, hr'⟩,
      turnsLeft_lt hm (by rw [hw.route]; exact hroute) hw.onRoute h⟩
  have hstart : Advanced geometry v (metres - metres) v := by
    rw [sub_self]
    exact .refl hv
  obtain ⟨⟨v', remaining⟩, hends, ⟨hadvanced, hnonneg⟩, hstop⟩ :=
    ends_of_measure (turnsLeft m) hturn (s := (v, metres)) ⟨hstart, hmetres⟩
  -- where the guard fails nothing remains
  have hzero : remaining = 0 := by
    by_contra hne
    rw [turn, if_pos (lt_of_le_of_ne hnonneg (Ne.symm hne))] at hstop
    dsimp only at hstop
    split at hstop <;> exact absurd hstop (by simp)
  subst hzero
  rw [sub_zero] at hadvanced
  exact ⟨v', hends, hadvanced⟩

/-- The loop of a tick ends on the route, the metres of the tick along it from the start. -/
theorem advance_conserves [FloorRing K] (hlen : ∀ a b, 0 ≤ geometry.segmentMetres a b)
    (hv : v.OnRoute) (hspeed : 0 < v.speed) {dtMs : K} (hdt : 0 ≤ dtMs) :
    ∃ v', Ends (turn geometry) (v, v.tickMetres dtMs) (v', 0) ∧
      Advanced geometry v (v.speed * (dtMs / 1000)) v' :=
  loop_ends hlen hv (mul_nonneg hspeed.le (div_nonneg hdt (by norm_num)))

/-- A route with a repeated position, and a vehicle that goes round it more than once in a tick. -/
def laps : SimVehicle ℚ :=
  ⟨"VAN-014", "On_Delivery", 10, [(0, 0), (3, 0), (3, 0)], 0, 1 / 2, 0, 0, 0, ∅⟩

/-- Distances along the axes. -/
def taxicab : SegmentGeometry ℚ where
  segmentMetres a b := |b.1 - a.1| + |b.2 - a.2|
  bearing _ _ := 0

example : (advance taxicab 10 1000 laps).map (fun v => (v.segIndex, v.segFrac, v.lng)) =
    some (2, 1 / 6, 5 / 2) := by
  decide +kernel

theorem advance_conserves_laps :
    ∃ v', Ends (turn taxicab) (laps, laps.tickMetres 1000) (v', 0) ∧
      Advanced taxicab laps (laps.speed * (1000 / 1000)) v' :=
  advance_conserves (fun _ _ => add_nonneg (abs_nonneg _) (abs_nonneg _))
    ⟨by decide, by decide +kernel, by decide +kernel⟩ (by decide +kernel) (by decide +kernel)

/-! ## A tick of the fleet -/

omit [IsStrictOrderedRing K] in
/-- Where a vehicle is on its route does not depend on what it reports. -/
theorem Advanced.of_same (h : Advanced geometry v metres v') (hroute : v''.route = v'.route)
    (hspeed : v''.speed = v'.speed) (hindex : v''.segIndex = v'.segIndex)
    (hfrac : v''.segFrac = v'.segFrac) : Advanced geometry v metres v'' where
  onRoute :=
    ⟨by rw [hindex, hroute]; exact h.onRoute.index, by rw [hfrac]; exact h.onRoute.frac_nonneg,
      by rw [hfrac]; exact h.onRoute.frac_lt⟩
  route := hroute.trans h.route
  speed := hspeed.trans h.speed
  metres := by
    rw [hindex, hfrac]
    exact h.metres

omit [IsStrictOrderedRing K] in
theorem meetZone_fst (now : String) (v : SimVehicle K) (zone : SimZone K) :
    ∃ inside, (v.meetZone now zone).1 = { v with inside := inside } := by
  rw [meetZone]
  split
  · exact ⟨_, rfl⟩
  · split
    · exact ⟨_, rfl⟩
    · exact ⟨v.inside, rfl⟩

omit [IsStrictOrderedRing K] in
/-- The zones change nothing but the zones the vehicle is in. -/
theorem meetZones_fst (now : String) (zones : List (SimZone K)) (v : SimVehicle K) :
    ∃ inside, (v.meetZones now zones).1 = { v with inside := inside } := by
  induction zones generalizing v with
  | nil => exact ⟨v.inside, rfl⟩
  | cons zone zones ih =>
    obtain ⟨inside, hzone⟩ := meetZone_fst now v zone
    obtain ⟨inside', hzones⟩ := ih (v.meetZone now zone).1
    refine ⟨inside', hzones.trans ?_⟩
    rw [hzone]

/-- A vehicle's loop has a result, given enough turns. -/
theorem advance_returns [FloorRing K] (hlen : ∀ a b, 0 ≤ geometry.segmentMetres a b)
    (hv : v.OnRoute) {dtMs : K} (hmetres : 0 ≤ v.tickMetres dtMs) :
    ∃ v' turns, (∀ fuel, turns ≤ fuel → advance geometry fuel dtMs v = some v') ∧
      Advanced geometry v (v.tickMetres dtMs) v' := by
  obtain ⟨v', ⟨turns, hexec⟩, h⟩ := loop_ends hlen hv hmetres
  refine ⟨v'.place, turns, fun fuel hfuel => ?_, h.of_same rfl rfl rfl rfl⟩
  rw [advance, exec_mono hexec hfuel, Option.map_some]

end SimVehicle

/-- A tick of a fleet on its routes ends, with every vehicle the metres of the tick further along its
route, and still on it. -/
theorem tick_advances [FloorRing K] {geometry : SegmentGeometry K}
    (hlen : ∀ a b, 0 ≤ geometry.segmentMetres a b) {dtMs : K} (hdt : 0 ≤ dtMs) (now : String)
    {vehicles : List (SimVehicle K)} (hvehicles : ∀ v ∈ vehicles, v.OnRoute ∧ 0 < v.speed) :
    ∃ vehicles' frames turns,
      (∀ fuel, turns ≤ fuel → tick geometry fuel dtMs now vehicles = some (vehicles', frames)) ∧
      List.Forall₂ (fun v v' => v.Advanced geometry (v.tickMetres dtMs) v') vehicles vehicles' := by
  induction vehicles with
  | nil => exact ⟨[], [], 0, fun _ _ => rfl, .nil⟩
  | cons v vehicles ih =>
    obtain ⟨hv, hspeed⟩ := hvehicles v List.mem_cons_self
    have hmetres : 0 ≤ v.tickMetres dtMs :=
      mul_nonneg hspeed.le (div_nonneg hdt (by norm_num))
    obtain ⟨v', turns, hadvance, h⟩ := SimVehicle.advance_returns hlen hv hmetres
    obtain ⟨vehicles', frames, turns', htick, hrest⟩ :=
      ih fun w hw => hvehicles w (List.mem_cons_of_mem v hw)
    obtain ⟨inside, hzones⟩ := SimVehicle.meetZones_fst now simZones v'
    have hreport : v.Advanced geometry (v.tickMetres dtMs) (v'.meetZones now simZones).1 := by
      rw [hzones]
      exact h.of_same rfl rfl rfl rfl
    refine ⟨(v'.report now).1 :: vehicles', (v'.report now).2 ++ frames, max turns turns',
      fun fuel hfuel => ?_, .cons hreport hrest⟩
    rw [tick, hadvance fuel ((Nat.le_max_left _ _).trans hfuel),
      htick fuel ((Nat.le_max_right _ _).trans hfuel)]
    rfl

end FleetCommand.Dashboard
