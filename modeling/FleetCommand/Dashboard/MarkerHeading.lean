import FleetCommand.Lib.Runs
import FleetCommand.Lib.TruncatedRemainder
import Mathlib.Data.Rat.Floor

/-!
# The heading of a marker

`lerpAngle` turns the displayed heading of a marker toward the heading last received. The displayed
heading is not reduced modulo 360, and the remainder in `lerpAngle` has the sign of its dividend, so
a marker that has turned far enough one way is more than 540 degrees ahead of a target and turns the
long way round. Over any run every frame turns along a shortest arc exactly when no frame finds the
marker so (`turns_shortest_iff`); in particular while the displayed heading is at most 540
(`turns_shortest_of_le`).
-/

set_option autoImplicit false

namespace FleetCommand.Dashboard

open Runs TruncatedRemainder

/-- Shortest-path angular interpolation (degrees). -/
def lerpAngle (a b t : ℚ) : ℚ :=
  let d := rem (b - a + 540) 360 - 180
  a + d * t

/-- The headings of a map entry: the one displayed and the one it turns to. -/
structure MarkerEntry where
  headingCurr : ℚ
  headingTarget : ℚ

/-- A vehicle seen for the first time. -/
def MarkerEntry.new (heading : ℚ) : MarkerEntry := ⟨heading, heading⟩

/-- A vehicle seen again, or an animation frame. -/
inductive MarkerEvent where
  | setTarget (heading : ℚ)
  | frame (t : ℚ)

/-- A compass heading. -/
def IsHeading (h : ℚ) : Prop := 0 ≤ h ∧ h < 360

instance (h : ℚ) : Decidable (IsHeading h) := inferInstanceAs (Decidable (_ ∧ _))

/-- Targets are compass headings and interpolation factors are in the unit interval. -/
def MarkerEvent.Valid : MarkerEvent → Prop
  | .setTarget heading => IsHeading heading
  | .frame t => 0 ≤ t ∧ t ≤ 1

instance : DecidablePred MarkerEvent.Valid
  | .setTarget heading => inferInstanceAs (Decidable (IsHeading heading))
  | .frame _ => inferInstanceAs (Decidable (_ ∧ _))

/-- One event of a marker. -/
def MarkerEntry.step (e : MarkerEntry) : MarkerEvent → MarkerEntry
  | .setTarget heading => { e with headingTarget := heading }
  | .frame t => { e with headingCurr := lerpAngle e.headingCurr e.headingTarget t }

/-- From `a` to `a'` the fraction `t` of a shortest arc to `b` is turned. -/
structure TurnsShortest (a b t a' : ℚ) : Prop where
  bounded : |a' - a| ≤ 180 * t
  shortest : ∃ d, IsLeastResidue 360 (b - a) d ∧ a' = a + d * t
  arrives : t = 1 → ∃ k : ℤ, a' = b + 360 * k

/-- The frame turns along a shortest arc. -/
def FrameTurnsShortest (e : MarkerEntry) : MarkerEvent → Prop
  | .setTarget _ => True
  | .frame t => TurnsShortest e.headingCurr e.headingTarget t
      (lerpAngle e.headingCurr e.headingTarget t)

/-- The frame turns nothing, or finds the marker at most 540 degrees ahead of its target, or whole
turns beyond that. -/
def NotOverwound (e : MarkerEntry) : MarkerEvent → Prop
  | .setTarget _ => True
  | .frame t => t = 0 ∨ e.headingCurr - e.headingTarget ≤ 540 ∨
      ∃ k : ℤ, e.headingCurr - e.headingTarget = 540 + 360 * k

/-! ## One frame -/

/-- The arc `lerpAngle` turns along leads to the target. -/
theorem arc_congr (a b : ℚ) : ∃ k : ℤ, rem (b - a + 540) 360 - 180 = b - a + 360 * k := by
  obtain ⟨k, hk⟩ := rem_congr (b - a + 540) 360
  refine ⟨k + 1, ?_⟩
  rw [hk]
  push_cast
  ring

theorem abs_arc_le_iff (a b : ℚ) :
    |rem (b - a + 540) 360 - 180| ≤ 180 ↔ a - b ≤ 540 ∨ ∃ k : ℤ, a - b = 540 + 360 * k := by
  have hhalf : (180 : ℚ) = 360 / 2 := by norm_num
  rw [hhalf, abs_rem_sub_half_le_iff (by norm_num)]
  apply or_congr
  · constructor <;> intro h <;> linarith
  · constructor
    · rintro ⟨k, hk⟩
      exact ⟨-k, by push_cast; linarith⟩
    · rintro ⟨k, hk⟩
      exact ⟨-k, by push_cast; linarith⟩

theorem turnsShortest_iff {a b t : ℚ} (ht : 0 ≤ t) :
    TurnsShortest a b t (lerpAngle a b t) ↔
      t = 0 ∨ a - b ≤ 540 ∨ ∃ k : ℤ, a - b = 540 + 360 * k := by
  rw [← abs_arc_le_iff]
  constructor
  · intro h
    rcases ht.eq_or_lt with rfl | hpos
    · exact Or.inl rfl
    · have hturn := h.bounded
      rw [lerpAngle, add_sub_cancel_left, abs_mul, abs_of_pos hpos] at hturn
      exact Or.inr (le_of_mul_le_mul_right hturn hpos)
  · rintro (rfl | harc)
    · obtain ⟨d, hd⟩ := exists_isLeastResidue (n := 360) (by norm_num) (b - a)
      refine ⟨?_, ⟨d, hd, ?_⟩, fun h => absurd h (by norm_num)⟩ <;> simp [lerpAngle]
    · obtain ⟨k, hk⟩ := arc_congr a b
      refine ⟨?_, ⟨_, (isLeastResidue_iff (by norm_num)).2 ⟨arc_congr a b, ?_⟩, rfl⟩, ?_⟩
      · rw [lerpAngle, add_sub_cancel_left, abs_mul, abs_of_nonneg ht]
        exact mul_le_mul_of_nonneg_right harc ht
      · exact harc.trans (by norm_num)
      · rintro rfl
        refine ⟨k, ?_⟩
        rw [lerpAngle, hk]
        ring

theorem frameTurnsShortest_iff (e : MarkerEntry) {event : MarkerEvent} (h : event.Valid) :
    FrameTurnsShortest e event ↔ NotOverwound e event := by
  cases event with
  | setTarget heading => exact Iff.rfl
  | frame t => exact turnsShortest_iff h.1

/-! ## Runs -/

/-- A marker displayed at no more than 540 degrees is not overwound. -/
theorem turns_shortest_of_le {first : ℚ} (hfirst : IsHeading first) {events : List MarkerEvent}
    (hvalid : ∀ event ∈ events, event.Valid)
    (hle : AllSteps MarkerEntry.step (fun e _ => e.headingCurr ≤ 540) (.new first) events) :
    AllSteps MarkerEntry.step FrameTurnsShortest (.new first) events := by
  have hevents : AllSteps MarkerEntry.step (fun _ event => event.Valid) (.new first) events :=
    allSteps_of_mem hvalid _
  have htargets : Always MarkerEntry.step (fun e => 0 ≤ e.headingTarget) (.new first) events := by
    refine always_of_allSteps (I := fun e => 0 ≤ e.headingTarget) (fun e event h hevent => ?_)
      hfirst.1 hevents
    cases event with
    | setTarget heading => exact hevent.1
    | frame t => exact h
  refine AllSteps.imp_of_always (fun e event htarget h => ?_) htargets (hle.and hevents)
  rw [frameTurnsShortest_iff e h.2]
  cases event with
  | setTarget heading => trivial
  | frame t => exact Or.inr (Or.inl (by linarith [h.1]))

/-- Over any run every frame turns along a shortest arc exactly when no frame that turns finds the
marker more than 540 degrees ahead of its target, except by whole turns. -/
theorem turns_shortest_iff (first : ℚ) (events : List MarkerEvent)
    (hvalid : ∀ event ∈ events, event.Valid) :
    AllSteps MarkerEntry.step FrameTurnsShortest (.new first) events ↔
      AllSteps MarkerEntry.step NotOverwound (.new first) events := by
  exact allSteps_congr_of (I := fun _ => True) (fun _ _ _ _ => trivial)
    (fun e _ _ hevent => frameTurnsShortest_iff e hevent) trivial (allSteps_of_mem hvalid _)

/-- A vehicle that circles to the right: a new target a little less than half a turn ahead before
every frame of the animation. -/
def circling : List MarkerEvent :=
  [170, 197, 224, 251, 278, 305, 332, 359, 26, 53, 81, 108, 135, 162, 189, 216, 243, 270, 297, 324,
    352, 19].flatMap fun heading => [.setTarget heading, .frame (4 / 25)]

theorem turns_shortest_iff_circling :
    AllSteps MarkerEntry.step FrameTurnsShortest (.new 0) circling ↔
      AllSteps MarkerEntry.step NotOverwound (.new 0) circling :=
  turns_shortest_iff 0 circling (by decide +kernel)

/-- The last frame turns the marker to the left by more than 0.16 of half a turn. -/
theorem circling_turnsBack : ¬ ∀ first events, IsHeading first →
    (∀ event ∈ events, MarkerEvent.Valid event) →
      AllSteps MarkerEntry.step FrameTurnsShortest (.new first) events := by
  intro h
  have hsteps := h 0 circling (by decide) (by decide +kernel)
  rw [allSteps_iff_splits] at hsteps
  have hlast : TurnsShortest _ _ (4 / 25) _ :=
    hsteps (circling.take 43) (.frame (4 / 25)) [] rfl
  exact absurd hlast.bounded (by decide +kernel)

end FleetCommand.Dashboard
