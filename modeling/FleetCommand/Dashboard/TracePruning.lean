import FleetCommand.Dashboard.FleetState
import FleetCommand.Lib.Window

/-!
# Pruning a trace at every event

The live fleet prunes a trace at every event of its vehicle, by age and to the last 2000 pings.
Where the pings of a vehicle arrive in the order of their times this loses no more than pruning the
full history once (`trace_pruned_once`): what is old is then at the front, and the two cuts do not
get in each other's way (`Window.filter_rtake`).
-/

set_option autoImplicit false

namespace FleetCommand.Dashboard

open Runs Window

/-- The times are finite and do not go back. -/
structure InOrder (dateParse : String → Option ℤ) (pings : List TracePing) : Prop where
  finite : ∀ p ∈ pings, ∃ t, toEpoch dateParse p.timestamp = .fin t
  ordered : pings.Pairwise fun p q =>
    epochOf dateParse p.timestamp ≤ epochOf dateParse q.timestamp

variable {dateParse : String → Option ℤ}

theorem bounded_eq_rtake (pings : List TracePing) (now : ℚ) :
    bounded dateParse pings now =
      (pings.filter (keeps dateParse (now - traceWindowMs))).rtake 2000 := by
  rw [bounded]
  split
  next => rfl
  next hshort => exact (rtake_of_length_le (not_lt.1 hshort)).symm

theorem keeps_iff {p : TracePing} {t : ℚ} (h : toEpoch dateParse p.timestamp = .fin t) (c : ℚ) :
    keeps dateParse c p = true ↔ c ≤ epochOf dateParse p.timestamp := by
  rw [keeps, epochOf, h, decide_eq_true_iff]

/-- In order of time the old pings come first. -/
theorem InOrder.keeps {pings : List TracePing} (h : InOrder dateParse pings) (c : ℚ) :
    pings.Pairwise fun p q => keeps dateParse c p = true → keeps dateParse c q = true := by
  refine List.Pairwise.imp_of_mem (fun {p q} hp hq hle hkept => ?_) h.ordered
  obtain ⟨t, ht⟩ := h.finite p hp
  obtain ⟨u, hu⟩ := h.finite q hq
  exact (keeps_iff hu c).2 (((keeps_iff ht c).1 hkept).trans hle)

theorem InOrder.sublist {pings pings' : List TracePing} (h : InOrder dateParse pings)
    (hsub : pings'.Sublist pings) : InOrder dateParse pings' where
  finite p hp := h.finite p (hsub.subset hp)
  ordered := h.ordered.sublist hsub

/-- Pruning what was pruned before, with a ping more, is pruning the whole. -/
theorem bounded_bounded {pings : List TracePing} (h : InOrder dateParse pings) {c c' : ℚ}
    (hle : c ≤ c') (p : TracePing) :
    bounded dateParse (bounded dateParse pings c ++ [p]) c' =
      bounded dateParse (pings ++ [p]) c' := by
  have hkept := h.sublist (List.filter_sublist (p := keeps dateParse (c - traceWindowMs)))
  rw [bounded_eq_rtake, bounded_eq_rtake, bounded_eq_rtake, List.filter_append, List.filter_append,
    filter_rtake (hkept.keeps _), filter_keeps_keeps (sub_le_sub_right hle _), rtake_rtake_append]

/-- A trace in order is the full history, or what pruning it at some earlier time has left. -/
def Pruned (dateParse : String → Option ℤ) (s : Observed) : Prop :=
  ∀ v, InOrder dateParse (s.history v) → s.fleet.trace v = s.history v ∨
    ∃ c, c ≤ s.clock ∧ s.fleet.trace v = bounded dateParse (s.history v) c

theorem history_step_self (s : Observed) (e : Received) :
    (s.step dateParse e).history e.event.vehicleId =
      s.history e.event.vehicleId ++ [e.event.ping] :=
  if_pos rfl

/-- After an event the trace of its vehicle is what pruning the history leaves. -/
theorem Pruned.trace_step {s : Observed} (h : Pruned dateParse s) {e : Received}
    (hclock : ClockKept s e)
    (horder : InOrder dateParse ((s.step dateParse e).history e.event.vehicleId)) :
    (s.step dateParse e).fleet.trace e.event.vehicleId =
      bounded dateParse ((s.step dateParse e).history e.event.vehicleId) e.now := by
  rw [history_step_self] at horder ⊢
  have hbefore := horder.sublist (List.sublist_append_left _ [e.event.ping])
  rw [Observed.step, trace_onPosition, if_pos rfl]
  rcases h _ hbefore with hsame | ⟨c, hc, hpruned⟩
  · rw [hsame]
  · rw [hpruned]
    exact bounded_bounded hbefore (hc.trans hclock) _

theorem Pruned.step {s : Observed} (h : Pruned dateParse s) {e : Received}
    (hclock : ClockKept s e) : Pruned dateParse (s.step dateParse e) := by
  intro v horder
  by_cases hv : v = e.event.vehicleId
  · subst hv
    exact .inr ⟨e.now, le_rfl, h.trace_step hclock horder⟩
  · -- the trace of another vehicle stays
    have hhistory : (s.step dateParse e).history v = s.history v := if_neg hv
    rw [hhistory] at horder ⊢
    rw [Observed.step, trace_onPosition, if_neg hv]
    obtain hnil | ⟨c, hc, hpruned⟩ := h v horder
    · exact .inl hnil
    · exact .inr ⟨c, hc.trans hclock, hpruned⟩

variable (dateParse)

/-- With a clock that does not go back, after every event the trace of its vehicle is what pruning
the full history of the vehicle once, at that event, leaves, when the times in the history are
finite and do not go back. -/
theorem trace_pruned_once (sin : ℚ → ℚ) (now : ℚ) (events : List Received) (e : Received)
    (hclock : AllSteps (Observed.step dateParse) ClockKept (.start sin now) (events ++ [e])) :
    let s := run (Observed.step dateParse) (.start sin now) (events ++ [e])
    InOrder dateParse (s.history e.event.vehicleId) →
      s.fleet.trace e.event.vehicleId =
        bounded dateParse (s.history e.event.vehicleId) e.now := by
  intro s horder
  rw [allSteps_append] at hclock
  have hpruned : Pruned dateParse (run (Observed.step dateParse) (.start sin now) events) :=
    (always_of_allSteps (I := Pruned dateParse) (fun _ _ h hkept => h.step hkept)
      (fun v _ => .inl rfl) hclock.1).last
  have hs : s = (run (Observed.step dateParse) (.start sin now) events).step dateParse e :=
    run_concat ..
  rw [hs] at horder ⊢
  exact hpruned.trace_step hclock.2.1 horder

theorem firstPosition_inOrder (n : ℕ) :
    InOrder parseTwo (List.replicate n firstPosition.event.ping) where
  finite p hp := by
    rw [List.eq_of_mem_replicate hp]
    exact ⟨1, by decide +kernel⟩
  ordered := List.pairwise_replicate.2 (.inr le_rfl)

/-- The same position twice. -/
theorem trace_pruned_once_twice :
    let s := run (Observed.step parseTwo) (.start id 1) ([firstPosition] ++ [firstPosition])
    s.fleet.trace "v" = bounded parseTwo (s.history "v") 1 :=
  trace_pruned_once parseTwo id 1 [firstPosition] firstPosition ⟨le_refl _, le_refl _, trivial⟩
    (firstPosition_inOrder 2)

end FleetCommand.Dashboard
