import FleetCommand.Lib.Runs
import Mathlib.Data.List.Nodup

/-!
# Opening tracking links

The customer app's `TrackingState.resolveLink`: a call sets the loading flag and clears the error,
awaits the lookup, and then writes what the lookup found or an error. Calls overlap, and a lookup
that finishes writes the shared fields whether or not its link is still the one opened last.

`Session` runs calls and finishing lookups in any order. Once all have finished, the state shows the
outcome of the call made last exactly when no other lookup wrote over it and none left a delivery
behind (`shows_last_iff`).
-/

set_option autoImplicit false

namespace FleetCommand.Customer

universe u v

/-- The fields of the tracking state; `View` is what is shown of a delivery. -/
structure TrackingState (View : Type u) where
  view : Option View
  loading : Bool
  error : Option String

/-- How a lookup ends: with a delivery, with `null`, or by throwing. -/
inductive Lookup (View : Type u) where
  | found (view : View)
  | invalid
  | failed

/-- The messages of a link that is not valid and of a lookup that failed. -/
def invalidLinkError : String := "This tracking link is not valid."
def loadError : String := "Unable to load tracking details."

variable {View : Type u}

/-- The delivery a lookup found. -/
def Lookup.view? : Lookup View → Option View
  | .found view => some view
  | .invalid => none
  | .failed => none

/-- The error a lookup leads to. -/
def Lookup.error? : Lookup View → Option String
  | .found _ => none
  | .invalid => some invalidLinkError
  | .failed => some loadError

namespace TrackingState

/-- Nothing loaded. -/
def new : TrackingState View := ⟨none, false, none⟩

/-- `resolveLink` up to its await. -/
def resolveLink (s : TrackingState View) : TrackingState View :=
  { s with loading := true, error := none }

/-- `resolveLink` from its await on. The view is not cleared by an error, nor the error by
a view. -/
def resolved (s : TrackingState View) : Lookup View → TrackingState View
  | .found view => { s with view := some view, loading := false }
  | .invalid => { s with error := some invalidLinkError, loading := false }
  | .failed => { s with error := some loadError, loading := false }

/-- The outcome of a lookup is shown: its delivery, or no delivery and its error. -/
def Shows (s : TrackingState View) (result : Lookup View) : Prop :=
  s.view = result.view? ∧ s.error = result.error?

@[simp] theorem resolveLink_view (s : TrackingState View) : s.resolveLink.view = s.view := rfl

@[simp] theorem resolveLink_error (s : TrackingState View) : s.resolveLink.error = none := rfl

theorem resolved_view (s : TrackingState View) (result : Lookup View) :
    (s.resolved result).view = result.view?.or s.view := by
  cases result <;> rfl

theorem resolved_error (s : TrackingState View) (result : Lookup View) :
    (s.resolved result).error = result.error?.or s.error := by
  cases result <;> rfl

end TrackingState

/-! ## Runs -/

/-- A link is opened, or the lookup of call number `call` finishes. -/
inductive LinkEvent (View : Type u) where
  | opened (linkToken : String)
  | finished (call : Nat) (result : Lookup View)

/-- The state, the number of calls made, and the lookups in the order they finished, apart those
before the last call was made (`earlier`) and after it (`later`). -/
structure Session (View : Type u) where
  state : TrackingState View
  calls : Nat
  earlier : List (Nat × Lookup View)
  later : List (Nat × Lookup View)

namespace Session

/-- No call made. -/
def start (state : TrackingState View) : Session View := ⟨state, 0, [], []⟩

/-- All lookups that have finished, in order. -/
def results (s : Session View) : List (Nat × Lookup View) := s.earlier ++ s.later

/-- A call that was made and whose lookup has not finished. -/
def Pending (s : Session View) (call : Nat) : Prop :=
  call < s.calls ∧ call ∉ s.results.map Prod.fst

instance (s : Session View) (call : Nat) : Decidable (s.Pending call) :=
  inferInstanceAs (Decidable (_ ∧ _))

/-- One event; only a pending lookup can finish. -/
def step (s : Session View) : LinkEvent View → Session View
  | .opened _ =>
    { state := s.state.resolveLink
      calls := s.calls + 1
      earlier := s.results
      later := [] }
  | .finished call result =>
    if s.Pending call then
      { s with
        state := s.state.resolved result
        later := s.later ++ [(call, result)] }
    else s

/-- All lookups have finished. -/
def AllFinished (s : Session View) : Prop := ∀ call, ¬ s.Pending call

/-- The lookup of the call made last ended with the result. -/
def LastResult (s : Session View) (result : Lookup View) : Prop := (s.calls - 1, result) ∈ s.results

/-- Once all lookups have finished, the outcome of the call made last is shown. -/
def ShowsLast (s : Session View) : Prop :=
  s.AllFinished → ∀ result, s.LastResult result → s.state.Shows result

/-- The lookup to finish last ended like that of the call made last. If that one found a delivery,
so did every lookup that finished after the call was made; if it did not, no lookup did. -/
def Undisturbed (s : Session View) : Prop :=
  s.AllFinished → ∀ result, s.LastResult result →
    (s.later.map Prod.snd).getLast? = some result ∧
      match result with
      | .found _ => ∀ p ∈ s.later, p.2.view? ≠ none
      | _ => ∀ p ∈ s.results, p.2.view? = none

end Session

/-! ## What the last lookups leave -/

/-- The last value `f` has along the lookups. -/
def lastSome {β : Type v} (f : Lookup View → Option β) (l : List (Nat × Lookup View)) : Option β :=
  (l.filterMap fun p => f p.2).getLast?

section LastSome

variable {β : Type v} (f : Lookup View → Option β)

theorem lastSome_append (l l' : List (Nat × Lookup View)) :
    lastSome f (l ++ l') = (lastSome f l').or (lastSome f l) := by
  rw [lastSome, List.filterMap_append, List.getLast?_append]
  rfl

theorem lastSome_concat (l : List (Nat × Lookup View)) (p : Nat × Lookup View) :
    lastSome f (l ++ [p]) = (f p.2).or (lastSome f l) := by
  rw [lastSome_append]
  congr 1
  cases hp : f p.2 <;> simp [lastSome, hp]

theorem lastSome_eq_none_iff {l : List (Nat × Lookup View)} :
    lastSome f l = none ↔ ∀ p ∈ l, f p.2 = none := by
  rw [lastSome, List.getLast?_eq_none_iff, List.filterMap_eq_nil_iff]

/-- Where `f` has a value at the lookup that finished last, that is the value. -/
theorem lastSome_of_getLast? {l : List (Nat × Lookup View)} {result : Lookup View}
    (hlast : (l.map Prod.snd).getLast? = some result) (hf : f result ≠ none) :
    lastSome f l = f result := by
  cases l using List.reverseRecOn with
  | nil => exact absurd hlast (by simp)
  | append_singleton l p =>
    rw [List.map_append, List.map_singleton, List.getLast?_concat, Option.some.injEq] at hlast
    rw [lastSome_concat, hlast]
    cases hresult : f result with
    | none => exact absurd hresult hf
    | some b => rfl

end LastSome

theorem Lookup.error?_eq_none_iff (result : Lookup View) :
    result.error? = none ↔ result.view? ≠ none := by
  cases result <;> simp [Lookup.error?, Lookup.view?]

theorem Lookup.eq_of_outcome {result result' : Lookup View} (hview : result.view? = result'.view?)
    (herror : result.error? = result'.error?) : result = result' := by
  have hne : invalidLinkError ≠ loadError := by decide
  cases result <;> cases result' <;> simp_all [Lookup.view?, Lookup.error?, hne.symm]

/-! ## The invariant -/

namespace Session

/-- The view is the last delivery found, the error the last one since the last call, and the lookup
of the call made last is not among those that finished before it. -/
structure Tracks (s : Session View) : Prop where
  view : s.state.view = lastSome Lookup.view? s.results
  error : 0 < s.calls → s.state.error = lastSome Lookup.error? s.later
  earlier : ∀ p ∈ s.earlier, p.1 + 1 < s.calls
  later : ∀ p ∈ s.later, p.1 < s.calls

theorem Tracks.start {state : TrackingState View} (h : state.view = none) :
    Tracks (.start state) where
  view := h
  error hcalls := absurd hcalls (Nat.lt_irrefl 0)
  earlier _ hp := absurd hp List.not_mem_nil
  later _ hp := absurd hp List.not_mem_nil

theorem Tracks.step {s : Session View} (h : Tracks s) (e : LinkEvent View) : Tracks (s.step e) := by
  cases e with
  | opened linkToken =>
    constructor
    · simpa [Session.step, results] using h.view
    · intro _
      rfl
    · intro p hp
      -- every lookup that has finished is of a call made before this one
      rcases List.mem_append.1 hp with hp | hp
      · exact Nat.lt_succ_of_lt (h.earlier p hp)
      · exact Nat.succ_lt_succ (h.later p hp)
    · intro p hp
      exact absurd hp List.not_mem_nil
  | finished call result =>
    rw [Session.step]
    split
    next hpending =>
      constructor
      · rw [TrackingState.resolved_view, h.view]
        simp only [results]
        rw [← List.append_assoc, lastSome_concat]
      · intro hcalls
        rw [TrackingState.resolved_error, h.error hcalls, lastSome_concat]
      · exact h.earlier
      · intro p hp
        rcases List.mem_append.1 hp with hp | hp
        · exact h.later p hp
        · rw [List.mem_singleton.1 hp]
          exact hpending.1
    next => exact h

theorem Tracks.run {state : TrackingState View} (h : state.view = none)
    (events : List (LinkEvent View)) : Tracks (Runs.run Session.step (.start state) events) :=
  Runs.run_invariant (fun _ e hs => hs.step e) (Tracks.start h) events

variable {s : Session View} {result : Lookup View}

/-- The lookup of the call made last finished after it. -/
theorem Tracks.mem_later (h : Tracks s) (hresult : s.LastResult result) :
    (s.calls - 1, result) ∈ s.later := by
  rcases List.mem_append.1 hresult with hmem | hmem
  · have hlt := h.earlier _ hmem
    dsimp only at hlt
    omega
  · exact hmem

/-- What the state shows of the result of the call made last. -/
theorem Tracks.shows_iff (h : Tracks s) (hresult : s.LastResult result) :
    s.state.Shows result ↔ lastSome Lookup.view? s.results = result.view? ∧
      lastSome Lookup.error? s.later = result.error? := by
  have hcalls : 0 < s.calls := Nat.zero_lt_of_lt (h.later _ (h.mem_later hresult))
  rw [TrackingState.Shows, h.view, h.error hcalls]

theorem Tracks.exists_last (h : Tracks s) (hresult : s.LastResult result) :
    ∃ last, (s.later.map Prod.snd).getLast? = some last ∧ ∃ p ∈ s.later, p.2 = last := by
  have hne : s.later.map Prod.snd ≠ [] := by
    rw [ne_eq, List.map_eq_nil_iff]
    exact List.ne_nil_of_mem (h.mem_later hresult)
  refine ⟨_, List.getLast?_eq_some_getLast hne, ?_⟩
  exact List.mem_map.1 (List.getLast_mem hne)

/-- The call made last found a delivery. -/
theorem Tracks.shows_found_iff (h : Tracks s) {view : View}
    (hresult : s.LastResult (.found view)) :
    s.state.Shows (.found view) ↔ (s.later.map Prod.snd).getLast? = some (.found view) ∧
      ∀ p ∈ s.later, p.2.view? ≠ none := by
  obtain ⟨last, hlast, p, hp, hplast⟩ := h.exists_last hresult
  rw [h.shows_iff hresult, hlast, Option.some.injEq]
  have hfound : lastSome Lookup.error? s.later = none ↔ ∀ p ∈ s.later, p.2.view? ≠ none := by
    simp only [lastSome_eq_none_iff, Lookup.error?_eq_none_iff]
  -- where every later lookup found a delivery, the view is that of the last of them
  have hview : (∀ p ∈ s.later, p.2.view? ≠ none) →
      lastSome Lookup.view? s.results = last.view? := by
    intro hall
    have hsome : last.view? ≠ none := hplast ▸ hall p hp
    rw [results, lastSome_append, lastSome_of_getLast? _ hlast hsome]
    obtain ⟨view', hview'⟩ := Option.ne_none_iff_exists'.1 hsome
    rw [hview']
    rfl
  constructor
  · rintro ⟨hshown, hnone⟩
    have hall := hfound.1 hnone
    have herror : last.error? = none := (Lookup.error?_eq_none_iff _).2 (hplast ▸ hall p hp)
    exact ⟨Lookup.eq_of_outcome ((hview hall).symm.trans hshown) herror, hall⟩
  · rintro ⟨rfl, hall⟩
    exact ⟨hview hall, hfound.2 hall⟩

/-- The call made last found no delivery. -/
theorem Tracks.shows_error_iff (h : Tracks s) (hresult : s.LastResult result)
    (hnone : result.view? = none) :
    s.state.Shows result ↔ (s.later.map Prod.snd).getLast? = some result ∧
      ∀ p ∈ s.results, p.2.view? = none := by
  obtain ⟨last, hlast, p, hp, hplast⟩ := h.exists_last hresult
  rw [h.shows_iff hresult, hlast, Option.some.injEq, hnone, lastSome_eq_none_iff]
  -- where no lookup found a delivery, the error is that of the last of them
  have herror : (∀ p ∈ s.results, p.2.view? = none) →
      last.view? = none ∧ lastSome Lookup.error? s.later = last.error? := by
    intro hall
    have hlastNone : last.view? = none := hplast ▸ hall p (List.mem_append_right _ hp)
    refine ⟨hlastNone, lastSome_of_getLast? _ hlast ?_⟩
    rw [ne_eq, Lookup.error?_eq_none_iff, not_not]
    exact hlastNone
  constructor
  · rintro ⟨hall, hshown⟩
    obtain ⟨hlastNone, hlastError⟩ := herror hall
    exact ⟨Lookup.eq_of_outcome (hlastNone.trans hnone.symm) (hlastError.symm.trans hshown), hall⟩
  · rintro ⟨rfl, hall⟩
    exact ⟨hall, (herror hall).2⟩

end Session

/-! ## The result of a run -/

/-- From a state with no delivery loaded, whatever links are opened and in whatever order their
lookups finish: the outcome of the call made last is shown exactly when nothing disturbed it. -/
theorem shows_last_iff (state : TrackingState View) (hview : state.view = none)
    (events : List (LinkEvent View)) :
    (Runs.run Session.step (.start state) events).ShowsLast ↔
      (Runs.run Session.step (.start state) events).Undisturbed := by
  have h := Session.Tracks.run hview events
  refine imp_congr_right fun _ => forall₂_congr fun result hresult => ?_
  cases result with
  | found view => exact h.shows_found_iff hresult
  | invalid => exact h.shows_error_iff hresult rfl
  | failed => exact h.shows_error_iff hresult rfl

/-- Two links are opened before the first lookup finishes; the lookups finish in turn. -/
def finishInTurn : List (LinkEvent String) :=
  [.opened "t", .opened "t'", .finished 0 (.found "d"), .finished 1 (.found "d'")]

/-- The delivery of the second link is shown. -/
theorem finishInTurn_shows :
    (Runs.run Session.step (.start .new) finishInTurn).ShowsLast := by
  apply (shows_last_iff .new rfl finishInTurn).2
  intro _ result hresult
  have hlast : result = .found "d'" := by
    have hmem : (1, result) ∈ [(0, Lookup.found "d"), (1, Lookup.found "d'")] := hresult
    simpa using hmem
  subst hlast
  refine ⟨rfl, fun p hp => ?_⟩
  have hlater : p ∈ [(0, Lookup.found "d"), (1, Lookup.found "d'")] := hp
  rcases List.mem_pair.1 hlater with rfl | rfl
  · exact Option.some_ne_none "d"
  · exact Option.some_ne_none "d'"

/-- Two links are opened; the lookup of the first finishes after that of the second. -/
def firstFinishesLast : List (LinkEvent String) :=
  [.opened "t", .opened "t'", .finished 1 (.found "d'"), .finished 0 (.found "d")]

/-- The delivery of the first link is shown. -/
theorem firstFinishesLast_shows :
    ¬ (Runs.run Session.step (.start .new) firstFinishesLast).ShowsLast := by
  intro h
  have hfinished : (Runs.run Session.step (.start .new) firstFinishesLast).AllFinished := by
    rintro call ⟨hcall, hnot⟩
    have hcases : call = 0 ∨ call = 1 := by
      have hlt : call < 2 := hcall
      omega
    rcases hcases with rfl | rfl
    · exact absurd hnot (by decide)
    · exact absurd hnot (by decide)
  have hshown := (h hfinished (.found "d'") List.mem_cons_self).1
  exact absurd hshown (by decide)

end FleetCommand.Customer
