import FleetCommand.Customer.TrackingLink
import FleetCommand.Lib.LastWrite

/-!
# Live tracking

The updates streamed to the customer app, between the calls and lookups of `TrackingLink`: a status,
a position or the notice of an arrival changes the view that is shown. The position shown is a
register of the session (`positionRegister`); it is what a position event or a found link has
brought last, and only in a status that shows it (`position_shown_iff`).
-/

set_option autoImplicit false

namespace FleetCommand.Customer

open LastWrite Runs

/-! ## The view -/

/-- The status of a delivery. -/
inductive DeliveryStatus where
  | created
  | assigned
  | inTransit
  | arrived
  | completed
  | failed
  | cancelled
  deriving DecidableEq

/-- The statuses in which the position is shown. -/
def DeliveryStatus.showsLivePosition (status : DeliveryStatus) : Bool :=
  status = .inTransit || status = .arrived

/-- A live vehicle position for the tracked delivery. -/
structure TrackPosition (K : Type) where
  lat : K
  lng : K
  timestamp : Option Int

/-- What the customer sees of a delivery. -/
structure TrackingView (K : Type) where
  deliveryId : String
  recipientName : String
  destinationAddress : String
  status : DeliveryStatus
  position : Option (TrackPosition K) := none
  arriving : Bool := false

variable {K : Type}

/-- A copy with the fields given; a position cannot be taken away. -/
def TrackingView.copyWith (v : TrackingView K) (status : Option DeliveryStatus)
    (position : Option (TrackPosition K)) (arriving : Option Bool) : TrackingView K :=
  { v with
    status := status.getD v.status
    position := position.or v.position
    arriving := arriving.getD v.arriving }

namespace TrackingState

/-- A streamed delivery status: a status that does not show the live position drops it. -/
def onStatus (s : TrackingState (TrackingView K)) (status : DeliveryStatus) :
    TrackingState (TrackingView K) :=
  match s.view with
  | none => s
  | some v =>
    { s with
      view := some
        { v with
          status := status
          position := if status.showsLivePosition then v.position else none } }

/-- A streamed position, ignored in a status that does not show it. -/
def onPosition (s : TrackingState (TrackingView K)) (position : TrackPosition K) :
    TrackingState (TrackingView K) :=
  match s.view with
  | none => s
  | some v =>
    if !v.status.showsLivePosition then s
    else { s with view := some (v.copyWith none (some position) none) }

/-- The handler of an arrival notice. -/
def onArriving (s : TrackingState (TrackingView K)) : TrackingState (TrackingView K) :=
  match s.view with
  | none => s
  | some v => { s with view := some (v.copyWith none none (some true)) }

end TrackingState

/-! ## Runs -/

/-- A link is opened or looked up, or an update is streamed. -/
inductive TrackingEvent (K : Type) where
  | link (e : LinkEvent (TrackingView K))
  | status (status : DeliveryStatus)
  | position (position : TrackPosition K)
  | arriving

namespace Session

/-- One event of the tracking screen. -/
def track (s : Session (TrackingView K)) : TrackingEvent K → Session (TrackingView K)
  | .link e => s.step e
  | .status status => { s with state := s.state.onStatus status }
  | .position position => { s with state := s.state.onPosition position }
  | .arriving => { s with state := s.state.onArriving }

/-- The position shown. -/
def shownPosition (s : Session (TrackingView K)) : Option (TrackPosition K) :=
  s.state.view.bind TrackingView.position

/-- A delivery is shown in a status that shows its live position. -/
def Live (s : Session (TrackingView K)) : Prop :=
  ∃ v, s.state.view = some v ∧ v.status.showsLivePosition = true

/-- The event brings the position: as a position streamed while it is shown, or with the delivery of
a link. -/
def Brings (s : Session (TrackingView K)) (p : TrackPosition K) : TrackingEvent K → Prop
  | .position position => position = p ∧ s.Live
  | .link (.finished call (.found view)) => s.Pending call ∧ view.position = some p
  | _ => False

/-- The event puts an end to what is shown of the position: another position, a status that shows
none, or another delivery. -/
def Supersedes (s : Session (TrackingView K)) : TrackingEvent K → Prop
  | .position _ => True
  | .status status => status.showsLivePosition = false
  | .link (.finished call (.found _)) => s.Pending call
  | _ => False

end Session

/-- A link is found with a live position only in a status that shows it. -/
def TrackingEvent.Honest : TrackingEvent K → Prop
  | .link (.finished _ (.found view)) =>
    view.position ≠ none → view.status.showsLivePosition = true
  | _ => True

/-! ## The position -/

namespace Session

/-- The position an event leaves shown, when it touches it. -/
def positionWrite (s : Session (TrackingView K)) :
    TrackingEvent K → Option (Option (TrackPosition K))
  | .position position =>
    if s.state.view.any fun v => v.status.showsLivePosition then some (some position) else none
  | .status status => if status.showsLivePosition then none else some none
  | .link (.finished call (.found view)) => if s.Pending call then some view.position else none
  | _ => none

theorem positionRegister :
    Register (track (K := K)) shownPosition positionWrite where
  step s e := by
    cases e with
    | link e =>
      cases e with
      | opened linkToken => rfl
      | finished call result =>
        rw [track, Session.step]
        cases result with
        | found view => by_cases h : s.Pending call <;> simp [h, positionWrite, shownPosition,
            TrackingState.resolved]
        | invalid => by_cases h : s.Pending call <;> simp [h, positionWrite, shownPosition,
            TrackingState.resolved]
        | failed => by_cases h : s.Pending call <;> simp [h, positionWrite, shownPosition,
            TrackingState.resolved]
    | status status =>
      cases hview : s.state.view <;> by_cases h : status.showsLivePosition = true <;>
        simp [track, TrackingState.onStatus, shownPosition, positionWrite, hview, h]
    | position position =>
      cases hview : s.state.view with
      | none => simp [track, TrackingState.onPosition, shownPosition, positionWrite, hview]
      | some v =>
        by_cases h : v.status.showsLivePosition = true <;>
          simp [track, TrackingState.onPosition, shownPosition, positionWrite, hview, h,
            TrackingView.copyWith]
    | arriving =>
      cases hview : s.state.view <;>
        simp [track, TrackingState.onArriving, shownPosition, positionWrite, hview,
          TrackingView.copyWith]

theorem positionWrite_eq_some_iff {s : Session (TrackingView K)} {p : TrackPosition K}
    {e : TrackingEvent K} : s.positionWrite e = some (some p) ↔ s.Brings p e := by
  cases e with
  | link e =>
    cases e with
    | opened linkToken => simp [positionWrite, Brings]
    | finished call result => cases result <;> simp [positionWrite, Brings]
  | status status => simp [positionWrite, Brings]
  | position position =>
    cases hview : s.state.view with
    | none => simp [positionWrite, Brings, Live, hview]
    | some v => simp [positionWrite, Brings, Live, hview, and_comm]
  | arriving => simp [positionWrite, Brings]

/-- An event that does not put an end to the position does not touch it. -/
theorem positionWrite_eq_none {s : Session (TrackingView K)} {e : TrackingEvent K}
    (h : ¬ s.Supersedes e) : s.positionWrite e = none := by
  cases e with
  | link e =>
    cases e with
    | opened linkToken => rfl
    | finished call result =>
      cases result with
      | found view => exact if_neg h
      | invalid => rfl
      | failed => rfl
  | status status => exact if_pos (Bool.of_not_eq_false h)
  | position position => exact absurd trivial h
  | arriving => rfl

/-- While a position is shown nothing else leaves it untouched. -/
theorem Live.not_supersedes {s : Session (TrackingView K)} (h : s.Live) {e : TrackingEvent K}
    (he : s.positionWrite e = none) : ¬ s.Supersedes e ∧ (s.track e).Live := by
  obtain ⟨v, hview, hlive⟩ := h
  cases e with
  | link e =>
    cases e with
    | opened linkToken => exact ⟨id, v, hview, hlive⟩
    | finished call result =>
      rw [track, Session.step]
      cases result with
      | found view =>
        have hpending : ¬ s.Pending call := fun hpending => by
          simp [positionWrite, hpending] at he
        rw [if_neg hpending]
        exact ⟨hpending, v, hview, hlive⟩
      | invalid =>
        refine ⟨id, v, ?_, hlive⟩
        split <;> exact hview
      | failed =>
        refine ⟨id, v, ?_, hlive⟩
        split <;> exact hview
  | status status =>
    have hstatus : status.showsLivePosition = true := by
      by_contra hnot
      simp [positionWrite, hnot] at he
    refine ⟨fun hnot => Bool.false_ne_true (hnot.symm.trans hstatus),
      { v with status := status, position := v.position }, ?_, hstatus⟩
    rw [track, TrackingState.onStatus, hview]
    simp only [hstatus, if_true]
  | position position => simp [positionWrite, hview, hlive] at he
  | arriving =>
    refine ⟨id, v.copyWith none none (some true), ?_, hlive⟩
    rw [track, TrackingState.onArriving, hview]

theorem Live.untouched {s : Session (TrackingView K)} (h : s.Live) {es : List (TrackingEvent K)}
    (hes : Untouched track positionWrite s es) :
    AllSteps track (fun s e => ¬ s.Supersedes e) s es ∧ (run track s es).Live := by
  induction es generalizing s with
  | nil => exact ⟨trivial, h⟩
  | cons e es ih =>
    obtain ⟨hkept, hlive⟩ := h.not_supersedes hes.1
    obtain ⟨hrest, hlast⟩ := ih hlive hes.2
    exact ⟨⟨hkept, hrest⟩, hlast⟩

/-- What brings a position is a delivery in a status that shows it. -/
theorem Brings.live {s : Session (TrackingView K)} {p : TrackPosition K} {e : TrackingEvent K}
    (h : s.Brings p e) (he : e.Honest) : (s.track e).Live := by
  cases e with
  | link e =>
    cases e with
    | opened linkToken => exact h.elim
    | finished call result =>
      cases result with
      | found view =>
        obtain ⟨hpending, hposition⟩ := h
        refine ⟨view, ?_, he (by rw [hposition]; exact Option.some_ne_none p)⟩
        rw [track, Session.step, if_pos hpending]
        rfl
      | invalid => exact h.elim
      | failed => exact h.elim
  | status status => exact h.elim
  | position position =>
    obtain ⟨rfl, v, hview, hlive⟩ := h
    refine ⟨v.copyWith none (some position) none, ?_, hlive⟩
    simp [track, TrackingState.onPosition, hview, hlive]
  | arriving => exact h.elim

end Session

/-- From a state with no delivery loaded, whatever links are opened and looked up and whatever is
streamed in between, and when links are found with a live position only in a status that shows it: a
position is shown exactly when some event has brought it and nothing has put an end to it since, and
then the delivery is in a status that shows it. -/
theorem position_shown_iff (state : TrackingState (TrackingView K)) (hview : state.view = none)
    (events : List (TrackingEvent K)) (hhonest : ∀ e ∈ events, e.Honest) (p : TrackPosition K) :
    let s := run Session.track (.start state) events
    (s.shownPosition = some p ↔ ∃ pre e post, events = pre ++ e :: post ∧
      (run Session.track (.start state) pre).Brings p e ∧
      AllSteps Session.track (fun s e => ¬ s.Supersedes e)
        ((run Session.track (.start state) pre).track e) post) ∧
    (s.shownPosition = some p → s.Live) := by
  intro s
  have hstart : (Session.start state).shownPosition = none := by
    rw [Session.shownPosition, Session.start, hview]
    rfl
  -- the last event that has touched the position brought it
  have hlast : s.shownPosition = some p → ∃ pre e post, events = pre ++ e :: post ∧
      (run Session.track (.start state) pre).Brings p e ∧
      AllSteps Session.track (fun s e => ¬ s.Supersedes e)
        ((run Session.track (.start state) pre).track e) post ∧ s.Live := by
    intro hshown
    rcases (Session.positionRegister.run_eq_iff _ events (some p)).1 hshown with
      ⟨-, hfirst⟩ | ⟨pre, e, post, hsplit, hwrite, hpost⟩
    · exact absurd (hfirst.symm.trans hstart) (by simp)
    · have hbrings := Session.positionWrite_eq_some_iff.1 hwrite
      have hlive := hbrings.live (hhonest e (by simp [hsplit]))
      obtain ⟨hkept, hend⟩ := hlive.untouched hpost
      refine ⟨pre, e, post, hsplit, hbrings, hkept, ?_⟩
      rwa [← run_cons, ← run_append, ← hsplit] at hend
  refine ⟨⟨fun hshown => ?_, ?_⟩, fun hshown => ?_⟩
  · obtain ⟨pre, e, post, hsplit, hbrings, hkept, -⟩ := hlast hshown
    exact ⟨pre, e, post, hsplit, hbrings, hkept⟩
  · rintro ⟨pre, e, post, rfl, hbrings, hkept⟩
    refine Session.positionRegister.run_written (Session.positionWrite_eq_some_iff.2 hbrings) ?_
    exact hkept.imp fun s e h => Session.positionWrite_eq_none h
  · obtain ⟨-, -, -, -, -, -, hlive⟩ := hlast hshown
    exact hlive

/-- The delivery of the link is on its way, and a position is streamed. -/
def oneTrip : List (TrackingEvent ℤ) :=
  [.link (.opened "t"),
    .link (.finished 0 (.found ⟨"d", "Rae", "1 Main St", .inTransit, none, false⟩)),
    .position ⟨47, -122, none⟩]

theorem oneTrip_shown :
    let s := run Session.track (.start .new) oneTrip
    (s.shownPosition = some ⟨47, -122, none⟩ ↔ ∃ pre e post, oneTrip = pre ++ e :: post ∧
      (run Session.track (.start .new) pre).Brings ⟨47, -122, none⟩ e ∧
      AllSteps Session.track (fun s e => ¬ s.Supersedes e)
        ((run Session.track (.start .new) pre).track e) post) ∧
    (s.shownPosition = some ⟨47, -122, none⟩ → s.Live) :=
  position_shown_iff .new rfl oneTrip (by simp [oneTrip, TrackingEvent.Honest]) _

/-- Once completed the delivery shows no position, and a late one is ignored. -/
example : (run Session.track (.start .new)
    (oneTrip ++ [.status .completed, .position ⟨48, -122, none⟩])).shownPosition = none := rfl

end FleetCommand.Customer
