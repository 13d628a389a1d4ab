import FleetCommand.Streaming.Sessions
import Mathlib.Data.Fintype.Basic

/-!
# Session resume across replicas

Each hub keeps its own session map; replicas share only the broker. A run is followed together with
what the dropped connections of one session held (`Tracked`), on each replica and last of all. A
connection resumes what is persisted on its own replica, and that is what the last connection
dropped there held, so resume agrees with the last drop exactly where the two records agree
(`resumes_iff`).
-/

set_option autoImplicit false

namespace FleetCommand.Streaming

namespace Hub

/-- The connections of session `key` take turns: at most one is live, and its rooms are what the
session has persisted. -/
structure InTurn (h : Hub) (key : String) : Prop where
  consistent : Consistent h
  sole : ∀ x y, h.sessionOf x = some key → h.sessionOf y = some key → x = y
  rooms : ∀ x c, h.clients.lookup x = some c → c.conn.key = key →
    c.rooms = h.sessionSubscriptions key

variable {h : Hub} {key : String}

theorem inTurn_new : InTurn new key where
  consistent := consistent_new
  sole x y hx := by simp [sessionOf, new] at hx
  rooms x c hx := by simp [new] at hx

theorem InTurn.connect (ht : h.InTurn key) {x : String} (hx : h.clients.lookup x = none)
    {k : String} (hidle : k = key → ∀ y, h.sessionOf y ≠ some key) (sink : Nat)
    (order : RangeOrder String) :
    (h.connect x k sink order).InTurn key := by
  obtain ⟨hcons, hlive⟩ := connect_spec ht.consistent hx k sink order
  refine ⟨hcons, fun y z hy hz => ?_, fun y c hy hkey => ?_⟩
  · rw [sessionOf_connect ht.consistent hx] at hy hz
    -- a connection of the session that was live before excludes that the new one is of the session
    split at hy
    next hyx =>
      split at hz
      next hzx => rw [hyx, hzx]
      next => exact absurd hz (hidle (Option.some.inj hy) z)
    next =>
      split at hz
      next => exact absurd hy (hidle (Option.some.inj hz) y)
      next => exact ht.sole y z hy hz
  · rw [sessionSubscriptions_connect ht.consistent hx]
    rw [hlive] at hy
    split at hy
    next =>
      obtain rfl := Option.some.inj hy
      obtain rfl : k = key := hkey
      rfl
    next => exact ht.rooms y c hy hkey

/-- A change `f` of a connection's rooms that its session follows. -/
theorem InTurn.of_change (ht : h.InTurn key) {h' : Hub} (hc : Consistent h') (x : String)
    (f : Finset String → Finset String)
    (hlive : ∀ y, h'.clients.lookup y =
      if y = x then (h.clients.lookup y).map fun c => ⟨c.conn, f c.rooms⟩ else h.clients.lookup y)
    (hpersist : h'.sessionSubscriptions key =
      if h.sessionOf x = some key then f (h.sessionSubscriptions key)
      else h.sessionSubscriptions key) : h'.InTurn key := by
  have hsession : ∀ y, h'.sessionOf y = h.sessionOf y := by
    intro y
    rw [sessionOf, hlive, sessionOf]
    split
    · rw [Option.map_map]
      rfl
    · rfl
  refine ⟨hc, fun y z => ?_, fun y c hy hkey => ?_⟩
  · rw [hsession, hsession]
    exact ht.sole y z
  · rw [hpersist]
    rw [hlive] at hy
    split at hy
    next hyx =>
      subst hyx
      obtain ⟨d, hd, rfl⟩ := Option.map_eq_some_iff.1 hy
      rw [if_pos (sessionOf_eq_some_iff.2 ⟨d, hd, hkey⟩), ← ht.rooms y d hd hkey]
    next hne =>
      -- the connection changed is another one, so it is not of the session
      have hother : h.sessionOf x ≠ some key := fun hx =>
        hne (ht.sole y x (sessionOf_eq_some_iff.2 ⟨c, hy, hkey⟩) hx)
      rw [if_neg hother]
      exact ht.rooms y c hy hkey

theorem InTurn.subscribeRoom (ht : h.InTurn key) (x room : String) :
    (h.subscribeRoom x room).InTurn key :=
  ht.of_change (ht.consistent.subscribeRoom x room) x (insert room)
    (lookup_subscribeRoom ht.consistent x room) (sessionSubscriptions_subscribeRoom h x room key)

theorem InTurn.unsubscribeRoom (ht : h.InTurn key) (x room : String) :
    (h.unsubscribeRoom x room).InTurn key :=
  ht.of_change (ht.consistent.unsubscribeRoom x room) x (fun rooms => rooms.erase room)
    (lookup_unsubscribeRoom ht.consistent x room)
    (sessionSubscriptions_unsubscribeRoom h x room key)

theorem InTurn.disconnect (ht : h.InTurn key) (x : String) (order : RangeOrder String) :
    (h.disconnect x order).InTurn key := by
  obtain ⟨hcons, hlive⟩ := disconnect_spec ht.consistent x order
  refine ⟨hcons, fun y z hy hz => ?_, fun y c hy hkey => ?_⟩
  · rw [sessionOf_disconnect ht.consistent] at hy hz
    split at hy
    · exact absurd hy (by simp)
    · split at hz
      · exact absurd hz (by simp)
      · exact ht.sole y z hy hz
  · rw [sessionSubscriptions_disconnect]
    rw [hlive] at hy
    split at hy
    · exact absurd hy (by simp)
    · exact ht.rooms y c hy hkey

end Hub

/-- The request is not a `Connect` of session `key` while a connection of the session is live. -/
def ConnectsIdle (h : Hub) (key : String) (op : HubOp) : Prop :=
  ∀ connID sink order, op = .connect connID key sink order → ∀ y, h.sessionOf y ≠ some key

theorem connectsIdle_connect_iff {h : Hub} {key connID k : String} {sink : Nat}
    {order : RangeOrder String} :
    ConnectsIdle h key (.connect connID k sink order) ↔
      (k = key → ∀ y ∈ h.clients.keys, h.sessionOf y ≠ some key) := by
  constructor
  · rintro hidle rfl y -
    exact hidle connID sink order rfl y
  · intro hidle _ _ _ heq y hy
    injection heq with _ hk
    exact hidle hk y ((h.isSome_sessionOf_iff y).1 (by rw [hy]; rfl)) hy

instance (h : Hub) (key : String) (op : HubOp) : Decidable (ConnectsIdle h key op) :=
  HubOp.casesOn (motive := fun op => Decidable (ConnectsIdle h key op)) op
    (fun _ _ _ _ => decidable_of_iff _ connectsIdle_connect_iff.symm)
    (fun _ _ => isTrue fun _ _ _ heq => HubOp.noConfusion heq)
    (fun _ _ _ => isTrue fun _ _ _ heq => HubOp.noConfusion heq)
    (fun _ _ => isTrue fun _ _ _ heq => HubOp.noConfusion heq)
    (fun _ _ _ => isTrue fun _ _ _ heq => HubOp.noConfusion heq)
    (fun _ _ => isTrue fun _ _ _ heq => HubOp.noConfusion heq)

theorem HubOp.inTurn_apply {h : Hub} {key : String} (ht : h.InTurn key) {op : HubOp}
    (hfresh : FreshConnect h op) (hidle : ConnectsIdle h key op) : (op.apply h).InTurn key := by
  cases op with
  | connect connID k sink order =>
    exact ht.connect hfresh (fun hk => hidle connID sink order (hk ▸ rfl)) sink order
  | subscribeRoom connID room => exact ht.subscribeRoom connID room
  | subscribe connID kind id =>
    exact Hub.subscribe_cases (P := fun h => h.InTurn key) ht (ht.subscribeRoom connID) kind id
  | unsubscribeRoom connID room => exact ht.unsubscribeRoom connID room
  | unsubscribe connID kind id =>
    exact Hub.unsubscribe_cases (P := fun h => h.InTurn key) ht (ht.unsubscribeRoom connID) kind id
  | disconnect connID order => exact ht.disconnect connID order

/-! ## What the dropped connections held -/

/-- The rooms of the connection of session `key` that the request drops, if it drops one. -/
def droppedRooms (h : Hub) (key : String) : HubOp → Option (Finset String)
  | .disconnect connID _ =>
    ((h.clients.lookup connID).filter fun c => c.conn.key = key).map Client.rooms
  | _ => none

/-- While the session has a live connection its rooms are persisted; otherwise what is persisted is
what the last dropped connection held. -/
def PersistsHeld (h : Hub) (key : String) (held : Finset String) : Prop :=
  (∀ x, h.sessionOf x ≠ some key) → h.sessionSubscriptions key = held

/-- A request that changes neither what the session has persisted nor whether it has a live
connection. -/
theorem PersistsHeld.of_same {h h' : Hub} {key : String} {held : Finset String}
    (hp : PersistsHeld h key held) (hsession : ∀ x, h'.sessionOf x = h.sessionOf x)
    (hpersist : (∀ x, h.sessionOf x ≠ some key) →
      h'.sessionSubscriptions key = h.sessionSubscriptions key) : PersistsHeld h' key held := by
  intro hidle
  have hidle' : ∀ x, h.sessionOf x ≠ some key := fun x => hsession x ▸ hidle x
  rw [hpersist hidle', hp hidle']

theorem HubOp.persistsHeld_apply {h : Hub} {key : String} {held : Finset String}
    (ht : h.InTurn key) (hp : PersistsHeld h key held) {op : HubOp} (hfresh : FreshConnect h op) :
    PersistsHeld (op.apply h) key ((droppedRooms h key op).getD held) := by
  have hc := ht.consistent
  have hsub : ∀ x room, PersistsHeld (h.subscribeRoom x room) key held := fun x room =>
    hp.of_same (Hub.sessionOf_subscribeRoom hc x room) fun hidle => by
      rw [Hub.sessionSubscriptions_subscribeRoom, if_neg (hidle x)]
  have hunsub : ∀ x room, PersistsHeld (h.unsubscribeRoom x room) key held := fun x room =>
    hp.of_same (Hub.sessionOf_unsubscribeRoom hc x room) fun hidle => by
      rw [Hub.sessionSubscriptions_unsubscribeRoom, if_neg (hidle x)]
  cases op with
  | connect connID k sink order =>
    intro hidle
    simp only [HubOp.apply, Hub.sessionOf_connect hc hfresh] at hidle
    rw [HubOp.apply, Hub.sessionSubscriptions_connect hc hfresh]
    -- the new connection is of another session
    refine hp fun x hx => hidle x ?_
    split
    next hxy =>
      rw [hxy, Hub.sessionOf, show h.clients.lookup connID = none from hfresh] at hx
      exact absurd hx (by simp)
    next => exact hx
  | subscribeRoom connID room => exact hsub connID room
  | subscribe connID kind id =>
    exact Hub.subscribe_cases (P := fun h => PersistsHeld h key held) hp (hsub connID) kind id
  | unsubscribeRoom connID room => exact hunsub connID room
  | unsubscribe connID kind id =>
    exact Hub.unsubscribe_cases (P := fun h => PersistsHeld h key held) hp (hunsub connID) kind id
  | disconnect connID order =>
    intro hidle
    rw [HubOp.apply, Hub.sessionSubscriptions_disconnect]
    by_cases hx : h.sessionOf connID = some key
    · -- the session's only connection drops, and its rooms are what is persisted
      obtain ⟨c, hlive, hkey⟩ := Hub.sessionOf_eq_some_iff.1 hx
      have hdrop : droppedRooms h key (.disconnect connID order) = some c.rooms := by
        simp [droppedRooms, hlive, hkey]
      rw [hdrop, Option.getD_some, ht.rooms connID c hlive hkey]
    · have hdrop : droppedRooms h key (.disconnect connID order) = none := by
        rw [droppedRooms, Option.map_eq_none_iff, Option.filter_eq_none_iff]
        intro c hlive hkey
        exact hx (Hub.sessionOf_eq_some_iff.2 ⟨c, hlive, of_decide_eq_true hkey⟩)
      rw [hdrop, Option.getD_none]
      refine hp fun y hy => hidle y ?_
      rw [HubOp.apply, Hub.sessionOf_disconnect hc, if_neg, hy]
      rintro rfl
      exact hx hy

/-! ## Runs over all replicas -/

section Replicas

variable {ι : Type} [DecidableEq ι]

/-- The replicas, and the rooms that connections of one session held when they dropped: the last one
dropped on each replica, and the last one dropped on any. -/
structure Tracked (ι : Type) where
  hubs : ι → Hub
  heldAt : ι → Finset String
  held : Finset String

/-- No session yet. -/
def Tracked.start : Tracked ι := ⟨startHubs, fun _ => ∅, ∅⟩

/-- A request at one replica, with what a connection of session `key` it drops has held. -/
def trackStep (key : String) (t : Tracked ι) (e : ι × HubOp) : Tracked ι where
  hubs := hubStep t.hubs e
  heldAt := Function.update t.heldAt e.1 ((droppedRooms (t.hubs e.1) key e.2).getD (t.heldAt e.1))
  held := (droppedRooms (t.hubs e.1) key e.2).getD t.held

/-- Connection ids are fresh on their replica, and a connection of session `key` is opened only
while no connection of the session is live on any replica. -/
def SessionInTurn (key : String) (hubs : ι → Hub) (e : ι × HubOp) : Prop :=
  FreshConnect (hubs e.1) e.2 ∧ ∀ i, ConnectsIdle (hubs i) key e.2

instance [Fintype ι] (key : String) (hubs : ι → Hub) (e : ι × HubOp) :
    Decidable (SessionInTurn key hubs e) :=
  inferInstanceAs (Decidable (_ ∧ _))

/-- A connection of session `key` becomes a member of exactly the rooms the session held when its
previous connection dropped; of none when it is the first. -/
def Resumes (key : String) (t : Tracked ι) (e : ι × HubOp) : Prop :=
  ∀ connID sink order, e.2 = .connect connID key sink order →
    ∀ room, ((hubStep t.hubs e e.1).memberOf room connID).isSome ↔ room ∈ t.held

/-- A connection of session `key` is opened on a replica whose last dropped connection of the
session held what the session's last dropped connection held. -/
def HeldHere (key : String) (t : Tracked ι) (e : ι × HubOp) : Prop :=
  ∀ connID sink order, e.2 = .connect connID key sink order → t.heldAt e.1 = t.held

omit [DecidableEq ι] in
theorem heldHere_connect_iff {key : String} {t : Tracked ι} {i : ι} {connID k : String} {sink : Nat}
    {order : RangeOrder String} :
    HeldHere key t (i, .connect connID k sink order) ↔ (k = key → t.heldAt i = t.held) := by
  constructor
  · rintro hheld rfl
    exact hheld connID sink order rfl
  · intro hheld _ _ _ heq
    injection heq with _ hk
    exact hheld hk

instance (key : String) (t : Tracked ι) (e : ι × HubOp) : Decidable (HeldHere key t e) :=
  HubOp.casesOn (motive := fun op => Decidable (HeldHere key t (e.1, op))) e.2
    (fun _ _ _ _ => decidable_of_iff _ heldHere_connect_iff.symm)
    (fun _ _ => isTrue fun _ _ _ heq => HubOp.noConfusion heq)
    (fun _ _ _ => isTrue fun _ _ _ heq => HubOp.noConfusion heq)
    (fun _ _ => isTrue fun _ _ _ heq => HubOp.noConfusion heq)
    (fun _ _ _ => isTrue fun _ _ _ heq => HubOp.noConfusion heq)
    (fun _ _ => isTrue fun _ _ _ heq => HubOp.noConfusion heq)

/-- What holds of every replica along a run. -/
def Tracked.Ok (key : String) (t : Tracked ι) : Prop :=
  ∀ i, (t.hubs i).InTurn key ∧ PersistsHeld (t.hubs i) key (t.heldAt i)

omit [DecidableEq ι] in
theorem Tracked.ok_start (key : String) : (Tracked.start : Tracked ι).Ok key := fun _ =>
  ⟨Hub.inTurn_new, fun _ => by simp [Tracked.start, startHubs, Hub.sessionSubscriptions, Hub.new]⟩

theorem Tracked.Ok.step {key : String} {t : Tracked ι} (ht : t.Ok key) {e : ι × HubOp}
    (hturn : SessionInTurn key t.hubs e) : (trackStep key t e).Ok key := by
  intro i
  rcases eq_or_ne i e.1 with rfl | hi
  · simp only [trackStep, hubStep, Function.update_self]
    exact ⟨HubOp.inTurn_apply (ht e.1).1 hturn.1 (hturn.2 e.1),
      HubOp.persistsHeld_apply (ht e.1).1 (ht e.1).2 hturn.1⟩
  · simp only [trackStep, hubStep, Function.update_of_ne hi]
    exact ht i

theorem resumes_step_iff {key : String} {t : Tracked ι} (ht : t.Ok key) {e : ι × HubOp}
    (hturn : SessionInTurn key t.hubs e) : Resumes key t e ↔ HeldHere key t e := by
  obtain ⟨i, op⟩ := e
  refine forall_congr' fun connID => forall_congr' fun sink => forall_congr' fun order =>
    forall_congr' fun heq => ?_
  obtain rfl : op = .connect connID key sink order := heq
  obtain ⟨hin, hheld⟩ := ht i
  -- the connection joins what is persisted on its replica, which was last held there
  have hpersist : (t.hubs i).sessionSubscriptions key = t.heldAt i :=
    hheld (hturn.2 i connID sink order rfl)
  have hjoin : ∀ room, ((hubStep t.hubs (i, .connect connID key sink order) i).memberOf room
      connID).isSome ↔ room ∈ t.heldAt i := by
    intro room
    rw [hubStep, Function.update_self, HubOp.apply,
      Hub.isSome_memberOf_connect hin.consistent hturn.1, hpersist]
  simp only [hjoin]
  exact Finset.ext_iff.symm

/-- In a run over any number of replicas in which the connections of session `key` have fresh ids
and take turns, every one of them resumes exactly the rooms the session held when the previous one
dropped if and only if each is opened on a replica where the last one dropped held the same. -/
theorem resumes_iff (key : String) (es : List (ι × HubOp))
    (hturn : Runs.AllSteps hubStep (SessionInTurn key) startHubs es) :
    Runs.AllSteps (trackStep key) (Resumes key) Tracked.start es ↔
      Runs.AllSteps (trackStep key) (HeldHere key) Tracked.start es := by
  have hturn' : Runs.AllSteps (trackStep key) (fun t e => SessionInTurn key t.hubs e)
      (Tracked.start : Tracked ι) es :=
    (Runs.allSteps_map (g := Tracked.hubs) (fun _ _ => rfl) Tracked.start es).1 hturn
  exact Runs.allSteps_congr_of (I := Tracked.Ok key) (fun _ _ ht hf => ht.step hf)
    (fun _ _ ht hf => resumes_step_iff ht hf) (Tracked.ok_start key) hturn'

end Replicas

/-- A session that subscribes and drops on one of two replicas and reconnects on the given one. -/
def reconnectRun (replica : Bool) : List (Bool × HubOp) :=
  [(false, .connect "c1" "s" 1 (.sorted String)), (false, .subscribe "c1" "vehicle" "v"),
    (false, .disconnect "c1" (.sorted String)), (replica, .connect "c2" "s" 2 (.sorted String))]

/-- On the other replica the session resumes nothing. -/
theorem reconnectRun_not_resumed :
    ¬ ∀ es : List (Bool × HubOp), Runs.AllSteps hubStep (SessionInTurn "s") startHubs es →
      Runs.AllSteps (trackStep "s") (Resumes "s") Tracked.start es := by
  intro hall
  obtain ⟨-, -, -, hlast, -⟩ := hall (reconnectRun true) (by decide +kernel)
  have hroom := (hlast "c2" 2 (.sorted String) rfl "vehicle:v").2 (by decide +kernel)
  exact absurd hroom (by decide +kernel)

theorem reconnectRun_resumed :
    Runs.AllSteps (trackStep "s") (Resumes "s") Tracked.start (reconnectRun false) :=
  (resumes_iff "s" (reconnectRun false) (by decide +kernel)).2 (by decide +kernel)

end FleetCommand.Streaming
