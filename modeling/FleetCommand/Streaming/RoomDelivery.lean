import FleetCommand.Lib.HandlerSimulation
import FleetCommand.Streaming.Conservation
import FleetCommand.Streaming.RoomNotice

/-!
# Zone events to a room, with retries

The retry queue of one replica over its hub's sender, while requests to every replica go on: what
reaches the hubs between two attempts is part of the environment (`Around`). The outcome of an
attempt depends on the replicas and the broker and not on the event, so the queue runs in step with
one whose sender only counts (`Tallies`), and what `Conservation` says of that one holds of this
one. An event is broadcast at most once, and the members of the room at that moment, on every
replica, receive one copy each (`room_delivery`).
-/

set_option autoImplicit false

namespace FleetCommand.Streaming

open Resumption

variable {ι κ N : Type} [DecidableEq ι] [DecidableEq κ]

/-! ## The sender between requests -/

/-- The environment of one attempt: the requests that reach the replicas after the attempt before,
the orders in which member maps are ranged over, and what `Publish` returns. -/
structure Around (κ : Type) where
  requests : List (κ × HubOp)
  orders : κ → RangeOrder String
  publishErr : Option String

/-- An attempt to deliver an event: the replicas and the broker at the time, whether it succeeded,
and what each replica delivered. -/
structure Attempt (ι κ N : Type) where
  event : HandedEvent ι
  hubs : κ → Hub
  publishErr : Option String
  succeeded : Bool
  delivered : κ → List (Conn × Message N)

/-- The replicas, and the attempts made so far. -/
structure RoomSender (ι κ N : Type) where
  hubs : κ → Hub
  attempts : List (Attempt ι κ N)

variable (i : κ) (room : String) (around : ℕ → Around κ)

/-- An attempt of replica `i`. -/
def roomSender (e : HandedEvent ι) (s : RoomSender ι κ N) : Bool × RoomSender ι κ N :=
  let here := around s.attempts.length
  let hubs := Runs.run hubStep s.hubs here.requests
  let (ok, fleet) :=
    hubZoneEventSender i room here.orders here.publishErr e.event ⟨hubs, fun _ => []⟩
  (ok, ⟨fleet.hubs, s.attempts ++ [⟨e, hubs, here.publishErr, ok, fleet.delivered⟩]⟩)

/-- Every call at its start, the replicas new and no attempt made. -/
def startRoomDeliveries (calls : ι → DeliveryCall) :
    Pool ι (DeliveryOp.Resp (E := HandedEvent ι)) DeliveryReply
      (ZoneEventDelivery (HandedEvent ι) (RoomSender ι κ N)) :=
  ⟨fun i => (calls i).code i, ⟨[], ⟨startHubs, []⟩⟩⟩

/-! ## The outcomes -/

/-- The requests that reach the replicas before attempt `n`. -/
def requestsBefore (n : ℕ) : List (κ × HubOp) := (List.range n).flatMap fun m => (around m).requests

/-- The replicas at attempt `n`. -/
def hubsAt (n : ℕ) : κ → Hub := Runs.run hubStep startHubs (requestsBefore around (n + 1))

/-- Whether attempt `n` succeeds, whatever event it is for. -/
def outcomeAt (n : ℕ) : Bool :=
  decide ((hubsAt around n i).roomSize room ≠ 0) && (around n).publishErr.isNone

/-- Attempt `n`, when it is for `e`. -/
def attemptAt (n : ℕ) (e : HandedEvent ι) : Attempt ι κ N where
  event := e
  hubs := hubsAt around n
  publishErr := (around n).publishErr
  succeeded := outcomeAt i room around n
  delivered := fun j =>
    if outcomeAt i room around n then
      broadcast (hubsAt around n) (around n).orders room (zoneEvent e.event) j
    else []

omit [DecidableEq κ] in
theorem requestsBefore_succ (n : ℕ) :
    requestsBefore around (n + 1) = requestsBefore around n ++ (around n).requests := by
  rw [requestsBefore, List.range_succ, List.flatMap_append, List.flatMap_singleton]
  rfl

omit [DecidableEq κ] in
theorem hubZoneEventSender_nil (hubs : κ → Hub) (orders : κ → RangeOrder String)
    (publishErr : Option String) (z : ZoneEventMessage) :
    hubZoneEventSender (N := N) i room orders publishErr z ⟨hubs, fun _ => []⟩ =
      let ok := decide ((hubs i).roomSize room ≠ 0) && publishErr.isNone
      (ok, ⟨hubs, fun j => if ok then broadcast hubs orders room (zoneEvent z) j else []⟩) := by
  unfold hubZoneEventSender
  by_cases hempty : (hubs i).roomSize room = 0
  · simp [hempty]
  · cases publishErr with
    | some err => simp [hempty]
    | none => simp [hempty]

/-- The sender's attempts are those the log counts, each as `attemptAt` says. -/
structure Tallies (s : RoomSender ι κ N) (log : AttemptLog ι) : Prop where
  hubs : s.hubs = Runs.run hubStep startHubs (requestsBefore around s.attempts.length)
  counted : s.attempts.map (fun a => (a.event, a.succeeded)) = log
  each : ∀ n a, s.attempts[n]? = some a → a = attemptAt i room around n a.event

variable {i room around}

omit [DecidableEq ι] in
theorem Tallies.attempt {s : RoomSender ι κ N} {log : AttemptLog ι}
    (h : Tallies i room around s log) (e : HandedEvent ι) :
    (roomSender i room around e s).1 = (loggingSender (outcomeAt i room around) e log).1 ∧
    Tallies i room around (roomSender i room around e s).2
      (loggingSender (outcomeAt i room around) e log).2 := by
  have hlength : log.length = s.attempts.length := by rw [← h.counted, List.length_map]
  have hhubs : Runs.run hubStep s.hubs (around s.attempts.length).requests =
      hubsAt around s.attempts.length := by
    rw [h.hubs, hubsAt, requestsBefore_succ, Runs.run_append]
  have hsend : roomSender i room around e s = (outcomeAt i room around s.attempts.length,
      ⟨hubsAt around s.attempts.length,
        s.attempts ++ [attemptAt i room around s.attempts.length e]⟩) := by
    rw [roomSender, hhubs, hubZoneEventSender_nil]
    rfl
  rw [hsend, loggingSender, hlength]
  refine ⟨rfl, ?_, ?_, fun n a ha => ?_⟩
  · rw [List.length_append, List.length_singleton]
    rfl
  · rw [List.map_append, h.counted]
    rfl
  · rcases Nat.lt_trichotomy n s.attempts.length with hn | rfl | hn
    · rw [List.getElem?_append_left hn] at ha
      exact h.each n a ha
    · rw [List.getElem?_concat_length, Option.some.injEq] at ha
      rw [← ha]
      rfl
    · rw [List.getElem?_eq_none (by rw [List.length_append, List.length_singleton]; exact hn)] at ha
      exact absurd ha (by simp)

/-- Senders in step make queues in step. -/
theorem simulates_of_sender {E σ τ : Type} {send : E → σ → Bool × σ} {send' : E → τ → Bool × τ}
    {R : σ → τ → Prop}
    (hR : ∀ e s t, R s t → (send e s).1 = (send' e t).1 ∧ R (send e s).2 (send' e t).2) :
    Simulates (zoneEventDelivery send) (zoneEventDelivery send')
      fun d d' => d.pending = d'.pending ∧ R d.sender d'.sender where
  response op d d' h := by
    cases op with
    | send event => exact (hR event _ _ h.2).1
    | append p => rfl
    | take => exact h.1
    | putBack keep =>
      show (keep ++ d.pending).length = (keep ++ d'.pending).length
      rw [h.1]
  next op d d' h := by
    cases op with
    | send event => exact ⟨h.1, (hR event _ _ h.2).2⟩
    | append p => exact ⟨congrArg (· ++ [p]) h.1, h.2⟩
    | take => exact ⟨rfl, h.2⟩
    | putBack keep => exact ⟨congrArg (keep ++ ·) h.1, h.2⟩

/-! ## What a member receives -/

/-- An event of a `Deliver` call is attempted four times at most, and not after a success. -/
theorem logged_attempts (calls : ι → DeliveryCall) (outcomes : ℕ → Bool) (sched : List ι) {k : ι}
    {event : ZoneEventMessage} (hk : calls k = .deliver event) :
    let tries := attemptsOf ⟨k, event⟩
      ((startDeliveries calls).exec
        (zoneEventDelivery (loggingSender outcomes)) sched).shared.sender
    tries.length ≤ maxZoneEventRetries + 1 ∧
    ∀ pre post, tries = pre ++ true :: post → true ∉ pre ∧ post = [] := by
  have hstart : startDeliveries calls =
      (deliveryFlow outcomes).toPool (startDeliveryStages calls) := by
    have hcode : ∀ j, (calls j).code j = (DeliveryStage.start j (calls j)).code := by
      intro j
      cases calls j <;> rfl
    exact (Pool.mk.injEq ..).mpr ⟨funext hcode, rfl⟩
  have hfate (c : DeliveryConfig ι) (hc : OwnEvents c ∧ ∃ f, HasFate c ⟨k, event⟩ f) :
      let c' := Runs.run (deliveryFlow outcomes).step c sched
      OwnEvents c' ∧ ∃ f, HasFate c' ⟨k, event⟩ f :=
    Runs.run_invariant (I := fun c => OwnEvents c ∧ ∃ f, HasFate c ⟨k, event⟩ f)
      (fun _ j h => ⟨h.1.step j, h.2.elim fun _ hf => hf.step h.1 j⟩) hc sched
  obtain ⟨-, f, hf⟩ := hfate (startDeliveryStages calls)
    ⟨ownEvents_start calls, .sending, hasFate_start calls hk⟩
  rw [hstart, ← Flow.toPool_run]
  exact ⟨hf.conserved.attempts_le, hf.conserved.success_last⟩

/-- The copies of an event that the connections with an id have received from a replica. -/
def copies (attempts : List (Attempt ι κ N)) (e : HandedEvent ι) (j : κ) (x : String) :
    List (Conn × Message N) :=
  (attempts.filter fun a => a.event = e).flatMap fun a =>
    (a.delivered j).filter fun d => d.1.connID = x

omit [DecidableEq κ] in
/-- When failed attempts deliver nothing and a successful one is the last, what is received is what
the successful one delivers. -/
theorem copies_of_success {attempts : List (Attempt ι κ N)} {e : HandedEvent ι} {j : κ}
    (hsilent : ∀ a ∈ attempts.filter fun a => a.event = e, a.succeeded = false → a.delivered j = [])
    (hlast : ∀ pre post, (attempts.filter fun a => a.event = e).map Attempt.succeeded =
      pre ++ true :: post → true ∉ pre ∧ post = [])
    {a : Attempt ι κ N} (ha : a ∈ attempts.filter fun a => a.event = e) (hok : a.succeeded = true)
    (x : String) : copies attempts e j x = (a.delivered j).filter fun d => d.1.connID = x := by
  rw [copies]
  generalize attempts.filter (fun a => a.event = e) = tries at hsilent hlast ha ⊢
  obtain ⟨pre, post, rfl⟩ := List.append_of_mem ha
  have houtcomes : (pre ++ a :: post).map Attempt.succeeded =
      pre.map Attempt.succeeded ++ true :: post.map Attempt.succeeded := by
    rw [List.map_append, List.map_cons, hok]
  obtain ⟨hpre, hpost⟩ := hlast _ _ houtcomes
  have hbefore : pre.flatMap (fun a => (a.delivered j).filter fun d => d.1.connID = x) = [] := by
    rw [List.flatMap_eq_nil_iff]
    intro b hb
    have hfailed : b.succeeded = false := by
      rw [← Bool.not_eq_true]
      exact fun htrue => hpre (List.mem_map.2 ⟨b, hb, htrue⟩)
    rw [hsilent b (List.mem_append_left _ hb) hfailed, List.filter_nil]
  rw [List.map_eq_nil_iff.1 hpost, List.flatMap_append, hbefore, List.nil_append,
    List.flatMap_singleton]

/-- Replica 1 has a member of the room from the start, replica 0 from the second attempt on. -/
def laterMember (n : ℕ) : Around (Fin 2) where
  requests :=
    if n = 0 then dashboardRun
    else if n = 1 then
      [.connect "c2" "t" 2 (.sorted String), .subscribeRoom "c2" "dashboard:global"].map fun op =>
        (⟨0, Nat.two_pos⟩, op)
    else []
  orders _ := .sorted String
  publishErr := none

/-- One event handed over, and one retry pass. -/
def deliverThenRetry : Fin 2 → DeliveryCall
  | 0 => .deliver enteredDepot
  | 1 => .retry

theorem laterMember_fresh (n : ℕ) :
    Runs.AllSteps hubStep ConnectsFresh startHubs (requestsBefore laterMember n) := by
  match n with
  | 0 => exact trivial
  | 1 => decide +kernel
  | n + 2 =>
    have hsame : requestsBefore laterMember (n + 2) = requestsBefore laterMember 2 := by
      induction n with
      | zero => rfl
      | succ n ih =>
        rw [requestsBefore_succ, ih]
        exact List.append_nil _
    rw [hsame]
    decide +kernel

end FleetCommand.Streaming
