import FleetCommand.Driver.PingQueue
import FleetCommand.Ingestion.DriverPing
import FleetCommand.Lib.Runs

/-!
# The ping transmitter

`PingTransmitter` sends a ping at once when the device is online and buffers it otherwise. Its calls
are asynchronous: each runs to its next send and goes on when that send completes, so between two
sends of one call other calls run (`CallStage`). A run is any order of calls and completed sends
(`TransmitterEvent`); a `Transmission` is the transmitter with its calls and what the run has
submitted and sent.
-/

set_option autoImplicit false

namespace FleetCommand.Ingestion

deriving instance DecidableEq for LocationPing

end FleetCommand.Ingestion

namespace FleetCommand.Driver

open Ingestion (LocationPing)

section Calls

variable {P : Type}

/-- The queue, and whether the device is online. -/
structure PingTransmitter (P : Type) where
  queue : PingQueue P
  online : Bool

/-- Where a call stands: `submit` awaits the send of its ping, `flush` the send of a ping of the
drained batch, with the pings still to send and those whose send has failed; or it has returned. -/
inductive CallStage (P : Type) where
  | submitting (ping : P)
  | flushing (ping : P) (pending failed : List P)
  | returned

/-- The ping whose send the call awaits. -/
def CallStage.awaited : CallStage P → Option P
  | .submitting ping => some ping
  | .flushing ping _ _ => some ping
  | .returned => none

/-- The other pings of the batch a running flush has drained: the failed ones and those to send. -/
def CallStage.batch : CallStage P → List P
  | .flushing _ pending failed => failed ++ pending
  | _ => []

/-- All pings a call holds; those of a flush in the order of its batch. -/
def CallStage.held : CallStage P → List P
  | .submitting ping => [ping]
  | .flushing ping pending failed => failed ++ ping :: pending
  | .returned => []

namespace PingTransmitter

/-- `submit` up to its send. -/
def submit (ping : P) (t : PingTransmitter P) : CallStage P × PingTransmitter P :=
  if !t.online then (.returned, { t with queue := t.queue.enqueue ping })
  else (.submitting ping, t)

/-- The loop of `flush` from its head to the next send, or to the end of the call. -/
def flushLoop (failed : List P) : List P → PingTransmitter P → CallStage P × PingTransmitter P
  | ping :: pending, t => (.flushing ping pending failed, t)
  | [], t =>
    (.returned, if failed.isEmpty then t else { t with queue := t.queue.enqueueAll failed })

variable {timestamp : P → ℤ} (sort : TimestampSort timestamp)

/-- `flush` up to its first send. -/
def flush (t : PingTransmitter P) : CallStage P × PingTransmitter P :=
  if t.queue.pings.isEmpty then (.returned, t)
  else
    let drained := t.queue.drainInOrder sort
    flushLoop [] drained.1 { t with queue := drained.2 }

/-- `setOnline` up to the first send of the flush it may start. -/
def setOnline (online : Bool) (t : PingTransmitter P) : CallStage P × PingTransmitter P :=
  let wasOffline := !t.online
  let t := { t with online := online }
  if online && wasOffline then t.flush sort else (.returned, t)

/-- A call from a completed send to its next one, or to its end. -/
def resume (ok : Bool) : CallStage P → PingTransmitter P → CallStage P × PingTransmitter P
  | .submitting ping, t =>
    (.returned, if !ok then { t with queue := t.queue.enqueue ping } else t)
  | .flushing ping pending failed, t =>
    flushLoop (if !ok then failed ++ [ping] else failed) pending t
  | .returned, t => (.returned, t)

end PingTransmitter

/-! ## What a call does with the pings -/

/-- The pings that a call puts back on the queue once its send has completed. -/
def CallStage.putBack (ok : Bool) : CallStage P → List P
  | .submitting ping => if !ok then [ping] else []
  | .flushing ping [] failed => if !ok then failed ++ [ping] else failed
  | .flushing _ (_ :: _) _ => []
  | .returned => []

theorem CallStage.count_held [DecidableEq P] (s : CallStage P) (x : P) :
    s.held.count x = s.awaited.toList.count x + s.batch.count x := by
  cases s with
  | submitting ping => rfl
  | flushing ping pending failed =>
    simp only [held, awaited, batch, Option.toList_some, List.count_append, List.count_cons,
      List.count_nil]
    omega
  | returned => rfl

theorem CallStage.mem_held_of_awaited {s : CallStage P} {x : P} (h : s.awaited = some x) :
    x ∈ s.held := by
  cases s with
  | submitting ping =>
    obtain rfl := Option.some.inj h
    exact List.mem_singleton_self _
  | flushing ping pending failed =>
    obtain rfl := Option.some.inj h
    exact List.mem_append_right _ List.mem_cons_self
  | returned => exact absurd h (by simp [awaited])

/-- What a call puts back is part of what it held, in the same order. -/
theorem CallStage.putBack_sublist (s : CallStage P) (ok : Bool) :
    (s.putBack ok).Sublist s.held := by
  cases s with
  | submitting ping =>
    cases ok with
    | true => exact List.nil_sublist _
    | false => exact List.Sublist.refl _
  | flushing ping pending failed =>
    cases pending with
    | nil =>
      cases ok with
      | true => exact List.sublist_append_left failed [ping]
      | false => exact List.Sublist.refl _
    | cons next pending => exact List.nil_sublist _
  | returned => exact List.nil_sublist _

/-- From a queue `q`, and pings `taken` from elsewhere, to the stage a call comes to and the queue
it leaves: each ping is held by the call, queued or dropped as often as before. -/
structure Moves (q : PingQueue P) (taken : List P) (r : CallStage P × PingTransmitter P) :
    Prop where
  conserves : ∀ [DecidableEq P] (x : P),
    r.1.held.count x + r.2.queue.pings.count x + (r.2.queue.dropped.map Drop.ping).count x =
      taken.count x + q.pings.count x + (q.dropped.map Drop.ping).count x
  dropped : q.dropped <+: r.2.queue.dropped
  maxSize : r.2.queue.maxSize = q.maxSize
  fits : taken.length ≤ q.maxSize → r.1.held.length ≤ q.maxSize

/-- A call that leaves the queue as it is and holds what it has taken. -/
theorem Moves.of_same {q : PingQueue P} {taken : List P} {r : CallStage P × PingTransmitter P}
    (hheld : r.1.held = taken) (hqueue : r.2.queue = q) : Moves q taken r := by
  subst hheld hqueue
  exact ⟨fun _ => rfl, List.prefix_refl _, rfl, id⟩

namespace PingQueue

theorem count_enqueueAll [DecidableEq P] (q : PingQueue P) (ps : List P) (x : P) :
    (q.enqueueAll ps).pings.count x + ((q.enqueueAll ps).dropped.map Drop.ping).count x =
      ps.count x + q.pings.count x + (q.dropped.map Drop.ping).count x := by
  have hsplit := congrArg (List.count x) (Window.rdrop_append_rtake q.maxSize (q.pings ++ ps))
  rw [pings_enqueueAll, dropped_enqueueAll, List.count_append]
  simp only [List.count_append] at hsplit
  omega

theorem dropped_prefix_enqueue (q : PingQueue P) (ping : P) :
    q.dropped <+: (q.enqueue ping).dropped := by
  rcases q.enqueue_cases ping with ⟨-, -, h⟩ | ⟨first, rest, -, -, -, h⟩
  · rw [h]
  · rw [h]
    exact List.prefix_append ..

theorem dropped_prefix_enqueueAll (q : PingQueue P) (ps : List P) :
    q.dropped <+: (q.enqueueAll ps).dropped := by
  induction ps generalizing q with
  | nil => exact List.prefix_refl _
  | cons ping ps ih => exact (q.dropped_prefix_enqueue ping).trans (ih _)

end PingQueue

namespace PingTransmitter

/-- A transmitter whose queue has taken pings, and a call that has returned. -/
theorem moves_enqueueAll (t : PingTransmitter P) (ps : List P) :
    Moves t.queue ps (.returned, { t with queue := t.queue.enqueueAll ps }) where
  conserves x := by
    have hcount := t.queue.count_enqueueAll ps x
    simp only [CallStage.held, List.count_nil]
    omega
  dropped := t.queue.dropped_prefix_enqueueAll ps
  maxSize := t.queue.enqueueAll_maxSize ps
  fits _ := Nat.zero_le _

theorem moves_submit (ping : P) (t : PingTransmitter P) : Moves t.queue [ping] (t.submit ping) := by
  rw [submit]
  split
  · exact t.moves_enqueueAll [ping]
  · exact .of_same rfl rfl

theorem moves_flushLoop (failed pending : List P) (t : PingTransmitter P) :
    Moves t.queue (failed ++ pending) (t.flushLoop failed pending) := by
  cases pending with
  | cons ping pending => exact .of_same rfl rfl
  | nil =>
    rw [List.append_nil]
    cases failed with
    | nil => exact .of_same rfl rfl
    | cons x failed => exact t.moves_enqueueAll (x :: failed)

variable {timestamp : P → ℤ} (sort : TimestampSort timestamp)

theorem moves_flush (t : PingTransmitter P) : Moves t.queue [] (t.flush sort) := by
  rw [flush]
  split
  · exact .of_same rfl rfl
  · -- the whole queue is taken
    have hloop := moves_flushLoop [] (sort.sort t.queue.pings) { t with queue := t.queue.cleared }
    have hperm := sort.perm t.queue.pings
    refine ⟨fun x => ?_, hloop.dropped, hloop.maxSize, fun _ => hloop.fits ?_⟩
    · have hcount := hloop.conserves x
      simp only [List.nil_append, PingQueue.cleared_pings, PingQueue.cleared_dropped,
        List.count_nil, hperm.count_eq] at hcount
      rw [List.count_nil, Nat.zero_add]
      exact hcount
    · rw [List.nil_append, hperm.length_eq]
      exact t.queue.bounded

theorem moves_setOnline (online : Bool) (t : PingTransmitter P) :
    Moves t.queue [] (t.setOnline sort online) := by
  unfold setOnline
  dsimp only
  split
  · exact moves_flush sort { t with online := online }
  · exact .of_same rfl rfl

/-- A call that goes on holds, puts back or drops what it held, less the ping it has sent. -/
theorem moves_resume (ok : Bool) (s : CallStage P) (t : PingTransmitter P) :
    ∃ taken, Moves t.queue taken (t.resume ok s) ∧ taken.length ≤ s.held.length ∧
      ∀ [DecidableEq P] (x : P),
        taken.count x + (if ok then s.awaited.toList else []).count x = s.held.count x := by
  cases s with
  | submitting ping =>
    cases ok with
    | true => exact ⟨[], .of_same rfl rfl, Nat.zero_le _, fun x => Nat.zero_add _⟩
    | false => exact ⟨[ping], t.moves_enqueueAll [ping], le_refl _, fun x => rfl⟩
  | flushing ping pending failed =>
    cases ok with
    | true =>
      refine ⟨failed ++ pending, moves_flushLoop failed pending t, ?_, fun x => ?_⟩
      · simp only [CallStage.held, List.length_append, List.length_cons]
        omega
      · simp only [CallStage.held, CallStage.awaited, if_true, Option.toList_some,
          List.count_append, List.count_cons, List.count_nil]
        omega
    | false =>
      refine ⟨failed ++ [ping] ++ pending, moves_flushLoop (failed ++ [ping]) pending t, ?_,
        fun x => ?_⟩
      · rw [List.append_assoc, List.singleton_append]
        exact le_refl _
      · rw [List.append_assoc, List.singleton_append]
        exact Nat.add_zero _
  | returned =>
    refine ⟨[], .of_same rfl rfl, le_refl _, fun x => ?_⟩
    cases ok <;> rfl

/-- A call that goes on holds part of what it held, in the same order. -/
theorem held_resume_sublist (ok : Bool) (s : CallStage P) (t : PingTransmitter P) :
    (t.resume ok s).1.held.Sublist s.held := by
  cases s with
  | submitting ping => exact List.nil_sublist _
  | flushing ping pending failed =>
    cases pending with
    | nil => exact List.nil_sublist _
    | cons next pending =>
      cases ok with
      | true => exact (List.sublist_cons_self ping (next :: pending)).append_left failed
      | false =>
        show (failed ++ [ping] ++ next :: pending).Sublist (failed ++ ping :: next :: pending)
        rw [List.append_assoc, List.singleton_append]
  | returned => exact List.nil_sublist _

/-- A ping that a call has held is the one it awaited, or it is still held or put back. -/
theorem held_cases (ok : Bool) (s : CallStage P) (t : PingTransmitter P) {x : P} (hx : x ∈ s.held) :
    s.awaited = some x ∨ x ∈ (t.resume ok s).1.held ∨ x ∈ s.putBack ok := by
  cases s with
  | submitting ping => exact .inl (congrArg some (List.mem_singleton.1 hx).symm)
  | flushing ping pending failed =>
    have hkept : x ∈ failed → x ∈ if !ok then failed ++ [ping] else failed := by
      intro h
      cases ok with
      | true => exact h
      | false => exact List.mem_append_left _ h
    rcases List.mem_append.1 hx with hfailed | hrest
    · cases pending with
      | nil => exact .inr (.inr (hkept hfailed))
      | cons next pending => exact .inr (.inl (List.mem_append_left _ (hkept hfailed)))
    · rcases List.mem_cons.1 hrest with rfl | hpending
      · exact .inl rfl
      · cases pending with
        | nil => exact absurd hpending List.not_mem_nil
        | cons next pending => exact .inr (.inl (List.mem_append_right _ hpending))
  | returned => exact absurd hx List.not_mem_nil

/-- The queue of a call that goes on has taken what the call puts back. -/
theorem queue_resume (ok : Bool) (s : CallStage P) (t : PingTransmitter P) :
    (t.resume ok s).2.queue = t.queue.enqueueAll (s.putBack ok) := by
  cases s with
  | submitting ping => cases ok <;> rfl
  | flushing ping pending failed =>
    cases pending with
    | cons next pending => rfl
    | nil =>
      cases ok with
      | true => cases failed <;> rfl
      | false => cases failed <;> rfl
  | returned => rfl

end PingTransmitter

end Calls

/-! ## Runs -/

section Runs

variable {K : Type}

/-- A ping as one `submit` call hands it over: two calls with equal pings are two of these. -/
structure Submission (K : Type) where
  call : ℕ
  ping : LocationPing K
  deriving DecidableEq

/-- The time of the submitted ping. -/
def Submission.timestamp (x : Submission K) : ℤ := x.ping.timestamp

/-- What happens next: a call of the transmitter, or the send that a call awaits completes. -/
inductive TransmitterEvent (K : Type) where
  | submit (ping : LocationPing K)
  | setOnline (online : Bool)
  | flush
  | sinkCompletes (call : ℕ) (ok : Bool)

/-- The transmitter, its calls in the order they were made, and the pings submitted and sent. -/
structure Transmission (K : Type) where
  transmitter : PingTransmitter (Submission K)
  calls : List (CallStage (Submission K))
  submitted : List (Submission K)
  sent : List (Submission K)

namespace Transmission

/-- A new transmitter with an empty queue. -/
def start (maxSize : ℕ) (positive : 0 < maxSize) (online : Bool) : Transmission K :=
  ⟨⟨.new maxSize positive, online⟩, [], [], []⟩

/-- The queue of the transmitter. -/
def queue (c : Transmission K) : PingQueue (Submission K) := c.transmitter.queue

/-- A call is made, and runs to its first send. -/
def call (c : Transmission K) (r : CallStage (Submission K) × PingTransmitter (Submission K)) :
    Transmission K :=
  { c with
    transmitter := r.2
    calls := c.calls ++ [r.1] }

/-- The ping whose send the given call awaits. -/
def awaitedBy (c : Transmission K) (call : ℕ) : Option (Submission K) :=
  c.calls[call]?.bind CallStage.awaited

variable (sort : TimestampSort (Submission.timestamp (K := K)))

/-- One event; a completed send goes on with its call. -/
def step (c : Transmission K) : TransmitterEvent K → Transmission K
  | .submit ping =>
    let x : Submission K := ⟨c.calls.length, ping⟩
    { c.call (c.transmitter.submit x) with submitted := c.submitted ++ [x] }
  | .setOnline online => c.call (c.transmitter.setOnline sort online)
  | .flush => c.call (c.transmitter.flush sort)
  | .sinkCompletes call ok =>
    match c.calls[call]? with
    | none => c
    | some stage =>
      let r := PingTransmitter.resume ok stage c.transmitter
      { c with
        transmitter := r.2
        calls := c.calls.set call r.1
        sent := if ok then c.sent ++ stage.awaited.toList else c.sent }

theorem step_sinkCompletes {c : Transmission K} {i : ℕ} {s : CallStage (Submission K)}
    (hs : c.calls[i]? = some s) (ok : Bool) :
    c.step sort (.sinkCompletes i ok) =
      { c with
        transmitter := (c.transmitter.resume ok s).2
        calls := c.calls.set i (c.transmitter.resume ok s).1
        sent := if ok then c.sent ++ s.awaited.toList else c.sent } := by
  simp [step, hs]

/-- The send of a call that was never made does not complete. -/
theorem step_sinkCompletes_none {c : Transmission K} {i : ℕ} (hs : c.calls[i]? = none) (ok : Bool) :
    c.step sort (.sinkCompletes i ok) = c := by
  simp [step, hs]

end Transmission

end Runs

end FleetCommand.Driver
