import FleetCommand.Lib.Runs
import FleetCommand.Lib.Window
import Mathlib.Data.List.Sort

/-!
# The offline ping queue

`PingQueue` buffers pings while the device is offline, at most `maxSize` of them. It keeps the last
`maxSize` of what has been buffered since the last drain and has dropped the rest
(`pings_enqueueAll`, `dropped_enqueueAll`): the ping dropped is the one buffered first, whatever its
timestamp. Over any sequence of operations it holds the last `maxSize` pings enqueued since it was
last emptied (`contents_run`).
-/

set_option autoImplicit false

namespace FleetCommand.Driver

variable {P : Type}

/-- The places of the queue. -/
def kMaxOfflinePings : ℕ := 10000

theorem kMaxOfflinePings_pos : 0 < kMaxOfflinePings := by decide

/-- A ping dropped by a full queue, with what the queue retained then. -/
structure Drop (P : Type) where
  ping : P
  retained : List P
  deriving DecidableEq

/-- A bounded offline buffer: the pings in insertion order, as in the source, and the pings it has
dropped, which the source does not keep. -/
structure PingQueue (P : Type) where
  maxSize : ℕ
  pings : List P
  dropped : List (Drop P)
  positive : 0 < maxSize
  bounded : pings.length ≤ maxSize

/-- Dart's `sort` of a list of pings by timestamp: it need not keep equal ones in their order. -/
structure TimestampSort (timestamp : P → ℤ) where
  sort : List P → List P
  perm : ∀ l, (sort l).Perm l
  chronological : ∀ l, (sort l).Pairwise fun a b => timestamp a ≤ timestamp b

/-- The sort that keeps equal ones in their order. -/
def TimestampSort.stable (timestamp : P → ℤ) : TimestampSort timestamp where
  sort := List.insertionSort fun a b => timestamp a ≤ timestamp b
  perm := List.perm_insertionSort _
  chronological l :=
    have : Std.Total fun a b : P => timestamp a ≤ timestamp b := ⟨fun _ _ => le_total _ _⟩
    have : IsTrans P fun a b : P => timestamp a ≤ timestamp b := ⟨fun _ _ _ => le_trans⟩
    List.pairwise_insertionSort _ l

namespace PingQueue

/-- An empty queue. -/
def new (maxSize : ℕ) (positive : 0 < maxSize) : PingQueue P where
  maxSize := maxSize
  pings := []
  dropped := []
  positive := positive
  bounded := Nat.zero_le maxSize

/-- `_pings.add(ping)`, and `_pings.removeAt(0)` when there are more than `maxSize` then. -/
def enqueue (q : PingQueue P) (ping : P) : PingQueue P :=
  if h : (q.pings ++ [ping]).length > q.maxSize then
    { q with
      pings := (q.pings ++ [ping]).tail
      dropped := q.dropped ++ [⟨(q.pings ++ [ping]).head (by simp), (q.pings ++ [ping]).tail⟩]
      bounded := by
        have hq := q.bounded
        rw [List.length_tail, List.length_append, List.length_singleton]
        omega }
  else
    { q with
      pings := q.pings ++ [ping]
      bounded := Nat.not_lt.1 h }

/-- The pings are enqueued in order. -/
def enqueueAll (q : PingQueue P) (pings : List P) : PingQueue P := pings.foldl enqueue q

/-- `_pings.clear()`. -/
def cleared (q : PingQueue P) : PingQueue P :=
  { q with
    pings := []
    bounded := Nat.zero_le q.maxSize }

/-- The buffered pings in chronological order, and the queue without them. -/
def drainInOrder {timestamp : P → ℤ} (sort : TimestampSort timestamp) (q : PingQueue P) :
    List P × PingQueue P :=
  (sort.sort q.pings, q.cleared)

/-! ## What a queue holds -/

variable (q : PingQueue P) (ping : P) (ps : List P)

@[simp] theorem enqueueAll_nil : q.enqueueAll [] = q := rfl

@[simp] theorem enqueueAll_cons : q.enqueueAll (ping :: ps) = (q.enqueue ping).enqueueAll ps := rfl

@[simp] theorem cleared_pings : q.cleared.pings = [] := rfl

@[simp] theorem cleared_dropped : q.cleared.dropped = q.dropped := rfl

/-- A queue that is not full takes the ping; a full one also drops its first. -/
theorem enqueue_cases :
    (q.pings.length < q.maxSize ∧ (q.enqueue ping).pings = q.pings ++ [ping] ∧
      (q.enqueue ping).dropped = q.dropped) ∨
    ∃ first rest, q.pings = first :: rest ∧ q.pings.length = q.maxSize ∧
      (q.enqueue ping).pings = rest ++ [ping] ∧
      (q.enqueue ping).dropped = q.dropped ++ [⟨first, rest ++ [ping]⟩] := by
  have hbound := q.bounded
  have hpositive := q.positive
  have hlen : (q.pings ++ [ping]).length = q.pings.length + 1 := by simp
  rw [enqueue]
  split
  next hfull =>
    obtain ⟨first, rest, hpings⟩ := List.exists_cons_of_length_pos (l := q.pings) (by omega)
    refine .inr ⟨first, rest, hpings, by omega, ?_, ?_⟩ <;> simp [hpings]
  next hfree => exact .inl ⟨by omega, rfl, rfl⟩

@[simp] theorem enqueue_maxSize : (q.enqueue ping).maxSize = q.maxSize := by
  rw [enqueue]
  split <;> rfl

@[simp] theorem enqueueAll_maxSize : (q.enqueueAll ps).maxSize = q.maxSize := by
  induction ps generalizing q with
  | nil => rfl
  | cons ping ps ih => rw [enqueueAll_cons, ih, enqueue_maxSize]

/-- One ping more: the last `maxSize` stay, and the ones before them go. -/
theorem window_enqueue :
    (q.enqueue ping).pings = (q.pings ++ [ping]).rtake q.maxSize ∧
      (q.enqueue ping).dropped.map Drop.ping =
        q.dropped.map Drop.ping ++ (q.pings ++ [ping]).rdrop q.maxSize := by
  rcases q.enqueue_cases ping with ⟨hfree, hpings, hdropped⟩ |
    ⟨first, rest, hq, hfull, hpings, hdropped⟩
  · have hfit : (q.pings ++ [ping]).length ≤ q.maxSize := by
      rw [List.length_append, List.length_singleton]
      omega
    rw [hpings, hdropped, Window.rtake_of_length_le hfit, Window.rdrop_of_length_le hfit,
      List.append_nil]
    exact ⟨rfl, rfl⟩
  · have hrest : (rest ++ [ping]).length = q.maxSize := by
      rw [← hfull, hq, List.length_append, List.length_singleton, List.length_cons]
    obtain ⟨hgone, hstay⟩ := Window.rdrop_rtake_cons (a := first) hrest
    rw [hpings, hdropped, hq, List.cons_append, hgone, hstay]
    simp

/-- The queue after several pings: the last `maxSize` of all stay, and the ones before them go. -/
theorem window_enqueueAll :
    (q.enqueueAll ps).pings = (q.pings ++ ps).rtake q.maxSize ∧
      (q.enqueueAll ps).dropped.map Drop.ping =
        q.dropped.map Drop.ping ++ (q.pings ++ ps).rdrop q.maxSize := by
  induction ps generalizing q with
  | nil =>
    rw [enqueueAll_nil, List.append_nil, Window.rtake_of_length_le q.bounded,
      Window.rdrop_of_length_le q.bounded, List.append_nil]
    exact ⟨rfl, rfl⟩
  | cons ping ps ih =>
    obtain ⟨hpings, hdropped⟩ := q.window_enqueue ping
    rw [enqueueAll_cons, (ih _).1, (ih _).2, hpings, hdropped, enqueue_maxSize,
      Window.rtake_rtake_append, List.append_assoc (q.dropped.map _), Window.rdrop_append_rdrop,
      List.append_assoc q.pings, List.singleton_append]
    exact ⟨rfl, rfl⟩

theorem pings_enqueueAll : (q.enqueueAll ps).pings = (q.pings ++ ps).rtake q.maxSize :=
  (q.window_enqueueAll ps).1

theorem dropped_enqueueAll : (q.enqueueAll ps).dropped.map Drop.ping =
    q.dropped.map Drop.ping ++ (q.pings ++ ps).rdrop q.maxSize :=
  (q.window_enqueueAll ps).2

end PingQueue

/-! ## Sequences of operations -/

/-- The operations on a queue. -/
inductive QueueOp (P : Type) where
  | enqueue (ping : P)
  | drainInOrder
  | clear
  deriving DecidableEq

namespace PingQueue

variable {timestamp : P → ℤ} (sort : TimestampSort timestamp)

/-- The queue after an operation. -/
def apply (q : PingQueue P) : QueueOp P → PingQueue P
  | .enqueue ping => q.enqueue ping
  | .drainInOrder => (q.drainInOrder sort).2
  | .clear => q.cleared

/-- The pings enqueued since the last drain or clear. -/
def enqueuedSince (ps : List P) : QueueOp P → List P
  | .enqueue ping => ps ++ [ping]
  | .drainInOrder => []
  | .clear => []

@[simp] theorem apply_maxSize (q : PingQueue P) (op : QueueOp P) :
    (q.apply sort op).maxSize = q.maxSize := by
  cases op with
  | enqueue ping => exact q.enqueue_maxSize ping
  | drainInOrder => rfl
  | clear => rfl

/-- An operation keeps the last `maxSize` pings of the specification. -/
theorem pings_apply {q : PingQueue P} {ps : List P} (h : q.pings = ps.rtake q.maxSize)
    (op : QueueOp P) : (q.apply sort op).pings = (enqueuedSince ps op).rtake q.maxSize := by
  cases op with
  | enqueue ping =>
    rw [apply, (q.window_enqueue ping).1, h, Window.rtake_rtake_append]
    rfl
  | drainInOrder => exact (Window.rtake_of_length_le (Nat.zero_le q.maxSize)).symm
  | clear => exact (Window.rtake_of_length_le (Nat.zero_le q.maxSize)).symm

theorem pings_run {q : PingQueue P} {ps : List P} (h : q.pings = ps.rtake q.maxSize)
    (ops : List (QueueOp P)) :
    (Runs.run (apply sort) q ops).pings = (Runs.run enqueuedSince ps ops).rtake q.maxSize := by
  induction ops generalizing q ps with
  | nil => exact h
  | cons op ops ih =>
    have hnext : (q.apply sort op).pings =
        (enqueuedSince ps op).rtake (q.apply sort op).maxSize := by
      rw [apply_maxSize]
      exact pings_apply sort h op
    rw [Runs.run_cons, Runs.run_cons, ih hnext, apply_maxSize]

/-- After any operations a queue holds the last `maxSize` pings enqueued since it was last drained
or cleared; a drain then returns them in chronological order, each as often as it is held, and
empties the queue. -/
theorem contents_run (maxSize : ℕ) (positive : 0 < maxSize) (ops : List (QueueOp P)) :
    let q := Runs.run (apply sort) (new maxSize positive) ops
    q.pings = (Runs.run enqueuedSince [] ops).rtake maxSize ∧
    (q.drainInOrder sort).1.Perm q.pings ∧
    ((q.drainInOrder sort).1.Pairwise fun a b => timestamp a ≤ timestamp b) ∧
    (q.drainInOrder sort).2.pings = [] := by
  intro q
  have hnew : (new maxSize positive : PingQueue P).pings =
      ([] : List P).rtake (new maxSize positive : PingQueue P).maxSize :=
    (Window.rtake_of_length_le (Nat.zero_le maxSize)).symm
  exact ⟨pings_run sort hnew ops, sort.perm q.pings, sort.chronological q.pings, rfl⟩

/-- Three pings into a queue of two; a ping is its timestamp. -/
theorem contents_run_three :
    let q := Runs.run (apply (.stable id)) (new 2 Nat.two_pos)
      [.clear, .enqueue 3, .enqueue 1, .enqueue (2 : ℤ)]
    q.pings = (Runs.run enqueuedSince []
      [.clear, .enqueue 3, .enqueue 1, .enqueue (2 : ℤ)]).rtake 2 ∧
    (q.drainInOrder (.stable id)).1.Perm q.pings ∧
    ((q.drainInOrder (.stable id)).1.Pairwise fun a b => id a ≤ id b) ∧
    (q.drainInOrder (.stable id)).2.pings = [] :=
  contents_run (.stable id) 2 Nat.two_pos _

end PingQueue

end FleetCommand.Driver
