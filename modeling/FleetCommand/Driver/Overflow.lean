import FleetCommand.Driver.SendOrder
import Mathlib.Data.Set.Finite.Lattice

/-!
# What a full queue drops

A full queue drops what it has held longest. That is its oldest ping as long as the queue is in
chronological order, and the queue leaves that order exactly when a ping whose send has failed is
put back behind a later one (`Chronological.step`). From then on enough pings submitted offline make
the queue drop the later one and keep the older (`exists_not_dropsOldest`).
-/

set_option autoImplicit false

namespace FleetCommand.Driver

open Ingestion (LocationPing)

/-! ## One queue -/

namespace PingQueue

variable {P : Type} (timestamp : P → ℤ)

/-- Whatever the queue has dropped was no later than any ping it retained then. -/
def DropsOldest (q : PingQueue P) : Prop :=
  ∀ d ∈ q.dropped, ∀ x ∈ d.retained, timestamp d.ping ≤ timestamp x

/-- The pings of the queue are in chronological order. -/
def Chronological (q : PingQueue P) : Prop :=
  q.pings.Pairwise fun x y => timestamp x ≤ timestamp y

variable {timestamp} {q : PingQueue P}

theorem Chronological.enqueueAll {ps : List P}
    (hps : (q.pings ++ ps).Pairwise fun x y => timestamp x ≤ timestamp y) :
    (q.enqueueAll ps).Chronological timestamp := by
  rw [Chronological, pings_enqueueAll]
  exact hps.sublist (List.drop_sublist _ _)

theorem DropsOldest.enqueue (h : q.DropsOldest timestamp) {ping : P}
    (hping : (q.pings ++ [ping]).Pairwise fun x y => timestamp x ≤ timestamp y) :
    (q.enqueue ping).DropsOldest timestamp := by
  rcases q.enqueue_cases ping with ⟨-, -, hdropped⟩ | ⟨first, rest, hq, -, -, hdropped⟩
  · rw [DropsOldest, hdropped]
    exact h
  · rw [DropsOldest, hdropped]
    rw [hq, List.cons_append, List.pairwise_cons] at hping
    intro d hd x hx
    rcases List.mem_append.1 hd with hd | hd
    · exact h d hd x hx
    · obtain rfl := List.mem_singleton.1 hd
      exact hping.1 x hx

theorem DropsOldest.enqueueAll (h : q.DropsOldest timestamp) {ps : List P}
    (hps : (q.pings ++ ps).Pairwise fun x y => timestamp x ≤ timestamp y) :
    (q.enqueueAll ps).DropsOldest timestamp := by
  induction ps generalizing q with
  | nil => exact h
  | cons ping ps ih =>
    rw [← List.singleton_append, ← List.append_assoc] at hps
    have hping := hps.sublist (List.sublist_append_left _ ps)
    refine ih (h.enqueue hping) (hps.sublist ?_)
    rw [(q.window_enqueue ping).1]
    exact (List.drop_sublist _ _).append_right ps

/-- A drop stays on record. -/
theorem DropsOldest.of_prefix {q' : PingQueue P} (h : q'.DropsOldest timestamp)
    (hpre : q.dropped <+: q'.dropped) : q.DropsOldest timestamp :=
  fun d hd => h d (hpre.subset hd)

/-- A ping `a` with an older one `b` behind it, or about to be put there, is dropped while `b` is
retained once enough pings are buffered. -/
theorem not_dropsOldest_enqueueAll {pre mid ps : List P} {a b : P}
    (hq : q.pings = pre ++ a :: mid) (hb : b ∈ mid ++ ps.take 1) (hlt : timestamp b < timestamp a)
    (hlen : q.maxSize ≤ mid.length + ps.length) : ¬ (q.enqueueAll ps).DropsOldest timestamp := by
  induction ps generalizing q pre mid with
  | nil =>
    have hbound := q.bounded
    simp only [hq, List.length_append, List.length_cons] at hbound
    simp only [List.length_nil] at hlen
    omega
  | cons ping ps ih =>
    have hb' : b ∈ mid ++ [ping] := by simpa using hb
    have hlen' : q.maxSize ≤ (mid ++ [ping]).length + ps.length := by
      rw [List.length_append, List.length_singleton]
      rw [List.length_cons] at hlen
      omega
    rw [enqueueAll_cons]
    rcases q.enqueue_cases ping with ⟨-, hpings, -⟩ | ⟨first, rest, hfirst, -, hpings, hdropped⟩
    · refine @ih _ pre (mid ++ [ping]) ?_ (List.mem_append_left _ hb') ?_
      · rw [hpings, hq, List.append_assoc, List.cons_append]
      · rw [enqueue_maxSize]
        exact hlen'
    · rw [hq] at hfirst
      cases pre with
      | nil =>
        -- the queue drops `a` and retains `b`
        obtain ⟨rfl, rfl⟩ := List.cons.inj hfirst
        intro hall
        have hdrop := hall.of_prefix (dropped_prefix_enqueueAll (q.enqueue ping) ps)
        rw [DropsOldest, hdropped] at hdrop
        exact absurd (hdrop _ List.mem_concat_self b hb') (not_le.2 hlt)
      | cons p pre =>
        rw [List.cons_append, List.cons.injEq] at hfirst
        obtain ⟨rfl, hrest⟩ := hfirst
        refine @ih _ pre (mid ++ [ping]) ?_ (List.mem_append_left _ hb') ?_
        · rw [hpings, ← hrest, List.append_assoc, List.cons_append]
        · rw [enqueue_maxSize]
          exact hlen'

end PingQueue

variable {K : Type}

namespace Transmission

/-! ## The transmitter's queue -/

/-- Whatever the transmitter's queue has dropped was no later than any ping it retained then. -/
def DropsOldest (c : Transmission K) : Prop := c.queue.DropsOldest Submission.timestamp

/-- No ping whose send has failed is put back behind a later one. -/
def PutsBackLatest (c : Transmission K) (e : TransmitterEvent K) : Prop :=
  ∀ x ∈ c.putsBack e, ∀ y ∈ c.queue.pings, y.timestamp ≤ x.timestamp

instance (c : Transmission K) (e : TransmitterEvent K) : Decidable (c.PutsBackLatest e) :=
  inferInstanceAs (Decidable (∀ x ∈ c.putsBack e, ∀ y ∈ c.queue.pings, _))

/-- The batches of the running flushes are in chronological order. -/
def BatchesInOrder (c : Transmission K) : Prop :=
  ∀ s ∈ c.calls, s.held.Pairwise fun x y => x.timestamp ≤ y.timestamp

/-- The queue and the batches are in chronological order, and what the queue has dropped was. -/
structure Chronological (c : Transmission K) : Prop where
  accounted : c.Accounted
  batches : c.BatchesInOrder
  queue : c.queue.Chronological Submission.timestamp
  dropsOldest : c.DropsOldest

section Step

variable (sort : TimestampSort (Submission.timestamp (K := K))) {c : Transmission K}

/-- What a flush comes to: a batch in order, with the queue as it was or emptied. -/
theorem flush_cases (t : PingTransmitter (Submission K)) :
    ((t.flush sort).1.held.Pairwise fun x y => x.timestamp ≤ y.timestamp) ∧
      ((t.flush sort).2.queue = t.queue ∨ (t.flush sort).2.queue = t.queue.cleared) := by
  have hchron := sort.chronological t.queue.pings
  rw [PingTransmitter.flush]
  split
  · exact ⟨List.Pairwise.nil, .inl rfl⟩
  · simp only [PingQueue.drainInOrder]
    cases hdrained : sort.sort t.queue.pings with
    | nil => exact ⟨List.Pairwise.nil, .inr rfl⟩
    | cons first pending =>
      rw [hdrained] at hchron
      exact ⟨hchron, .inr rfl⟩

theorem setOnline_cases (online : Bool) (t : PingTransmitter (Submission K)) :
    ((t.setOnline sort online).1.held.Pairwise fun x y => x.timestamp ≤ y.timestamp) ∧
      ((t.setOnline sort online).2.queue = t.queue ∨
        (t.setOnline sort online).2.queue = t.queue.cleared) := by
  unfold PingTransmitter.setOnline
  dsimp only
  split
  · exact flush_cases sort { t with online := online }
  · exact ⟨List.Pairwise.nil, .inl rfl⟩

theorem BatchesInOrder.call (hc : c.BatchesInOrder)
    {r : CallStage (Submission K) × PingTransmitter (Submission K)}
    (hr : r.1.held.Pairwise fun x y => x.timestamp ≤ y.timestamp) : (c.call r).BatchesInOrder := by
  intro s hs
  rcases List.mem_append.1 hs with hs | hs
  · exact hc s hs
  · rw [List.mem_singleton.1 hs]
    exact hr

theorem BatchesInOrder.step (hc : c.BatchesInOrder) (e : TransmitterEvent K) :
    (c.step sort e).BatchesInOrder := by
  cases e with
  | submit ping =>
    refine hc.call (r := c.transmitter.submit ⟨c.calls.length, ping⟩) ?_
    rw [PingTransmitter.submit]
    split
    · exact List.Pairwise.nil
    · exact List.pairwise_singleton _ _
  | setOnline online => exact hc.call (setOnline_cases sort online _).1
  | flush => exact hc.call (flush_cases sort _).1
  | sinkCompletes i ok =>
    cases hs : c.calls[i]? with
    | none =>
      rw [step_sinkCompletes_none sort hs]
      exact hc
    | some s =>
      rw [step_sinkCompletes sort hs]
      intro s' hs'
      rcases List.mem_or_eq_of_mem_set hs' with hs' | rfl
      · exact hc s' hs'
      · exact (hc s (List.mem_of_getElem? hs)).sublist
          (PingTransmitter.held_resume_sublist ok s c.transmitter)

/-- What an event puts back is in order. -/
theorem BatchesInOrder.putsBack (hc : c.BatchesInOrder) (e : TransmitterEvent K) :
    (c.putsBack e).Pairwise fun x y => x.timestamp ≤ y.timestamp := by
  cases e with
  | sinkCompletes i ok =>
    rw [Transmission.putsBack]
    cases hs : c.calls[i]? with
    | none => exact List.Pairwise.nil
    | some s => exact (hc s (List.mem_of_getElem? hs)).sublist (s.putBack_sublist ok)
  | _ => exact List.Pairwise.nil

theorem Accounted.submitted_of_queued (hc : c.Accounted) {x : Submission K}
    (hx : x ∈ c.queue.pings) : x ∈ c.submitted :=
  hc.conserves.only .queued x hx

/-- The queue takes pings in order, or it is as it was or emptied. -/
theorem queue_step_cases (hc : c.Chronological) {e : TransmitterEvent K}
    (hsubmits : c.SubmitsInOrder e) (hback : c.PutsBackLatest e) :
    (∃ ps, (c.step sort e).queue = c.queue.enqueueAll ps ∧
      (c.queue.pings ++ ps).Pairwise fun x y => x.timestamp ≤ y.timestamp) ∨
      (c.step sort e).queue = c.queue.cleared := by
  have hsame : (c.step sort e).queue = c.queue → ∃ ps,
      (c.step sort e).queue = c.queue.enqueueAll ps ∧
        (c.queue.pings ++ ps).Pairwise fun x y => x.timestamp ≤ y.timestamp :=
    fun hq => ⟨[], hq, by rw [List.append_nil]; exact hc.queue⟩
  cases e with
  | submit ping =>
    left
    cases honline : c.transmitter.online with
    | true => exact hsame (by simp [step, call, queue, PingTransmitter.submit, honline])
    | false =>
      refine ⟨[⟨c.calls.length, ping⟩], ?_, ?_⟩
      · simp [step, call, queue, PingTransmitter.submit, honline]
      · refine List.pairwise_append.2 ⟨hc.queue, List.pairwise_singleton _ _, fun x hx y hy => ?_⟩
        exact hsubmits x (hc.accounted.submitted_of_queued hx) y hy
  | setOnline online => exact (setOnline_cases sort online c.transmitter).2.imp_left hsame
  | flush => exact (flush_cases sort c.transmitter).2.imp_left hsame
  | sinkCompletes i ok =>
    refine .inl ⟨_, queue_sinkCompletes sort c i ok, List.pairwise_append.2
      ⟨hc.queue, hc.batches.putsBack _, fun x hx y hy => ?_⟩⟩
    exact hback y hy x hx

theorem Chronological.step (hc : c.Chronological) {e : TransmitterEvent K}
    (hsubmits : c.SubmitsInOrder e) (hback : c.PutsBackLatest e) :
    (c.step sort e).Chronological := by
  refine ⟨(advance sort c e).accounted hc.accounted, hc.batches.step sort e, ?_, ?_⟩
  · rcases queue_step_cases sort hc hsubmits hback with ⟨ps, hq, hps⟩ | hq
    · rw [hq]
      exact PingQueue.Chronological.enqueueAll hps
    · rw [hq]
      exact List.Pairwise.nil
  · rw [DropsOldest]
    rcases queue_step_cases sort hc hsubmits hback with ⟨ps, hq, hps⟩ | hq
    · rw [hq]
      exact hc.dropsOldest.enqueueAll hps
    · rw [hq]
      exact hc.dropsOldest

end Step

/-! ## After a ping is put back behind a later one -/

section PutBack

variable (sort : TimestampSort (Submission.timestamp (K := K))) {c : Transmission K}

/-- Pings submitted offline go on the queue. -/
theorem queue_run_submit (honline : c.transmitter.online = false) (ping : LocationPing K) (n : ℕ) :
    ∃ ps, ps.length = n ∧
      (Runs.run (step sort) c (.replicate n (.submit ping))).queue = c.queue.enqueueAll ps := by
  induction n generalizing c with
  | zero => exact ⟨[], rfl, rfl⟩
  | succ n ih =>
    have hsubmit : c.transmitter.submit ⟨c.calls.length, ping⟩ = (.returned,
        { c.transmitter with queue := c.queue.enqueue ⟨c.calls.length, ping⟩ }) := by
      simp [PingTransmitter.submit, honline, queue]
    obtain ⟨ps, hlen, hps⟩ := ih (c := c.step sort (.submit ping))
      (by simp [step, call, hsubmit, honline])
    refine ⟨⟨c.calls.length, ping⟩ :: ps, by rw [List.length_cons, hlen], ?_⟩
    rw [List.replicate_succ, Runs.run_cons, hps, PingQueue.enqueueAll_cons]
    simp [step, call, hsubmit, queue]

/-- Submitting a ping that is no earlier than any submitted before, any number of times. -/
theorem submitsInOrder_replicate {ping : LocationPing K}
    (hlate : ∀ x ∈ c.submitted, x.timestamp ≤ ping.timestamp) (n : ℕ) :
    Runs.AllSteps (step sort) SubmitsInOrder c (.replicate n (.submit ping)) := by
  induction n generalizing c with
  | zero => trivial
  | succ n ih =>
    refine ⟨fun x hx y hy => ?_, ih fun x hx => ?_⟩
    · rw [List.mem_singleton.1 hy]
      exact hlate x hx
    · rcases List.mem_append.1 hx with hx | hx
      · exact hlate x hx
      · rw [List.mem_singleton.1 hx]
        exact le_refl _

theorem exists_not_dropsOldest (hc : c.BatchesInOrder) {e : TransmitterEvent K}
    (he : ¬ c.PutsBackLatest e) :
    ∃ es, (∀ e' ∈ es, ∀ i ok, e' ≠ .sinkCompletes i ok) ∧
      Runs.AllSteps (step sort) SubmitsInOrder (c.step sort e) es ∧
      ¬ (Runs.run (step sort) (c.step sort e) es).DropsOldest := by
  simp only [PutsBackLatest, not_forall, not_le] at he
  obtain ⟨x, hx, y, hy, hlt⟩ := he
  obtain ⟨i, ok, rfl⟩ : ∃ i ok, e = .sinkCompletes i ok := by
    cases e with
    | sinkCompletes i ok => exact ⟨i, ok, rfl⟩
    | _ => exact absurd hx List.not_mem_nil
  obtain ⟨pre, mid, hq⟩ := List.append_of_mem hy
  -- the first ping put back is no later than the one that is too early
  obtain ⟨first, rest, hback⟩ := List.exists_cons_of_ne_nil (List.ne_nil_of_mem hx)
  have hfirst : first.timestamp < y.timestamp := by
    have hchron := hc.putsBack (.sinkCompletes i ok)
    rw [hback, List.pairwise_cons] at hchron
    rw [hback] at hx
    rcases List.mem_cons.1 hx with rfl | hx
    · exact hlt
    · exact (hchron.1 x hx).trans_lt hlt
  set c' := c.step sort (.sinkCompletes i ok) with hc'
  obtain ⟨bound, hbound⟩ : ∃ bound, ∀ z ∈ c'.submitted, z.timestamp ≤ bound := by
    obtain ⟨bound, hmax⟩ := ((List.finite_toSet c'.submitted).image Submission.timestamp).bddAbove
    exact ⟨bound, fun z hz => hmax ⟨z, hz, rfl⟩⟩
  let late : LocationPing K := { y.ping with timestamp := bound }
  let offline := c'.step sort (.setOnline false)
  have hoffline : offline.queue = c'.queue := by
    simp [offline, step, call, queue, PingTransmitter.setOnline]
  obtain ⟨ps, hlen, hps⟩ := queue_run_submit sort (c := offline)
    (by simp [offline, step, call, PingTransmitter.setOnline]) late c.queue.maxSize
  refine ⟨.setOnline false :: .replicate c.queue.maxSize (.submit late), ?_, ⟨?_, ?_⟩, ?_⟩
  · intro e' he'
    rcases List.mem_cons.1 he' with rfl | he'
    · simp
    · rw [List.eq_of_mem_replicate he']
      simp
  · exact fun _ _ _ h => absurd h List.not_mem_nil
  · exact submitsInOrder_replicate sort hbound _
  · rw [Runs.run_cons, DropsOldest, hps, hoffline, hc', queue_sinkCompletes,
      PingQueue.enqueueAll, PingQueue.enqueueAll, ← List.foldl_append]
    refine PingQueue.not_dropsOldest_enqueueAll hq (b := first) ?_ hfirst ?_
    · rw [hback]
      simp
    · rw [List.length_append, hlen]
      omega

end PutBack

theorem chronological_start (maxSize : ℕ) (positive : 0 < maxSize) (online : Bool) :
    (start maxSize positive online : Transmission K).Chronological :=
  ⟨accounted_start maxSize positive online, fun _ h => absurd h List.not_mem_nil,
    List.Pairwise.nil, fun _ h => absurd h List.not_mem_nil⟩

end Transmission

/-- Let pings be submitted in chronological order. If no ping whose send has failed is put back on
the queue behind a later one, then whatever the queue drops is at that moment no later than any ping
it retains; and after any step that does put one back so, the run can go on, without another
completed send, to a drop that is later than a ping retained. -/
theorem drops_oldest (sort : TimestampSort (Submission.timestamp (K := K))) (maxSize : ℕ)
    (positive : 0 < maxSize) (online : Bool) (es : List (TransmitterEvent K))
    (hsubmits : Runs.AllSteps (Transmission.step sort) Transmission.SubmitsInOrder
      (.start maxSize positive online) es) :
    (Runs.AllSteps (Transmission.step sort) Transmission.PutsBackLatest
        (.start maxSize positive online) es →
      Runs.Always (Transmission.step sort) Transmission.DropsOldest
        (.start maxSize positive online) es) ∧
    ∀ pre e post, es = pre ++ e :: post →
      ¬ (Runs.run (Transmission.step sort) (.start maxSize positive online) pre).PutsBackLatest e →
      ∃ es', (∀ e' ∈ es', ∀ i ok, e' ≠ .sinkCompletes i ok) ∧
        Runs.AllSteps (Transmission.step sort) Transmission.SubmitsInOrder
          (.start maxSize positive online) (pre ++ e :: es') ∧
        ¬ (Runs.run (Transmission.step sort) (.start maxSize positive online)
          (pre ++ e :: es')).DropsOldest := by
  refine ⟨fun hback => ?_, fun pre e post hes he => ?_⟩
  · have hchron := Runs.always_of_allSteps (I := Transmission.Chronological)
      (fun c e hc hstep => hc.step sort hstep.1 hstep.2)
      (Transmission.chronological_start maxSize positive online) (hsubmits.and hback)
    exact hchron.imp fun _ hc => hc.dropsOldest
  · have hbatches : (Runs.run (Transmission.step sort) (.start maxSize positive online)
        pre).BatchesInOrder :=
      Runs.run_invariant (fun c e hc => hc.step sort e)
        (Transmission.chronological_start maxSize positive online).batches pre
    obtain ⟨es', hes', hlater, hnot⟩ := Transmission.exists_not_dropsOldest sort hbatches he
    rw [hes, Runs.allSteps_append] at hsubmits
    refine ⟨es', hes', ?_, ?_⟩
    · rw [Runs.allSteps_append]
      exact ⟨hsubmits.1, hsubmits.2.1, hlater⟩
    · rwa [Runs.run_append, Runs.run_cons]

/-- The queue of `bothFail` drops the later ping and keeps the earlier one. -/
theorem bothFail_drops_later :
    ¬ ∀ es : List (TransmitterEvent ℤ),
      Runs.AllSteps (Transmission.step (.stable _)) Transmission.SubmitsInOrder
        (.start 1 Nat.one_pos false) es →
      Runs.Always (Transmission.step (.stable _)) Transmission.DropsOldest
        (.start 1 Nat.one_pos false) es := by
  intro hall
  have hlast := (hall bothFail (by decide +kernel)).last
  have hdrop := hlast ⟨⟨2, ⟨"v", 0, 0, 2, none, none, none⟩⟩,
    [⟨0, ⟨"v", 0, 0, 1, none, none, none⟩⟩]⟩ (by decide +kernel)
  exact absurd (hdrop _ (List.mem_singleton_self _)) (by decide +kernel)

/-- Two pings are submitted offline; the sends of both fail in the flush that follows and they are
put back; a third one, submitted offline again, finds the queue of two places full. -/
def flushFails : List (TransmitterEvent ℤ) :=
  [.submit ⟨"v", 0, 0, 1, none, none, none⟩, .submit ⟨"v", 0, 0, 2, none, none, none⟩,
    .setOnline true, .sinkCompletes 2 false, .sinkCompletes 2 false, .setOnline false,
    .submit ⟨"v", 0, 0, 3, none, none, none⟩]

/-- The queue drops the earliest of the three. -/
theorem flushFails_drops_earliest :
    Runs.Always (Transmission.step (.stable _)) Transmission.DropsOldest
        (.start 2 Nat.two_pos false) flushFails ∧
      ((Runs.run (Transmission.step (.stable _)) (.start 2 Nat.two_pos false)
        flushFails).queue.dropped.map fun d => d.ping.timestamp) = [1] :=
  ⟨(drops_oldest (.stable _) 2 Nat.two_pos false flushFails (by decide +kernel)).1
    (by decide +kernel), by decide +kernel⟩

end FleetCommand.Driver
