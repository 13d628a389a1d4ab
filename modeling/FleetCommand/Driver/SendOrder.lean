import FleetCommand.Driver.PingConservation

/-!
# The order of the sends

Pings submitted in chronological order need not be sent in it: a ping submitted online can be sent
while older ones wait in a flush, and a ping whose send fails is sent after the rest of its batch.
The sends are in order as long as no ping is sent while an older one is outstanding, and then the
ingestion service discards none as stale (`AheadOfOutstanding.delivers`). After a ping that is sent
before an older one the run can go on, without another submission, to a state in which the older one
has been sent after it (`CanSend.of_outstanding`).
-/

set_option autoImplicit false

namespace FleetCommand.Driver

open Ingestion (LocationPing Time isStale MemoryHighWaterMark)

variable {K : Type}

/-! ## The staleness check -/

/-- The instant of a timestamp in epoch milliseconds. -/
def instant (p : LocationPing K) : Time := p.timestamp * 1000000

/-- For each of the pings that the service takes in turn, whether the staleness check discards it;
one that is not discarded advances the mark of its vehicle. -/
def discards (marks : MemoryHighWaterMark) : List (LocationPing K) → List Bool
  | [] => []
  | p :: ps =>
    let stale := isStale (instant p) (marks.latest p.vehicleId)
    stale :: discards (if stale then marks else marks.advance p.vehicleId (instant p)) ps

/-- Pings in chronological order, none before a mark, are not stale. -/
theorem discards_of_chronological {marks : MemoryHighWaterMark} {ps : List (LocationPing K)}
    (hps : ps.Pairwise fun p p' => p.timestamp ≤ p'.timestamp)
    (hmarks : ∀ v t, marks.latest v = some t → ∀ p ∈ ps, t ≤ instant p) :
    true ∉ discards marks ps := by
  induction ps generalizing marks with
  | nil => exact List.not_mem_nil
  | cons p ps ih =>
    rw [List.pairwise_cons] at hps
    have hfresh : isStale (instant p) (marks.latest p.vehicleId) = false := by
      cases hlatest : marks.latest p.vehicleId with
      | none => rfl
      | some t =>
        have ht := hmarks _ t hlatest p List.mem_cons_self
        simpa [isStale] using ht
    simp only [discards, hfresh, Bool.false_eq_true, if_false, List.mem_cons, false_or,
      reduceCtorEq]
    refine ih hps.2 fun v t hv p' hp' => ?_
    rw [MemoryHighWaterMark.latest_advance] at hv
    have hp : instant p ≤ instant p' :=
      Int.mul_le_mul_of_nonneg_right (hps.1 p' hp') (by decide)
    split at hv
    · obtain rfl := Option.some.inj hv
      cases hlatest : marks.latest p.vehicleId with
      | none => exact hp
      | some cur =>
        exact max_le (hmarks _ cur hlatest p' (List.mem_cons_of_mem _ hp')) hp
    · exact hmarks v t hv p' (List.mem_cons_of_mem _ hp')

namespace Transmission

/-! ## Sends before older pings -/

/-- The pings that are neither sent nor dropped. -/
def outstanding (c : Transmission K) : List (Submission K) := c.held ++ c.queue.pings

/-- Pings are submitted in chronological order. -/
def SubmitsInOrder (c : Transmission K) (e : TransmitterEvent K) : Prop :=
  ∀ x ∈ c.submitted, ∀ y ∈ c.submits e, x.timestamp ≤ y.timestamp

/-- The pings that calls hold, and those the queue keeps with the ones that the event puts back. -/
def remains (c : Transmission K) (e : TransmitterEvent K) : List (Submission K) :=
  c.held ++ (c.queue.pings ++ c.putsBack e).rtake c.queue.maxSize

/-- A ping that is sent successfully is no later than any that remains. -/
def SendsOldest (c : Transmission K) (e : TransmitterEvent K) : Prop :=
  ∀ x ∈ c.succeeds e, ∀ y ∈ c.remains e, x.timestamp ≤ y.timestamp

instance (c : Transmission K) (e : TransmitterEvent K) : Decidable (c.SubmitsInOrder e) :=
  inferInstanceAs (Decidable (∀ x ∈ c.submitted, ∀ y ∈ c.submits e, _))

instance (c : Transmission K) (e : TransmitterEvent K) : Decidable (c.SendsOldest e) :=
  inferInstanceAs (Decidable (∀ x ∈ c.succeeds e, ∀ y ∈ c.remains e, _))

/-- The successful sends are in chronological order, and the ingestion service, which takes them in
that order, discards none of them as stale. -/
structure DeliversInOrder (c : Transmission K) : Prop where
  chronological : c.sent.Pairwise fun x y => x.timestamp ≤ y.timestamp
  fresh : true ∉ discards .new (c.sent.map Submission.ping)

/-- What has been sent is in order and no later than what is outstanding. -/
structure AheadOfOutstanding (c : Transmission K) : Prop where
  accounted : c.Accounted
  chronological : c.sent.Pairwise fun x y => x.timestamp ≤ y.timestamp
  ahead : ∀ x ∈ c.sent, ∀ y ∈ c.outstanding, x.timestamp ≤ y.timestamp

theorem AheadOfOutstanding.delivers {c : Transmission K} (h : c.AheadOfOutstanding) :
    c.DeliversInOrder where
  chronological := h.chronological
  fresh := discards_of_chronological (List.pairwise_map.2 h.chronological) (by simp)

/-- The call whose send succeeds. -/
theorem exists_of_mem_succeeds {c : Transmission K} {e : TransmitterEvent K} {x : Submission K}
    (hx : x ∈ c.succeeds e) :
    ∃ i s, e = .sinkCompletes i true ∧ c.calls[i]? = some s ∧ s.awaited = some x := by
  cases e with
  | sinkCompletes i ok =>
    cases ok with
    | true =>
      obtain ⟨s, hs, hawaited⟩ := Option.bind_eq_some_iff.1 (Option.mem_toList.1 hx)
      exact ⟨i, s, rfl, hs, hawaited⟩
    | false => exact absurd hx List.not_mem_nil
  | _ => exact absurd hx List.not_mem_nil

theorem mem_held {c : Transmission K} {i : ℕ} {s : CallStage (Submission K)}
    (hs : c.calls[i]? = some s) {x : Submission K} (hx : x ∈ s.held) : x ∈ c.held :=
  List.mem_flatMap.2 ⟨s, List.mem_of_getElem? hs, hx⟩

theorem mem_outstanding_of_mem_succeeds {c : Transmission K} {e : TransmitterEvent K}
    {x : Submission K} (hx : x ∈ c.succeeds e) : x ∈ c.outstanding := by
  obtain ⟨i, s, -, hs, hawaited⟩ := exists_of_mem_succeeds hx
  exact List.mem_append_left _ (mem_held hs (CallStage.mem_held_of_awaited hawaited))

section Remains

variable (sort : TimestampSort (Submission.timestamp (K := K))) {c : Transmission K} {i : ℕ}
  {s : CallStage (Submission K)} {y : Submission K}

theorem mem_remains_of_mem_outstanding (hs : c.calls[i]? = some s) (ok : Bool)
    (hy : y ∈ (c.step sort (.sinkCompletes i ok)).outstanding) :
    y ∈ c.remains (.sinkCompletes i ok) := by
  rw [remains, ← PingQueue.pings_enqueueAll, ← queue_sinkCompletes sort]
  rcases List.mem_append.1 hy with hy | hy
  · refine List.mem_append_left _ ?_
    rw [step_sinkCompletes sort hs] at hy
    obtain ⟨s', hs', hy⟩ := List.mem_flatMap.1 hy
    rcases List.mem_or_eq_of_mem_set hs' with hs' | rfl
    · exact List.mem_flatMap.2 ⟨s', hs', hy⟩
    · exact mem_held hs ((PingTransmitter.held_resume_sublist ok s _).subset hy)
  · exact List.mem_append_right _ hy

/-- What remains after a send, apart from the ping sent, is outstanding: no call holds more than the
queue has room for, so what it puts back stays. -/
theorem mem_outstanding_of_mem_remains (hc : c.Fits) (hs : c.calls[i]? = some s) (ok : Bool)
    (hne : s.awaited ≠ some y) (hy : y ∈ c.remains (.sinkCompletes i ok)) :
    y ∈ (c.step sort (.sinkCompletes i ok)).outstanding := by
  have hback : c.putsBack (.sinkCompletes i ok) = s.putBack ok := by rw [putsBack, hs]; rfl
  have hqueue : (c.step sort (.sinkCompletes i ok)).queue.pings =
      (c.queue.pings ++ s.putBack ok).rtake c.queue.maxSize := by
    rw [queue_sinkCompletes, hback, PingQueue.pings_enqueueAll]
  have hcalls : (c.step sort (.sinkCompletes i ok)).calls =
      c.calls.set i (c.transmitter.resume ok s).1 := by rw [step_sinkCompletes sort hs]
  obtain ⟨hi, hget⟩ := List.getElem?_eq_some_iff.1 hs
  rw [outstanding, hqueue]
  rw [remains, hback] at hy
  rcases List.mem_append.1 hy with hy | hy
  · obtain ⟨s', hs', hy⟩ := List.mem_flatMap.1 hy
    obtain ⟨j, hj, rfl⟩ := List.mem_iff_getElem.1 hs'
    rcases eq_or_ne j i with rfl | hji
    · rw [hget] at hy
      rcases PingTransmitter.held_cases ok s c.transmitter hy with hy | hy | hy
      · exact absurd hy hne
      · refine List.mem_append_left _ (mem_held (i := j) ?_ hy)
        rw [hcalls, List.getElem?_set_self hi]
      · refine List.mem_append_right _ (Window.mem_rtake_append_of_mem ?_ hy)
        exact (s.putBack_sublist ok).length_le.trans (hc s (List.mem_of_getElem? hs))
    · refine List.mem_append_left _ (mem_held (i := j) ?_ hy)
      rw [hcalls, List.getElem?_set_ne hji.symm, List.getElem?_eq_getElem hj]
  · exact List.mem_append_right _ hy

end Remains

/-- At most one send completes. -/
theorem pairwise_succeeds (c : Transmission K) (e : TransmitterEvent K)
    {R : Submission K → Submission K → Prop} : (c.succeeds e).Pairwise R := by
  cases e with
  | sinkCompletes i ok =>
    cases ok with
    | true =>
      show (c.awaitedBy i).toList.Pairwise R
      cases c.awaitedBy i with
      | none => exact List.Pairwise.nil
      | some x => exact List.pairwise_singleton R x
    | false => exact List.Pairwise.nil
  | _ => exact List.Pairwise.nil

/-- Only a submitted ping comes to be outstanding. -/
theorem Advance.mem_outstanding {c c' : Transmission K} {e : TransmitterEvent K}
    (h : c.Advance e c') {x : Submission K} (hx : x ∈ c'.outstanding) :
    x ∈ c.outstanding ∨ x ∈ c.submits e := by
  classical
  have hcount := h.conserves x
  obtain ⟨more, hdropped⟩ := h.dropped
  have hdropped' : c'.dropped = c.dropped ++ more.map Drop.ping := by
    rw [Transmission.dropped, Transmission.dropped, ← hdropped, List.map_append]
  have hpos : 0 < c'.outstanding.count x := List.count_pos_iff.2 hx
  rw [← List.count_pos_iff, ← List.count_pos_iff, outstanding, List.count_append]
  rw [outstanding, List.count_append] at hpos
  rw [hdropped', h.sent, List.count_append, List.count_append] at hcount
  omega

theorem Accounted.submitted_of_sent {c : Transmission K} (h : c.Accounted) {x : Submission K}
    (hx : x ∈ c.sent) : x ∈ c.submitted :=
  h.conserves.only .sent x hx

theorem AheadOfOutstanding.step {c : Transmission K} {e : TransmitterEvent K}
    (hc : c.AheadOfOutstanding) (sort : TimestampSort (Submission.timestamp (K := K)))
    (hsubmits : c.SubmitsInOrder e) (hsends : c.SendsOldest e) :
    (c.step sort e).AheadOfOutstanding := by
  have h := advance sort c e
  refine ⟨h.accounted hc.accounted, ?_, fun x hx y hy => ?_⟩
  · rw [h.sent, List.pairwise_append]
    exact ⟨hc.chronological, c.pairwise_succeeds e, fun x hx y hy =>
      hc.ahead x hx y (mem_outstanding_of_mem_succeeds hy)⟩
  · rw [h.sent] at hx
    rcases List.mem_append.1 hx with hx | hx
    · rcases h.mem_outstanding hy with hy | hy
      · exact hc.ahead x hx y hy
      · -- a ping just submitted is no earlier than any submitted before
        exact hsubmits x (hc.accounted.submitted_of_sent hx) y hy
    · obtain ⟨i, s, rfl, hs, -⟩ := exists_of_mem_succeeds hx
      exact hsends x hx y (mem_remains_of_mem_outstanding sort hs true hy)

/-! ## After a send before an older ping -/

/-- The run can go on, without another submission, so that the ping is sent. -/
def CanSend (sort : TimestampSort (Submission.timestamp (K := K))) (c : Transmission K)
    (x : Submission K) : Prop :=
  ∃ es news, (∀ e ∈ es, ∀ ping, e ≠ .submit ping) ∧
    (Runs.run (step sort) c es).sent = c.sent ++ news ∧ x ∈ news

section CanSend

variable {sort : TimestampSort (Submission.timestamp (K := K))} {c : Transmission K}
  {x : Submission K} {i : ℕ}

theorem CanSend.of_step {e : TransmitterEvent K} (he : ∀ ping, e ≠ .submit ping)
    (h : CanSend sort (c.step sort e) x) : CanSend sort c x := by
  obtain ⟨es, news, hes, hsent, hx⟩ := h
  refine ⟨e :: es, c.succeeds e ++ news, ?_, ?_, List.mem_append_right _ hx⟩
  · intro e' he'
    rcases List.mem_cons.1 he' with rfl | he'
    · exact he
    · exact hes e' he'
  · rw [Runs.run_cons, hsent, (advance sort c e).sent, List.append_assoc]

theorem CanSend.of_awaited {s : CallStage (Submission K)} (hs : c.calls[i]? = some s)
    (hx : s.awaited = some x) : CanSend sort c x := by
  refine ⟨[.sinkCompletes i true], [x], by simp, ?_, List.mem_singleton_self x⟩
  rw [Runs.run_cons, Runs.run_nil, step_sinkCompletes sort hs, hx]
  rfl

/-- A flush whose send fails goes on with the next ping. -/
theorem flushing_next {ping next : Submission K} {pending failed : List (Submission K)}
    (hs : c.calls[i]? = some (.flushing ping (next :: pending) failed)) :
    (c.step sort (.sinkCompletes i false)).calls[i]? =
      some (.flushing next pending (failed ++ [ping])) := by
  obtain ⟨hi, -⟩ := List.getElem?_eq_some_iff.1 hs
  rw [step_sinkCompletes sort hs, List.getElem?_set_self hi]
  rfl

/-- A running flush comes to every ping of its batch that is still to send. -/
theorem CanSend.of_pending {ping : Submission K} {pending failed : List (Submission K)}
    (hs : c.calls[i]? = some (.flushing ping pending failed)) (hx : x ∈ ping :: pending) :
    CanSend sort c x := by
  induction pending generalizing c ping failed with
  | nil =>
    obtain rfl := List.mem_singleton.1 hx
    exact .of_awaited hs rfl
  | cons next pending ih =>
    rcases List.mem_cons.1 hx with rfl | hx
    · exact .of_awaited hs rfl
    · exact .of_step (e := .sinkCompletes i false) (by simp) (ih (flushing_next hs) hx)

/-- A flush of the queue comes to every queued ping. -/
theorem CanSend.of_queued (hx : x ∈ c.queue.pings) : CanSend sort c x := by
  have hmem : x ∈ sort.sort c.queue.pings := (sort.perm _).mem_iff.2 hx
  refine .of_step (e := .flush) (by simp) ?_
  cases hdrained : sort.sort c.queue.pings with
  | nil => simp [hdrained] at hmem
  | cons first pending =>
    have hcalls : (c.step sort .flush).calls[c.calls.length]? =
        some (.flushing first pending []) := by
      have hflush : (c.transmitter.flush sort).1 = .flushing first pending [] := by
        have hne : c.transmitter.queue.pings.isEmpty = false := by
          rw [List.isEmpty_eq_false_iff]
          exact List.ne_nil_of_mem hx
        have hdrained' : sort.sort c.transmitter.queue.pings = first :: pending := hdrained
        simp [PingTransmitter.flush, hne, PingQueue.drainInOrder, hdrained',
          PingTransmitter.flushLoop]
      simp [step, call, hflush]
    exact .of_pending hcalls (hdrained ▸ hmem)

/-- A running flush whose sends fail puts every ping of its batch back on the queue. -/
theorem CanSend.of_batch {ping : Submission K} {pending failed : List (Submission K)}
    (hs : c.calls[i]? = some (.flushing ping pending failed))
    (hfits : (failed ++ ping :: pending).length ≤ c.queue.maxSize)
    (hx : x ∈ failed ++ ping :: pending) : CanSend sort c x := by
  refine .of_step (e := .sinkCompletes i false) (by simp) ?_
  induction pending generalizing c ping failed with
  | nil =>
    refine .of_queued ?_
    have hback : c.putsBack (.sinkCompletes i false) = failed ++ [ping] := by
      rw [putsBack, hs]
      rfl
    rw [queue_sinkCompletes, hback, PingQueue.pings_enqueueAll]
    exact Window.mem_rtake_append_of_mem hfits hx
  | cons next pending ih =>
    have hassoc : failed ++ [ping] ++ next :: pending = failed ++ ping :: next :: pending := by
      rw [List.append_assoc, List.singleton_append]
    have hmax : (c.step sort (.sinkCompletes i false)).queue.maxSize = c.queue.maxSize := by
      rw [queue_sinkCompletes, PingQueue.enqueueAll_maxSize]
    refine .of_step (e := .sinkCompletes i false) (by simp) (ih (flushing_next hs) ?_ ?_)
    · rw [hassoc, hmax]
      exact hfits
    · rw [hassoc]
      exact hx

/-- Every outstanding ping can still be sent. -/
theorem CanSend.of_outstanding (hc : c.Fits) (hx : x ∈ c.outstanding) : CanSend sort c x := by
  rcases List.mem_append.1 hx with hx | hx
  · obtain ⟨s, hs, hx⟩ := List.mem_flatMap.1 hx
    have hfits := hc s hs
    obtain ⟨i, hi, rfl⟩ := List.mem_iff_getElem.1 hs
    have hcall := List.getElem?_eq_getElem hi
    cases hstage : c.calls[i] with
    | submitting ping =>
      rw [hstage] at hx hcall
      exact .of_awaited hcall (congrArg some (List.mem_singleton.1 hx).symm)
    | flushing ping pending failed =>
      rw [hstage] at hx hcall hfits
      exact .of_batch hcall hfits hx
    | returned =>
      rw [hstage] at hx
      exact absurd hx List.not_mem_nil
  · exact .of_queued hx

end CanSend

theorem aheadOfOutstanding_start (maxSize : ℕ) (positive : 0 < maxSize) (online : Bool) :
    (start maxSize positive online : Transmission K).AheadOfOutstanding :=
  ⟨accounted_start maxSize positive online, List.Pairwise.nil, fun _ h => absurd h List.not_mem_nil⟩

/-- Once a ping has been sent before an older one that remains, the older one can follow it. -/
theorem exists_not_deliversInOrder (sort : TimestampSort (Submission.timestamp (K := K)))
    {c : Transmission K} (hc : c.Fits) {e : TransmitterEvent K} (he : ¬ c.SendsOldest e) :
    ∃ es, (∀ e' ∈ es, ∀ ping, e' ≠ .submit ping) ∧
      ¬ (Runs.run (step sort) (c.step sort e) es).DeliversInOrder := by
  simp only [SendsOldest, not_forall, not_le] at he
  obtain ⟨x, hx, y, hy, hlt⟩ := he
  obtain ⟨i, s, rfl, hs, hawaited⟩ := exists_of_mem_succeeds hx
  have hne : s.awaited ≠ some y := by
    rw [hawaited]
    rintro heq
    rw [Option.some.inj heq] at hlt
    exact lt_irrefl _ hlt
  have hfits := (advance sort c (.sinkCompletes i true)).fits hc
  have hy' := mem_outstanding_of_mem_remains sort hc hs true hne hy
  obtain ⟨es, news, hes, hsent, hnew⟩ : CanSend sort _ y := .of_outstanding hfits hy'
  refine ⟨es, hes, fun hin => ?_⟩
  have hchron := hin.chronological
  rw [hsent, List.pairwise_append] at hchron
  have hxsent : x ∈ (c.step sort (.sinkCompletes i true)).sent := by
    rw [(advance sort c _).sent]
    exact List.mem_append_right _ hx
  exact absurd (hchron.2.2 x hxsent y hnew) (not_le.2 hlt)

end Transmission

/-- Let pings be submitted in chronological order. If no ping is sent successfully while an older
one remains, then at every moment the successful sends are in chronological order and the ingestion
service discards none of them; and after any step that does send one, the run can go on, without
another submission, to a state where they are not. -/
theorem sends_in_order (sort : TimestampSort (Submission.timestamp (K := K))) (maxSize : ℕ)
    (positive : 0 < maxSize) (online : Bool) (es : List (TransmitterEvent K))
    (hsubmits : Runs.AllSteps (Transmission.step sort) Transmission.SubmitsInOrder
      (Transmission.start maxSize positive online) es) :
    (Runs.AllSteps (Transmission.step sort) Transmission.SendsOldest
        (Transmission.start maxSize positive online) es →
      Runs.Always (Transmission.step sort) Transmission.DeliversInOrder
        (Transmission.start maxSize positive online) es) ∧
    ∀ pre e post, es = pre ++ e :: post →
      ¬ (Runs.run (Transmission.step sort) (.start maxSize positive online) pre).SendsOldest e →
      ∃ es', (∀ e' ∈ es', ∀ ping, e' ≠ .submit ping) ∧
        ¬ (Runs.run (Transmission.step sort) (.start maxSize positive online)
          (pre ++ e :: es')).DeliversInOrder := by
  refine ⟨fun hsends => ?_, fun pre e post _ he => ?_⟩
  · have hahead := Runs.always_of_allSteps (I := Transmission.AheadOfOutstanding)
      (fun c e hc hstep => hc.step sort hstep.1 hstep.2)
      (Transmission.aheadOfOutstanding_start maxSize positive online) (hsubmits.and hsends)
    exact hahead.imp fun _ hc => hc.delivers
  · obtain ⟨es', hes', hnot⟩ := Transmission.exists_not_deliversInOrder sort
      (Transmission.sound_run sort maxSize positive online pre).fits he
    refine ⟨es', hes', ?_⟩
    rwa [Runs.run_append, Runs.run_cons]

/-- Two pings are buffered; on the flush the send of the first fails and that of the second
succeeds, and the next flush sends the first. -/
def retriedLast : List (TransmitterEvent ℤ) :=
  [.submit ⟨"v", 0, 0, 1, none, none, none⟩, .submit ⟨"v", 0, 0, 2, none, none, none⟩,
    .setOnline true, .sinkCompletes 2 false, .sinkCompletes 2 true, .flush, .sinkCompletes 3 true]

/-- The first ping follows the second and is discarded as stale. -/
theorem retriedLast_stale :
    ¬ ∀ es : List (TransmitterEvent ℤ),
      Runs.AllSteps (Transmission.step (.stable _)) Transmission.SubmitsInOrder
        (.start kMaxOfflinePings kMaxOfflinePings_pos false) es →
      Runs.Always (Transmission.step (.stable _)) Transmission.DeliversInOrder
        (.start kMaxOfflinePings kMaxOfflinePings_pos false) es := by
  intro hall
  have hlast := (hall retriedLast (by decide +kernel)).last
  exact absurd hlast.fresh (by decide +kernel)

/-- Without the failure the buffered pings arrive in order. -/
theorem flushed_in_order :
    Runs.Always (Transmission.step (.stable _)) Transmission.DeliversInOrder
      (.start kMaxOfflinePings kMaxOfflinePings_pos false)
      ([.submit ⟨"v", 0, 0, 1, none, none, none⟩, .submit ⟨"v", 0, 0, 2, none, none, none⟩,
        .setOnline true, .sinkCompletes 2 true, .sinkCompletes 2 true] :
          List (TransmitterEvent ℤ)) :=
  (sends_in_order (.stable _) kMaxOfflinePings kMaxOfflinePings_pos false _ (by decide +kernel)).1
    (by decide +kernel)

end FleetCommand.Driver
