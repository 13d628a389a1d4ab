import FleetCommand.Driver.Transmitter

/-!
# Conservation of pings

Calls of the transmitter and completed sends interleave in any order. What one event does with the
pings is `Advance`: each ping is held by a call, queued, dropped or sent as often as before, and a
submitted one once more. From it, by induction over the run, every submitted ping is at every moment
at exactly one `Place`, and there once (`pings_conserved`).
-/

set_option autoImplicit false

namespace FleetCommand.Driver

open Ingestion (LocationPing)

variable {K : Type}

namespace Transmission

/-- The ping the event submits. -/
def submits (c : Transmission K) : TransmitterEvent K → List (Submission K)
  | .submit ping => [⟨c.calls.length, ping⟩]
  | _ => []

/-- The ping whose send the event completes successfully. -/
def succeeds (c : Transmission K) : TransmitterEvent K → List (Submission K)
  | .sinkCompletes call true => (c.awaitedBy call).toList
  | _ => []

/-- The pings that the event puts back on the queue, because their send has failed. -/
def putsBack (c : Transmission K) : TransmitterEvent K → List (Submission K)
  | .sinkCompletes call ok => c.calls[call]?.elim [] (CallStage.putBack ok)
  | _ => []

/-- The pings that calls hold. -/
def held (c : Transmission K) : List (Submission K) := c.calls.flatMap CallStage.held

/-- The pings the queue has dropped. -/
def dropped (c : Transmission K) : List (Submission K) := c.queue.dropped.map Drop.ping

/-- No call holds more pings than the queue has room for. -/
def Fits (c : Transmission K) : Prop := ∀ s ∈ c.calls, s.held.length ≤ c.queue.maxSize

/-- What an event does. -/
structure Advance (c : Transmission K) (e : TransmitterEvent K) (c' : Transmission K) : Prop where
  conserves : ∀ [DecidableEq K] (x : Submission K),
    c'.held.count x + c'.queue.pings.count x + c'.dropped.count x + c'.sent.count x =
      c.held.count x + c.queue.pings.count x + c.dropped.count x + c.sent.count x +
        (c.submits e).count x
  sent : c'.sent = c.sent ++ c.succeeds e
  submitted : c'.submitted = c.submitted ++ c.submits e
  dropped : c.queue.dropped <+: c'.queue.dropped
  calls : c.calls.length + (c.submits e).length ≤ c'.calls.length
  fits : c.Fits → c'.Fits

end Transmission

/-- One element of a list changes. -/
theorem count_flatMap_set {α β : Type} [DecidableEq β] (f : α → List β) {l : List α} {i : ℕ} {a : α}
    (h : l[i]? = some a) (b : α) (x : β) :
    ((l.set i b).flatMap f).count x + (f a).count x = (l.flatMap f).count x + (f b).count x := by
  induction l generalizing i with
  | nil => simp at h
  | cons c l ih =>
    cases i with
    | zero =>
      obtain rfl : c = a := by simpa using h
      simp only [List.set_cons_zero, List.flatMap_cons, List.count_append]
      omega
    | succ i =>
      have hi := ih (i := i) (by simpa using h)
      simp only [List.set_cons_succ, List.flatMap_cons, List.count_append]
      omega

namespace Transmission

section Step

variable {c : Transmission K} {taken : List (Submission K)}
  {r : CallStage (Submission K) × PingTransmitter (Submission K)}

theorem count_call [DecidableEq K] (hr : Moves c.queue taken r) (x : Submission K) :
    (c.call r).held.count x + (c.call r).queue.pings.count x + (c.call r).dropped.count x =
      c.held.count x + taken.count x + c.queue.pings.count x + c.dropped.count x := by
  have hcount := hr.conserves x
  simp only [call, held, queue, dropped, List.flatMap_append, List.flatMap_singleton,
    List.count_append] at hcount ⊢
  omega

theorem fits_call (hc : c.Fits) (hr : Moves c.queue taken r)
    (htaken : taken.length ≤ c.queue.maxSize) : (c.call r).Fits := by
  intro s hs
  have hmax : (c.call r).queue.maxSize = c.queue.maxSize := hr.maxSize
  rw [hmax]
  rcases List.mem_append.1 hs with hs | hs
  · exact hc s hs
  · rw [List.mem_singleton.1 hs]
    exact hr.fits htaken

/-- A call that takes no ping from outside. -/
theorem advance_call {e : TransmitterEvent K} (he : c.submits e = []) (he' : c.succeeds e = [])
    (hr : Moves c.queue [] r) : c.Advance e (c.call r) where
  conserves x := by
    have hcount := count_call hr x
    have hsent : (c.call r).sent = c.sent := rfl
    rw [List.count_nil] at hcount
    rw [he, hsent, List.count_nil]
    omega
  sent := by rw [he', List.append_nil]; rfl
  submitted := by rw [he, List.append_nil]; rfl
  dropped := hr.dropped
  calls := by simp [he, call]
  fits hc := fits_call hc hr (Nat.zero_le _)

variable (sort : TimestampSort (Submission.timestamp (K := K)))

theorem advance_submit (c : Transmission K) (ping : LocationPing K) :
    c.Advance (.submit ping) (c.step sort (.submit ping)) := by
  have hr := PingTransmitter.moves_submit (⟨c.calls.length, ping⟩ : Submission K) c.transmitter
  refine ⟨fun x => ?_, (List.append_nil _).symm, rfl, hr.dropped, ?_,
    fun hc => fits_call hc hr c.queue.positive⟩
  · have hcount := count_call hr x
    simp only [step, submits, held, queue, dropped, call] at hcount ⊢
    omega
  · simp [step, submits, call]

theorem succeeds_sinkCompletes {i : ℕ} {s : CallStage (Submission K)} (hs : c.calls[i]? = some s)
    (ok : Bool) : c.succeeds (.sinkCompletes i ok) = if ok then s.awaited.toList else [] := by
  cases ok with
  | true => simp [succeeds, awaitedBy, hs]
  | false => rfl

theorem advance_sinkCompletes (c : Transmission K) (i : ℕ) (ok : Bool) :
    c.Advance (.sinkCompletes i ok) (c.step sort (.sinkCompletes i ok)) := by
  have hsubmits : c.submits (.sinkCompletes i ok) = [] := rfl
  cases hs : c.calls[i]? with
  | none =>
    have hsucceeds : c.succeeds (.sinkCompletes i ok) = [] := by
      cases ok <;> simp [succeeds, awaitedBy, hs]
    rw [step_sinkCompletes_none sort hs]
    exact ⟨fun _ => rfl, by simp [hsucceeds], by simp [hsubmits], List.prefix_refl _, le_refl _, id⟩
  | some s =>
    obtain ⟨taken, hr, htaken, hheld⟩ := PingTransmitter.moves_resume ok s c.transmitter
    have hsent : (if ok then c.sent ++ s.awaited.toList else c.sent) =
        c.sent ++ if ok then s.awaited.toList else [] := by
      cases ok <;> simp
    rw [step_sinkCompletes sort hs, hsent]
    refine ⟨fun x => ?_, ?_, ?_, hr.dropped, ?_, fun hc s' hs' => ?_⟩
    · have hset := count_flatMap_set CallStage.held hs (c.transmitter.resume ok s).1 x
      have hcount := hr.conserves x
      have hpart := hheld x
      rw [hsubmits, List.count_nil, List.count_append]
      simp only [held, queue, dropped] at *
      omega
    · rw [succeeds_sinkCompletes hs]
    · rw [hsubmits, List.append_nil]
    · simp [hsubmits]
    · have hmax : (c.transmitter.resume ok s).2.queue.maxSize = c.queue.maxSize := hr.maxSize
      rcases List.mem_or_eq_of_mem_set hs' with hs' | rfl
      · exact (hc s' hs').trans_eq hmax.symm
      · exact (hr.fits (htaken.trans (hc s (List.mem_of_getElem? hs)))).trans_eq hmax.symm

theorem queue_sinkCompletes (c : Transmission K) (i : ℕ) (ok : Bool) :
    (c.step sort (.sinkCompletes i ok)).queue =
      c.queue.enqueueAll (c.putsBack (.sinkCompletes i ok)) := by
  cases hs : c.calls[i]? with
  | none =>
    rw [step_sinkCompletes_none sort hs, putsBack, hs]
    rfl
  | some s =>
    rw [step_sinkCompletes sort hs, putsBack, hs]
    exact PingTransmitter.queue_resume ok s c.transmitter

/-- Every event advances the run. -/
theorem advance (c : Transmission K) (e : TransmitterEvent K) : c.Advance e (c.step sort e) := by
  cases e with
  | submit ping => exact advance_submit sort c ping
  | setOnline online => exact advance_call rfl rfl (PingTransmitter.moves_setOnline sort online _)
  | flush => exact advance_call rfl rfl (PingTransmitter.moves_flush sort _)
  | sinkCompletes i ok => exact advance_sinkCompletes sort c i ok

end Step

/-! ## Every run -/

/-- Every submitted ping, and no other, is held, queued, dropped or sent, and once in all. -/
structure Accounted (c : Transmission K) : Prop where
  count : ∀ [DecidableEq K] (x : Submission K),
    c.held.count x + c.queue.pings.count x + c.dropped.count x + c.sent.count x =
      c.submitted.count x
  nodup : c.submitted.Nodup
  made : ∀ x ∈ c.submitted, x.call < c.calls.length

theorem accounted_start (maxSize : ℕ) (positive : 0 < maxSize) (online : Bool) :
    (start maxSize positive online : Transmission K).Accounted :=
  ⟨fun _ => rfl, List.nodup_nil, fun _ h => absurd h List.not_mem_nil⟩

theorem Advance.accounted {c c' : Transmission K} {e : TransmitterEvent K} (h : c.Advance e c')
    (hc : c.Accounted) : c'.Accounted := by
  have hnew : ∀ x ∈ c.submits e, x.call = c.calls.length ∧ (c.submits e).length = 1 := by
    intro x hx
    cases e with
    | submit ping =>
      rw [List.mem_singleton.1 hx]
      exact ⟨rfl, rfl⟩
    | _ => exact absurd hx List.not_mem_nil
  have hcalls := h.calls
  refine ⟨fun x => ?_, ?_, fun x hx => ?_⟩
  · have hcount := hc.count x
    have hstep := h.conserves x
    rw [h.submitted, List.count_append]
    omega
  · rw [h.submitted, List.nodup_append]
    refine ⟨hc.nodup, ?_, fun x hx y hy heq => ?_⟩
    · cases e with
      | submit ping => exact List.nodup_singleton _
      | _ => exact List.nodup_nil
    · -- the new ping is of a call that had not been made
      have hlt := hc.made x hx
      rw [heq, (hnew y hy).1] at hlt
      exact absurd hlt (lt_irrefl _)
  · rw [h.submitted] at hx
    rcases List.mem_append.1 hx with hx | hx
    · have hlt := hc.made x hx
      omega
    · obtain ⟨hcall, hlen⟩ := hnew x hx
      omega

/-- What holds of every run, whatever its events. -/
structure Sound (c : Transmission K) : Prop where
  accounted : c.Accounted
  fits : c.Fits

theorem sound_run (sort : TimestampSort (Submission.timestamp (K := K))) (maxSize : ℕ)
    (positive : 0 < maxSize) (online : Bool) (es : List (TransmitterEvent K)) :
    (Runs.run (step sort) (start maxSize positive online) es).Sound :=
  Runs.run_invariant (I := Sound)
    (fun c e hc => ⟨(advance sort c e).accounted hc.accounted, (advance sort c e).fits hc.fits⟩)
    ⟨accounted_start maxSize positive online, fun _ hs => absurd hs List.not_mem_nil⟩ es

/-- Where a ping can be. -/
inductive Place where
  | inFlight
  | batched
  | queued
  | sent
  | dropped
  deriving DecidableEq

/-- The pings at a place: those whose send is awaited, those waiting in the batch of a running flush
(to be sent, or to be put back after a failed send), those in the queue, those sent successfully,
and those the queue has dropped. -/
def pingsAt (c : Transmission K) : Place → List (Submission K)
  | .inFlight => c.calls.flatMap fun s => s.awaited.toList
  | .batched => c.calls.flatMap CallStage.batch
  | .queued => c.queue.pings
  | .sent => c.sent
  | .dropped => c.dropped

/-- Every submitted ping is at exactly one place, and no place has a ping twice or one that was not
submitted. -/
structure Conserves (c : Transmission K) : Prop where
  place : ∀ x ∈ c.submitted, ∃! p, x ∈ c.pingsAt p
  once : ∀ p, (c.pingsAt p).Nodup
  only : ∀ p, ∀ x ∈ c.pingsAt p, x ∈ c.submitted

theorem count_held [DecidableEq K] (c : Transmission K) (x : Submission K) :
    c.held.count x = (c.pingsAt .inFlight).count x + (c.pingsAt .batched).count x := by
  unfold held pingsAt
  induction c.calls with
  | nil => rfl
  | cons s calls ih =>
    have hs := s.count_held x
    simp only [List.flatMap_cons, List.count_append] at ih ⊢
    omega

theorem Accounted.conserves {c : Transmission K} (h : c.Accounted) : c.Conserves := by
  classical
  -- a ping is once at one place when it was submitted, and nowhere otherwise
  have hsum : ∀ x, (c.pingsAt .inFlight).count x + (c.pingsAt .batched).count x +
      (c.pingsAt .queued).count x + (c.pingsAt .dropped).count x + (c.pingsAt .sent).count x =
      c.submitted.count x := by
    intro x
    rw [← h.count x, c.count_held x]
    rfl
  have hle : ∀ x, c.submitted.count x ≤ 1 := fun x => List.nodup_iff_count_le_one.1 h.nodup x
  have hone : ∀ p x, (c.pingsAt p).count x ≤ c.submitted.count x := by
    intro p x
    have hx := hsum x
    cases p <;> omega
  refine ⟨fun x hx => ?_, fun p => ?_, fun p x hx => ?_⟩
  · have hpos : 0 < c.submitted.count x := List.count_pos_iff.2 hx
    have hx' := hsum x
    have hle' := hle x
    have hother : ∀ p p', x ∈ c.pingsAt p → x ∈ c.pingsAt p' → p' = p := by
      intro p p' hp hp'
      have hp := List.count_pos_iff.2 hp
      have hp' := List.count_pos_iff.2 hp'
      cases p <;> cases p' <;> first | rfl | omega
    obtain ⟨p, hp⟩ : ∃ p, x ∈ c.pingsAt p := by
      by_contra hnone
      have hzero : ∀ p, (c.pingsAt p).count x = 0 := fun p =>
        List.count_eq_zero.2 fun hp => hnone ⟨p, hp⟩
      simp only [hzero] at hx'
      omega
    exact ⟨p, hp, fun p' hp' => hother p p' hp hp'⟩
  · exact List.nodup_iff_count_le_one.2 fun x => (hone p x).trans (hle x)
  · exact List.count_pos_iff.1 ((List.count_pos_iff.2 hx).trans_le (hone p x))

end Transmission

/-- In every run of calls and completed sends, whatever the sends return and however the calls
interleave, every submitted ping is at every moment in exactly one place: in flight, in the drained
batch of a running flush, queued, sent successfully, or dropped; and it is sent successfully at most
once. -/
theorem pings_conserved (sort : TimestampSort (Submission.timestamp (K := K))) (maxSize : ℕ)
    (positive : 0 < maxSize) (online : Bool) (es : List (TransmitterEvent K)) :
    Runs.Always (Transmission.step sort) Transmission.Conserves
      (Transmission.start maxSize positive online) es := by
  rw [Runs.always_iff_splits]
  exact fun pre _ _ => (Transmission.sound_run sort maxSize positive online pre).accounted.conserves

/-- A ping is submitted offline, then a second one online while the flush of the first is in flight;
both sends fail and the queue of one place drops the second. -/
def bothFail : List (TransmitterEvent ℤ) :=
  [.submit ⟨"v", 0, 0, 1, none, none, none⟩, .setOnline true,
    .submit ⟨"v", 0, 0, 2, none, none, none⟩, .sinkCompletes 2 false, .sinkCompletes 1 false]

theorem bothFail_conserved :
    Runs.Always (Transmission.step (.stable _)) Transmission.Conserves
      (Transmission.start 1 Nat.one_pos false) bothFail :=
  pings_conserved (.stable _) 1 Nat.one_pos false bothFail

end FleetCommand.Driver
