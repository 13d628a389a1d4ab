import FleetCommand.Streaming.ZoneEvents

/-!
# Retries without the queue

`ZoneEventDelivery.DeliverWithRetries` makes the initial attempt and the retries of one event in a
single call, without retaining it. For any sender it makes the attempts that `Deliver` and as many
passes of `Retry` as the budget allows make of the event, and stops where they stop
(`synchronous_agrees`): after the first attempt that succeeds, or with the budget used up.
-/

set_option autoImplicit false

namespace FleetCommand.Streaming

open Resumption

section Programs

variable {E : Type}

/-- The retry loop with `left` attempts to go. -/
def sendUpTo (event : E) (retries : ℕ) : ℕ → DeliveryProg E (ℕ × Bool)
  | 0 => return (retries, false)
  | left + 1 => do
    if ← performDelivery (.send event) then
      return (retries + 1, true)
    else
      sendUpTo event (retries + 1) left

/-- The number of retries performed, and whether the event was delivered. -/
def deliverWithRetries (event : E) : DeliveryProg E (ℕ × Bool) := do
  if ← performDelivery (.send event) then
    return (0, true)
  else
    sendUpTo event 0 maxZoneEventRetries

/-- Passes of `retry`, one after the other. -/
def passes : ℕ → DeliveryProg E Unit
  | 0 => return ()
  | n + 1 => do
    let _ ← retry
    passes n

/-- The initial attempt, and then every pass the budget allows. -/
def deliverThenPasses (event : E) : DeliveryProg E Unit := do
  let _ ← deliver event
  passes maxZoneEventRetries

end Programs

section Attempts

variable {E τ : Type} (send : E → τ → Bool × τ) (event : E)

/-- What the sender acts on after `n` attempts. -/
def afterSends (t : τ) : ℕ → τ
  | 0 => t
  | n + 1 => (send event (afterSends t n)).2

/-- Whether the attempt after `n` others succeeds. -/
def succeeds (t : τ) (n : ℕ) : Bool := (send event (afterSends send event t n)).1

/-- The event with `retries` made, while it is within the budget. -/
def held (retries : ℕ) : List (PendingZoneEvent E) :=
  if retries < maxZoneEventRetries then [⟨event, retries⟩] else []

/-- A send, and what follows it in either case. -/
theorem run_send {α : Type} (p q : DeliveryProg E α) (d : ZoneEventDelivery E τ) :
    (do if ← performDelivery (.send event) then p else q).run (zoneEventDelivery send) d =
      if (send event d.sender).1 then
        p.run (zoneEventDelivery send) { d with sender := (send event d.sender).2 }
      else q.run (zoneEventDelivery send) { d with sender := (send event d.sender).2 } := by
  show (if (send event d.sender).1 = true then p else q).run (zoneEventDelivery send) _ = _
  split <;> rfl

theorem run_retry_nil (s : τ) :
    (retry (E := E)).run (zoneEventDelivery send) ⟨[], s⟩ = (0, ⟨[], s⟩) := rfl

/-- One attempt for the event: dropped when it is delivered, and otherwise held with one more. -/
theorem run_retryLoop_one (retries : ℕ) (d : ZoneEventDelivery E τ) :
    (retryLoop [] [⟨event, retries⟩]).run (zoneEventDelivery send) d =
      (if (send event d.sender).1 then [] else held event (retries + 1),
        { d with sender := (send event d.sender).2 }) := by
  rw [retryLoop, run_send, held]
  split
  · rfl
  · split <;> rfl

theorem run_retryBatch (keep batch : List (PendingZoneEvent E)) (d : ZoneEventDelivery E τ) :
    (retryBatch keep batch).run (zoneEventDelivery send) d =
      let (kept, d) := (retryLoop keep batch).run (zoneEventDelivery send) d
      ((kept ++ d.pending).length, { d with pending := kept ++ d.pending }) := by
  rw [retryBatch, Prog.run_bind]
  rfl

/-- A pass over the one event. -/
theorem run_retry_held {retries : ℕ} (hretries : retries < maxZoneEventRetries) (s : τ) :
    ((retry (E := E)).run (zoneEventDelivery send) ⟨held event retries, s⟩).2 =
      ⟨if (send event s).1 then [] else held event (retries + 1), (send event s).2⟩ := by
  have hbatch := run_retryBatch send [] [⟨event, retries⟩] ⟨[], s⟩
  rw [run_retryLoop_one] at hbatch
  rw [held, if_pos hretries, retry, performDelivery, Prog.perform_bind, Prog.run_call]
  simp only [zoneEventDelivery] at hbatch ⊢
  rw [hbatch, List.append_nil]

theorem run_passes_nil (n : ℕ) (s : τ) :
    ((passes (E := E) n).run (zoneEventDelivery send) ⟨[], s⟩).2 = ⟨[], s⟩ := by
  induction n with
  | zero => rfl
  | succ n ih => rw [passes, Prog.run_bind, run_retry_nil, ih]

/-- The state of both ways of retrying when they stop: the attempts before the last one failed, and
the last one was delivered or the budget is used up. -/
structure Stopped (t : τ) (budget retries : ℕ) (delivered : Bool) : Prop where
  le_budget : retries ≤ budget
  failed : ∀ n < retries, succeeds send event t n = false
  last : succeeds send event t retries = delivered
  exhausted : delivered = false → retries = budget

variable {send event}

/-- With the attempts up to `retries` failed, the loop and the passes make the same attempts. -/
theorem exists_stopped (t : τ) (pending : List (PendingZoneEvent E)) {left retries : ℕ}
    (hbudget : retries + left = maxZoneEventRetries)
    (hfailed : ∀ n ≤ retries, succeeds send event t n = false) :
    ∃ total delivered, Stopped send event t maxZoneEventRetries total delivered ∧
      (sendUpTo event retries left).run (zoneEventDelivery send)
          ⟨pending, afterSends send event t (retries + 1)⟩ =
        ((total, delivered), ⟨pending, afterSends send event t (total + 1)⟩) ∧
      ((passes left).run (zoneEventDelivery send)
          ⟨held event retries, afterSends send event t (retries + 1)⟩).2 =
        ⟨[], afterSends send event t (total + 1)⟩ := by
  induction left generalizing retries with
  | zero =>
    have hall : retries = maxZoneEventRetries := hbudget
    refine ⟨retries, false, ⟨hall.le, fun n hn => hfailed n hn.le, hfailed retries le_rfl,
      fun _ => hall⟩, rfl, ?_⟩
    rw [held, if_neg hall.not_lt]
    rfl
  | succ left ih =>
    have hlt : retries < maxZoneEventRetries := by omega
    have hpass := run_retry_held send event hlt (afterSends send event t (retries + 1))
    rw [passes, Prog.run_bind, hpass, sendUpTo, run_send]
    cases hsend : succeeds send event t (retries + 1) with
    | true =>
      -- the pass drops the event, and the passes that follow have nothing to send
      have hsent : (send event (afterSends send event t (retries + 1))).1 = true := hsend
      refine ⟨retries + 1, true, ⟨hlt, fun n hn => hfailed n (Nat.le_of_lt_succ hn), hsend,
        fun hnot => absurd hnot (by simp)⟩, ?_, ?_⟩
      · rw [if_pos hsent]
        rfl
      · rw [if_pos hsent]
        exact run_passes_nil send left _
    | false =>
      have hsent : ¬ (send event (afterSends send event t (retries + 1))).1 = true := by
        rw [Bool.not_eq_true]
        exact hsend
      have hnext : ∀ n ≤ retries + 1, succeeds send event t n = false := by
        intro n hn
        rcases Nat.le_succ_iff.1 hn with hbefore | rfl
        · exact hfailed n hbefore
        · exact hsend
      have hleft : retries + 1 + left = maxZoneEventRetries := by omega
      obtain ⟨total, delivered, hstopped, hloop, hpasses⟩ := ih hleft hnext
      refine ⟨total, delivered, hstopped, ?_, ?_⟩
      · rw [if_neg hsent]
        exact hloop
      · rw [if_neg hsent]
        exact hpasses

variable (send event)

theorem run_deliverWithRetries (t : τ) (pending : List (PendingZoneEvent E)) :
    (deliverWithRetries event).run (zoneEventDelivery send) ⟨pending, t⟩ =
      if (send event t).1 then ((0, true), ⟨pending, (send event t).2⟩)
      else (sendUpTo event 0 maxZoneEventRetries).run (zoneEventDelivery send)
        ⟨pending, (send event t).2⟩ := by
  rw [deliverWithRetries, run_send]
  rfl

theorem run_deliverThenPasses (t : τ) :
    (deliverThenPasses event).run (zoneEventDelivery send) ⟨[], t⟩ =
      (passes maxZoneEventRetries).run (zoneEventDelivery send)
        ⟨if (send event t).1 then [] else held event 0, (send event t).2⟩ := by
  rw [deliverThenPasses, Prog.run_bind, deliver, run_send]
  split <;> rfl

/-- One call makes the attempts of `Deliver` and of the passes that follow it: as many retries as it
takes, at most the budget, and it leaves the pending events of others alone. -/
theorem synchronous_agrees (t : τ) (pending : List (PendingZoneEvent E)) :
    let direct := (deliverWithRetries event).run (zoneEventDelivery send) ⟨pending, t⟩
    let queued := (deliverThenPasses event).run (zoneEventDelivery send) ⟨[], t⟩
    Stopped send event t maxZoneEventRetries direct.1.1 direct.1.2 ∧
      direct.2 = ⟨pending, afterSends send event t (direct.1.1 + 1)⟩ ∧
      queued.2 = ⟨[], direct.2.sender⟩ := by
  intro direct queued
  have hdirect : direct = _ := run_deliverWithRetries send event t pending
  have hqueued : queued = _ := run_deliverThenPasses send event t
  rw [hdirect, hqueued]
  cases hsend : succeeds send event t 0 with
  | true =>
    have hsent : (send event t).1 = true := hsend
    rw [if_pos hsent, if_pos hsent]
    refine ⟨⟨Nat.zero_le _, fun n hn => absurd hn (Nat.not_lt_zero n), hsend, ?_⟩, rfl, ?_⟩
    · exact fun hnot => absurd hnot (by simp)
    · exact run_passes_nil send _ _
  | false =>
    have hsent : ¬ (send event t).1 = true := by
      rw [Bool.not_eq_true]
      exact hsend
    rw [if_neg hsent, if_neg hsent]
    obtain ⟨total, delivered, hstopped, hloop, hpasses⟩ := exists_stopped t pending
      (Nat.zero_add _) fun n hn => (Nat.le_zero.1 hn) ▸ hsend
    have hloop' : (sendUpTo event 0 maxZoneEventRetries).run (zoneEventDelivery send)
        ⟨pending, (send event t).2⟩ = _ := hloop
    rw [hloop']
    exact ⟨hstopped, rfl, hpasses⟩

end Attempts

/-- A sender that fails twice and then succeeds: two retries. -/
example : (deliverWithRetries ()).run (zoneEventDelivery fun _ n => (decide (2 ≤ n), n + 1))
    ⟨[], 0⟩ = ((2, true), ⟨[], 3⟩) := rfl

end FleetCommand.Streaming
