import FleetCommand.Streaming.ZoneEvents

/-!
# Conservation of zone events

`Deliver` calls and `Retry` passes interleave at their sends and their accesses to the pending list;
`Stage` names their control points. One event goes through the states of `Fate`: it is sent for the
first time, waits to be appended, is held once (in the pending list or in the batch of one pass,
after `retries + 1` failed attempts), and ends delivered or given up. A step of any call keeps the
event where it is or moves it on (`Fits.step`), so no event is lost, held twice or attempted a fifth
time (`events_conserved`).
-/

set_option autoImplicit false

namespace FleetCommand.Streaming

open Resumption

/-! ## The calls -/

/-- A call of the delivery. -/
inductive DeliveryCall where
  | deliver (event : ZoneEventMessage)
  | retry

/-- What a call returns. -/
inductive DeliveryReply where
  | deliver (delivered : Bool)
  | retry (pending : ℕ)

/-- An event as one `Deliver` call hands it over: two calls with equal events are two of these. -/
structure HandedEvent (ι : Type) where
  call : ι
  event : ZoneEventMessage
  deriving DecidableEq

variable {ι : Type} [DecidableEq ι]

/-- The attempts made, in order, and whether each succeeded. -/
abbrev AttemptLog (ι : Type) := List (HandedEvent ι × Bool)

/-- A sender whose `n`-th attempt succeeds when `outcomes n`. -/
def loggingSender (outcomes : ℕ → Bool) (e : HandedEvent ι) (log : AttemptLog ι) :
    Bool × AttemptLog ι :=
  (outcomes log.length, log ++ [(e, outcomes log.length)])

/-- The program of a call. -/
def DeliveryCall.code (i : ι) : DeliveryCall → DeliveryProg (HandedEvent ι) DeliveryReply
  | .deliver event => do return .deliver (← Streaming.deliver ⟨i, event⟩)
  | .retry => do return .retry (← Streaming.retry)

/-- Every call at its start, nothing pending and nothing attempted. -/
def startDeliveries (calls : ι → DeliveryCall) :
    Pool ι (DeliveryOp.Resp (E := HandedEvent ι)) DeliveryReply
      (ZoneEventDelivery (HandedEvent ι) (AttemptLog ι)) :=
  ⟨fun i => (calls i).code i, ⟨[], []⟩⟩

/-! ## Control points -/

/-- A control point: a `Deliver` call before its send or its append, a `Retry` pass before it takes
the batch or with the kept and the remaining entries of its batch, or a call that has returned. -/
inductive DeliveryStage (ι : Type) where
  | sending (e : HandedEvent ι)
  | appending (e : HandedEvent ι)
  | taking
  | retrying (keep batch : List (PendingZoneEvent (HandedEvent ι)))
  | done (reply : DeliveryReply)

namespace DeliveryStage

/-- The entries a running pass holds. -/
def entries : DeliveryStage ι → List (PendingZoneEvent (HandedEvent ι))
  | .retrying keep batch => keep ++ batch
  | _ => []

/-- The event of a `Deliver` call that has not returned. -/
def delivering : DeliveryStage ι → Option (HandedEvent ι)
  | .sending e => some e
  | .appending e => some e
  | _ => none

/-- The first stage of a call. -/
def start (i : ι) : DeliveryCall → DeliveryStage ι
  | .deliver event => .sending ⟨i, event⟩
  | .retry => .taking

/-- What a call still has to do at a control point. -/
def code : DeliveryStage ι → DeliveryProg (HandedEvent ι) DeliveryReply
  | .sending e => do return .deliver (← Streaming.deliver e)
  | .appending e => do
    performDelivery (.append ⟨e, 0⟩)
    return .deliver false
  | .taking => do return .retry (← Streaming.retry)
  | .retrying keep batch => do return .retry (← retryBatch keep batch)
  | .done reply => return reply

/-- The kept entries after a failed attempt for an entry. -/
def keepFailed (keep : List (PendingZoneEvent (HandedEvent ι)))
    (p : PendingZoneEvent (HandedEvent ι)) : List (PendingZoneEvent (HandedEvent ι)) :=
  if p.retries + 1 < maxZoneEventRetries then keep ++ [{ p with retries := p.retries + 1 }]
  else keep

variable (outcomes : ℕ → Bool)

/-- The next control point, and the queue after the step made on the way. -/
def next : DeliveryStage ι → ZoneEventDelivery (HandedEvent ι) (AttemptLog ι) →
    DeliveryStage ι × ZoneEventDelivery (HandedEvent ι) (AttemptLog ι)
  | .sending e, d =>
    let r := loggingSender outcomes e d.sender
    (if r.1 then .done (.deliver true) else .appending e, { d with sender := r.2 })
  | .appending e, d => (.done (.deliver false), { d with pending := d.pending ++ [⟨e, 0⟩] })
  | .taking, d => (.retrying [] d.pending, { d with pending := [] })
  | .retrying keep (p :: batch), d =>
    let r := loggingSender outcomes p.event d.sender
    (.retrying (if r.1 then keep else keepFailed keep p) batch, { d with sender := r.2 })
  | .retrying keep [], d =>
    (.done (.retry (keep ++ d.pending).length), { d with pending := keep ++ d.pending })
  | .done reply, d => (.done reply, d)

omit [DecidableEq ι] in
theorem code_next (l : DeliveryStage ι) (d : ZoneEventDelivery (HandedEvent ι) (AttemptLog ι)) :
    l.code.step (zoneEventDelivery (loggingSender outcomes)) d =
      ((l.next outcomes d).1.code, (l.next outcomes d).2) := by
  cases l with
  | sending e =>
    simp only [code, next, Streaming.deliver, performDelivery, Prog.perform_bind, Prog.call_bind,
      Prog.step, zoneEventDelivery]
    by_cases hok : (loggingSender outcomes e d.sender).1 = true
    · simp only [hok, if_true]
      rfl
    · simp only [hok]
      rfl
  | appending e => rfl
  | taking => rfl
  | retrying keep batch =>
    cases batch with
    | nil => rfl
    | cons p batch =>
      simp only [code, next, retryBatch, retryLoop, performDelivery, Prog.perform_bind,
        Prog.call_bind, Prog.step, zoneEventDelivery, keepFailed]
      by_cases hok : (loggingSender outcomes p.event d.sender).1 = true
      · simp only [hok, if_true]
      · by_cases hp : p.retries + 1 < maxZoneEventRetries
        · simp only [hok, hp, Bool.false_eq_true, if_false, if_true]
        · simp only [hok, hp, Bool.false_eq_true, if_false]
  | done reply => rfl

end DeliveryStage

/-- The calls by control points. -/
def deliveryFlow (outcomes : ℕ → Bool) :
    Flow (zoneEventDelivery (loggingSender (ι := ι) outcomes)) ι (DeliveryStage ι)
      DeliveryReply where
  code _ l := l.code
  next _ l d := l.next outcomes d
  code_next _ l d := l.code_next outcomes d

/-- `startDeliveries` by control points. -/
def startDeliveryStages (calls : ι → DeliveryCall) :
    Config ι (DeliveryStage ι) (ZoneEventDelivery (HandedEvent ι) (AttemptLog ι)) :=
  ⟨fun i => .start i (calls i), ⟨[], []⟩⟩

/-! ## Where an event is -/

/-- The configuration of a run of the calls. -/
abbrev DeliveryConfig (ι : Type) :=
  Config ι (DeliveryStage ι) (ZoneEventDelivery (HandedEvent ι) (AttemptLog ι))

/-- The retries recorded in the entries of an event. -/
def retriesOf (e : HandedEvent ι) (ps : List (PendingZoneEvent (HandedEvent ι))) : List ℕ :=
  (ps.filter fun p => p.event = e).map PendingZoneEvent.retries

/-- The attempts made for an event, in order. -/
def attemptsOf (e : HandedEvent ι) (log : AttemptLog ι) : List Bool :=
  (log.filter fun a => a.1 = e).map Prod.snd

/-- The entries of an event by who holds them: the pending list (`none`) or a running pass. -/
def heldBy (c : DeliveryConfig ι) (e : HandedEvent ι) : Option ι → List ℕ
  | none => retriesOf e c.shared.pending
  | some j => retriesOf e (c.locs j).entries

/-- One entry in all, at `holder`. -/
def heldOnce (holder : Option ι) (retries : ℕ) : Option ι → List ℕ :=
  fun h => if h = holder then [retries] else []

@[simp] theorem heldOnce_self (holder : Option ι) (retries : ℕ) :
    heldOnce holder retries holder = [retries] := if_pos rfl

theorem heldOnce_of_ne {holder h : Option ι} (hne : h ≠ holder) (retries : ℕ) :
    heldOnce holder retries h = [] := if_neg hne

/-- The states one event goes through. -/
inductive Fate (ι : Type) where
  | sending
  | appending
  | held (holder : Option ι) (retries : ℕ)
  | delivered
  | givenUp

/-- What a fate says about the control point of the event's `Deliver` call, the entries of the event
and the attempts made for it. -/
def Fate.Fits (e : HandedEvent ι) (l : DeliveryStage ι) (entries : Option ι → List ℕ)
    (attempts : List Bool) : Fate ι → Prop
  | .sending => l = .sending e ∧ entries = (fun _ => []) ∧ attempts = []
  | .appending => l = .appending e ∧ entries = (fun _ => []) ∧ attempts = [false]
  | .held holder retries => l = .done (.deliver false) ∧ entries = heldOnce holder retries ∧
      attempts = List.replicate (retries + 1) false ∧ retries < maxZoneEventRetries
  | .delivered => (∃ b, l = .done (.deliver b)) ∧ entries = (fun _ => []) ∧
      ∃ n ≤ maxZoneEventRetries, attempts = List.replicate n false ++ [true]
  | .givenUp => l = .done (.deliver false) ∧ entries = (fun _ => []) ∧
      attempts = List.replicate (maxZoneEventRetries + 1) false

/-- The event has the fate in a configuration. -/
def HasFate (c : DeliveryConfig ι) (e : HandedEvent ι) (f : Fate ι) : Prop :=
  f.Fits e (c.locs e.call) (heldBy c e) (attemptsOf e c.shared.sender)

section Lists

variable (e : HandedEvent ι)

@[simp] theorem retriesOf_nil : retriesOf e [] = [] := rfl

@[simp] theorem retriesOf_append (ps qs : List (PendingZoneEvent (HandedEvent ι))) :
    retriesOf e (ps ++ qs) = retriesOf e ps ++ retriesOf e qs := by
  simp [retriesOf]

theorem retriesOf_cons (p : PendingZoneEvent (HandedEvent ι))
    (ps : List (PendingZoneEvent (HandedEvent ι))) :
    retriesOf e (p :: ps) = if p.event = e then p.retries :: retriesOf e ps else retriesOf e ps := by
  unfold retriesOf
  rw [List.filter_cons]
  split <;> simp_all

theorem attemptsOf_append_singleton (log : AttemptLog ι) (e' : HandedEvent ι) (ok : Bool) :
    attemptsOf e (log ++ [(e', ok)]) =
      if e' = e then attemptsOf e log ++ [ok] else attemptsOf e log := by
  unfold attemptsOf
  split <;> simp_all

theorem retriesOf_keepFailed (keep : List (PendingZoneEvent (HandedEvent ι)))
    (p : PendingZoneEvent (HandedEvent ι)) :
    retriesOf e (DeliveryStage.keepFailed keep p) =
      if p.event = e ∧ p.retries + 1 < maxZoneEventRetries then retriesOf e keep ++ [p.retries + 1]
      else retriesOf e keep := by
  rw [DeliveryStage.keepFailed]
  by_cases hr : p.retries + 1 < maxZoneEventRetries
  · by_cases hp : p.event = e <;> simp [hr, hp, retriesOf_cons]
  · simp [hr]

end Lists

/-! ## One step -/

/-- A `Deliver` call that has not returned is about its own event. -/
def OwnEvents (c : DeliveryConfig ι) : Prop :=
  ∀ j e, (c.locs j).delivering = some e → e.call = j

section Step

variable {outcomes : ℕ → Bool} {c c' : DeliveryConfig ι} {e : HandedEvent ι} {f : Fate ι} {j : ι}

/-- The event's call is at its send, at its append, or has returned. -/
theorem HasFate.loc (h : HasFate c e f) :
    c.locs e.call = .sending e ∨ c.locs e.call = .appending e ∨
      ∃ b, c.locs e.call = .done (.deliver b) := by
  cases f with
  | sending => exact .inl h.1
  | appending => exact .inr (.inl h.1)
  | held holder retries => exact .inr (.inr ⟨false, h.1⟩)
  | delivered => exact .inr (.inr h.1)
  | givenUp => exact .inr (.inr ⟨false, h.1⟩)

theorem HasFate.of_sending (h : HasFate c e f) (hl : c.locs e.call = .sending e) : f = .sending := by
  cases f with
  | sending => rfl
  | delivered =>
    obtain ⟨b, hb⟩ := h.1
    exact absurd (hl.symm.trans hb) (by simp)
  | _ => exact absurd (hl.symm.trans h.1) (by simp)

theorem HasFate.of_appending (h : HasFate c e f) (hl : c.locs e.call = .appending e) :
    f = .appending := by
  cases f with
  | appending => rfl
  | delivered =>
    obtain ⟨b, hb⟩ := h.1
    exact absurd (hl.symm.trans hb) (by simp)
  | _ => exact absurd (hl.symm.trans h.1) (by simp)

/-- A call at another control point than those of the event's call is another call. -/
theorem HasFate.ne_call (h : HasFate c e f) (hsend : c.locs j ≠ .sending e)
    (happend : c.locs j ≠ .appending e) (hdone : ∀ b, c.locs j ≠ .done (.deliver b)) :
    e.call ≠ j := by
  rintro rfl
  rcases h.loc with hl | hl | ⟨b, hl⟩
  · exact hsend hl
  · exact happend hl
  · exact hdone b hl

/-- A step that leaves the event's call, entries and attempts as they are. -/
theorem HasFate.of_same (h : HasFate c e f) (hloc : c'.locs e.call = c.locs e.call)
    (hheld : heldBy c' e = heldBy c e)
    (hattempts : attemptsOf e c'.shared.sender = attemptsOf e c.shared.sender) :
    HasFate c' e f := by
  rw [HasFate, hloc, hheld, hattempts]
  exact h

/-- Only the fate `held` has an entry, and then one in all. -/
theorem HasFate.holder (h : HasFate c e f) {holder : Option ι} {r : ℕ} {pre post : List ℕ}
    (hheld : heldBy c e holder = pre ++ r :: post) :
    f = .held holder r ∧ pre = [] ∧ post = [] := by
  have hempty : ∀ entries : Option ι → List ℕ, entries = (fun _ => []) → heldBy c e = entries →
      False := by
    rintro entries rfl hc
    rw [hc] at hheld
    simp at hheld
  cases f with
  | sending => exact (hempty _ h.2.1 rfl).elim
  | appending => exact (hempty _ h.2.1 rfl).elim
  | delivered => exact (hempty _ h.2.1 rfl).elim
  | givenUp => exact (hempty _ h.2.1 rfl).elim
  | held holder' r' =>
    rw [h.2.1, heldOnce] at hheld
    split at hheld
    next hh =>
      subst hh
      have hlen := congrArg List.length hheld
      simp only [List.length_append, List.length_cons, List.length_nil] at hlen
      obtain rfl : pre = [] := List.length_eq_zero_iff.1 (by omega)
      obtain rfl : post = [] := List.length_eq_zero_iff.1 (by omega)
      obtain rfl : r' = r := by simpa using hheld
      exact ⟨rfl, rfl, rfl⟩
    next => simp at hheld

/-- A step of call `j` leaves the batches of the other passes. -/
theorem heldBy_some_of_ne (hne : ∀ k, k ≠ j → c'.locs k = c.locs k) {k : ι} (hk : k ≠ j) :
    heldBy c' e (some k) = heldBy c e (some k) := by
  rw [heldBy, heldBy, hne k hk]

/-- A step of call `j` that keeps the pending list and its own entries of the event. -/
theorem heldBy_eq (hne : ∀ k, k ≠ j → c'.locs k = c.locs k)
    (hpending : retriesOf e c'.shared.pending = retriesOf e c.shared.pending)
    (hentries : retriesOf e (c'.locs j).entries = retriesOf e (c.locs j).entries) :
    heldBy c' e = heldBy c e := by
  funext h
  cases h with
  | none => exact hpending
  | some k =>
    rcases eq_or_ne k j with rfl | hk
    · exact hentries
    · exact heldBy_some_of_ne hne hk

/-- All entries of one holder move to another, in front of what that one has. -/
theorem HasFate.move (h : HasFate c e f) (hloc : c'.locs e.call = c.locs e.call)
    (hattempts : attemptsOf e c'.shared.sender = attemptsOf e c.shared.sender)
    {src dst : Option ι} (hsd : dst ≠ src) (hsrc : heldBy c' e src = [])
    (hdst : heldBy c' e dst = heldBy c e src ++ heldBy c e dst)
    (hothers : ∀ k, k ≠ src → k ≠ dst → heldBy c' e k = heldBy c e k) :
    ∃ f', HasFate c' e f' := by
  have hempty : heldBy c e = (fun _ => []) → heldBy c' e = heldBy c e := by
    intro hc
    funext k
    rcases eq_or_ne k src with rfl | hks
    · rw [hsrc, hc]
    · rcases eq_or_ne k dst with rfl | hkd
      · rw [hdst, hc]
        rfl
      · exact hothers k hks hkd
  cases f with
  | sending => exact ⟨_, h.of_same hloc (hempty h.2.1) hattempts⟩
  | appending => exact ⟨_, h.of_same hloc (hempty h.2.1) hattempts⟩
  | delivered => exact ⟨_, h.of_same hloc (hempty h.2.1) hattempts⟩
  | givenUp => exact ⟨_, h.of_same hloc (hempty h.2.1) hattempts⟩
  | held holder r =>
    obtain ⟨hl, hheld, ha, hr⟩ := h
    rw [hheld] at hdst hothers
    rw [← hloc] at hl
    rw [← hattempts] at ha
    -- the one entry moves exactly when its holder is `src`
    rcases eq_or_ne holder src with rfl | hne
    · refine ⟨.held dst r, hl, ?_, ha, hr⟩
      funext k
      rcases eq_or_ne k holder with rfl | hks
      · rw [hsrc, heldOnce_of_ne hsd.symm]
      · rcases eq_or_ne k dst with rfl | hkd
        · rw [hdst, heldOnce_self, heldOnce_of_ne hsd, heldOnce_self, List.append_nil]
        · rw [hothers k hks hkd, heldOnce_of_ne hks, heldOnce_of_ne hkd]
    · refine ⟨.held holder r, hl, ?_, ha, hr⟩
      funext k
      rcases eq_or_ne k src with rfl | hks
      · rw [hsrc, heldOnce_of_ne hne.symm]
      · rcases eq_or_ne k dst with rfl | hkd
        · rw [hdst, heldOnce_of_ne hne.symm, List.nil_append]
        · exact hothers k hks hkd

/-! ### The kinds of steps -/

variable (hne : ∀ k, k ≠ j → c'.locs k = c.locs k)
include hne

/-- The first send of an event. -/
theorem HasFate.send (h : HasFate c e f) (hown : OwnEvents c) {e' : HandedEvent ι} {ok : Bool}
    (hj : c.locs j = .sending e')
    (hj' : c'.locs j = if ok then .done (.deliver true) else .appending e')
    (hshared : c'.shared = { c.shared with sender := c.shared.sender ++ [(e', ok)] }) :
    ∃ f', HasFate c' e f' := by
  have hcall : e'.call = j := hown j e' (by rw [hj]; rfl)
  have hheld : heldBy c' e = heldBy c e := by
    refine heldBy_eq hne (by rw [hshared]) ?_
    rw [hj, hj']
    cases ok <;> rfl
  have hattempts : attemptsOf e c'.shared.sender =
      if e' = e then attemptsOf e c.shared.sender ++ [ok] else attemptsOf e c.shared.sender := by
    rw [hshared]
    exact attemptsOf_append_singleton e _ e' ok
  rcases eq_or_ne e' e with rfl | hee
  · rw [if_pos rfl] at hattempts
    rw [← hcall] at hj hj'
    obtain rfl := h.of_sending hj
    rw [h.2.2] at hattempts
    cases ok with
    | true => exact ⟨.delivered, ⟨true, hj'⟩, hheld.trans h.2.1, 0, by decide, hattempts⟩
    | false => exact ⟨.appending, hj', hheld.trans h.2.1, hattempts⟩
  · rw [if_neg hee] at hattempts
    have hcall' : e.call ≠ j := h.ne_call (by simp [hj, hee]) (by simp [hj]) (by simp [hj])
    exact ⟨f, h.of_same (hne _ hcall') hheld hattempts⟩

/-- The append after a failed first send. -/
theorem HasFate.append (h : HasFate c e f) (hown : OwnEvents c) {e' : HandedEvent ι}
    (hj : c.locs j = .appending e') (hj' : c'.locs j = .done (.deliver false))
    (hshared : c'.shared = { c.shared with pending := c.shared.pending ++ [⟨e', 0⟩] }) :
    ∃ f', HasFate c' e f' := by
  have hcall : e'.call = j := hown j e' (by rw [hj]; rfl)
  have hattempts : attemptsOf e c'.shared.sender = attemptsOf e c.shared.sender := by rw [hshared]
  have hpending : retriesOf e c'.shared.pending =
      retriesOf e c.shared.pending ++ if e' = e then [0] else [] := by
    rw [hshared, retriesOf_append, retriesOf_cons, retriesOf_nil]
  have hentries : retriesOf e (c'.locs j).entries = retriesOf e (c.locs j).entries := by
    rw [hj, hj']
    rfl
  rcases eq_or_ne e' e with rfl | hee
  · rw [← hcall] at hj hj'
    obtain rfl := h.of_appending hj
    obtain ⟨-, hheld, ha⟩ := h
    refine ⟨.held none 0, hj', ?_, hattempts.trans ha, by decide⟩
    -- the pending list had no entry of the event
    have hnone : ∀ holder, heldBy c e' holder = [] := fun holder => by rw [hheld]
    have hpend : retriesOf e' c.shared.pending = [] := hnone none
    funext holder
    cases holder with
    | none =>
      show retriesOf e' c'.shared.pending = _
      rw [hpending, hpend, if_pos rfl, heldOnce_self, List.nil_append]
    | some k =>
      rw [heldOnce_of_ne (by simp)]
      rcases eq_or_ne k j with rfl | hk
      · exact hentries.trans (hnone (some k))
      · exact (heldBy_some_of_ne hne hk).trans (hnone (some k))
  · rw [if_neg hee, List.append_nil] at hpending
    have hcall' : e.call ≠ j := h.ne_call (by simp [hj]) (by simp [hj, hee]) (by simp [hj])
    exact ⟨f, h.of_same (hne _ hcall') (heldBy_eq hne hpending hentries) hattempts⟩

/-- A pass takes the batch: every pending entry moves to it. -/
theorem HasFate.take (h : HasFate c e f) (hj : c.locs j = .taking)
    (hj' : c'.locs j = .retrying [] c.shared.pending)
    (hshared : c'.shared = { c.shared with pending := [] }) : ∃ f', HasFate c' e f' := by
  have hcall : e.call ≠ j := h.ne_call (by simp [hj]) (by simp [hj]) (by simp [hj])
  refine h.move (hne _ hcall) (by rw [hshared]) (Option.some_ne_none j) ?_ ?_ ?_
  · show retriesOf e c'.shared.pending = []
    rw [hshared, retriesOf_nil]
  · show retriesOf e (c'.locs j).entries =
      retriesOf e c.shared.pending ++ retriesOf e (c.locs j).entries
    rw [hj, hj']
    simp [DeliveryStage.entries]
  · intro k hk hkj
    cases k with
    | none => exact absurd rfl hk
    | some k => exact heldBy_some_of_ne hne fun hkj' => hkj (congrArg some hkj')

/-- A pass puts the kept entries back: they move to the pending list. -/
theorem HasFate.putBack (h : HasFate c e f) {keep : List (PendingZoneEvent (HandedEvent ι))} {n : ℕ}
    (hj : c.locs j = .retrying keep []) (hj' : c'.locs j = .done (.retry n))
    (hshared : c'.shared = { c.shared with pending := keep ++ c.shared.pending }) :
    ∃ f', HasFate c' e f' := by
  have hcall : e.call ≠ j := h.ne_call (by simp [hj]) (by simp [hj]) (by simp [hj])
  refine h.move (hne _ hcall) (by rw [hshared]) (Option.some_ne_none j).symm ?_ ?_ ?_
  · show retriesOf e (c'.locs j).entries = []
    rw [hj']
    rfl
  · show retriesOf e c'.shared.pending = retriesOf e (c.locs j).entries ++ retriesOf e c.shared.pending
    rw [hj, hshared]
    simp [DeliveryStage.entries]
  · intro k hkj hk
    cases k with
    | none => exact absurd rfl hk
    | some k => exact heldBy_some_of_ne hne fun hkj' => hkj (congrArg some hkj')

/-- A pass changes its entries of the event, while no one else has any. -/
theorem heldBy_of_pass {r : ℕ} (hheld : heldBy c e = heldOnce (some j) r)
    (hpending : c'.shared.pending = c.shared.pending) (rs : List ℕ)
    (hrs : retriesOf e (c'.locs j).entries = rs) :
    heldBy c' e = fun holder => if holder = some j then rs else [] := by
  funext holder
  rcases eq_or_ne holder (some j) with rfl | hh
  · rw [if_pos rfl]
    exact hrs
  · have hc : heldBy c e holder = [] := by rw [hheld, heldOnce_of_ne hh]
    rw [if_neg hh, ← hc]
    cases holder with
    | none =>
      show retriesOf e c'.shared.pending = retriesOf e c.shared.pending
      rw [hpending]
    | some k => exact heldBy_some_of_ne hne fun hkj => hh (congrArg some hkj)

/-- One attempt of a pass. -/
theorem HasFate.attempt (h : HasFate c e f) {keep batch : List (PendingZoneEvent (HandedEvent ι))}
    {p : PendingZoneEvent (HandedEvent ι)} {ok : Bool} (hj : c.locs j = .retrying keep (p :: batch))
    (hj' : c'.locs j = .retrying (if ok then keep else DeliveryStage.keepFailed keep p) batch)
    (hshared : c'.shared = { c.shared with sender := c.shared.sender ++ [(p.event, ok)] }) :
    ∃ f', HasFate c' e f' := by
  have hcall : e.call ≠ j := h.ne_call (by simp [hj]) (by simp [hj]) (by simp [hj])
  have hpending : c'.shared.pending = c.shared.pending := by rw [hshared]
  have hattempts : attemptsOf e c'.shared.sender =
      if p.event = e then attemptsOf e c.shared.sender ++ [ok]
      else attemptsOf e c.shared.sender := by
    rw [hshared]
    exact attemptsOf_append_singleton e _ p.event ok
  have hold : retriesOf e (c.locs j).entries = retriesOf e keep ++
      if p.event = e then p.retries :: retriesOf e batch else retriesOf e batch := by
    rw [hj, DeliveryStage.entries, retriesOf_append, retriesOf_cons]
  have hnew : retriesOf e (c'.locs j).entries = (if ok then retriesOf e keep else
      if p.event = e ∧ p.retries + 1 < maxZoneEventRetries then retriesOf e keep ++ [p.retries + 1]
      else retriesOf e keep) ++ retriesOf e batch := by
    rw [hj', DeliveryStage.entries, retriesOf_append]
    cases ok with
    | true => rfl
    | false =>
      rw [if_neg Bool.false_ne_true, if_neg Bool.false_ne_true, retriesOf_keepFailed]
  rcases eq_or_ne p.event e with hpe | hpe
  · -- the entry of the batch is the only one of the event
    rw [if_pos hpe] at hold hattempts
    have hentry : heldBy c e (some j) = retriesOf e keep ++ p.retries :: retriesOf e batch := hold
    obtain ⟨rfl, hkeep, hbatch⟩ := h.holder hentry
    obtain ⟨hl, hheld, ha, hr⟩ := h
    rw [hkeep, hbatch, List.append_nil] at hnew
    rw [ha] at hattempts
    rw [← hne _ hcall] at hl
    have hheld' := heldBy_of_pass hne hheld hpending
    cases ok with
    | true =>
      refine ⟨.delivered, ⟨false, hl⟩, ?_, p.retries + 1, hr, hattempts⟩
      rw [hheld' [] hnew]
      funext holder
      exact ite_self []
    | false =>
      rw [← List.replicate_succ'] at hattempts
      rw [if_neg Bool.false_ne_true] at hnew
      by_cases hbudget : p.retries + 1 < maxZoneEventRetries
      · rw [if_pos ⟨hpe, hbudget⟩] at hnew
        exact ⟨.held (some j) (p.retries + 1), hl, hheld' _ hnew, hattempts, hbudget⟩
      · -- the retry budget is exhausted
        rw [if_neg fun hb => hbudget hb.2] at hnew
        have hlast : p.retries + 1 = maxZoneEventRetries := by omega
        rw [hlast] at hattempts
        refine ⟨.givenUp, hl, ?_, hattempts⟩
        rw [hheld' [] hnew]
        funext holder
        exact ite_self []
  · rw [if_neg hpe] at hold hattempts
    simp only [hpe, false_and, if_false, ite_self, ← hold] at hnew
    exact ⟨f, h.of_same (hne _ hcall) (heldBy_eq hne (by rw [hpending]) hnew) hattempts⟩

end Step

/-- A step of any call keeps the event's fate or moves it on. -/
theorem HasFate.step {outcomes : ℕ → Bool} {c : DeliveryConfig ι} {e : HandedEvent ι} {f : Fate ι}
    (h : HasFate c e f) (hown : OwnEvents c) (j : ι) :
    ∃ f', HasFate ((deliveryFlow outcomes).step c j) e f' := by
  have hne : ∀ k, k ≠ j → ((deliveryFlow outcomes).step c j).locs k = c.locs k :=
    fun k hk => (deliveryFlow outcomes).step_locs_ne c hk
  have hj' : ((deliveryFlow outcomes).step c j).locs j =
      ((c.locs j).next outcomes c.shared).1 := Flow.step_locs_self ..
  have hshared : ((deliveryFlow outcomes).step c j).shared =
      ((c.locs j).next outcomes c.shared).2 := rfl
  generalize (deliveryFlow outcomes).step c j = c' at hne hj' hshared
  cases hj : c.locs j with
  | sending e' =>
    rw [hj] at hj' hshared
    exact h.send hne hown hj hj' hshared
  | appending e' =>
    rw [hj] at hj' hshared
    exact h.append hne hown hj hj' hshared
  | taking =>
    rw [hj] at hj' hshared
    exact h.take hne hj hj' hshared
  | retrying keep batch =>
    rw [hj] at hj' hshared
    cases batch with
    | nil => exact h.putBack hne hj hj' hshared
    | cons p batch => exact h.attempt hne hj hj' hshared
  | done reply =>
    rw [hj] at hj' hshared
    have hlocs : c'.locs e.call = c.locs e.call := by
      rcases eq_or_ne e.call j with hcall | hcall
      · rw [hcall, hj]
        exact hj'
      · exact hne _ hcall
    have hentries : (c'.locs j).entries = (c.locs j).entries := by
      rw [hj, hj']
      rfl
    exact ⟨f, h.of_same hlocs (heldBy_eq hne (by rw [hshared]; rfl) (by rw [hentries]))
      (by rw [hshared]; rfl)⟩

theorem OwnEvents.step {outcomes : ℕ → Bool} {c : DeliveryConfig ι} (h : OwnEvents c) (j : ι) :
    OwnEvents ((deliveryFlow outcomes).step c j) := by
  intro k e hk
  rcases eq_or_ne k j with rfl | hkj
  · refine h k e ?_
    have hk' : ((deliveryFlow outcomes).step c k).locs k =
        ((c.locs k).next outcomes c.shared).1 := Flow.step_locs_self ..
    rw [hk'] at hk
    -- what a call is about does not change while it runs
    cases hl : c.locs k with
    | sending e' =>
      rw [hl] at hk
      simp only [DeliveryStage.next] at hk
      split at hk
      · simp [DeliveryStage.delivering] at hk
      · exact hk
    | appending e' => simp [hl, DeliveryStage.next, DeliveryStage.delivering] at hk
    | taking => simp [hl, DeliveryStage.next, DeliveryStage.delivering] at hk
    | retrying keep batch =>
      rw [hl] at hk
      cases batch <;> simp [DeliveryStage.next, DeliveryStage.delivering] at hk
    | done reply => simp [hl, DeliveryStage.next, DeliveryStage.delivering] at hk
  · rw [(deliveryFlow outcomes).step_locs_ne c hkj] at hk
    exact h k e hk

/-! ## Every run -/

/-- Where an event can be. -/
inductive Place where
  | sending
  | delivered
  | pending
  | givenUp

/-- The event is pending or in the batch of a running pass. -/
def Retained (c : DeliveryConfig ι) (e : HandedEvent ι) : Prop :=
  (∃ p ∈ c.shared.pending, p.event = e) ∨ ∃ j, ∃ p ∈ (c.locs j).entries, p.event = e

/-- The event is at a place: its `Deliver` call has not returned, an attempt for it has succeeded,
it is retained, or it was dropped undelivered. -/
def IsAt (c : DeliveryConfig ι) (e : HandedEvent ι) : Place → Prop
  | .sending => (c.locs e.call).delivering = some e
  | .delivered => true ∈ attemptsOf e c.shared.sender
  | .pending => Retained c e
  | .givenUp => (c.locs e.call).delivering = none ∧ true ∉ attemptsOf e c.shared.sender ∧
      ¬ Retained c e

/-- The event is conserved: it is at one place, retained at most once, never attempted after a
success or a fifth time, and given up exactly when four attempts have failed. -/
structure Conserved (c : DeliveryConfig ι) (e : HandedEvent ι) : Prop where
  place : ∃! p, IsAt c e p
  retainedOnce : Retained c e → ∃ holder retries, heldBy c e = heldOnce holder retries
  success_last : ∀ pre post, attemptsOf e c.shared.sender = pre ++ true :: post →
    true ∉ pre ∧ post = []
  attempts_le : (attemptsOf e c.shared.sender).length ≤ maxZoneEventRetries + 1
  givenUp_iff : IsAt c e .givenUp ↔
    attemptsOf e c.shared.sender = List.replicate (maxZoneEventRetries + 1) false

/-- Every event handed to a `Deliver` call is conserved. -/
def ConservesEvents (calls : ι → DeliveryCall) (c : DeliveryConfig ι) : Prop :=
  ∀ i event, calls i = .deliver event → Conserved c ⟨i, event⟩

theorem mem_retriesOf {e : HandedEvent ι} {ps : List (PendingZoneEvent (HandedEvent ι))} :
    retriesOf e ps ≠ [] ↔ ∃ p ∈ ps, p.event = e := by
  simp [retriesOf, List.filter_eq_nil_iff]

theorem retained_iff {c : DeliveryConfig ι} {e : HandedEvent ι} :
    Retained c e ↔ heldBy c e ≠ fun _ => [] := by
  rw [Function.ne_iff, Option.exists]
  exact or_congr mem_retriesOf.symm (exists_congr fun _ => mem_retriesOf.symm)

/-- The place of an event with a fate. -/
def Fate.place : Fate ι → Place
  | .sending => .sending
  | .appending => .sending
  | .held _ _ => .pending
  | .delivered => .delivered
  | .givenUp => .givenUp

/-- In failures and one success last, the success is the last. -/
theorem success_last_of_replicate (n : ℕ) {pre post : List Bool}
    (h : List.replicate n false ++ [true] = pre ++ true :: post) : true ∉ pre ∧ post = [] := by
  induction n generalizing pre with
  | zero =>
    cases pre with
    | nil => exact ⟨List.not_mem_nil, by simpa using h.symm⟩
    | cons a pre => simp at h
  | succ n ih =>
    cases pre with
    | nil => simp [List.replicate_succ] at h
    | cons a pre =>
      simp only [List.replicate_succ, List.cons_append, List.cons.injEq] at h
      obtain ⟨rfl, h⟩ := h
      obtain ⟨hpre, hpost⟩ := ih h
      exact ⟨by simpa using hpre, hpost⟩

section Conserved

variable {c : DeliveryConfig ι} {e : HandedEvent ι} {f : Fate ι}

theorem HasFate.delivering_iff (h : HasFate c e f) :
    (c.locs e.call).delivering = some e ↔ f.place = .sending := by
  cases f with
  | sending => simp [h.1, DeliveryStage.delivering, Fate.place]
  | appending => simp [h.1, DeliveryStage.delivering, Fate.place]
  | held holder r => simp [h.1, DeliveryStage.delivering, Fate.place]
  | delivered =>
    obtain ⟨b, hb⟩ := h.1
    simp [hb, DeliveryStage.delivering, Fate.place]
  | givenUp => simp [h.1, DeliveryStage.delivering, Fate.place]

theorem HasFate.not_delivering (h : HasFate c e f) (hf : f.place ≠ .sending) :
    (c.locs e.call).delivering = none := by
  rcases h.loc with hl | hl | ⟨b, hl⟩
  · exact absurd (h.delivering_iff.1 (by rw [hl]; rfl)) hf
  · exact absurd (h.delivering_iff.1 (by rw [hl]; rfl)) hf
  · rw [hl]
    rfl

theorem HasFate.success_iff (h : HasFate c e f) :
    true ∈ attemptsOf e c.shared.sender ↔ f.place = .delivered := by
  cases f with
  | sending => simp [h.2.2, Fate.place]
  | appending => simp [h.2.2, Fate.place]
  | held holder r => simp [h.2.2.1, Fate.place]
  | delivered =>
    obtain ⟨-, -, n, -, ha⟩ := h
    simp [ha, Fate.place]
  | givenUp => simp [h.2.2, Fate.place]

theorem HasFate.retained_iff (h : HasFate c e f) : Retained c e ↔ f.place = .pending := by
  rw [Streaming.retained_iff]
  cases f with
  | sending => simp [h.2.1, Fate.place]
  | appending => simp [h.2.1, Fate.place]
  | held holder r =>
    rw [h.2.1]
    refine iff_of_true (fun hempty => ?_) rfl
    have hr := congrFun hempty holder
    simp at hr
  | delivered => simp [h.2.1, Fate.place]
  | givenUp => simp [h.2.1, Fate.place]

/-- An event is at the place of its fate and at no other. -/
theorem HasFate.isAt_iff (h : HasFate c e f) (p : Place) : IsAt c e p ↔ p = f.place := by
  cases p with
  | sending => exact h.delivering_iff.trans eq_comm
  | delivered => exact h.success_iff.trans eq_comm
  | pending => exact h.retained_iff.trans eq_comm
  | givenUp =>
    rw [IsAt, h.success_iff, h.retained_iff]
    constructor
    · rintro ⟨hnone, hsuccess, hretained⟩
      have hsending : f.place ≠ .sending := fun hp => by
        rw [h.delivering_iff.2 hp] at hnone
        exact absurd hnone (by simp)
      cases hf : f.place with
      | sending => exact absurd hf hsending
      | delivered => exact absurd hf hsuccess
      | pending => exact absurd hf hretained
      | givenUp => rfl
    · intro hp
      refine ⟨h.not_delivering ?_, ?_, ?_⟩ <;> simp [← hp]

/-- An event with a fate is conserved. -/
theorem HasFate.conserved (h : HasFate c e f) : Conserved c e where
  place := ⟨f.place, (h.isAt_iff _).2 rfl, fun p hp => (h.isAt_iff p).1 hp⟩
  retainedOnce hretained := by
    cases f with
    | held holder r => exact ⟨holder, r, h.2.1⟩
    | sending => simp [h.retained_iff, Fate.place] at hretained
    | appending => simp [h.retained_iff, Fate.place] at hretained
    | delivered => simp [h.retained_iff, Fate.place] at hretained
    | givenUp => simp [h.retained_iff, Fate.place] at hretained
  success_last pre post hsplit := by
    have hplace : f.place = .delivered := h.success_iff.1 (by simp [hsplit])
    cases f with
    | delivered =>
      obtain ⟨-, -, n, -, ha⟩ := h
      exact success_last_of_replicate n (ha.symm.trans hsplit)
    | sending => simp [Fate.place] at hplace
    | appending => simp [Fate.place] at hplace
    | held holder r => simp [Fate.place] at hplace
    | givenUp => simp [Fate.place] at hplace
  attempts_le := by
    cases f with
    | sending => simp [h.2.2]
    | appending => simp [h.2.2]
    | held holder r =>
      rw [h.2.2.1, List.length_replicate]
      have hr := h.2.2.2
      omega
    | delivered =>
      obtain ⟨-, -, n, hn, ha⟩ := h
      rw [ha, List.length_append, List.length_replicate, List.length_singleton]
      omega
    | givenUp => rw [h.2.2, List.length_replicate]
  givenUp_iff := by
    rw [h.isAt_iff]
    cases f with
    | sending => simp [h.2.2, Fate.place]
    | appending => simp [h.2.2, Fate.place, maxZoneEventRetries]
    | held holder r =>
      obtain ⟨-, -, ha, hr⟩ := h
      rw [ha, List.replicate_left_inj]
      simp only [Fate.place, reduceCtorEq, false_iff]
      omega
    | delivered =>
      obtain ⟨-, -, n, -, ha⟩ := h
      simp only [Fate.place, reduceCtorEq, false_iff, ha]
      intro hfour
      have hmem : true ∈ List.replicate (maxZoneEventRetries + 1) false := by
        rw [← hfour]
        simp
      simp at hmem
    | givenUp => simp [h.2.2, Fate.place]

end Conserved

omit [DecidableEq ι] in
theorem ownEvents_start (calls : ι → DeliveryCall) : OwnEvents (startDeliveryStages calls) := by
  intro j e he
  cases hc : calls j with
  | deliver event =>
    simp only [startDeliveryStages, DeliveryStage.start, hc, DeliveryStage.delivering,
      Option.some.injEq] at he
    rw [← he]
  | retry => simp [startDeliveryStages, DeliveryStage.start, hc, DeliveryStage.delivering] at he

theorem hasFate_start (calls : ι → DeliveryCall) {i : ι} {event : ZoneEventMessage}
    (hc : calls i = .deliver event) :
    HasFate (startDeliveryStages calls) ⟨i, event⟩ .sending := by
  refine ⟨?_, ?_, rfl⟩
  · simp [startDeliveryStages, DeliveryStage.start, hc]
  · funext holder
    cases holder with
    | none => rfl
    | some j =>
      show retriesOf _ (DeliveryStage.start j (calls j)).entries = []
      cases calls j <;> rfl

/-- In every interleaving of any `Deliver` calls and `Retry` passes, whatever the outcome of each
send, every event handed over is conserved at every moment: the calls are at the control points the
statement speaks of. -/
theorem events_conserved (calls : ι → DeliveryCall) (outcomes : ℕ → Bool) (sched : List ι) :
    let c := Runs.run (deliveryFlow outcomes).step (startDeliveryStages calls) sched
    (startDeliveries calls).exec (zoneEventDelivery (loggingSender outcomes)) sched =
      (deliveryFlow outcomes).toPool c ∧
    ConservesEvents calls c := by
  intro c
  refine ⟨?_, ?_⟩
  · have hstart : startDeliveries calls =
        (deliveryFlow outcomes).toPool (startDeliveryStages calls) := by
      have hcode : ∀ i, (calls i).code i = (DeliveryStage.start i (calls i)).code := by
        intro i
        cases calls i <;> rfl
      exact (Pool.mk.injEq ..).mpr ⟨funext hcode, rfl⟩
    rw [hstart, ← Flow.toPool_run]
  · intro i event hc
    have hinv : OwnEvents c ∧ ∃ f, HasFate c ⟨i, event⟩ f := by
      refine Runs.run_invariant (I := fun c => OwnEvents c ∧ ∃ f, HasFate c ⟨i, event⟩ f) ?_
        ⟨ownEvents_start calls, .sending, hasFate_start calls hc⟩ sched
      rintro s j ⟨hown, f, hf⟩
      exact ⟨hown.step j, hf.step hown j⟩
    obtain ⟨-, f, hf⟩ := hinv
    exact hf.conserved

end FleetCommand.Streaming
