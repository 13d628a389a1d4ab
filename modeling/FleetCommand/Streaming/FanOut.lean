import FleetCommand.Streaming.Delivery
import Mathlib.Data.List.Forall2

/-!
# Fan-out over the shared channel

Replicas on Redis Pub/Sub. A broadcast appends an envelope to the shared channel; each replica pumps
the channel on its own, one envelope after the other, and the subscription may lose an envelope.
`deliverLocal` collects the targets of an envelope under the hub's lock and calls `Deliver` on them
after the lock is released, so requests of clients run between the calls.

What a connection is delivered is then a matter of positions of the channel. In every run it is
handed the envelopes at increasing positions, each of which its replica took off the channel while
the connection was in the envelope's room (`fan_out_exact`), and a connection that stays in a room
misses nothing of it that its replica does not lose (`fan_out_complete`).
-/

set_option autoImplicit false

namespace FleetCommand.Streaming

open Runs

/-! ## Replicas and the channel -/

/-- A replica: its hub, the position it has read the channel up to, the targets of the envelope
under delivery that remain, and the `Deliver` calls made. -/
structure Replica (N : Type) where
  hub : Hub
  position : ℕ
  targets : List (Conn × Message N)
  delivered : List (Conn × Message N)

namespace Replica

variable {N : Type}

/-- The calls made and those that remain of the envelope under delivery. -/
def outbox (r : Replica N) : List (Conn × Message N) := r.delivered ++ r.targets

/-- The pump takes the next envelope off the channel and collects its targets. -/
def receive (log : List (Envelope N)) (order : RangeOrder String) (r : Replica N) : Replica N :=
  if r.targets = [] then
    match log[r.position]? with
    | some env => { r with
        position := r.position + 1
        targets := r.hub.deliverLocal order env }
    | none => r
  else r

/-- The subscription loses the next envelope. -/
def lose (log : List (Envelope N)) (r : Replica N) : Replica N :=
  if r.position < log.length then { r with position := r.position + 1 } else r

/-- The next `Deliver` call. -/
def deliver (r : Replica N) : Replica N :=
  match r.targets with
  | [] => r
  | target :: targets => { r with targets := targets, delivered := r.delivered ++ [target] }

section Steps

variable (log : List (Envelope N)) (order : RangeOrder String) (r : Replica N)

theorem receive_of_some {log : List (Envelope N)} {r : Replica N} (hidle : r.targets = [])
    {env : Envelope N} (henv : log[r.position]? = some env) :
    r.receive log order = { r with
      position := r.position + 1
      targets := r.hub.deliverLocal order env } := by
  rw [receive, if_pos hidle, henv]

/-- The new targets are the calls that a taken envelope adds. -/
theorem receive_outbox_of_some {log : List (Envelope N)} {r : Replica N} (hidle : r.targets = [])
    {env : Envelope N} (henv : log[r.position]? = some env) :
    (r.receive log order).outbox = r.outbox ++ r.hub.deliverLocal order env := by
  rw [receive_of_some order hidle henv, outbox, outbox, hidle, List.append_nil]

@[simp] theorem receive_hub : (r.receive log order).hub = r.hub := by
  unfold receive
  split
  · split <;> rfl
  · rfl

@[simp] theorem lose_hub : (r.lose log).hub = r.hub := by
  unfold lose
  split <;> rfl

@[simp] theorem lose_outbox : (r.lose log).outbox = r.outbox := by
  unfold lose
  split <;> rfl

@[simp] theorem deliver_hub : r.deliver.hub = r.hub := by
  unfold deliver
  split <;> rfl

@[simp] theorem deliver_position : r.deliver.position = r.position := by
  unfold deliver
  split <;> rfl

/-- A call moves from those that remain to those made. -/
@[simp] theorem deliver_outbox : r.deliver.outbox = r.outbox := by
  unfold deliver outbox
  cases htargets : r.targets with
  | nil => simp [htargets]
  | cons target targets => simp

end Steps

end Replica

/-- The envelopes published so far, and the replicas. -/
structure SharedChannel (ι N : Type) where
  log : List (Envelope N)
  replicas : ι → Replica N

/-- What happens at a replica, or a publication on the channel. -/
inductive ChannelStep (ι N : Type) where
  | request (i : ι) (op : HubOp)
  | publish (env : Envelope N)
  | receive (i : ι) (order : RangeOrder String)
  | lose (i : ι)
  | deliver (i : ι)

namespace SharedChannel

variable {ι N : Type} [DecidableEq ι]

/-- An empty channel and replicas that have read nothing. -/
def start : SharedChannel ι N := ⟨[], fun _ => ⟨.new, 0, [], []⟩⟩

/-- One step: a request, a publication, or a replica that receives or loses what is next. -/
def step (s : SharedChannel ι N) : ChannelStep ι N → SharedChannel ι N
  | .request i op => { s with
      replicas := Function.update s.replicas i
        { s.replicas i with hub := op.apply (s.replicas i).hub } }
  | .publish env => { s with log := s.log ++ [env] }
  | .receive i order => { s with
      replicas := Function.update s.replicas i ((s.replicas i).receive s.log order) }
  | .lose i => { s with replicas := Function.update s.replicas i ((s.replicas i).lose s.log) }
  | .deliver i => { s with replicas := Function.update s.replicas i (s.replicas i).deliver }

/-- A connection is registered under an id that no live connection of the replica has. -/
def FreshConnect (s : SharedChannel ι N) : ChannelStep ι N → Prop
  | .request i (.connect connID _ _ _) => (s.replicas i).hub.clients.lookup connID = none
  | _ => True

instance (s : SharedChannel ι N) (e : ChannelStep ι N) : Decidable (s.FreshConnect e) := by
  unfold FreshConnect
  split <;> infer_instance

/-- The live connection `x` of replica `i` is in the room. -/
def InRoom (s : SharedChannel ι N) (i : ι) (x room : String) : Prop :=
  ∃ c, (s.replicas i).hub.clients.lookup x = some c ∧ room ∈ c.rooms

instance (s : SharedChannel ι N) (i : ι) (x room : String) : Decidable (s.InRoom i x room) :=
  decidable_of_iff (((s.replicas i).hub.clients.lookup x).any (fun c => room ∈ c.rooms) = true) (by
    simp only [InRoom, Option.any_eq_true, decide_eq_true_eq])

/-- Replica `i`, with nothing left to deliver, takes the envelope at position `p` off the channel
while the connection `x` is in its room. -/
def Takes (i : ι) (x : String) (p : ℕ) (s : SharedChannel ι N) : ChannelStep ι N → Prop
  | .receive j _ => j = i ∧ (s.replicas i).targets = [] ∧ (s.replicas i).position = p ∧
      ∃ env, s.log[p]? = some env ∧ s.InRoom i x env.room
  | _ => False

/-! ## What a step does -/

variable {s : SharedChannel ι N}

/-- Every hub is consistent. -/
def Consistent (s : SharedChannel ι N) : Prop := ∀ i, (s.replicas i).hub.Consistent

omit [DecidableEq ι] in
theorem consistent_start : (start : SharedChannel ι N).Consistent := fun _ => Hub.consistent_new

/-- The `Deliver` calls for the connection `x` of replica `i`. -/
def inbox (s : SharedChannel ι N) (i : ι) (x : String) : List (Conn × Message N) :=
  (s.replicas i).outbox.filter fun d => d.1.connID = x

/-- A step of one replica changes the others in nothing. -/
theorem replicas_update {P : Replica N → Prop} {i j : ι} {r : Replica N} (hj : P (s.replicas j))
    (hr : j = i → P r) : P (Function.update s.replicas i r j) := by
  rcases eq_or_ne j i with rfl | hne
  · rw [Function.update_self]
    exact hr rfl
  · rw [Function.update_of_ne hne]
    exact hj

theorem Consistent.step (hc : s.Consistent) {e : ChannelStep ι N} (hfresh : s.FreshConnect e) :
    (s.step e).Consistent := by
  intro j
  cases e with
  | request i op =>
    refine replicas_update (P := fun r => r.hub.Consistent) (hc j) fun _ => ?_
    refine (HubOp.apply_spec (hc i) op ?_).1
    rintro connID key sink order rfl
    exact hfresh
  | publish env => exact hc j
  | receive i order =>
    refine replicas_update (P := fun r => r.hub.Consistent) (hc j) fun _ => ?_
    rw [Replica.receive_hub]
    exact hc i
  | lose i =>
    refine replicas_update (P := fun r => r.hub.Consistent) (hc j) fun _ => ?_
    rw [Replica.lose_hub]
    exact hc i
  | deliver i =>
    refine replicas_update (P := fun r => r.hub.Consistent) (hc j) fun _ => ?_
    rw [Replica.deliver_hub]
    exact hc i

theorem log_step (s : SharedChannel ι N) (e : ChannelStep ι N) : s.log <+: (s.step e).log := by
  cases e with
  | publish env => exact List.prefix_append _ _
  | request i op | receive i order | lose i | deliver i => exact List.prefix_refl _

/-- What a replica takes off the channel is for the connections in the room. -/
theorem inbox_of_takes (hc : s.Consistent) {i : ι} {x : String} {p : ℕ} {e : ChannelStep ι N}
    (h : Takes i x p s e) :
    (∃ d, (s.step e).inbox i x = s.inbox i x ++ [d] ∧
      s.log[p]?.map Envelope.message = some d.2) ∧
    ((s.step e).replicas i).position = p + 1 := by
  cases e with
  | receive j order =>
    obtain ⟨rfl, hidle, rfl, env, henv, c, hx, hroom⟩ := h
    have hstep : (s.step (.receive j order)).replicas j = (s.replicas j).receive s.log order :=
      Function.update_self ..
    have hfilter := Hub.deliverLocal_filter (hc j) order env x
    rw [hx] at hfilter
    dsimp only at hfilter
    rw [if_pos hroom] at hfilter
    refine ⟨⟨(c.conn, env.message), ?_, by rw [henv, Option.map_some]⟩, ?_⟩
    · rw [inbox, inbox, hstep, Replica.receive_outbox_of_some order hidle henv,
        List.filter_append, hfilter]
    · rw [hstep, Replica.receive_of_some order hidle henv]
  | request j op | publish env | lose j | deliver j => exact absurd h id

/-- No other step is heard by the connection. -/
theorem inbox_of_not_takes (hc : s.Consistent) {i : ι} {x : String} {e : ChannelStep ι N}
    (h : ∀ p, ¬ Takes i x p s e) : (s.step e).inbox i x = s.inbox i x := by
  have hsame {r : Replica N} {j : ι}
      (hr : i = j → r.outbox.filter (fun d => d.1.connID = x) = s.inbox i x) :
      (Function.update s.replicas j r i).outbox.filter (fun d => d.1.connID = x) = s.inbox i x :=
    replicas_update (P := fun r => r.outbox.filter (fun d => d.1.connID = x) = s.inbox i x) rfl hr
  cases e with
  | request j op => exact hsame fun hij => by subst hij; rfl
  | publish env => rfl
  | lose j => exact hsame fun hij => by rw [Replica.lose_outbox, hij]; rfl
  | deliver j => exact hsame fun hij => by rw [Replica.deliver_outbox, hij]; rfl
  | receive j order =>
    refine hsame fun hij => ?_
    subst hij
    by_cases hidle : (s.replicas i).targets = []
    · cases henv : s.log[(s.replicas i).position]? with
      | none => rw [Replica.receive, if_pos hidle, henv]; rfl
      | some env =>
        have hfilter := Hub.deliverLocal_filter (hc i) order env x
        -- were the connection in the room, the step would take the envelope for it
        have hnone : ((s.replicas i).hub.deliverLocal order env).filter
            (fun d => d.1.connID = x) = [] := by
          rw [hfilter]
          cases hx : (s.replicas i).hub.clients.lookup x with
          | none => rfl
          | some c =>
            exact if_neg fun hroom => h _ ⟨rfl, hidle, rfl, env, henv, c, hx, hroom⟩
        rw [Replica.receive_outbox_of_some order hidle henv, List.filter_append, hnone,
          List.append_nil]
        rfl
    · rw [Replica.receive, if_neg hidle]
      rfl

/-! ## What a replica has read -/

/-- The envelopes a replica has taken or lost. -/
def read (s : SharedChannel ι N) (i : ι) : List (Envelope N) := s.log.take (s.replicas i).position

/-- No replica has read beyond the channel. -/
def Bounded (s : SharedChannel ι N) : Prop := ∀ i, (s.replicas i).position ≤ s.log.length

omit [DecidableEq ι] in
theorem bounded_start : (start : SharedChannel ι N).Bounded := fun _ => le_rfl

/-- A replica at its position, or at the next where the step loses or takes the envelope. -/
def Reads (s : SharedChannel ι N) (i : ι) (e : ChannelStep ι N) (position : ℕ) : Prop :=
  position = (s.replicas i).position ∨
    (s.replicas i).position < s.log.length ∧ (s.step e).log = s.log ∧
      position = (s.replicas i).position + 1 ∧
      (e = .lose i ∨ ∃ order, e = .receive i order ∧ (s.replicas i).targets = [])

theorem reads_step (s : SharedChannel ι N) (i : ι) (e : ChannelStep ι N) :
    s.Reads i e ((s.step e).replicas i).position := by
  cases e with
  | publish env => exact .inl rfl
  | request j op =>
    exact replicas_update (P := fun r => s.Reads i _ r.position) (.inl rfl)
      fun hij => .inl (by rw [hij])
  | deliver j =>
    exact replicas_update (P := fun r => s.Reads i _ r.position) (.inl rfl)
      fun hij => .inl (by rw [Replica.deliver_position, hij])
  | lose j =>
    refine replicas_update (P := fun r => s.Reads i _ r.position) (.inl rfl) fun hij => ?_
    subst hij
    rw [Replica.lose]
    split
    next hlt => exact .inr ⟨hlt, rfl, rfl, .inl rfl⟩
    next => exact .inl rfl
  | receive j order =>
    refine replicas_update (P := fun r => s.Reads i _ r.position) (.inl rfl) fun hij => ?_
    subst hij
    by_cases hidle : (s.replicas i).targets = []
    · cases henv : s.log[(s.replicas i).position]? with
      | none => exact .inl (by rw [Replica.receive, if_pos hidle, henv])
      | some env =>
        have hlt := (List.getElem?_eq_some_iff.1 henv).1
        rw [Replica.receive_of_some order hidle henv]
        exact .inr ⟨hlt, rfl, rfl, .inr ⟨order, rfl, hidle⟩⟩
    · exact .inl (by rw [Replica.receive, if_neg hidle])

theorem position_step_le (s : SharedChannel ι N) (i : ι) (e : ChannelStep ι N) :
    (s.replicas i).position ≤ ((s.step e).replicas i).position := by
  obtain hsame | ⟨-, -, hnext, -⟩ := s.reads_step i e
  · exact hsame.ge
  · omega

theorem Bounded.step (h : s.Bounded) (e : ChannelStep ι N) : (s.step e).Bounded := by
  intro i
  obtain hsame | ⟨hlt, hlog, hnext, -⟩ := s.reads_step i e
  · rw [hsame]
    exact (h i).trans (s.log_step e).length_le
  · rw [hnext, hlog]
    exact hlt

/-! ## What a connection has heard -/

/-- What is published stays where it is. -/
theorem published_step {p : ℕ} {env : Envelope N} (h : s.log[p]? = some env)
    (e : ChannelStep ι N) : (s.step e).log[p]? = some env := by
  obtain ⟨hp, rfl⟩ := List.getElem?_eq_some_iff.1 h
  exact List.prefix_iff_getElem?.1 (s.log_step e) p hp

/-- The connection has been handed the envelopes at `positions`, in this order. -/
structure Heard (i : ι) (x : String) (positions : List ℕ) (s : SharedChannel ι N) : Prop where
  increasing : positions.Pairwise (· < ·)
  below : ∀ p ∈ positions, p < (s.replicas i).position
  served : List.Forall₂ (fun p d => s.log[p]?.map Envelope.message = some d.2) positions
    (s.inbox i x)

variable {i : ι} {x : String} {positions : List ℕ} {e : ChannelStep ι N}

theorem Heard.served_step (h : Heard i x positions s) (e : ChannelStep ι N) :
    List.Forall₂ (fun p d => (s.step e).log[p]?.map Envelope.message = some d.2) positions
      (s.inbox i x) := by
  refine h.served.imp fun p d hd => ?_
  obtain ⟨env, henv, hmessage⟩ := Option.map_eq_some_iff.1 hd
  rw [published_step henv, Option.map_some, hmessage]

omit [DecidableEq ι] in
theorem Takes.position {p : ℕ} (h : Takes i x p s e) : (s.replicas i).position = p := by
  cases e with
  | receive j order => exact h.2.2.1
  | request j op | publish env | lose j | deliver j => exact absurd h id

theorem Heard.takes (h : Heard i x positions s) (hc : s.Consistent) {p : ℕ}
    (htakes : Takes i x p s e) : Heard i x (positions ++ [p]) (s.step e) := by
  obtain ⟨⟨d, hinbox, hd⟩, hnext⟩ := inbox_of_takes hc htakes
  have hp := htakes.position
  obtain ⟨env, henv, hmessage⟩ := Option.map_eq_some_iff.1 hd
  refine ⟨?_, ?_, ?_⟩
  -- the replica was at `p`, above every position heard before
  · refine List.pairwise_append.2 ⟨h.increasing, List.pairwise_singleton .., fun q hq r hr => ?_⟩
    rw [List.mem_singleton.1 hr, ← hp]
    exact h.below q hq
  · intro q hq
    rw [hnext]
    rcases List.mem_append.1 hq with hbefore | hlast
    · have := h.below q hbefore
      omega
    · rw [List.mem_singleton.1 hlast]
      exact Nat.lt_succ_self p
  · rw [hinbox]
    refine List.rel_append (h.served_step e) (.cons ?_ .nil)
    rw [published_step henv, Option.map_some, hmessage]

theorem Heard.others (h : Heard i x positions s) (hc : s.Consistent)
    (hno : ∀ p, ¬ Takes i x p s e) : Heard i x positions (s.step e) where
  increasing := h.increasing
  below p hp := (h.below p hp).trans_le (s.position_step_le i e)
  served := by
    rw [inbox_of_not_takes hc hno]
    exact h.served_step e

/-! ## What a connection does not miss -/

theorem read_of_position_eq (hb : s.Bounded)
    (hsame : ((s.step e).replicas i).position = (s.replicas i).position) :
    (s.step e).read i = s.read i := by
  obtain ⟨more, hlog⟩ := s.log_step e
  rw [read, read, hsame, ← hlog, List.take_append_of_le_length (hb i)]

theorem read_of_position_succ {env : Envelope N} (henv : s.log[(s.replicas i).position]? = some env)
    (hlog : (s.step e).log = s.log)
    (hnext : ((s.step e).replicas i).position = (s.replicas i).position + 1) :
    (s.step e).read i = s.read i ++ [env] := by
  rw [read, read, hlog, hnext, List.take_add_one, henv, Option.toList_some]

/-- What was read and what was heard, for a connection that misses nothing of a room. -/
structure Keeps (i : ι) (x room : String) (s s' : SharedChannel ι N) (more : List (Envelope N))
    (new : List (Conn × Message N)) : Prop where
  read : s'.read i = s.read i ++ more
  inbox : s'.inbox i x = s.inbox i x ++ new
  heard : ((more.filter fun env => env.room = room).map Envelope.message).Sublist
    (new.map Prod.snd)

variable {room : String}

theorem keeps_step (hc : s.Consistent) (hb : s.Bounded) (hroom : s.InRoom i x room)
    (hlose : e ≠ .lose i) : ∃ more new, Keeps i x room s (s.step e) more new := by
  by_cases htakes : ∃ p, Takes i x p s e
  · obtain ⟨p, hp⟩ := htakes
    obtain ⟨⟨d, hinbox, hd⟩, hnext⟩ := inbox_of_takes hc hp
    obtain ⟨env, henv, hmessage⟩ := Option.map_eq_some_iff.1 hd
    have hposition := hp.position
    subst hposition
    obtain hsame | ⟨-, hlog, -, -⟩ := s.reads_step i e
    · omega
    refine ⟨[env], [d], read_of_position_succ henv hlog hnext, hinbox, ?_⟩
    rw [List.map_singleton, ← hmessage]
    exact (List.filter_sublist (l := [env])).map Envelope.message
  · rw [not_exists] at htakes
    have hinbox := inbox_of_not_takes hc htakes
    obtain hsame | ⟨hlt, hlog, hnext, hmoved⟩ := s.reads_step i e
    · exact ⟨[], [], by rw [read_of_position_eq hb hsame, List.append_nil],
        by rw [hinbox, List.append_nil], List.Sublist.refl _⟩
    · obtain hlost | ⟨order, rfl, hidle⟩ := hmoved
      · exact absurd hlost hlose
      have henv := List.getElem?_eq_getElem hlt
      refine ⟨[_], [], read_of_position_succ henv hlog hnext,
        by rw [hinbox, List.append_nil], ?_⟩
      -- an envelope of the room would have been taken for the connection
      rw [List.filter_cons_of_neg, List.filter_nil]
      · exact List.Sublist.refl _
      · rw [decide_eq_true_eq]
        rintro rfl
        exact htakes _ ⟨rfl, hidle, rfl, _, henv, hroom⟩

theorem keeps_run (hc : s.Consistent) (hb : s.Bounded) {steps : List (ChannelStep ι N)}
    (hfresh : AllSteps step FreshConnect s steps)
    (hroom : Always step (fun s => s.InRoom i x room) s steps)
    (hlose : ChannelStep.lose i ∉ steps) :
    ∃ more new, Keeps i x room s (run step s steps) more new := by
  induction steps generalizing s with
  | nil => exact ⟨[], [], (List.append_nil _).symm, (List.append_nil _).symm, .refl _⟩
  | cons e steps ih =>
    rw [List.mem_cons, not_or] at hlose
    obtain ⟨more, new, hread, hinbox, hheard⟩ := keeps_step hc hb hroom.1 (Ne.symm hlose.1)
    obtain ⟨more', new', hread', hinbox', hheard'⟩ :=
      ih (hc.step hfresh.1) (hb.step e) hfresh.2 hroom.2 hlose.2
    refine ⟨more ++ more', new ++ new', ?_, ?_, ?_⟩
    · rw [run_cons, hread', hread, List.append_assoc]
    · rw [run_cons, hinbox', hinbox, List.append_assoc]
    · rw [List.filter_append, List.map_append, List.map_append]
      exact hheard.append hheard'

end SharedChannel

/-! ## Runs -/

section Delivery

variable {ι N : Type} [DecidableEq ι]

open SharedChannel

theorem consistent_run {steps : List (ChannelStep ι N)}
    (hfresh : AllSteps step FreshConnect start steps) : (run step start steps).Consistent :=
  (always_of_allSteps (fun _ _ hc hstep => hc.step hstep) consistent_start hfresh).last

/-- A connection is handed the envelopes at increasing positions of the channel: those its replica
took while the connection was in their room. -/
theorem fan_out_exact (steps : List (ChannelStep ι N))
    (hfresh : AllSteps step FreshConnect start steps) (i : ι) (x : String) :
    ∃ positions : List ℕ, positions.Pairwise (· < ·) ∧
      (∀ p, p ∈ positions ↔ SomeStep step (Takes i x p) start steps) ∧
      List.Forall₂ (fun p d => (run step start steps).log[p]?.map Envelope.message = some d.2)
        positions ((run step start steps).inbox i x) := by
  suffices h : ∃ positions, (∀ p, p ∈ positions ↔ SomeStep step (Takes i x p) start steps) ∧
      Heard i x positions (run step start steps) by
    obtain ⟨positions, htaken, hheard⟩ := h
    exact ⟨positions, hheard.increasing, htaken, hheard.served⟩
  induction steps using List.reverseRecOn with
  | nil =>
    refine ⟨[], fun p => iff_of_false List.not_mem_nil (not_someStep_nil _), ⟨.nil, ?_, .nil⟩⟩
    exact fun p hp => absurd hp List.not_mem_nil
  | append_singleton pre e ih =>
    rw [allSteps_append] at hfresh
    obtain ⟨positions, htaken, hheard⟩ := ih hfresh.1
    have hc := consistent_run hfresh.1
    simp only [someStep_concat, ← htaken, run_concat]
    -- a step takes one position at most
    by_cases htakes : ∃ p, Takes i x p (run step start pre) e
    · obtain ⟨p, hp⟩ := htakes
      refine ⟨positions ++ [p], fun q => ?_, hheard.takes hc hp⟩
      rw [List.mem_append, List.mem_singleton]
      refine or_congr_right ⟨fun hq => hq ▸ hp, fun hq => ?_⟩
      exact hq.position.symm.trans hp.position
    · rw [not_exists] at htakes
      exact ⟨positions, fun q => (or_iff_left (htakes q)).symm, hheard.others hc htakes⟩

/-- Two connections of different replicas join a vehicle's room. -/
def joining : List (ChannelStep Bool ℕ) :=
  [.request false (.connect "a" "s" 1 (.sorted String)),
    .request false (.subscribe "a" "vehicle" "v"),
    .request true (.connect "b" "t" 2 (.sorted String)),
    .request true (.subscribe "b" "vehicle" "v")]

/-- A position of the vehicle. -/
def moved (n : ℕ) : Envelope ℕ := ⟨"vehicle:v", "position", .num n⟩

/-- Two positions are published; one replica takes both while the other takes the first, whose
client disconnects before it is called, and loses the second. -/
def moving : List (ChannelStep Bool ℕ) :=
  [.publish (moved 1), .receive true (.sorted String), .publish (moved 2),
    .receive false (.sorted String), .request true (.disconnect "b" (.sorted String)),
    .deliver false, .receive false (.sorted String), .deliver true, .lose true]

theorem moving_heard : ∃ positions : List ℕ, positions.Pairwise (· < ·) ∧
    (∀ p, p ∈ positions ↔ SomeStep step (Takes true "b" p) start (joining ++ moving)) ∧
    List.Forall₂ (fun p d => (run step start (joining ++ moving)).log[p]?.map Envelope.message =
      some d.2) positions ((run step start (joining ++ moving)).inbox true "b") :=
  fan_out_exact (joining ++ moving) (by decide +kernel) true "b"

/-- The call follows the disconnect, for the target was collected before it. -/
example : (((run step start (joining ++ moving)).replicas true).delivered.map fun d =>
    (d.1.connID, d.2.event)) = [("b", "position")] := by
  decide +kernel

/-- While a connection stays in a room and its replica loses nothing, it is handed, in order, every
message of the room that the replica reads. -/
theorem fan_out_complete (pre mid : List (ChannelStep ι N))
    (hfresh : AllSteps step FreshConnect start (pre ++ mid)) {i : ι} {x room : String}
    (hroom : Always step (fun s => s.InRoom i x room) (run step start pre) mid)
    (hlose : ChannelStep.lose i ∉ mid) :
    ∃ more new, Keeps i x room (run step start pre) (run step start (pre ++ mid)) more new := by
  have hbounded : (run step start pre : SharedChannel ι N).Bounded :=
    run_invariant (fun _ e h => h.step e) bounded_start pre
  rw [allSteps_append] at hfresh
  rw [run_append]
  exact keeps_run (consistent_run hfresh.1) hbounded hfresh.2 hroom hlose

theorem moving_kept : ∃ more new, Keeps false "a" "vehicle:v" (run step start joining)
    (run step start (joining ++ moving)) more new :=
  fan_out_complete joining moving (by decide +kernel) (by decide +kernel) (by simp [moving])

end Delivery

end FleetCommand.Streaming
