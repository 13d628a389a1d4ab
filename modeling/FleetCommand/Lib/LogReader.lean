import FleetCommand.Lib.Runs
import Mathlib.Data.List.TakeDrop

/-!
# Reading an append-only log

A reader of a log stands at a position. It reads the entry there and either moves on or reads it
again: a delivery that is not acknowledged is repeated. `Reads log n read` says that `read` is what
a reader at position `n` has read so far. What relates the entries of a log in their order relates
what was read to what is still to be read (`Reads.rel`). A consumer to which an entry repeated at
once is no different is, at the end of the log, where it would be had it read every entry once
(`Reads.run_eq`).
-/

set_option autoImplicit false

namespace LogReader

universe u

variable {ε : Type u} {log : List ε} {n : Nat} {read : List ε}

/-- The entries before the position were read in order, each at least once; the entry at the
position any number of times. -/
inductive Reads (log : List ε) : Nat → List ε → Prop where
  | start : Reads log 0 []
  | again {n : Nat} {read : List ε} {e : ε} (h : Reads log n read) (he : log[n]? = some e) :
      Reads log n (read ++ [e])
  | next {n : Nat} {read : List ε} {e : ε} (h : Reads log n read) (he : log[n]? = some e) :
      Reads log (n + 1) (read ++ [e])

/-- A delivery reads the entry at the position, and moves on when it is acknowledged. -/
theorem Reads.deliver (h : Reads log n read) {e : ε} (he : log[n]? = some e) (acked : Bool) :
    Reads log (if acked then n + 1 else n) (read ++ [e]) := by
  cases acked with
  | true => exact .next h he
  | false => exact .again h he

/-- Entries are added at the end. -/
theorem Reads.grow (h : Reads log n read) (later : List ε) : Reads (log ++ later) n read := by
  have hsame {m : Nat} {e : ε} (he : log[m]? = some e) : (log ++ later)[m]? = some e := by
    rw [List.getElem?_append_left (List.getElem?_eq_some_iff.1 he).1, he]
  induction h with
  | start => exact .start
  | again _ he ih => exact .again ih (hsame he)
  | next _ he ih => exact .next ih (hsame he)

section Order

variable {R : ε → ε → Prop}

theorem rel_of_le (hlog : log.Pairwise R) (hrefl : ∀ e, R e e) {i j : Nat} (hij : i ≤ j) {a b : ε}
    (ha : log[i]? = some a) (hb : log[j]? = some b) : R a b := by
  obtain ⟨hi, rfl⟩ := List.getElem?_eq_some_iff.1 ha
  obtain ⟨hj, rfl⟩ := List.getElem?_eq_some_iff.1 hb
  rcases Nat.lt_or_eq_of_le hij with hlt | rfl
  · exact List.pairwise_iff_getElem.1 hlog i j hi hj hlt
  · exact hrefl _

/-- What was read is related to what is still to be read. -/
theorem Reads.rel (h : Reads log n read) (hlog : log.Pairwise R) (hrefl : ∀ e, R e e) {a b : ε}
    (ha : a ∈ read) {m : Nat} (hm : n ≤ m) (hb : log[m]? = some b) : R a b := by
  induction h with
  | start => exact absurd ha List.not_mem_nil
  | again _ he ih =>
    rcases List.mem_append.1 ha with hbefore | hlast
    · exact ih hbefore hm
    · obtain rfl := List.mem_singleton.1 hlast
      exact rel_of_le hlog hrefl hm he hb
  | next _ he ih =>
    rcases List.mem_append.1 ha with hbefore | hlast
    · exact ih hbefore (Nat.le_of_succ_le hm)
    · obtain rfl := List.mem_singleton.1 hlast
      exact rel_of_le hlog hrefl (Nat.le_of_succ_le hm) he hb

end Order

/-! ## A consumer to which a repeated entry is no different -/

section Consumer

universe v

variable {σ : Type v} {step : σ → ε → σ}

/-- The consumer has taken in the entries before the position, and possibly the one there. -/
theorem Reads.run_take (h : Reads log n read) (hrepeat : ∀ s e, step (step s e) e = step s e)
    (s : σ) :
    Runs.run step s read = Runs.run step s (log.take n) ∨
      ∃ e, log[n]? = some e ∧
        Runs.run step s read = Runs.run step s (log.take n ++ [e]) := by
  induction h with
  | start => exact .inl rfl
  | @again n read e h he ih =>
    refine .inr ⟨e, he, ?_⟩
    rw [Runs.run_concat, Runs.run_concat]
    -- the entry at the position was not read yet, or is read again
    rcases ih with ih | ⟨e', he', ih⟩
    · rw [ih]
    · obtain rfl := Option.some.inj (he.symm.trans he')
      rw [ih, Runs.run_concat, hrepeat]
  | @next n read e h he ih =>
    have htake : log.take (n + 1) = log.take n ++ [e] := by
      rw [List.take_add_one, he, Option.toList_some]
    rw [htake, Runs.run_concat, Runs.run_concat]
    refine .inl ?_
    rcases ih with ih | ⟨e', he', ih⟩
    · rw [ih]
    · obtain rfl := Option.some.inj (he.symm.trans he')
      rw [ih, Runs.run_concat, hrepeat]

/-- A consumer that has read to the end is where it would be had it read every entry once. -/
theorem Reads.run_eq (h : Reads log log.length read)
    (hrepeat : ∀ s e, step (step s e) e = step s e) (s : σ) :
    Runs.run step s read = Runs.run step s log := by
  rcases h.run_take hrepeat s with hrun | ⟨e, he, -⟩
  · rwa [List.take_length] at hrun
  · exact absurd (List.getElem?_eq_some_iff.1 he).1 (Nat.lt_irrefl _)

end Consumer

end LogReader
