import FleetCommand.Lib.Json
import Mathlib.Data.Rat.Encodable
import Mathlib.Data.Countable.Basic
import Mathlib.Logic.Equiv.List

/-!
# JSON has a text form

Over a countable type of numbers there is a `Json.Codec` whose texts are strings. A document is
written as a sequence of symbols in which every node says what it is and how many items follow, so
no document's sequence continues another's (`symbols_append_inj`); the sequences are countable, and
every countable type has a text form.
-/

set_option autoImplicit false

namespace Json

variable {N : Type}

/-! ## The linear form of a document -/

/-- A tag or a count, a number, or the code points of a string. -/
abbrev Symbol (N : Type) := Nat ⊕ N ⊕ List Nat

/-- The code points of a string. -/
def codes (s : String) : List Nat := s.toList.map Char.toNat

theorem codes_injective : Function.Injective codes := by
  intro s s' h
  exact String.toList_inj.1 (List.map_injective_iff.2 (fun _ _ h => Char.toNat_inj.1 h) h)

mutual

/-- The symbols of a document, each kind of value after its own number. -/
def symbols : Json N → List (Symbol N)
  | null => [.inl 0]
  | bool b => [.inl 1, .inl b.toNat]
  | num n => [.inl 2, .inr (.inl n)]
  | str s => [.inl 3, .inr (.inr (codes s))]
  | arr items => .inl 4 :: .inl items.length :: itemSymbols items
  | obj members => .inl 5 :: .inl members.length :: memberSymbols members

def itemSymbols : List (Json N) → List (Symbol N)
  | [] => []
  | v :: items => symbols v ++ itemSymbols items

def memberSymbols : List (String × Json N) → List (Symbol N)
  | [] => []
  | (name, v) :: members => .inr (.inr (codes name)) :: (symbols v ++ memberSymbols members)

end

mutual

/-- No document's sequence continues another's. -/
theorem symbols_append_inj : ∀ (v w : Json N) (r r' : List (Symbol N)),
    symbols v ++ r = symbols w ++ r' → v = w ∧ r = r'
  | null, w, r, r', h => by
    cases w with
    | null => simpa [symbols] using h
    | _ => simp [symbols] at h
  | bool b, w, r, r', h => by
    cases w with
    | bool b' =>
      obtain ⟨hb, hr⟩ : b.toNat = b'.toNat ∧ r = r' := by simpa [symbols] using h
      have hb' : b = b' := by
        cases b <;> cases b' <;> first | rfl | exact absurd hb (by decide)
      exact ⟨congrArg bool hb', hr⟩
    | _ => simp [symbols] at h
  | num n, w, r, r', h => by
    cases w with
    | num n' => simpa [symbols] using h
    | _ => simp [symbols] at h
  | str s, w, r, r', h => by
    cases w with
    | str s' =>
      obtain ⟨hs, hr⟩ : codes s = codes s' ∧ r = r' := by simpa [symbols] using h
      exact ⟨congrArg str (codes_injective hs), hr⟩
    | _ => simp [symbols] at h
  | arr items, w, r, r', h => by
    cases w with
    | arr items' =>
      obtain ⟨hlength, hitems⟩ : items.length = items'.length ∧
          itemSymbols items ++ r = itemSymbols items' ++ r' := by simpa [symbols] using h
      obtain ⟨rfl, hr⟩ := itemSymbols_append_inj items items' r r' hlength hitems
      exact ⟨rfl, hr⟩
    | _ => simp [symbols] at h
  | obj members, w, r, r', h => by
    cases w with
    | obj members' =>
      obtain ⟨hlength, hmembers⟩ : members.length = members'.length ∧
          memberSymbols members ++ r = memberSymbols members' ++ r' := by simpa [symbols] using h
      obtain ⟨rfl, hr⟩ := memberSymbols_append_inj members members' r r' hlength hmembers
      exact ⟨rfl, hr⟩
    | _ => simp [symbols] at h

theorem itemSymbols_append_inj : ∀ (items items' : List (Json N)) (r r' : List (Symbol N)),
    items.length = items'.length → itemSymbols items ++ r = itemSymbols items' ++ r' →
      items = items' ∧ r = r'
  | [], [], _, _, _, h => ⟨rfl, h⟩
  | v :: items, w :: items', r, r', hlength, h => by
    simp only [itemSymbols, List.append_assoc] at h
    obtain ⟨rfl, hrest⟩ := symbols_append_inj v w _ _ h
    obtain ⟨rfl, hr⟩ := itemSymbols_append_inj items items' r r' (Nat.succ.inj hlength) hrest
    exact ⟨rfl, hr⟩

theorem memberSymbols_append_inj : ∀ (members members' : List (String × Json N))
    (r r' : List (Symbol N)), members.length = members'.length →
      memberSymbols members ++ r = memberSymbols members' ++ r' → members = members' ∧ r = r'
  | [], [], _, _, _, h => ⟨rfl, h⟩
  | (name, v) :: members, (name', w) :: members', r, r', hlength, h => by
    simp only [memberSymbols, List.cons_append, List.append_assoc, List.cons.injEq, Sum.inr.injEq]
      at h
    obtain ⟨rfl, hrest⟩ := symbols_append_inj v w _ _ h.2
    obtain ⟨rfl, hr⟩ := memberSymbols_append_inj members members' r r' (Nat.succ.inj hlength) hrest
    rw [codes_injective h.1]
    exact ⟨rfl, hr⟩

end

theorem symbols_injective : Function.Injective (symbols : Json N → List (Symbol N)) :=
  fun v w h => (symbols_append_inj v w [] [] (by rw [h])).1

/-! ## The text form -/

instance [Countable N] : Countable (Json N) := symbols_injective.countable

/-- Every document has a text of its own, which is decoded to it. -/
theorem nonempty_codec_string [Countable N] : Nonempty (Codec N String) := by
  obtain ⟨number, hnumber⟩ := exists_injective_nat (Json N)
  have hinj :
      Function.Injective fun v : Json N => String.ofList (List.replicate (number v) '0') := by
    intro v w h
    have hlength := congrArg (fun s => s.toList.length) h
    simp only [String.toList_ofList, List.length_replicate] at hlength
    exact hnumber hlength
  exact ⟨_, Function.partialInv _, Function.partialInv_left hinj⟩

end Json
