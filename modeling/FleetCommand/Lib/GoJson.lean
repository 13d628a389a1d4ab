import FleetCommand.Lib.Json

/-!
# Decoding JSON into Go structures

How Go's `encoding/json` fills a structure from an object: a member goes to the field of its exact
name, or else to one whose name is the same up to case; a member of no field is ignored; an absent
field keeps its value. A value of another type is an error of the whole decoding. A pointer field
becomes nil at `null`, and otherwise points to what is there already or to a zero value.
-/

set_option autoImplicit false

namespace GoJson

variable {N σ τ : Type}

/-- A field of a structure; `none` where the value has another type. -/
structure Field (N σ : Type) where
  name : String
  decode : σ → Json N → Option σ

/-- A field given by its access functions. -/
def Field.at (name : String) (get : σ → τ) (set : σ → τ → σ) (decode : τ → Json N → Option τ) :
    Field N σ :=
  ⟨name, fun s v => (decode (get s) v).map (set s)⟩

/-- Decoding into a pointer. -/
def pointer (zero : τ) (decode : τ → Json N → Option τ) (cur : Option τ) : Json N → Option (Option τ)
  | .null => some none
  | v => (decode (cur.getD zero) v).map some

/-- Case folding, up to the letters that fold to an ASCII letter: the long s and the Kelvin sign
besides the ASCII capitals. -/
def foldRune (c : Char) : Char :=
  if c = Char.ofNat 0x017F then 's' else if c = Char.ofNat 0x212A then 'k' else c.toLower

/-- A name up to the case of its letters. -/
def foldName (name : String) : List Char := name.toList.map foldRune

/-- The field a member is decoded into. -/
def field? (fields : List (Field N σ)) (key : String) : Option (Field N σ) :=
  (fields.find? fun f => f.name = key).or
    (fields.find? fun f => foldName f.name = foldName key)

/-- One member of an object. -/
def decodeMember (fields : List (Field N σ)) (s : σ) (m : String × Json N) : Option σ :=
  match field? fields m.1 with
  | none => some s
  | some f => f.decode s m.2

/-- The members of an object, in order. -/
def decodeMembers (fields : List (Field N σ)) (s : σ) : List (String × Json N) → Option σ
  | [] => some s
  | m :: members => (decodeMember fields s m).bind fun s => decodeMembers fields s members

/-- Decoding into a structure; `null` leaves it as it is. -/
def decodeStruct (fields : List (Field N σ)) (s : σ) : Json N → Option σ
  | .null => some s
  | .obj members => decodeMembers fields s members
  | _ => none

variable {fields : List (Field N σ)}

@[simp] theorem decodeMembers_nil (s : σ) : decodeMembers fields s [] = some s := rfl

theorem decodeMembers_cons_of_some {s s' : σ} {m : String × Json N}
    (h : decodeMember fields s m = some s') (members : List (String × Json N)) :
    decodeMembers fields s (m :: members) = decodeMembers fields s' members := by
  rw [decodeMembers, h, Option.bind_some]

theorem decodeMembers_append (s : σ) (members rest : List (String × Json N)) :
    decodeMembers fields s (members ++ rest) =
      (decodeMembers fields s members).bind fun s => decodeMembers fields s rest := by
  induction members generalizing s with
  | nil => rfl
  | cons m members ih =>
    rw [List.cons_append, decodeMembers, decodeMembers]
    cases decodeMember fields s m with
    | none => rfl
    | some s' => exact ih s'

/-- One member whose value its field never takes, and the decoding fails, whatever else is there. -/
theorem decodeMembers_eq_none (s : σ) {members : List (String × Json N)} {m : String × Json N}
    (hm : m ∈ members) {f : Field N σ} (hfield : field? fields m.1 = some f)
    (hmismatch : ∀ s, f.decode s m.2 = none) : decodeMembers fields s members = none := by
  induction members generalizing s with
  | nil => exact absurd hm List.not_mem_nil
  | cons m' members ih =>
    rw [decodeMembers]
    rcases List.mem_cons.1 hm with rfl | hm
    · rw [decodeMember, hfield]
      dsimp only
      rw [hmismatch, Option.bind_none]
    · cases decodeMember fields s m' with
      | none => rfl
      | some s' => exact ih s' hm

end GoJson
