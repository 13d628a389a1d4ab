import Mathlib.Data.List.Basic

/-!
# JSON documents

A JSON document over a type `N` of numbers. Objects keep their members in the order they are
written, repeated names included: decoders differ in what they make of those. `Codec` is a text form
that a standard encoder writes and a standard decoder reads back.
-/

set_option autoImplicit false

universe u

/-- A JSON document. -/
inductive Json (N : Type u) : Type u where
  | null
  | bool (b : Bool)
  | num (n : N)
  | str (s : String)
  | arr (items : List (Json N))
  | obj (members : List (String × Json N))

namespace Json

variable {N : Type u}

/-- A text form of JSON: what the encoder writes, the decoder reads back. -/
structure Codec (N : Type u) (Text : Type u) where
  encode : Json N → Text
  decode : Text → Option (Json N)
  decode_encode : ∀ v, decode (encode v) = some v

/-- Documents as their own text. -/
def Codec.document (N : Type u) : Codec N (Json N) := ⟨id, some, fun _ => rfl⟩

/-- The value of a member: of the last one with that name. -/
def member? (name : String) : Json N → Option (Json N)
  | .obj members => (members.findRev? fun m => m.1 == name).map Prod.snd
  | _ => none

end Json
