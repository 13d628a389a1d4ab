import Mathlib.Data.List.Basic

/-!
# Hexadecimal

The hexadecimal text of a byte string, two digits a byte, in lower case. The decoder is a lenient
one: it takes the capitals as well, and stops at the first pair that is no two digits, so what
follows is dropped.
-/

set_option autoImplicit false

namespace Hex

/-- The digits, by value. -/
def digits : List Char :=
  ['0', '1', '2', '3', '4', '5', '6', '7', '8', '9', 'a', 'b', 'c', 'd', 'e', 'f']

/-- The digit of a value below 16. -/
def digitOf (v : Nat) : Char := digits.getD v '0'

/-- The value of a digit. -/
def valueOf (c : Char) : Option Nat := digits.idxOf? c.toLower

theorem valueOf_digitOf {v : Nat} (h : v < 16) : valueOf (digitOf v) = some v := by
  have hall : ∀ i : Fin 16, valueOf (digitOf i.val) = some i.val := by decide
  exact hall ⟨v, h⟩

theorem digitOf_ne {v : Nat} (h : v < 16) : digitOf v ≠ '$' := by
  have hall : ∀ i : Fin 16, digitOf i.val ≠ '$' := by decide
  exact hall ⟨v, h⟩

/-- Two digits a byte. -/
def encode (bytes : List UInt8) : List Char :=
  bytes.flatMap fun b => [digitOf (b.toNat / 16), digitOf (b.toNat % 16)]

/-- The bytes up to the first pair that is not two digits. -/
def decode : List Char → List UInt8
  | c :: d :: cs =>
    match valueOf c, valueOf d with
    | some high, some low => .ofNat (high * 16 + low) :: decode cs
    | _, _ => []
  | _ => []

theorem decode_encode (bytes : List UInt8) : decode (encode bytes) = bytes := by
  induction bytes with
  | nil => rfl
  | cons b bytes ih =>
    have hb := b.toNat_lt
    have hhigh : valueOf (digitOf (b.toNat / 16)) = some (b.toNat / 16) :=
      valueOf_digitOf (by omega)
    have hlow : valueOf (digitOf (b.toNat % 16)) = some (b.toNat % 16) := valueOf_digitOf (by omega)
    have hbyte : UInt8.ofNat (b.toNat / 16 * 16 + b.toNat % 16) = b := by
      rw [Nat.div_add_mod', UInt8.ofNat_toNat]
    have hencode : encode (b :: bytes) =
        digitOf (b.toNat / 16) :: digitOf (b.toNat % 16) :: encode bytes := rfl
    rw [hencode, decode, hhigh, hlow, ih]
    dsimp only
    rw [hbyte]

/-- No digit separates. -/
theorem not_mem_encode (bytes : List UInt8) : '$' ∉ encode bytes := by
  intro h
  obtain ⟨b, -, hmem⟩ := List.mem_flatMap.1 h
  have hb := b.toNat_lt
  rcases List.mem_cons.1 hmem with hhigh | hlow
  · exact digitOf_ne (by omega) hhigh.symm
  · exact digitOf_ne (by omega) (List.mem_singleton.1 hlow).symm

end Hex
