import Mathlib.Data.List.DropRight
import Mathlib.Data.List.Basic

/-!
# Base64

The standard base64 text of a byte string: every three bytes are four characters of the alphabet,
and a last group of one or two bytes is two or three characters and padding. The decoder is a
lenient one that reads a byte at a time: it takes the URL-safe characters for the two they stand
for, passes over every other byte outside the alphabet and stops at the first padding character, so
what it reads back does not depend on how much padding there is (`decode_padded`).
-/

set_option autoImplicit false

namespace Base64

/-! ## The alphabet -/

/-- The 64 characters, by value. -/
def alphabet : List Char :=
  ['A', 'B', 'C', 'D', 'E', 'F', 'G', 'H', 'I', 'J', 'K', 'L', 'M', 'N', 'O', 'P', 'Q', 'R', 'S',
    'T', 'U', 'V', 'W', 'X', 'Y', 'Z', 'a', 'b', 'c', 'd', 'e', 'f', 'g', 'h', 'i', 'j', 'k',
    'l', 'm', 'n', 'o', 'p', 'q', 'r', 's', 't', 'u', 'v', 'w', 'x', 'y', 'z', '0', '1', '2',
    '3', '4', '5', '6', '7', '8', '9', '+', '/']

/-- The character of a value below 64. -/
def charOf (v : Nat) : Char := alphabet.getD v '='

/-- The value of a character, of the URL-safe ones too. -/
def valueOf (c : Char) : Option Nat :=
  if c = '-' then some 62 else if c = '_' then some 63 else alphabet.idxOf? c

/-- The low byte of a character. -/
def byteOf (c : Char) : UInt8 := .ofNat c.toNat

/-- The value of a byte of text. -/
def valueOfByte (b : UInt8) : Option Nat := valueOf (.ofNat b.toNat)

theorem valueOfByte_charOf {v : Nat} (h : v < 64) : valueOfByte (byteOf (charOf v)) = some v := by
  have hall : ∀ i : Fin 64, valueOfByte (byteOf (charOf i.val)) = some i.val := by decide
  exact hall ⟨v, h⟩

theorem byteOf_charOf_ne {v : Nat} (h : v < 64) : byteOf (charOf v) ≠ byteOf '=' := by
  have hall : ∀ i : Fin 64, byteOf (charOf i.val) ≠ byteOf '=' := by decide
  exact hall ⟨v, h⟩

theorem charOf_ne {v : Nat} (h : v < 64) : charOf v ∉ ['.', '-', '_', '='] := by
  have hall : ∀ i : Fin 64, charOf i.val ∉ ['.', '-', '_', '='] := by decide
  exact hall ⟨v, h⟩

theorem charOf_toNat_lt {v : Nat} (h : v < 64) : (charOf v).toNat < 128 := by
  have hall : ∀ i : Fin 64, (charOf i.val).toNat < 128 := by decide
  exact hall ⟨v, h⟩

/-! ## Groups -/

/-- The six bit values of a byte string. -/
def sextets : List UInt8 → List Nat
  | a :: b :: c :: bytes =>
    a.toNat / 4 :: (a.toNat % 4 * 16 + b.toNat / 16) :: (b.toNat % 16 * 4 + c.toNat / 64) ::
      c.toNat % 64 :: sextets bytes
  | [a, b] => [a.toNat / 4, a.toNat % 4 * 16 + b.toNat / 16, b.toNat % 16 * 4]
  | [a] => [a.toNat / 4, a.toNat % 4 * 16]
  | [] => []

/-- The bytes of a sequence of six bit values; a last value alone is dropped. -/
def octets : List Nat → List UInt8
  | s :: t :: u :: v :: values =>
    .ofNat (s * 4 + t / 16) :: .ofNat (t % 16 * 16 + u / 4) :: .ofNat (u % 4 * 64 + v) ::
      octets values
  | [s, t, u] => [.ofNat (s * 4 + t / 16), .ofNat (t % 16 * 16 + u / 4)]
  | [s, t] => [.ofNat (s * 4 + t / 16)]
  | [_] => []
  | [] => []

theorem lt_of_mem_sextets (bytes : List UInt8) : ∀ v ∈ sextets bytes, v < 64 := by
  fun_induction sextets bytes with
  | case1 a b c bytes ih =>
    have ha := a.toNat_lt
    have hb := b.toNat_lt
    have hc := c.toNat_lt
    simp only [List.forall_mem_cons]
    exact ⟨by omega, by omega, by omega, by omega, ih⟩
  | case2 a b =>
    have ha := a.toNat_lt
    have hb := b.toNat_lt
    simp only [List.forall_mem_cons]
    exact ⟨by omega, by omega, by omega, List.forall_mem_nil _⟩
  | case3 a =>
    have ha := a.toNat_lt
    simp only [List.forall_mem_cons]
    exact ⟨by omega, by omega, List.forall_mem_nil _⟩
  | case4 => exact List.forall_mem_nil _

theorem ofNat_eq {n : Nat} {a : UInt8} (h : n = a.toNat) : UInt8.ofNat n = a := by
  rw [h, UInt8.ofNat_toNat]

theorem octets_sextets (bytes : List UInt8) : octets (sextets bytes) = bytes := by
  fun_induction sextets bytes with
  | case1 a b c bytes ih =>
    have ha := a.toNat_lt
    have hb := b.toNat_lt
    have hc := c.toNat_lt
    rw [octets, ih, ofNat_eq (a := a) (by omega), ofNat_eq (a := b) (by omega),
      ofNat_eq (a := c) (by omega)]
  | case2 a b =>
    have ha := a.toNat_lt
    have hb := b.toNat_lt
    rw [octets, ofNat_eq (a := a) (by omega), ofNat_eq (a := b) (by omega)]
  | case3 a =>
    have ha := a.toNat_lt
    rw [octets, ofNat_eq (a := a) (by omega)]
  | case4 => rfl

/-! ## Encoding and decoding -/

/-- The padding after the characters of `n` bytes. -/
def padding (n : Nat) : List Char := List.replicate ((3 - n % 3) % 3) '='

/-- The text of a byte string, padded to a multiple of four characters. -/
def encode (bytes : List UInt8) : List Char := (sextets bytes).map charOf ++ padding bytes.length

/-- The bytes of a text up to its first padding character. -/
def decode (text : List UInt8) : List UInt8 :=
  octets ((text.takeWhile (· ≠ byteOf '=')).filterMap valueOfByte)

/-- The reading stops at a padding character, whatever follows it. -/
theorem decode_append_padding (text rest : List UInt8) :
    decode (text ++ byteOf '=' :: rest) = decode text := by
  have hstops : (text ++ byteOf '=' :: rest).takeWhile (· ≠ byteOf '=') =
      text.takeWhile (· ≠ byteOf '=') := by
    induction text with
    | nil => simp
    | cons b text ih =>
      by_cases hb : b = byteOf '='
      · simp [hb]
      · simpa [hb] using ih
  rw [decode, decode, hstops]

theorem filterMap_valueOfByte {values : List Nat} (h : ∀ v ∈ values, v < 64) :
    ((values.map charOf).map byteOf).filterMap valueOfByte = values := by
  rw [List.filterMap_map, List.filterMap_map]
  calc values.filterMap ((valueOfByte ∘ byteOf) ∘ charOf) = values.filterMap some :=
        List.filterMap_congr fun v hv => valueOfByte_charOf (h v hv)
    _ = values := List.filterMap_some

/-- The characters of a byte string decode to it. -/
theorem decode_charOf (bytes : List UInt8) :
    decode (((sextets bytes).map charOf).map byteOf) = bytes := by
  have hlt := lt_of_mem_sextets bytes
  have hread : (((sextets bytes).map charOf).map byteOf).takeWhile (· ≠ byteOf '=') =
      ((sextets bytes).map charOf).map byteOf := by
    rw [List.takeWhile_eq_self_iff]
    intro b hb
    obtain ⟨c, hc, rfl⟩ := List.mem_map.1 hb
    obtain ⟨v, hv, rfl⟩ := List.mem_map.1 hc
    exact decide_eq_true (byteOf_charOf_ne (hlt v hv))
  rw [decode, hread, filterMap_valueOfByte hlt, octets_sextets]

/-- So do they with any padding after them. -/
theorem decode_padded (bytes : List UInt8) (n : Nat) :
    decode (((sextets bytes).map charOf ++ List.replicate n '=').map byteOf) = bytes := by
  cases n with
  | zero => rw [List.replicate_zero, List.append_nil, decode_charOf]
  | succ n =>
    rw [List.replicate_succ, List.map_append, List.map_cons, decode_append_padding, decode_charOf]

end Base64
