import XY1100.Support.Base64
import XY1100.Support.Bytes

/-!
# Dm — the registration as base 64

`base64_encode` works on groups of three bytes, and leaves its loop inside a group that the input
ends in.  The counters are positions in the input and in the text.

* `base64Encode_standard`: the text is the padded encoding of the input, with its NUL.
-/

namespace XY1100.Dm
open Support

/-- `base64char`. -/
def base64char : List Char :=
  ['A', 'B', 'C', 'D', 'E', 'F', 'G', 'H', 'I', 'J', 'K', 'L', 'M', 'N', 'O', 'P', 'Q', 'R', 'S',
    'T', 'U', 'V', 'W', 'X', 'Y', 'Z', 'a', 'b', 'c', 'd', 'e', 'f', 'g', 'h', 'i', 'j', 'k', 'l',
    'm', 'n', 'o', 'p', 'q', 'r', 's', 't', 'u', 'v', 'w', 'x', 'y', 'z', '0', '1', '2', '3', '4',
    '5', '6', '7', '8', '9', '+', '/']

/-- `base64char[(int)current]`. -/
def digit (current : UInt8) : Char := base64char.getD current.toNat (Char.ofNat 0)

/-- The loop of `base64_encode` on what is left of the input. -/
def base64Loop : List UInt8 → List Char
  | [] => []
  | b₀ :: bindata =>
    digit ((b₀ >>> 2) &&& 0x3F) ::
      match bindata with
      | [] => [digit ((b₀ <<< 4) &&& 0x30), '=', '=']
      | b₁ :: bindata =>
        digit (((b₀ <<< 4) &&& (0x30 : UInt8)) ||| ((b₁ >>> 4) &&& (0x0F : UInt8))) ::
          match bindata with
          | [] => [digit ((b₁ <<< 2) &&& 0x3C), '=']
          | b₂ :: bindata =>
            digit (((b₁ <<< 2) &&& (0x3C : UInt8)) ||| ((b₂ >>> 6) &&& (0x03 : UInt8))) ::
              digit (b₂ &&& 0x3F) :: base64Loop bindata

/-- `base64_encode`. -/
def base64Encode (bindata : List UInt8) : List Char := base64Loop bindata ++ [Char.ofNat 0]

theorem value_digit {current : UInt8} (h : current.toNat < 64) :
    Base64.value (digit current) = some current.toNat := by
  have hall : ∀ n < 64, Base64.value (base64char.getD n (Char.ofNat 0)) = some n := by decide
  exact hall _ h

/-! ### Partial bytes -/

set_option maxRecDepth 4000 in
/-- The masked pieces of a byte that the loop carries. -/
theorem pieces (b : UInt8) :
    ((b >>> 2) &&& 0x3F).toNat = b.toNat / 4 ∧ ((b <<< 4) &&& 0x30).toNat = b.toNat % 4 * 16 ∧
    ((b >>> 4) &&& 0x0F).toNat = b.toNat / 16 ∧ ((b <<< 2) &&& 0x3C).toNat = b.toNat % 16 * 4 ∧
    ((b >>> 6) &&& 0x03).toNat = b.toNat / 64 ∧ (b &&& 0x3F).toNat = b.toNat % 64 := by
  have hall : ∀ n < 256, ((UInt8.ofNat n >>> 2) &&& 0x3F).toNat = (UInt8.ofNat n).toNat / 4 ∧
      ((UInt8.ofNat n <<< 4) &&& 0x30).toNat = (UInt8.ofNat n).toNat % 4 * 16 ∧
      ((UInt8.ofNat n >>> 4) &&& 0x0F).toNat = (UInt8.ofNat n).toNat / 16 ∧
      ((UInt8.ofNat n <<< 2) &&& 0x3C).toNat = (UInt8.ofNat n).toNat % 16 * 4 ∧
      ((UInt8.ofNat n >>> 6) &&& 0x03).toNat = (UInt8.ofNat n).toNat / 64 ∧
      (UInt8.ofNat n &&& 0x3F).toNat = (UInt8.ofNat n).toNat % 64 := by decide
  exact forall_byte (P := fun b => ((b >>> 2) &&& 0x3F).toNat = b.toNat / 4 ∧
    ((b <<< 4) &&& 0x30).toNat = b.toNat % 4 * 16 ∧ ((b >>> 4) &&& 0x0F).toNat = b.toNat / 16 ∧
    ((b <<< 2) &&& 0x3C).toNat = b.toNat % 16 * 4 ∧ ((b >>> 6) &&& 0x03).toNat = b.toNat / 64 ∧
    (b &&& 0x3F).toNat = b.toNat % 64) hall b

/-- A piece at the top and one below it. -/
theorem toNat_or {x y : UInt8} (k : Nat) (hx : 2 ^ k ∣ x.toNat) (hy : y.toNat < 2 ^ k) :
    (x ||| y).toNat = x.toNat + y.toNat := by
  obtain ⟨q, hq⟩ := hx
  rw [UInt8.toNat_or, hq, ← Nat.two_pow_add_eq_or_of_lt hy]

theorem value_first (b : UInt8) :
    Base64.value (digit ((b >>> 2) &&& 0x3F)) = some (b.toNat / 4) := by
  have hb := b.toNat_lt
  have h := (pieces b).1
  rw [value_digit (by omega), h]

theorem value_second (a b : UInt8) :
    Base64.value (digit (((a <<< 4) &&& (0x30 : UInt8)) ||| ((b >>> 4) &&& (0x0F : UInt8)))) =
      some (a.toNat % 4 * 16 + b.toNat / 16) := by
  have hb := b.toNat_lt
  obtain ⟨-, ha, -⟩ := pieces a
  obtain ⟨-, -, hb', -⟩ := pieces b
  -- two bits of one byte, and four of the next below them
  have h := toNat_or 4 (x := (a <<< 4) &&& 0x30) (y := (b >>> 4) &&& 0x0F)
    (ha ▸ Dvd.intro_left _ rfl) (by omega)
  rw [value_digit (by omega), h, ha, hb']

theorem value_third (a b : UInt8) :
    Base64.value (digit (((a <<< 2) &&& (0x3C : UInt8)) ||| ((b >>> 6) &&& (0x03 : UInt8)))) =
      some (a.toNat % 16 * 4 + b.toNat / 64) := by
  have hb := b.toNat_lt
  obtain ⟨-, -, -, ha, -⟩ := pieces a
  obtain ⟨-, -, -, -, hb', -⟩ := pieces b
  have h := toNat_or 2 (x := (a <<< 2) &&& 0x3C) (y := (b >>> 6) &&& 0x03)
    (ha ▸ Dvd.intro_left _ rfl) (by omega)
  rw [value_digit (by omega), h, ha, hb']

theorem value_fourth (b : UInt8) : Base64.value (digit (b &&& 0x3F)) = some (b.toNat % 64) := by
  obtain ⟨-, -, -, -, -, h⟩ := pieces b
  rw [value_digit (by omega), h]

/-- The second character of a group that ends behind its first byte. -/
theorem value_second_last (a : UInt8) :
    Base64.value (digit ((a <<< 4) &&& 0x30)) = some (a.toNat % 4 * 16) := by
  obtain ⟨-, h, -⟩ := pieces a
  rw [value_digit (by omega), h]

theorem value_third_last (a : UInt8) :
    Base64.value (digit ((a <<< 2) &&& 0x3C)) = some (a.toNat % 16 * 4) := by
  obtain ⟨-, -, -, h, -⟩ := pieces a
  rw [value_digit (by omega), h]

/-! ### The loop -/

/-- What the loop stores is the encoding of what is left. -/
theorem base64Loop_encodes : ∀ bindata : List UInt8, Base64.Encodes (base64Loop bindata) bindata
  | [] => Base64.encodes_nil
  | [b₀] => Base64.encodes_one (value_first b₀) (value_second_last b₀) (by omega)
  | [b₀, b₁] =>
      Base64.encodes_two (value_first b₀) (value_second b₀ b₁) (value_third_last b₁) (by omega)
  | b₀ :: b₁ :: b₂ :: bindata =>
      (base64Loop_encodes bindata).group (value_first b₀) (value_second b₀ b₁)
        (value_third b₁ b₂) (value_fourth b₂) (by omega)

/-- `base64_encode` gives the padded encoding, with its NUL. -/
theorem base64Encode_standard (bindata : List UInt8) :
    ∃ text, base64Encode bindata = text ++ [Char.ofNat 0] ∧ Base64.Encodes text bindata :=
  ⟨base64Loop bindata, rfl, base64Loop_encodes bindata⟩

end XY1100.Dm
