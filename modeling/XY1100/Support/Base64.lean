import Mathlib.Tactic

/-!
# Support — base 64

The padded encoding of bytes as text: a group of three bytes is four characters of six bits, and
`=` stands for what a last group lacks.

* `Encodes`: a text is the encoding of some bytes.  It is put together group by group
  (`Encodes.group`), behind one of the three endings.
-/

namespace Support.Base64

/-- The six bits of a character. -/
def value (c : Char) : Option Nat :=
  if 'A' ≤ c ∧ c ≤ 'Z' then some (c.toNat - 'A'.toNat)
  else if 'a' ≤ c ∧ c ≤ 'z' then some (c.toNat - 'a'.toNat + 26)
  else if '0' ≤ c ∧ c ≤ '9' then some (c.toNat - '0'.toNat + 52)
  else if c = '+' then some 62
  else if c = '/' then some 63
  else none

/-- Four characters without padding. -/
def group (c₀ c₁ c₂ c₃ : Char) : Option (List UInt8) := do
  let v₀ ← value c₀
  let v₁ ← value c₁
  let v₂ ← value c₂
  let v₃ ← value c₃
  let n := ((v₀ * 64 + v₁) * 64 + v₂) * 64 + v₃
  return [UInt8.ofNat (n / 65536), UInt8.ofNat (n / 256 % 256), UInt8.ofNat (n % 256)]

/-- The last four characters; the bits behind the last byte are zero. -/
def lastGroup (c₀ c₁ c₂ c₃ : Char) : Option (List UInt8) :=
  if c₃ ≠ '=' then group c₀ c₁ c₂ c₃
  else if c₂ ≠ '=' then do
    let v₀ ← value c₀
    let v₁ ← value c₁
    let v₂ ← value c₂
    let n := (v₀ * 64 + v₁) * 64 + v₂
    if n % 4 = 0 then some [UInt8.ofNat (n / 1024), UInt8.ofNat (n / 4 % 256)] else none
  else do
    let v₀ ← value c₀
    let v₁ ← value c₁
    let n := v₀ * 64 + v₁
    if n % 16 = 0 then some [UInt8.ofNat (n / 16)] else none

/-- The decoding. -/
def decode : List Char → Option (List UInt8)
  | [] => some []
  | [c₀, c₁, c₂, c₃] => lastGroup c₀ c₁ c₂ c₃
  | c₀ :: c₁ :: c₂ :: c₃ :: text => do
    let bytes ← group c₀ c₁ c₂ c₃
    return bytes ++ (← decode text)
  | _ => none

/-- The text is the encoding of the bytes. -/
structure Encodes (text : List Char) (bytes : List UInt8) : Prop where
  length : text.length = 4 * ((bytes.length + 2) / 3)
  padded : ∃ digits, text = digits ++ List.replicate ((3 - bytes.length % 3) % 3) '=' ∧
    ∀ c ∈ digits, (value c).isSome = true
  decodes : decode text = some bytes

theorem ne_pad {c : Char} {v : Nat} (h : value c = some v) : c ≠ '=' := by
  rintro rfl
  have hpad : value '=' = none := by decide
  rw [hpad] at h
  nomatch h

variable {c₀ c₁ c₂ c₃ : Char} {v₀ v₁ v₂ v₃ : Nat}

theorem group_eq (h₀ : value c₀ = some v₀) (h₁ : value c₁ = some v₁) (h₂ : value c₂ = some v₂)
    (h₃ : value c₃ = some v₃) :
    group c₀ c₁ c₂ c₃ =
      some [UInt8.ofNat ((((v₀ * 64 + v₁) * 64 + v₂) * 64 + v₃) / 65536),
        UInt8.ofNat ((((v₀ * 64 + v₁) * 64 + v₂) * 64 + v₃) / 256 % 256),
        UInt8.ofNat ((((v₀ * 64 + v₁) * 64 + v₂) * 64 + v₃) % 256)] := by
  simp only [group, h₀, h₁, h₂, h₃]
  rfl

/-- A group in front of a text, which may be empty. -/
theorem decode_cons {bytes rest : List UInt8} {text : List Char} (h₃ : value c₃ = some v₃)
    (hg : group c₀ c₁ c₂ c₃ = some bytes) (ht : decode text = some rest) :
    decode (c₀ :: c₁ :: c₂ :: c₃ :: text) = some (bytes ++ rest) := by
  cases text with
  | nil =>
    cases ht
    rw [decode, lastGroup, if_pos (ne_pad h₃), hg, List.append_nil]
  | cons c text =>
    rw [decode, hg, ht]
    · rfl
    · exact fun h => nomatch h

theorem encodes_nil : Encodes [] [] := ⟨rfl, ⟨[], rfl, nofun⟩, rfl⟩

theorem encodes_one {b : UInt8} (h₀ : value c₀ = some v₀) (h₁ : value c₁ = some v₁)
    (hn : v₀ * 64 + v₁ = b.toNat * 16) : Encodes [c₀, c₁, '=', '='] [b] := by
  refine ⟨by simp, ⟨[c₀, c₁], by simp [List.replicate], by simp [h₀, h₁]⟩, ?_⟩
  have hb : UInt8.ofNat ((v₀ * 64 + v₁) / 16) = b := by
    rw [hn, Nat.mul_div_cancel _ (by decide), UInt8.ofNat_toNat]
  have hpad : (v₀ * 64 + v₁) % 16 = 0 := by omega
  simp only [decode, lastGroup, ne_eq, not_true, if_false, h₀, h₁, bind, Option.bind, hb,
    if_pos hpad]

theorem encodes_two {a b : UInt8} (h₀ : value c₀ = some v₀) (h₁ : value c₁ = some v₁)
    (h₂ : value c₂ = some v₂) (hn : (v₀ * 64 + v₁) * 64 + v₂ = (a.toNat * 256 + b.toNat) * 4) :
    Encodes [c₀, c₁, c₂, '='] [a, b] := by
  have hlt := b.toNat_lt
  refine ⟨by simp, ⟨[c₀, c₁, c₂], by simp, by simp [h₀, h₁, h₂]⟩, ?_⟩
  have ha : UInt8.ofNat (((v₀ * 64 + v₁) * 64 + v₂) / 1024) = a := by
    rw [hn, show (a.toNat * 256 + b.toNat) * 4 / 1024 = a.toNat by omega, UInt8.ofNat_toNat]
  have hb : UInt8.ofNat (((v₀ * 64 + v₁) * 64 + v₂) / 4 % 256) = b := by
    rw [hn, show (a.toNat * 256 + b.toNat) * 4 / 4 % 256 = b.toNat by omega, UInt8.ofNat_toNat]
  have hpad : ((v₀ * 64 + v₁) * 64 + v₂) % 4 = 0 := by omega
  simp only [decode, lastGroup, h₀, h₁, h₂, bind, Option.bind, ha, hb, if_pos hpad,
    if_pos (ne_pad h₂)]
  rfl

/-- A group in front of an encoding. -/
theorem Encodes.group {a b c : UInt8} {text : List Char} {bytes : List UInt8}
    (ht : Encodes text bytes) (h₀ : value c₀ = some v₀) (h₁ : value c₁ = some v₁)
    (h₂ : value c₂ = some v₂) (h₃ : value c₃ = some v₃)
    (hn : ((v₀ * 64 + v₁) * 64 + v₂) * 64 + v₃ = (a.toNat * 256 + b.toNat) * 256 + c.toNat) :
    Encodes (c₀ :: c₁ :: c₂ :: c₃ :: text) (a :: b :: c :: bytes) := by
  have hlt := b.toNat_lt
  have hlt' := c.toNat_lt
  obtain ⟨hlen, ⟨digits, hdigits, hall⟩, hdec⟩ := ht
  -- a group of three leaves the padding as it is
  have hmod : (bytes.length + 3) % 3 = bytes.length % 3 := Nat.add_mod_right _ _
  refine ⟨?_, ⟨c₀ :: c₁ :: c₂ :: c₃ :: digits, ?_, ?_⟩, ?_⟩
  · simp only [List.length_cons, hlen]
    omega
  · rw [hdigits]
    simp only [List.length_cons, List.cons_append, hmod]
  · intro x hx
    simp only [List.mem_cons] at hx
    rcases hx with rfl | rfl | rfl | rfl | hx
    · rw [h₀]; rfl
    · rw [h₁]; rfl
    · rw [h₂]; rfl
    · rw [h₃]; rfl
    · exact hall x hx
  · have hg := group_eq h₀ h₁ h₂ h₃
    rw [hn, show ((a.toNat * 256 + b.toNat) * 256 + c.toNat) / 65536 = a.toNat by omega,
      show ((a.toNat * 256 + b.toNat) * 256 + c.toNat) / 256 % 256 = b.toNat by omega,
      show ((a.toNat * 256 + b.toNat) * 256 + c.toNat) % 256 = c.toNat by omega,
      UInt8.ofNat_toNat, UInt8.ofNat_toNat, UInt8.ofNat_toNat] at hg
    exact decode_cons h₃ hg hdec

end Support.Base64
