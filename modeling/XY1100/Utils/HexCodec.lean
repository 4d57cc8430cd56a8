import XY1100.Coap.Segment
import XY1100.Support.Bytes

/-!
# Utils — bytes as hexadecimal text

`bytes2hexstr` writes two capital digits for each byte, and `hexstr2bytes` reads two digits at a
time, in either case.  The functions see the characters of the source, and fault behind them.

* `decoded_hexLoop`: what the loop makes of each source.
* `hexCodec_right_iff`: what is written is read back; and a source is read inside and decoded as
  hexadecimal text, exactly when it is not an odd number of digits.
-/

namespace XY1100.Utils
open Support
open Coap (hexDigit)

/-! ### The code -/

/-- Why a call does not return. -/
inductive HexStop
  | assertion
  | outOfBounds
  deriving DecidableEq

/-- `tab`. -/
def tab : List UInt8 := [48, 49, 50, 51, 52, 53, 54, 55, 56, 57, 65, 66, 67, 68, 69, 70]

/-- The two characters of a byte. -/
def hexPair (b : UInt8) : List UInt8 := [tab.getD (b >>> 4).toNat 0, tab.getD (b &&& 0x0f).toNat 0]

/-- The characters of some bytes. -/
def upperHex (src : List UInt8) : List UInt8 := src.flatMap hexPair

/-- `bytes2hexstr`: the characters with their NUL, and how many they are. -/
def bytes2hexstr (src : List UInt8) (dstSize : Nat) : Except HexStop (List UInt8 × Nat) :=
  if dstSize ≤ src.length * 2 then .error .assertion
  else .ok (upperHex src ++ [0], src.length * 2)

/-- The loop of `hexstr2bytes`: the bytes stored, `none` where it returns -1. -/
def hexLoop : List UInt8 → Except HexStop (Option (List UInt8))
  | [] => .ok (some [])
  | h :: src =>
      match hexDigit h with
      | none => .ok none
      | some hi =>
          match src with
          | [] => .error .outOfBounds
          | l :: src =>
              match hexDigit l with
              | none => .ok none
              | some lo => (hexLoop src).map (·.map ((hi <<< 4 ||| lo) :: ·))

/-- `hexstr2bytes`: the number returned and the bytes, `none` where it returns -1. -/
def hexstr2bytes (src : List UInt8) (dstSize : Nat) :
    Except HexStop (Option (Nat × List UInt8)) :=
  if dstSize < (src.length + 1) / 2 then .error .assertion
  else (hexLoop src).map (·.map fun bytes => (src.length / 2, bytes))

/-! ### Hexadecimal text -/

/-- The character is a hexadecimal digit. -/
def IsHex (c : UInt8) : Prop := (48 ≤ c ∧ c ≤ 57) ∨ (65 ≤ c ∧ c ≤ 70) ∨ (97 ≤ c ∧ c ≤ 102)

instance (c : UInt8) : Decidable (IsHex c) := inferInstanceAs (Decidable (_ ∨ _))

/-- A letter as a capital. -/
def toUpper (c : UInt8) : UInt8 := if 97 ≤ c ∧ c ≤ 122 then c - 32 else c

/-- All characters are hexadecimal digits. -/
def AllHex (src : List UInt8) : Prop := ∀ c ∈ src, IsHex c

instance (src : List UInt8) : Decidable (AllHex src) := inferInstanceAs (Decidable (∀ _ ∈ _, _))

theorem hexDigit_isSome_iff (c : UInt8) : (hexDigit c).isSome = true ↔ IsHex c := by
  unfold hexDigit IsHex
  split_ifs with h₁ h₂ h₃ <;> simp_all

set_option maxRecDepth 4000 in
/-- A digit is the place of its capital in the table. -/
theorem hexDigit_spec : ∀ c d : UInt8, hexDigit c = some d →
    d.toNat < 16 ∧ tab.getD d.toNat 0 = toUpper c := by
  intro c d hd
  have hall : ∀ n < 256, ∀ d ∈ hexDigit (UInt8.ofNat n),
      d.toNat < 16 ∧ tab.getD d.toNat 0 = toUpper (UInt8.ofNat n) := by decide
  exact forall_byte (P := fun c => ∀ d ∈ hexDigit c, d.toNat < 16 ∧ tab.getD d.toNat 0 = toUpper c)
    hall c d hd

theorem join_nibbles (hi lo : UInt8) (hhi : hi.toNat < 16) (hlo : lo.toNat < 16) :
    (hi <<< 4 ||| lo) >>> 4 = hi ∧ (hi <<< 4 ||| lo) &&& 0x0f = lo := by
  have hall : ∀ m < 16, ∀ n < 16, (UInt8.ofNat m <<< 4 ||| UInt8.ofNat n) >>> 4 = UInt8.ofNat m ∧
      (UInt8.ofNat m <<< 4 ||| UInt8.ofNat n) &&& 0x0f = UInt8.ofNat n := by decide
  have h := hall hi.toNat hhi lo.toNat hlo
  rwa [UInt8.ofNat_toNat, UInt8.ofNat_toNat] at h

set_option maxRecDepth 4000 in
/-- The two digits of a byte read back as its halves. -/
theorem hexDigit_hexPair (b : UInt8) :
    hexDigit (tab.getD (b >>> 4).toNat 0) = some (b >>> 4) ∧
      hexDigit (tab.getD (b &&& 0x0f).toNat 0) = some (b &&& 0x0f) := by
  have hall : ∀ n < 256,
      hexDigit (tab.getD (UInt8.ofNat n >>> 4).toNat 0) = some (UInt8.ofNat n >>> 4) ∧
      hexDigit (tab.getD (UInt8.ofNat n &&& 0x0f).toNat 0) = some (UInt8.ofNat n &&& 0x0f) := by
    decide
  exact forall_byte (P := fun b => hexDigit (tab.getD (b >>> 4).toNat 0) = some (b >>> 4) ∧
    hexDigit (tab.getD (b &&& 0x0f).toNat 0) = some (b &&& 0x0f)) hall b

set_option maxRecDepth 4000 in
theorem join_halves (b : UInt8) : (b >>> 4) <<< 4 ||| (b &&& 0x0f) = b :=
  forall_byte (P := fun b => (b >>> 4) <<< 4 ||| (b &&& 0x0f) = b) (by decide) b

theorem hexPair_join {h l hi lo : UInt8} (hh : hexDigit h = some hi) (hl : hexDigit l = some lo) :
    hexPair (hi <<< 4 ||| lo) = [toUpper h, toUpper l] := by
  obtain ⟨hhi, hth⟩ := hexDigit_spec h hi hh
  obtain ⟨hlo, htl⟩ := hexDigit_spec l lo hl
  obtain ⟨hhigh, hlow⟩ := join_nibbles hi lo hhi hlo
  simp [hexPair, hhigh, hlow, ← hth, ← htl]

@[simp] theorem upperHex_cons (b : UInt8) (bytes : List UInt8) :
    upperHex (b :: bytes) = hexPair b ++ upperHex bytes := rfl

@[simp] theorem length_upperHex (bytes : List UInt8) :
    (upperHex bytes).length = bytes.length * 2 := by
  induction bytes with
  | nil => rfl
  | cons b bytes ih =>
    simp only [upperHex_cons, List.length_append, ih, List.length_cons, hexPair, List.length_nil]
    omega

/-! ### Reading -/

@[simp] theorem hexLoop_nil : hexLoop [] = .ok (some []) := by
  rw [hexLoop]

theorem hexLoop_of_none {h : UInt8} {src : List UInt8} (hh : hexDigit h = none) :
    hexLoop (h :: src) = .ok none := by
  rw [hexLoop.eq_def]
  simp only [hh]

theorem hexLoop_single {h hi : UInt8} (hh : hexDigit h = some hi) :
    hexLoop [h] = .error .outOfBounds := by
  rw [hexLoop.eq_def]
  simp only [hh]

theorem hexLoop_of_none_low {h l hi : UInt8} {src : List UInt8} (hh : hexDigit h = some hi)
    (hl : hexDigit l = none) : hexLoop (h :: l :: src) = .ok none := by
  rw [hexLoop.eq_def]
  simp only [hh, hl]

theorem hexLoop_pair {h l hi lo : UInt8} {src : List UInt8} (hh : hexDigit h = some hi)
    (hl : hexDigit l = some lo) :
    hexLoop (h :: l :: src) = (hexLoop src).map (·.map ((hi <<< 4 ||| lo) :: ·)) := by
  rw [hexLoop.eq_def]
  simp only [hh, hl]

theorem allHex_cons (c : UInt8) (src : List UInt8) :
    AllHex (c :: src) ↔ (hexDigit c).isSome = true ∧ AllHex src := by
  rw [hexDigit_isSome_iff]
  exact List.forall_mem_cons

/-- What the loop makes of a source. -/
def Decoded (src : List UInt8) : Except HexStop (Option (List UInt8)) → Prop
  | .error _ => src.length % 2 = 1 ∧ AllHex src
  | .ok none => ¬ AllHex src
  | .ok (some bytes) => src.length % 2 = 0 ∧ AllHex src ∧ upperHex bytes = src.map toUpper ∧
      bytes.length = src.length / 2

/-- One round: the digits of a byte in front of a source. -/
theorem Decoded.pair {h l hi lo : UInt8} {src : List UInt8}
    {r : Except HexStop (Option (List UInt8))} (hh : hexDigit h = some hi)
    (hl : hexDigit l = some lo) (hr : Decoded src r) :
    Decoded (h :: l :: src) (r.map (·.map ((hi <<< 4 ||| lo) :: ·))) := by
  have hall : AllHex (h :: l :: src) ↔ AllHex src := by simp [allHex_cons, hh, hl]
  have hlen : (h :: l :: src).length = src.length + 2 := rfl
  match r, hr with
  | .error _, ⟨hodd, hhex⟩ => exact ⟨by omega, hall.2 hhex⟩
  | .ok none, hr => exact fun h' => hr (hall.1 h')
  | .ok (some bytes), ⟨heven, hhex, htext, hcount⟩ =>
    refine ⟨by omega, hall.2 hhex, ?_, ?_⟩
    · rw [upperHex_cons, hexPair_join hh hl, htext]
      rfl
    · simp only [List.length_cons, hcount]
      omega

theorem decoded_hexLoop : ∀ src : List UInt8, Decoded src (hexLoop src)
  | [] => by
    rw [hexLoop_nil]
    exact ⟨rfl, by simp [AllHex], rfl, rfl⟩
  | h :: src => by
    match hh : hexDigit h with
    | none =>
      rw [hexLoop_of_none hh]
      exact fun h' => by simp [allHex_cons, hh] at h'
    | some hi =>
      match src with
      | [] =>
        rw [hexLoop_single hh]
        exact ⟨rfl, (allHex_cons h []).2 ⟨by rw [hh]; rfl, List.forall_mem_nil _⟩⟩
      | l :: src =>
        match hl : hexDigit l with
        | none =>
          rw [hexLoop_of_none_low hh hl]
          exact fun h' => by simp [allHex_cons, hl] at h'
        | some lo =>
          rw [hexLoop_pair hh hl]
          exact (decoded_hexLoop src).pair hh hl

/-- The digits of some bytes read back as the bytes. -/
theorem hexLoop_upperHex (bytes : List UInt8) : hexLoop (upperHex bytes) = .ok (some bytes) := by
  induction bytes with
  | nil => exact hexLoop_nil
  | cons b bytes ih =>
    obtain ⟨hhi, hlo⟩ := hexDigit_hexPair b
    change hexLoop (_ :: _ :: upperHex bytes) = _
    rw [hexLoop_pair hhi hlo, ih, join_halves]
    rfl

/-! ### Both directions -/

/-- What is written for the bytes is read back as them, with their number. -/
def RoundTrips (bytes : List UInt8) : Prop :=
  ∀ dstSize dstSize', bytes.length * 2 < dstSize → bytes.length ≤ dstSize' →
    ∃ text, bytes2hexstr bytes dstSize = .ok (text ++ [0], text.length) ∧
      hexstr2bytes text dstSize' = .ok (some (bytes.length, bytes))

/-- A source that is accepted is read inside, and decoded if it is hexadecimal text. -/
def DecodesRight (src : List UInt8) (dstSize : Nat) : Prop :=
  (src.length + 1) / 2 ≤ dstSize → ∃ r, hexstr2bytes src dstSize = .ok r ∧
    (r.isSome = true ↔ src.length % 2 = 0 ∧ AllHex src) ∧
    ∀ n bytes, r = some (n, bytes) → n = bytes.length ∧ upperHex bytes = src.map toUpper

theorem roundTrips (bytes : List UInt8) : RoundTrips bytes := by
  intro dstSize dstSize' hdst hdst'
  refine ⟨upperHex bytes, ?_, ?_⟩
  · rw [bytes2hexstr, if_neg (by omega), length_upperHex]
  · have hlen : (upperHex bytes).length = bytes.length * 2 := length_upperHex bytes
    rw [hexstr2bytes, if_neg (by omega), hexLoop_upperHex, hlen,
      Nat.mul_div_cancel _ (by decide)]
    rfl

theorem decodesRight_iff (src : List UInt8) (dstSize : Nat) :
    DecodesRight src dstSize ↔
      ((src.length + 1) / 2 ≤ dstSize → ¬ (src.length % 2 = 1 ∧ AllHex src)) := by
  refine forall_congr' fun hdst => ?_
  -- the precondition of the statement is that of the assertion
  have hcode : hexstr2bytes src dstSize =
      (hexLoop src).map (·.map fun bytes => (src.length / 2, bytes)) :=
    if_neg (by omega)
  have hdec := decoded_hexLoop src
  rw [hcode]
  match hexLoop src, hdec with
  | .error _, hdec =>
    -- an odd number of digits: the low digit of the last byte is read behind the source
    refine iff_of_false ?_ (fun h => h hdec)
    rintro ⟨r, hr, -⟩
    nomatch hr
  | .ok none, hdec =>
    refine iff_of_true ⟨none, rfl, ?_, nofun⟩ (fun h => hdec h.2)
    simp [show ¬ AllHex src from hdec]
  | .ok (some bytes), ⟨heven, hhex, htext, hcount⟩ =>
    refine iff_of_true ⟨_, rfl, by simp [heven, hhex], ?_⟩ (by omega)
    rintro n bytes' ⟨⟩
    exact ⟨hcount.symm, htext⟩

/-- Both directions are right exactly when the source is not an odd number of digits. -/
theorem hexCodec_right_iff (bytes src : List UInt8) (dstSize : Nat) :
    RoundTrips bytes ∧ DecodesRight src dstSize ↔
      ((src.length + 1) / 2 ≤ dstSize → ¬ (src.length % 2 = 1 ∧ AllHex src)) := by
  rw [decodesRight_iff]
  exact and_iff_right (roundTrips bytes)

set_option maxRecDepth 4000 in
/-- The source `A` is read behind its end. -/
theorem not_hexCodec_right_odd :
    ¬ ∀ (bytes src : List UInt8) (dstSize : Nat),
      RoundTrips bytes ∧ DecodesRight src dstSize := by
  intro h
  exact (decodesRight_iff [65] 1).1 (h [] [65] 1).2 (by decide) (by decide)

end XY1100.Utils
