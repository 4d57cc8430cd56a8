import Mathlib.Algebra.BigOperators.Intervals
import XY1100.Support.Bytes
import XY1100.Support.OnesComplement

/-!
# Utils — `xy_chksum`

The checksum of `xy_utils.c`: big-endian 16-bit words summed in 32 bits, folded twice and
complemented.  Only the bytes of the range count (`xyChksum_congr`), and the upper half of the
result is all ones (`xyChksum_high`).

Up to 131071 bytes the sum of the words fits the accumulator (`toNat_accumulator`), the folds keep
it modulo 65535 (`toNat_foldAcc`), and a byte of another value moves it by less than that, so that
the checksum changes (`xyChksum_ne_of_differsAt`).
-/

namespace XY1100
open Support
open OnesComplement (endAround fold)

/-- The loop of `xy_chksum` over `len` bytes from `pos`. -/
def xyChksumLoop (dataptr : Buf) : (pos len : Nat) → (acc : UInt32) → UInt32
  | pos, len + 2, acc =>
      let src := (dataptr pos).toUInt32 <<< 8 ||| (dataptr (pos + 1)).toUInt32
      xyChksumLoop dataptr (pos + 2) len (acc + src)
  | pos, 1, acc => acc + (dataptr pos).toUInt32 <<< 8
  | _, 0, acc => acc

/-- `xy_chksum` of the `len` bytes from `pos`. -/
def xyChksum (dataptr : Buf) (pos len : Nat) : UInt32 :=
  let acc := xyChksumLoop dataptr pos len 0
  let acc := (acc >>> 16) + (acc &&& 0xffff)
  let acc := if acc &&& 0xffff0000 ≠ 0 then (acc >>> 16) + (acc &&& 0xffff) else acc
  ~~~acc

theorem xyChksumLoop_congr {m m' : Buf} : ∀ (pos len : Nat) (acc : UInt32),
    m.Agree m' pos len → xyChksumLoop m pos len acc = xyChksumLoop m' pos len acc
  | pos, len + 2, acc, h => by
      simp only [xyChksumLoop]
      rw [h pos (by omega) (by omega), h (pos + 1) (by omega) (by omega)]
      exact xyChksumLoop_congr (pos + 2) len _ fun i h₁ h₂ => h i (by omega) (by omega)
  | pos, 1, acc, h => by
      simp only [xyChksumLoop]
      rw [h pos (by omega) (by omega)]
  | _, 0, _, _ => rfl

/-- The checksum reads the bytes of its range, and no other. -/
theorem xyChksum_congr {m m' : Buf} {pos len : Nat} (h : m.Agree m' pos len) :
    xyChksum m pos len = xyChksum m' pos len := by
  simp only [xyChksum, xyChksumLoop_congr pos len 0 h]

/-! ### The folds -/

/-- The two halves of a word, added. -/
theorem toNat_halves (a : UInt32) :
    ((a >>> 16) + (a &&& 0xffff)).toNat = endAround 65536 a.toNat := by
  have h := a.toNat_lt
  have hm : a.toNat &&& 65535 = a.toNat % 65536 := Nat.and_two_pow_sub_one_eq_mod a.toNat 16
  have hd : a.toNat >>> 16 = a.toNat / 65536 := Nat.shiftRight_eq_div_pow a.toNat 16
  have he : (a >>> 16).toNat = a.toNat / 65536 := by simpa using hd
  have hl : (a &&& 0xffff).toNat = a.toNat % 65536 := by simpa using hm
  rw [UInt32.toNat_add, he, hl, endAround]
  omega

/-- A sum of two halves has no bit in its upper half only when it fits the lower one. -/
theorem toNat_lt_of_and_eq_zero {a : UInt32} (h : a &&& 0xffff0000 = 0) (hlt : a.toNat < 131072) :
    a.toNat < 65536 := by
  by_contra hge
  have hbit : a.toNat.testBit 16 = true := by
    rw [Nat.testBit_eq_decide_div_mod_eq, decide_eq_true_eq]
    omega
  have hand : (a.toNat &&& 0xffff0000).testBit 16 = true := by
    rw [Nat.testBit_and, hbit]; rfl
  have hz : a.toNat &&& 0xffff0000 = 0 := by
    have := congrArg UInt32.toNat h
    simpa using this
  rw [hz] at hand
  simp at hand

/-- The folds of the accumulator. -/
def foldAcc (acc : UInt32) : UInt32 :=
  let acc := (acc >>> 16) + (acc &&& 0xffff)
  if acc &&& 0xffff0000 ≠ 0 then (acc >>> 16) + (acc &&& 0xffff) else acc

theorem xyChksum_eq (m : Buf) (pos len : Nat) :
    xyChksum m pos len = ~~~foldAcc (xyChksumLoop m pos len 0) := rfl

/-- The second fold is left out where it would change nothing. -/
theorem toNat_foldAcc (acc : UInt32) : (foldAcc acc).toNat = fold 65536 acc.toNat := by
  have hle : endAround 65536 acc.toNat ≤ 2 * (65536 - 1) :=
    OnesComplement.endAround_le (Nat.lt_of_lt_of_eq acc.toNat_lt (by decide))
  have hfirst := toNat_halves acc
  simp only [foldAcc, fold]
  split_ifs with hz
  · rw [toNat_halves, hfirst]
  · have hsmall := toNat_lt_of_and_eq_zero (not_not.mp hz) (by omega)
    rw [hfirst] at hsmall ⊢
    exact (OnesComplement.endAround_of_lt hsmall).symm

theorem toNat_foldAcc_lt (acc : UInt32) : (foldAcc acc).toNat < 65536 := by
  rw [toNat_foldAcc]
  exact OnesComplement.fold_lt (by decide) (Nat.lt_of_lt_of_eq acc.toNat_lt (by decide))

/-- The checksum is the fold taken from all ones. -/
theorem toNat_xyChksum (m : Buf) (pos len : Nat) :
    (xyChksum m pos len).toNat = 4294967295 - fold 65536 (xyChksumLoop m pos len 0).toNat := by
  rw [xyChksum_eq, UInt32.toNat_not, toNat_foldAcc, show UInt32.size = 4294967296 from rfl]

/-- The upper half of a checksum is all ones. -/
theorem xyChksum_high (m : Buf) (pos len : Nat) : 0xffff0000 ≤ (xyChksum m pos len).toNat := by
  have hlt := toNat_foldAcc_lt (xyChksumLoop m pos len 0)
  rw [toNat_foldAcc] at hlt
  rw [toNat_xyChksum]
  omega

/-! ### The sum of the words -/

/-- What the bytes of the range come to, the first of each word in its upper half. -/
def wordSum (m : Buf) (pos len : Nat) : Nat :=
  ∑ i ∈ Finset.range len, (if i % 2 = 0 then 256 else 1) * (m (pos + i)).toNat

/-- A word and what is behind it. -/
theorem wordSum_add_two (m : Buf) (pos len : Nat) :
    wordSum m pos (len + 2) =
      256 * (m pos).toNat + (m (pos + 1)).toNat + wordSum m (pos + 2) len := by
  have hrest : ∀ i ∈ Finset.range len,
      (if (i + 1 + 1) % 2 = 0 then 256 else 1) * (m (pos + (i + 1 + 1))).toNat =
        (if i % 2 = 0 then 256 else 1) * (m (pos + 2 + i)).toNat := fun i _ => by
    rw [Nat.add_mod_right i 2, show pos + (i + 1 + 1) = pos + 2 + i by omega]
  rw [wordSum, Finset.sum_range_succ', Finset.sum_range_succ', Finset.sum_congr rfl hrest, wordSum]
  simp
  omega

theorem wordSum_one (m : Buf) (pos : Nat) : wordSum m pos 1 = 256 * (m pos).toNat := by
  simp [wordSum]

theorem wordSum_congr {m m' : Buf} {pos len : Nat} (h : m.Agree m' pos len) :
    wordSum m pos len = wordSum m' pos len :=
  Finset.sum_congr rfl fun i hi => by
    have hlt := Finset.mem_range.mp hi
    rw [h (pos + i) (by omega) (by omega)]

/-- Whole words, and what is behind them. -/
theorem wordSum_add (m : Buf) (pos : Nat) {k : Nat} (hk : k % 2 = 0) (len : Nat) :
    wordSum m pos (k + len) = wordSum m pos k + wordSum m (pos + k) len := by
  rw [wordSum, Finset.sum_range_add]
  refine congrArg (wordSum m pos k + ·) (Finset.sum_congr rfl fun i _ => ?_)
  rw [Nat.add_mod, hk, Nat.zero_add, Nat.mod_mod, Nat.add_assoc]

/-- A word that is zero and is stored adds to the sum what it comes to. -/
theorem wordSum_write {m : Buf} {pos len off : Nat} {a b : UInt8} (heven : off % 2 = 0)
    (hin : off + 2 ≤ len) (h₀ : m (pos + off) = 0) (h₁ : m (pos + off + 1) = 0) :
    wordSum (m.write (pos + off) [a, b]) pos len =
      wordSum m pos len + (256 * a.toNat + b.toNat) := by
  obtain ⟨n, rfl⟩ := Nat.exists_eq_add_of_le hin
  have hbefore : wordSum (m.write (pos + off) [a, b]) pos off = wordSum m pos off :=
    wordSum_congr fun i _ hi => Buf.write_outside (.inl hi)
  have hbehind : wordSum (m.write (pos + off) [a, b]) (pos + off + 2) n =
      wordSum m (pos + off + 2) n :=
    wordSum_congr fun i hi _ => Buf.write_outside (.inr hi)
  have hfirst : m.write (pos + off) [a, b] (pos + off + 0) = a := Buf.write_inside (by simp)
  have hsecond : m.write (pos + off) [a, b] (pos + off + 1) = b := Buf.write_inside (by simp)
  rw [Nat.add_assoc, Nat.add_comm 2 n, wordSum_add _ _ heven, wordSum_add _ _ heven,
    wordSum_add_two, wordSum_add_two, hbefore, hbehind, hsecond, h₀, h₁]
  rw [Nat.add_zero] at hfirst
  rw [hfirst, UInt8.toNat_zero]
  omega

/-- Each word is below 65536. -/
theorem wordSum_le (m : Buf) : ∀ pos len : Nat, wordSum m pos len ≤ 65535 * ((len + 1) / 2)
  | pos, len + 2 => by
      have ih := wordSum_le m (pos + 2) len
      have h₀ := (m pos).toNat_lt
      have h₁ := (m (pos + 1)).toNat_lt
      rw [wordSum_add_two]
      omega
  | pos, 1 => by
      have h₀ := (m pos).toNat_lt
      rw [wordSum_one]
      omega
  | pos, 0 => Nat.zero_le _

theorem wordSum_lt {m : Buf} {pos len : Nat} (h : len < 131072) : wordSum m pos len < 2 ^ 32 := by
  have := wordSum_le m pos len
  omega

theorem toNat_high (b : UInt8) : (b.toUInt32 <<< 8).toNat = 256 * b.toNat := by
  have hb := b.toNat_lt
  have hshift : (b.toUInt32 <<< 8).toNat = b.toNat <<< 8 % 2 ^ 32 := UInt32.toNat_shiftLeft _ 8
  rw [hshift, Nat.shiftLeft_eq]
  omega

theorem toNat_word (a b : UInt8) :
    (a.toUInt32 <<< 8 ||| b.toUInt32).toNat = 256 * a.toNat + b.toNat := by
  rw [UInt32.toNat_or, toNat_high, UInt8.toNat_toUInt32]
  exact (Nat.two_pow_add_eq_or_of_lt (i := 8) b.toNat_lt a.toNat).symm

/-- The accumulator is the sum, if that fits. -/
theorem toNat_xyChksumLoop (m : Buf) : ∀ (pos len : Nat) (acc : UInt32),
    acc.toNat + wordSum m pos len < 2 ^ 32 →
    (xyChksumLoop m pos len acc).toNat = acc.toNat + wordSum m pos len
  | pos, len + 2, acc, h => by
      rw [wordSum_add_two] at h ⊢
      have hacc : (acc + ((m pos).toUInt32 <<< 8 ||| (m (pos + 1)).toUInt32)).toNat =
          acc.toNat + (256 * (m pos).toNat + (m (pos + 1)).toNat) := by
        rw [UInt32.toNat_add, toNat_word]
        omega
      rw [xyChksumLoop, toNat_xyChksumLoop m (pos + 2) len _ (by rw [hacc]; omega), hacc]
      omega
  | pos, 1, acc, h => by
      rw [wordSum_one] at h ⊢
      rw [xyChksumLoop, UInt32.toNat_add, toNat_high]
      omega
  | _, 0, _, _ => rfl

/-- The accumulator does not overflow below 131072 bytes. -/
theorem toNat_accumulator (m : Buf) (pos : Nat) {len : Nat} (h : len < 131072) :
    (xyChksumLoop m pos len 0).toNat = wordSum m pos len := by
  have hsum := toNat_xyChksumLoop m pos len 0
  rw [UInt32.toNat_zero, Nat.zero_add] at hsum
  exact hsum (wordSum_lt h)

/-! ### One byte changed -/

/-- Two buffers differ in the range at the byte `i`, and nowhere else. -/
def DiffersAt (m m' : Buf) (pos len i : Nat) : Prop :=
  i < len ∧ m (pos + i) ≠ m' (pos + i) ∧ ∀ j < len, j ≠ i → m (pos + j) = m' (pos + j)

/-- The sums differ by the byte's part. -/
theorem DiffersAt.wordSum_eq {m m' : Buf} {pos len i : Nat} (h : DiffersAt m m' pos len i) :
    wordSum m pos len + (if i % 2 = 0 then 256 else 1) * (m' (pos + i)).toNat =
      wordSum m' pos len + (if i % 2 = 0 then 256 else 1) * (m (pos + i)).toNat := by
  obtain ⟨hi, -, hsame⟩ := h
  have hmem : i ∈ Finset.range len := Finset.mem_range.mpr hi
  have hrest : ∑ j ∈ (Finset.range len).erase i,
        (if j % 2 = 0 then 256 else 1) * (m (pos + j)).toNat =
      ∑ j ∈ (Finset.range len).erase i,
        (if j % 2 = 0 then 256 else 1) * (m' (pos + j)).toNat :=
    Finset.sum_congr rfl fun j hj => by
      rw [hsame j (Finset.mem_range.mp (Finset.mem_of_mem_erase hj)) (Finset.ne_of_mem_erase hj)]
  rw [wordSum, wordSum, ← Finset.add_sum_erase _ _ hmem, ← Finset.add_sum_erase _ _ hmem, hrest]
  omega

/-- A changed byte moves the sum by less than 65535, so its remainder changes. -/
theorem DiffersAt.mod_ne {m m' : Buf} {pos len i : Nat} (h : DiffersAt m m' pos len i) :
    wordSum m pos len % 65535 ≠ wordSum m' pos len % 65535 := by
  have hsum := h.wordSum_eq
  have hne : (m (pos + i)).toNat ≠ (m' (pos + i)).toNat := fun he => h.2.1 (UInt8.toNat_inj.mp he)
  have hb := (m (pos + i)).toNat_lt
  have hb' := (m' (pos + i)).toNat_lt
  -- the difference is that of the bytes, or 256 times that, and never 0 modulo 65535
  split_ifs at hsum <;> omega

/-- **A changed byte changes the checksum**, in a buffer of fewer than 131072 bytes. -/
theorem xyChksum_ne_of_differsAt {m m' : Buf} {pos len i : Nat} (hlen : len < 131072)
    (h : DiffersAt m m' pos len i) : xyChksum m pos len ≠ xyChksum m' pos len := by
  intro heq
  have hlt := toNat_foldAcc_lt (xyChksumLoop m pos len 0)
  have hlt' := toNat_foldAcc_lt (xyChksumLoop m' pos len 0)
  have hsum := toNat_xyChksum m pos len
  have hsum' := toNat_xyChksum m' pos len
  rw [toNat_foldAcc, toNat_accumulator m pos hlen] at hlt
  rw [toNat_foldAcc, toNat_accumulator m' pos hlen] at hlt'
  rw [toNat_accumulator m pos hlen, heq] at hsum
  rw [toNat_accumulator m' pos hlen] at hsum'
  have hfold : fold 65536 (wordSum m pos len) = fold 65536 (wordSum m' pos len) := by omega
  -- equal folds have equal remainders
  have hmod := (OnesComplement.fold_modEq 65536 (wordSum m pos len)).symm
  rw [hfold] at hmod
  exact h.mod_ne (hmod.trans (OnesComplement.fold_modEq 65536 (wordSum m' pos len)))

end XY1100
