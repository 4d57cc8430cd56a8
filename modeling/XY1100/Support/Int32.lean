import Mathlib.Tactic

/-!
# Support — numbers of 32 bits

A C program moves numbers between `int` and `unsigned int`, which keeps their bits.
-/

namespace Support

theorem toInt_toInt32 {u : UInt32} (h : u.toNat < 2 ^ 31) : u.toInt32.toInt = u.toNat := by
  have hbits : u.toBitVec.toNat = u.toNat := rfl
  have hint : u.toInt32.toInt = u.toBitVec.toInt := rfl
  rw [hint, BitVec.toInt_eq_toNat_of_lt (by omega), hbits]

theorem toNat_toUInt32 {x : Int32} (h : 0 ≤ x.toInt) : (x.toUInt32.toNat : Int) = x.toInt := by
  have hbits : x.toUInt32.toBitVec.toNat = x.toUInt32.toNat := rfl
  have hlt := x.toUInt32.toNat_lt
  have hint : x.toInt = x.toUInt32.toBitVec.toInt := rfl
  rw [hint, BitVec.toInt_eq_toNat_cond, hbits] at h ⊢
  split_ifs at h ⊢ <;> omega

theorem toNat_toUInt32_ofInt (n : Nat) : (Int32.ofInt n).toUInt32.toNat = n % 2 ^ 32 := by
  have hbits : (Int32.ofInt n).toUInt32.toNat = (BitVec.ofInt 32 n).toNat := rfl
  rw [hbits, BitVec.toNat_ofInt]
  omega

theorem toInt_succ {x : Int32} (h : x.toInt + 1 < 2 ^ 31) : (x + 1).toInt = x.toInt + 1 := by
  have hlo := x.le_toInt
  rw [Int32.toInt_add, Int32.toInt_one, Int.bmod_eq_of_le_mul_two] <;> omega

/-- A quotient of a number that is not negative. -/
theorem toInt_div_of_nonneg {x y : Int32} (hx : 0 ≤ x.toInt) (hy : 0 < y.toInt) :
    (x / y).toInt = x.toInt / y.toInt := by
  have hlt := x.toInt_lt
  have hle : x.toInt / y.toInt ≤ x.toInt := Int.ediv_le_self _ hx
  have hnonneg : 0 ≤ x.toInt / y.toInt := Int.ediv_nonneg hx hy.le
  rw [Int32.toInt_div, Int.tdiv_eq_ediv_of_nonneg hx, Int.bmod_eq_of_le_mul_two] <;> omega

theorem eq_zero_iff_toInt {x : Int32} : x = 0 ↔ x.toInt = 0 := by
  rw [← Int32.toInt_inj, Int32.toInt_zero]

end Support
