import Mathlib.Tactic

/-!
# Support — big-endian numbers

A number as bytes, the most significant first: a natural number in a given number of bytes, and an
integer in two's complement.

* `toNat_ofNat`, `ofNat_toNat`: the two are each other's inverse, for what fits.
* `toInt_ofInt`: so are those for integers.
-/

namespace Support.BigEndian

/-- The last `n` bytes of a number. -/
def ofNat : Nat → Nat → List UInt8
  | 0, _ => []
  | n + 1, v => ofNat n (v / 256) ++ [UInt8.ofNat v]

/-- The number bytes stand for. -/
def toNat (bs : List UInt8) : Nat := bs.foldl (fun v b => 256 * v + b.toNat) 0

@[simp] theorem length_ofNat (n v : Nat) : (ofNat n v).length = n := by
  induction n generalizing v with
  | zero => rfl
  | succ n ih => simp [ofNat, ih]

@[simp] theorem toNat_nil : toNat [] = 0 := rfl

@[simp] theorem toNat_concat (bs : List UInt8) (b : UInt8) :
    toNat (bs ++ [b]) = 256 * toNat bs + b.toNat := by
  simp [toNat]

theorem toNat_lt (bs : List UInt8) : toNat bs < 256 ^ bs.length := by
  induction bs using List.reverseRecOn with
  | nil => simp
  | append_singleton bs b ih =>
    have hb := b.toNat_lt
    rw [toNat_concat, List.length_append, List.length_singleton, pow_succ]
    omega

/-- A number that fits is read back. -/
theorem toNat_ofNat {n v : Nat} (h : v < 256 ^ n) : toNat (ofNat n v) = v := by
  induction n generalizing v with
  | zero =>
    rw [pow_zero] at h
    simp only [ofNat, toNat_nil]
    omega
  | succ n ih =>
    rw [pow_succ] at h
    rw [ofNat, toNat_concat, ih (by omega), UInt8.toNat_ofNat']
    omega

/-- Bytes are written back. -/
theorem ofNat_toNat (bs : List UInt8) : ofNat bs.length (toNat bs) = bs := by
  induction bs using List.reverseRecOn with
  | nil => rfl
  | append_singleton bs b ih =>
    have hb := b.toNat_lt
    have hlast : UInt8.ofNat (256 * toNat bs + b.toNat) = b := by
      apply UInt8.toNat_inj.mp
      rw [UInt8.toNat_ofNat']
      omega
    rw [List.length_append, List.length_singleton, ofNat, toNat_concat, hlast,
      show (256 * toNat bs + b.toNat) / 256 = toNat bs by omega, ih]

/-! ### Integers -/

/-- The last `n` bytes of an integer in two's complement. -/
def ofInt (n : Nat) (v : Int) : List UInt8 := ofNat n (v % (256 : Int) ^ n).toNat

/-- The integer bytes stand for in two's complement. -/
def toInt (bs : List UInt8) : Int := (toNat bs : Int).bmod (256 ^ bs.length)

@[simp] theorem length_ofInt (n : Nat) (v : Int) : (ofInt n v).length = n := length_ofNat n _

/-- An integer that fits is read back. -/
theorem toInt_ofInt {n : Nat} {v : Int} (hlo : -(256 ^ n : Nat) ≤ 2 * v)
    (hhi : 2 * v < (256 ^ n : Nat)) :
    toInt (ofInt n v) = v := by
  have hpow : (0 : Int) < (256 : Int) ^ n := by positivity
  have hcast : ((256 ^ n : Nat) : Int) = (256 : Int) ^ n := by push_cast; rfl
  have hnonneg := Int.emod_nonneg v hpow.ne'
  have hlt := Int.emod_lt_of_pos v hpow
  have hfits : (v % (256 : Int) ^ n).toNat < 256 ^ n := by
    have : (((v % (256 : Int) ^ n).toNat : Nat) : Int) < ((256 ^ n : Nat) : Int) := by
      rw [Int.toNat_of_nonneg hnonneg, hcast]
      exact hlt
    exact_mod_cast this
  rw [toInt, length_ofInt, ofInt, toNat_ofNat hfits, Int.toNat_of_nonneg hnonneg, ← hcast,
    Int.emod_bmod]
  exact Int.bmod_eq_of_le_mul_two (by omega) (by omega)

end Support.BigEndian
