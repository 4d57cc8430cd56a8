import Mathlib.Tactic

/-!
# Support — decimal numerals

A natural number as ASCII digits, the most significant first.

* `numeral`: the numeral of a number, without digits it does not need, and `value`, the number of
  digits (`value_numeral`).
* `length_numeral_le`: a number needs at most `k` digits exactly if it is below `10 ^ k`.
-/

namespace Support.Decimal

def IsDigit (b : UInt8) : Prop := 48 ≤ b ∧ b ≤ 57

instance : DecidablePred IsDigit := fun b => inferInstanceAs (Decidable (48 ≤ b ∧ b ≤ 57))

/-- The number of a digit. -/
def digit (b : UInt8) : Nat := b.toNat - 48

/-- The number digits stand for, behind those that stand for `v`. -/
def continueFrom (v : Nat) (bs : List UInt8) : Nat := bs.foldl (fun v b => 10 * v + digit b) v

/-- The number digits stand for. -/
def value (bs : List UInt8) : Nat := continueFrom 0 bs

@[simp] theorem continueFrom_nil (v : Nat) : continueFrom v [] = v := rfl

@[simp] theorem continueFrom_cons (v : Nat) (b : UInt8) (bs : List UInt8) :
    continueFrom v (b :: bs) = continueFrom (10 * v + digit b) bs := List.foldl_cons ..

theorem continueFrom_append (v : Nat) (bs cs : List UInt8) :
    continueFrom v (bs ++ cs) = continueFrom (continueFrom v bs) cs := List.foldl_append

theorem continueFrom_eq (v : Nat) (bs : List UInt8) :
    continueFrom v bs = v * 10 ^ bs.length + value bs := by
  induction bs generalizing v with
  | nil => simp [value]
  | cons b bs ih =>
    rw [value, continueFrom_cons, continueFrom_cons, ih, ih (10 * 0 + digit b), List.length_cons]
    ring

@[simp] theorem value_nil : value [] = 0 := rfl

theorem value_cons (b : UInt8) (bs : List UInt8) :
    value (b :: bs) = digit b * 10 ^ bs.length + value bs := by
  rw [value, continueFrom_cons, continueFrom_eq, Nat.mul_zero, Nat.zero_add]

theorem le_continueFrom (v : Nat) (bs : List UInt8) : v ≤ continueFrom v bs := by
  rw [continueFrom_eq]
  have hpow : 1 ≤ 10 ^ bs.length := Nat.one_le_pow _ _ (by decide)
  nlinarith

theorem value_le_of_prefix {bs cs : List UInt8} (h : bs <+: cs) : value bs ≤ value cs := by
  obtain ⟨ds, rfl⟩ := h
  rw [value, value, continueFrom_append]
  exact le_continueFrom _ ds

theorem isDigit_iff {b : UInt8} : IsDigit b ↔ 48 ≤ b.toNat ∧ b.toNat ≤ 57 := by
  rw [IsDigit, UInt8.le_iff_toNat_le, UInt8.le_iff_toNat_le]
  rfl

theorem digit_lt {b : UInt8} (h : IsDigit b) : digit b < 10 := by
  have := isDigit_iff.mp h
  rw [digit]
  omega

/-- The digit of a number. -/
def ofDigit (n : Nat) : UInt8 := UInt8.ofNat (48 + n)

theorem ofDigit_isDigit {n : Nat} (h : n < 10) : IsDigit (ofDigit n) := by
  rw [isDigit_iff, ofDigit, UInt8.toNat_ofNat']
  omega

@[simp] theorem digit_ofDigit {n : Nat} (h : n < 10) : digit (ofDigit n) = n := by
  rw [digit, ofDigit, UInt8.toNat_ofNat']
  omega

/-- The numeral of a number. -/
def numeral (n : Nat) : List UInt8 :=
  if n < 10 then [ofDigit n] else numeral (n / 10) ++ [ofDigit (n % 10)]
termination_by n

theorem numeral_lt {n : Nat} (h : n < 10) : numeral n = [ofDigit n] := by
  rw [numeral, if_pos h]

theorem numeral_le {n : Nat} (h : 10 ≤ n) :
    numeral n = numeral (n / 10) ++ [ofDigit (n % 10)] := by
  rw [numeral, if_neg (by omega)]

theorem numeral_digits (n : Nat) : ∀ b ∈ numeral n, IsDigit b := by
  induction n using numeral.induct with
  | case1 n h =>
    intro b hb
    rw [numeral_lt h, List.mem_singleton] at hb
    rw [hb]
    exact ofDigit_isDigit h
  | case2 n h ih =>
    intro b hb
    rw [numeral_le (by omega), List.mem_append, List.mem_singleton] at hb
    rcases hb with hb | rfl
    · exact ih b hb
    · exact ofDigit_isDigit (Nat.mod_lt n (by decide))

/-- A numeral stands for its number. -/
theorem value_numeral (n : Nat) : value (numeral n) = n := by
  induction n using numeral.induct with
  | case1 n h =>
    rw [numeral_lt h, value_cons, digit_ofDigit h]
    simp
  | case2 n h ih =>
    rw [value] at ih
    rw [numeral_le (by omega), value, continueFrom_append, ih, continueFrom_cons, continueFrom_nil,
      digit_ofDigit (Nat.mod_lt n (by decide))]
    omega

theorem length_numeral_pos (n : Nat) : 0 < (numeral n).length := by
  rcases Nat.lt_or_ge n 10 with h | h
  · rw [numeral_lt h]
    exact Nat.one_pos
  · rw [numeral_le h, List.length_append, List.length_singleton]
    omega

/-- The digits that are needed. -/
theorem length_numeral_le {n k : Nat} (hk : 0 < k) : (numeral n).length ≤ k ↔ n < 10 ^ k := by
  induction k generalizing n with
  | zero => omega
  | succ k ih =>
    rcases Nat.lt_or_ge n 10 with h | h
    · have hpow : 10 ^ 1 ≤ 10 ^ (k + 1) := Nat.pow_le_pow_right (by decide) (by omega)
      rw [numeral_lt h, List.length_singleton]
      omega
    · rw [numeral_le h, List.length_append, List.length_singleton, Nat.add_le_add_iff_right,
        pow_succ]
      rcases Nat.eq_zero_or_pos k with rfl | hk
      · have hpos := length_numeral_pos (n / 10)
        omega
      · rw [ih hk, Nat.div_lt_iff_lt_mul (by decide)]

end Support.Decimal
