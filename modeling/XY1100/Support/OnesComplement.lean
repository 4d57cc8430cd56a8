import Mathlib.Tactic

/-!
# Support — ones'-complement sums

A sum of digits to the base `B` has carries above its lowest digit.  `endAround` adds them to that
digit; the second time there is at most one, and the sum is a digit (`fold_lt`).  A fold keeps the
remainder modulo `B - 1` (`fold_modEq`), and is zero only for zero (`fold_eq_zero_iff`).

* `complement_add`: a sum to which the complement of its fold is added has the complement zero.
-/

namespace Support.OnesComplement

/-- The carries of a sum, added to its lowest digit. -/
def endAround (B n : Nat) : Nat := n / B + n % B

/-- The carries, and the carry of adding them. -/
def fold (B n : Nat) : Nat := endAround B (endAround B n)

/-- The digit that the fold lacks to the greatest one. -/
def complement (B n : Nat) : Nat := B - 1 - fold B n

variable {B n : Nat}

/-! ### The carries -/

theorem endAround_of_lt (h : n < B) : endAround B n = n := by
  rw [endAround, Nat.div_eq_of_lt h, Nat.mod_eq_of_lt h, Nat.zero_add]

/-- A carry is worth `B` where it was and one where it comes to. -/
theorem endAround_add (B n : Nat) : n = endAround B n + (B - 1) * (n / B) := by
  rcases B with _ | b
  · simp [endAround]
  · have hdiv := Nat.div_add_mod n (b + 1)
    rw [Nat.add_mul, Nat.one_mul] at hdiv
    rw [endAround, Nat.add_sub_cancel]
    omega

theorem endAround_modEq (B n : Nat) : endAround B n ≡ n [MOD B - 1] := by
  have h : endAround B n + (B - 1) * (n / B) ≡ endAround B n [MOD B - 1] := by simp [Nat.ModEq]
  rw [← endAround_add] at h
  exact h.symm

theorem endAround_eq_zero_iff (B n : Nat) : endAround B n = 0 ↔ n = 0 := by
  constructor
  · intro h
    obtain ⟨hdiv, hmod⟩ := Nat.add_eq_zero_iff.mp h
    rw [← Nat.div_add_mod n B, hdiv, hmod, Nat.mul_zero]
  · rintro rfl
    simp [endAround]

/-- A sum of two digits in all has at most one carry. -/
theorem endAround_le (h : n < B ^ 2) : endAround B n ≤ 2 * (B - 1) := by
  rw [Nat.pow_two] at h
  have hpos : 0 < B := Nat.pos_of_ne_zero fun hzero => by simp [hzero] at h
  have hdiv : n / B < B := Nat.div_lt_of_lt_mul h
  have hmod : n % B < B := Nat.mod_lt n hpos
  rw [endAround]
  omega

theorem endAround_lt (hB : 1 < B) (h : n ≤ 2 * (B - 1)) : endAround B n < B := by
  rcases Nat.lt_or_ge n B with hlt | hge
  · rwa [endAround_of_lt hlt]
  · -- the carry is one, and leaves room for itself
    have hdiv : n / B = 1 := Nat.div_eq_of_lt_le (by omega) (by omega)
    have hmod : n % B = n - B := by
      rw [Nat.mod_eq_sub_mod hge, Nat.mod_eq_of_lt (by omega)]
    rw [endAround, hdiv, hmod]
    omega

/-! ### The fold -/

/-- Two rounds are enough. -/
theorem fold_lt (hB : 1 < B) (h : n < B ^ 2) : fold B n < B :=
  endAround_lt hB (endAround_le h)

theorem fold_modEq (B n : Nat) : fold B n ≡ n [MOD B - 1] :=
  (endAround_modEq B (endAround B n)).trans (endAround_modEq B n)

theorem fold_eq_zero_iff (B n : Nat) : fold B n = 0 ↔ n = 0 :=
  (endAround_eq_zero_iff B _).trans (endAround_eq_zero_iff B n)

/-- A multiple of the greatest digit folds to that digit. -/
theorem fold_of_dvd (hB : 1 < B) (h : n < B ^ 2) (hpos : n ≠ 0) (hdvd : B - 1 ∣ n) :
    fold B n = B - 1 := by
  have hlt := fold_lt hB h
  have hdvd' : B - 1 ∣ fold B n := (fold_modEq B n).symm.dvd_iff dvd_rfl |>.mp hdvd
  have hne : fold B n ≠ 0 := fun hzero => hpos ((fold_eq_zero_iff B n).mp hzero)
  have hle := Nat.le_of_dvd (Nat.pos_of_ne_zero hne) hdvd'
  omega

/-! ### The complement -/

/-- **A sum checks itself**, once the complement of its fold is added. -/
theorem complement_add (hB : 1 < B) (h : n + complement B n < B ^ 2) :
    complement B (n + complement B n) = 0 := by
  have hlt : fold B n < B := fold_lt hB (by omega)
  have hfold : fold B n + complement B n = B - 1 := by
    rw [complement]
    omega
  -- the fold and its complement make the greatest digit, and the sum has the fold's remainder
  have hdvd : B - 1 ∣ n + complement B n := by
    have hmod := (fold_modEq B n).add_right (complement B n)
    rw [hfold] at hmod
    exact (hmod.dvd_iff dvd_rfl).mp dvd_rfl
  have hpos : n + complement B n ≠ 0 := by
    intro hzero
    have hn : fold B n = 0 := (fold_eq_zero_iff B n).mpr (by omega)
    omega
  rw [complement, fold_of_dvd hB h hpos hdvd, Nat.sub_self]

end Support.OnesComplement
