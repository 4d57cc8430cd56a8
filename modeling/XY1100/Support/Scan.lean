import Mathlib.Order.Basic
import Mathlib.Tactic

/-!
# Support — the last maximum of a partial key

`scan key n lo` runs over the indices below `n` and keeps the last index whose key is defined
and at least the best key seen so far, starting from `lo`.  Its result is the last index of the
greatest key when some key reaches `lo` (`scan_of_isLastMax`), and nothing otherwise
(`scan_of_forall_lt`).
-/

namespace Support

variable {κ : Type*} [LinearOrder κ]

/-- One step of the scan: the best key so far, and where it was met. -/
def scanStep (key : Nat → Option κ) (s : κ × Option Nat) (i : Nat) : κ × Option Nat :=
  match key i with
  | some k => if s.1 ≤ k then (k, some i) else s
  | none => s

/-- The scan of the indices below `n`, from the key `lo`. -/
def scan (key : Nat → Option κ) (n : Nat) (lo : κ) : κ × Option Nat :=
  (List.range n).foldl (scanStep key) (lo, none)

/-- `i` is the last index below `n` whose key is the greatest, and its key `k` reaches `lo`. -/
structure IsLastMax (key : Nat → Option κ) (n : Nat) (lo : κ) (i : Nat) (k : κ) : Prop where
  lt : i < n
  key_eq : key i = some k
  le : lo ≤ k
  max : ∀ j < n, ∀ k', key j = some k' → k' ≤ k
  last : ∀ j < n, key j = some k → j ≤ i

theorem IsLastMax.unique {key : Nat → Option κ} {n i j : Nat} {lo lo' k l : κ}
    (h : IsLastMax key n lo i k) (h' : IsLastMax key n lo' j l) : i = j ∧ k = l := by
  have hk : k = l := le_antisymm (h'.max i h.lt k h.key_eq) (h.max j h'.lt l h'.key_eq)
  subst hk
  exact ⟨le_antisymm (h'.last i h.lt h.key_eq) (h.last j h'.lt h'.key_eq), rfl⟩

/-- The last maximum does not depend on the bound it is asked to reach. -/
theorem IsLastMax.of_le {key : Nat → Option κ} {n i : Nat} {lo lo' k : κ}
    (h : IsLastMax key n lo i k) (hle : lo' ≤ k) : IsLastMax key n lo' i k :=
  ⟨h.lt, h.key_eq, hle, h.max, h.last⟩

/-- Keys that agree below `n` have the same last maximum. -/
theorem IsLastMax.congr {key key' : Nat → Option κ} {n i : Nat} {lo k : κ}
    (h : IsLastMax key n lo i k) (he : ∀ j < n, key' j = key j) : IsLastMax key' n lo i k where
  lt := h.lt
  key_eq := (he i h.lt).trans h.key_eq
  le := h.le
  max j hj k' hk' := h.max j hj k' ((he j hj).symm.trans hk')
  last j hj hk' := h.last j hj ((he j hj).symm.trans hk')

/-- The scan finds the last maximum, or no key reaches `lo`. -/
theorem scan_cases (key : Nat → Option κ) (n : Nat) (lo : κ) :
    (∃ i k, IsLastMax key n lo i k ∧ scan key n lo = (k, some i)) ∨
    ((∀ j < n, ∀ k, key j = some k → k < lo) ∧ scan key n lo = (lo, none)) := by
  induction n with
  | zero => exact .inr ⟨by simp, rfl⟩
  | succ n ih =>
    have hs : scan key (n + 1) lo = scanStep key (scan key n lo) n := by
      simp [scan, List.range_succ]
    rw [hs]
    rcases hn : key n with _ | k
    · -- the new index has no key: nothing changes
      have hne : ∀ j < n + 1, ∀ k, key j = some k → j < n := fun j hj k hk => by
        rcases Nat.lt_succ_iff_lt_or_eq.mp hj with h | rfl
        · exact h
        · rw [hn] at hk; cases hk
      rcases ih with ⟨i, k, h, he⟩ | ⟨h, he⟩
      · exact .inl ⟨i, k, ⟨by have := h.lt; omega, h.key_eq, h.le,
          fun j hj k' hk' => h.max j (hne j hj k' hk') k' hk',
          fun j hj hk' => h.last j (hne j hj k hk') hk'⟩, by simp [scanStep, hn, he]⟩
      · exact .inr ⟨fun j hj k hk => h j (hne j hj k hk) k hk, by simp [scanStep, hn, he]⟩
    · rcases ih with ⟨i, l, h, he⟩ | ⟨h, he⟩
      · by_cases hlk : l ≤ k
        · -- the new key is as great: it takes over
          refine .inl ⟨n, k, ⟨by omega, hn, h.le.trans hlk, fun j hj k' hk' => ?_,
            fun j hj _ => by omega⟩, by simp [scanStep, hn, he, hlk]⟩
          rcases Nat.lt_succ_iff_lt_or_eq.mp hj with hj | rfl
          · exact (h.max j hj k' hk').trans hlk
          · rw [hn] at hk'; cases hk'; exact le_rfl
        · refine .inl ⟨i, l, ⟨by have := h.lt; omega, h.key_eq, h.le, fun j hj k' hk' => ?_,
            fun j hj hk' => ?_⟩, by simp [scanStep, hn, he, hlk]⟩
          · rcases Nat.lt_succ_iff_lt_or_eq.mp hj with hj | rfl
            · exact h.max j hj k' hk'
            · rw [hn] at hk'; cases hk'; exact (not_le.mp hlk).le
          · rcases Nat.lt_succ_iff_lt_or_eq.mp hj with hj | rfl
            · exact h.last j hj hk'
            · rw [hn] at hk'; cases hk'; exact absurd le_rfl hlk
      · by_cases hlk : lo ≤ k
        · refine .inl ⟨n, k, ⟨by omega, hn, hlk, fun j hj k' hk' => ?_, fun j hj _ => by omega⟩,
            by simp [scanStep, hn, he, hlk]⟩
          rcases Nat.lt_succ_iff_lt_or_eq.mp hj with hj | rfl
          · exact (h j hj k' hk').le.trans hlk
          · rw [hn] at hk'; cases hk'; exact le_rfl
        · refine .inr ⟨fun j hj k' hk' => ?_, by simp [scanStep, hn, he, hlk]⟩
          rcases Nat.lt_succ_iff_lt_or_eq.mp hj with hj | rfl
          · exact h j hj k' hk'
          · rw [hn] at hk'; cases hk'; exact not_le.mp hlk

theorem scan_of_isLastMax {key : Nat → Option κ} {n i : Nat} {lo k : κ}
    (h : IsLastMax key n lo i k) : scan key n lo = (k, some i) := by
  rcases scan_cases key n lo with ⟨j, l, h', he⟩ | ⟨h', -⟩
  · obtain ⟨rfl, rfl⟩ := h.unique h'
    exact he
  · exact absurd h.le (not_le.mpr (h' i h.lt k h.key_eq))

theorem scan_of_forall_lt {key : Nat → Option κ} {n : Nat} {lo : κ}
    (h : ∀ j < n, ∀ k, key j = some k → k < lo) : scan key n lo = (lo, none) := by
  rcases scan_cases key n lo with ⟨j, l, h', -⟩ | ⟨-, he⟩
  · exact absurd h'.le (not_le.mpr (h j h'.lt l h'.key_eq))
  · exact he

/-- A key that reaches `lo` has a last maximum above it. -/
theorem exists_isLastMax {key : Nat → Option κ} {n j : Nat} {lo k : κ} (hj : j < n)
    (hk : key j = some k) (hle : lo ≤ k) : ∃ i l, IsLastMax key n lo i l := by
  rcases scan_cases key n lo with ⟨i, l, h, -⟩ | ⟨h, -⟩
  · exact ⟨i, l, h⟩
  · exact absurd hle (not_le.mpr (h j hj k hk))

/-- Of two indices only the first has a key. -/
theorem isLastMax_of_only_zero {key : Nat → Option κ} {lo k : κ} (h₀ : key 0 = some k)
    (h₁ : key 1 = none) (hle : lo ≤ k) : IsLastMax key 2 lo 0 k := by
  have hone : ∀ j < 2, ∀ k', key j = some k' → j = 0 := fun j hj k' hk' => by
    obtain rfl | rfl : j = 0 ∨ j = 1 := by omega
    · rfl
    · rw [h₁] at hk'; cases hk'
  refine ⟨by omega, h₀, hle, fun j hj k' hk' => ?_, fun j hj hk' => (hone j hj k hk').le⟩
  obtain rfl := hone j hj k' hk'
  rw [h₀] at hk'
  cases hk'
  exact le_rfl

end Support
