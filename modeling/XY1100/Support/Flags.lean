import Mathlib.Tactic

/-!
# Support — words of flags

A word as the set of its bits (`HasBit`): what `|=` and `&= ~` do to it, and the test
`(w & m) == m` of one bit.
-/

namespace Support

/-- Bit `k` of a word is set. -/
def HasBit (w : UInt32) (k : Nat) : Prop := w.toBitVec.getLsbD k = true

theorem hasBit_or (w v : UInt32) (k : Nat) : HasBit (w ||| v) k ↔ HasBit w k ∨ HasBit v k := by
  simp [HasBit]

theorem hasBit_and (w v : UInt32) (k : Nat) : HasBit (w &&& v) k ↔ HasBit w k ∧ HasBit v k := by
  simp [HasBit]

theorem hasBit_clear (w v : UInt32) (k : Nat) :
    HasBit (w &&& ~~~v) k ↔ HasBit w k ∧ ¬ HasBit v k := by
  unfold HasBit
  simp only [UInt32.toBitVec_and, UInt32.toBitVec_not, BitVec.getLsbD_and, BitVec.getLsbD_not,
    Bool.and_eq_true, Bool.not_eq_true', decide_eq_true_eq, Bool.not_eq_true]
  constructor
  · rintro ⟨h, -, h'⟩
    exact ⟨h, h'⟩
  · rintro ⟨h, h'⟩
    exact ⟨h, BitVec.lt_of_getLsbD h, h'⟩

@[simp] theorem not_hasBit_zero (k : Nat) : ¬ HasBit 0 k := by simp [HasBit]

/-- Words with the same bits are equal. -/
theorem hasBit_ext {w v : UInt32} (h : ∀ k, HasBit w k ↔ HasBit v k) : w = v := by
  apply UInt32.toBitVec_inj.mp
  apply BitVec.eq_of_getLsbD_eq
  intro k _
  exact Bool.eq_iff_iff.mpr (h k)

/-- The test of a mask with one bit. -/
theorem and_eq_iff_hasBit {w m : UInt32} {n : Nat} (hm : ∀ k, HasBit m k ↔ k = n) :
    w &&& m = m ↔ HasBit w n := by
  constructor
  · intro h
    have hn : HasBit (w &&& m) n := by rw [h, hm]
    exact ((hasBit_and w m n).mp hn).1
  · intro h
    refine hasBit_ext ?_
    intro k
    rw [hasBit_and, hm]
    constructor
    · exact fun hk => hk.2
    · rintro rfl
      exact ⟨h, rfl⟩

end Support
