import Mathlib.Data.List.TakeWhile

/-!
# Support — texts in a buffer

A C string stands in a buffer up to its first NUL.

* `cText_window_iff`: a window of the buffer is a text exactly when the text stands at its place in
  the string.
-/

namespace Support

/-- The bytes before the first NUL. -/
def cText (s : List UInt8) : List UInt8 := s.takeWhile (· ≠ 0)

/-- `strlen`, which runs off a buffer without a NUL. -/
def strlen (s : List UInt8) : Option Nat :=
  if (cText s).length < s.length then some (cText s).length else none

variable {s d : List UInt8}

theorem cText_prefix_self (s : List UInt8) : cText s <+: s := List.takeWhile_prefix _

theorem cText_of_not_mem (h : 0 ∉ s) : cText s = s :=
  List.takeWhile_eq_self_iff.mpr fun x hx => by
    simpa using fun hx0 : x = 0 => h (hx0 ▸ hx)

theorem cText_append_of_not_mem {t : List UInt8} (h : 0 ∉ s) : cText (s ++ t) = s ++ cText t :=
  List.takeWhile_append_of_pos fun x hx => by
    simpa using fun hx0 : x = 0 => h (hx0 ▸ hx)

/-- NULs behind a buffer add nothing to its string. -/
theorem cText_append_zeros (s : List UInt8) (n : Nat) : cText (s ++ List.replicate n 0) = cText s := by
  have hzeros : cText (List.replicate n 0) = [] := by
    cases n with
    | zero => rfl
    | succ n => simp [cText, List.replicate_succ]
  unfold cText at hzeros ⊢
  rw [List.takeWhile_append]
  split_ifs with hall
  · rw [hzeros, List.append_nil, List.Sublist.eq_of_length (List.takeWhile_prefix _).sublist hall]
  · rfl

theorem length_cText_lt_iff : (cText s).length < s.length ↔ 0 ∈ s := by
  constructor
  · intro hlt
    by_contra hno
    rw [cText_of_not_mem hno] at hlt
    exact absurd hlt (Nat.lt_irrefl _)
  · intro hmem
    obtain ⟨l, r, rfl⟩ := List.append_of_mem hmem
    have hle : (cText (l ++ 0 :: r)).length ≤ l.length := by
      unfold cText
      rw [List.takeWhile_append]
      split_ifs with hall
      · simp
      · exact (List.takeWhile_prefix _).length_le
    simp only [List.length_append, List.length_cons]
    omega

theorem strlen_eq_some (h : 0 ∈ s) : strlen s = some (cText s).length :=
  if_pos (length_cText_lt_iff.mpr h)

theorem strlen_eq_none (h : 0 ∉ s) : strlen s = none :=
  if_neg fun hlt => h (length_cText_lt_iff.mp hlt)

theorem drop_cText {i : Nat} (h : i ≤ (cText s).length) : (cText s).drop i = cText (s.drop i) := by
  induction s generalizing i with
  | nil => simp [cText]
  | cons b s ih =>
      cases i with
      | zero => rfl
      | succ i =>
          by_cases hb : b = 0
          · subst hb
            simp [cText] at h
          · have hcons : cText (b :: s) = b :: cText s := by simp [cText, hb]
            rw [hcons] at h ⊢
            exact ih (Nat.le_of_succ_le_succ h)

/-- A text without NUL is a prefix of a buffer exactly when it is one of its string. -/
theorem prefix_cText_iff (hd : 0 ∉ d) : d <+: cText s ↔ d <+: s := by
  constructor
  · exact fun h => h.trans (cText_prefix_self s)
  · rintro ⟨r, rfl⟩
    rw [cText_append_of_not_mem hd]
    exact List.prefix_append _ _

/-- **A window of the buffer.** -/
theorem cText_window_iff {i : Nat} (hd : 0 ∉ d) (hi : i ≤ (cText s).length) :
    cText ((s.drop i).take d.length) = d ↔ d <+: (cText s).drop i := by
  rw [drop_cText hi, prefix_cText_iff hd]
  constructor
  · intro h
    have hpre : d <+: (s.drop i).take d.length := by
      have hp := cText_prefix_self ((s.drop i).take d.length)
      rwa [h] at hp
    exact hpre.trans (List.take_prefix _ _)
  · intro h
    rw [← List.prefix_iff_eq_take.mp h]
    exact cText_of_not_mem hd

end Support
