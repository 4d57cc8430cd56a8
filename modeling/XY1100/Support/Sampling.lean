import Mathlib.Tactic

/-!
# Support — sampling a serial line

A line is read once a tick, and a bit lasts `w` ticks.  The sampler restarts its count at every
edge and takes a bit where the level has held for `w / 2`, `w + w / 2`, ... ticks (`Tap`).

* `Tap.run_replicate`: a level held for `n` ticks gives `samples w n` bits.
* `Tap.Even.run_bit`: a bit of `w` ticks gives one bit, whatever the level before.
-/

namespace Support

/-- The bits a level gives that is held for `n` ticks. -/
def samples (w n : Nat) : Nat := (n + (w - w / 2)) / w

/-- What the sampler knows: the level, the ticks since the last edge, and the bits taken, the
newest first. -/
structure Tap where
  level : Bool
  held : Nat
  bits : List Bool
  deriving Repr, DecidableEq

namespace Tap

variable {w : Nat}

/-- The ticks since the last edge, after one more. -/
def nextHeld (t : Tap) (b : Bool) : Nat := if b = t.level then t.held + 1 else 1

/-- One tick. -/
def step (w : Nat) (t : Tap) (b : Bool) : Tap where
  level := b
  held := t.nextHeld b
  bits := if t.nextHeld b % w = w / 2 then b :: t.bits else t.bits

/-- A run of ticks. -/
def run (w : Nat) (t : Tap) (levels : List Bool) : Tap := levels.foldl (step w) t

@[simp] theorem run_nil (t : Tap) : t.run w [] = t := rfl

theorem run_cons (t : Tap) (b : Bool) (levels : List Bool) :
    t.run w (b :: levels) = (t.step w b).run w levels := rfl

theorem run_append (t : Tap) (l l' : List Bool) :
    t.run w (l ++ l') = (t.run w l).run w l' := List.foldl_append

end Tap

/-! ### A level that is held -/

variable {w : Nat}

theorem samples_zero (hw : 1 < w) : samples w 0 = 0 := by
  unfold samples
  exact Nat.div_eq_of_lt (by omega)

/-- One more tick gives a bit at the middle of a bit time. -/
theorem samples_succ (hw : 1 < w) (n : Nat) :
    samples w (n + 1) = samples w n + if (n + 1) % w = w / 2 then 1 else 0 := by
  have hdvd : w ∣ n + (w - w / 2) + 1 ↔ (n + 1) % w = w / 2 := by
    have hmid : w / 2 < w := Nat.div_lt_self (by omega) (by decide)
    rw [Nat.dvd_iff_mod_eq_zero]
    have hsum : n + (w - w / 2) + 1 = (n + 1) + (w - w / 2) := by omega
    rw [hsum, Nat.add_mod, Nat.mod_eq_of_lt (a := w - w / 2) (by omega)]
    have hlt := Nat.mod_lt (n + 1) (show 0 < w by omega)
    constructor
    · intro h
      by_contra hne
      rcases Nat.lt_or_ge ((n + 1) % w + (w - w / 2)) w with hs | hs
      · rw [Nat.mod_eq_of_lt hs] at h
        omega
      · rw [Nat.mod_eq_sub_mod hs, Nat.mod_eq_of_lt (by omega)] at h
        omega
    · intro h
      have : (n + 1) % w + (w - w / 2) = w := by omega
      rw [this, Nat.mod_self]
  unfold samples
  rw [Nat.add_right_comm, Nat.succ_div]
  simp only [hdvd]

theorem samples_add_mul (hw : 1 < w) (n k : Nat) : samples w (n + w * k) = samples w n + k := by
  unfold samples
  rw [Nat.add_right_comm, Nat.add_mul_div_left _ _ (by omega)]

namespace Tap

/-- A held level gives its bits at the middles of its bit times. -/
theorem run_same (hw : 1 < w) (t : Tap) (n : Nat) :
    t.run w (List.replicate n t.level) = ⟨t.level, t.held + n,
      List.replicate (samples w (t.held + n) - samples w t.held) t.level ++ t.bits⟩ := by
  induction n with
  | zero => simp
  | succ n ih =>
    have hmono : samples w t.held ≤ samples w (t.held + n) := by
      unfold samples
      exact Nat.div_le_div_right (by omega)
    rw [List.replicate_succ', run_append, ih, run_cons, run_nil, step, nextHeld, if_pos rfl,
      ← Nat.add_assoc, samples_succ hw]
    by_cases hmid : (t.held + n + 1) % w = w / 2
    · rw [if_pos hmid, if_pos hmid, Nat.sub_add_comm hmono, List.replicate_succ, List.cons_append]
    · rw [if_neg hmid, if_neg hmid]
      rfl

/-- After an edge the count starts afresh. -/
theorem run_edge (hw : 1 < w) {t : Tap} {b : Bool} (hb : b ≠ t.level) (n : Nat) :
    t.run w (List.replicate (n + 1) b) =
      ⟨b, n + 1, List.replicate (samples w (n + 1)) b ++ t.bits⟩ := by
  have hone : samples w 1 = if 1 % w = w / 2 then 1 else 0 := by
    have h := samples_succ hw 0
    rwa [samples_zero hw, Nat.zero_add, Nat.zero_add] at h
  rw [List.replicate_succ, run_cons]
  have hstep : t.step w b = ⟨b, 1, List.replicate (samples w 1) b ++ t.bits⟩ := by
    rw [step, nextHeld, if_neg hb, hone]
    split <;> rfl
  have hmono : samples w 1 ≤ samples w (1 + n) := by
    unfold samples
    exact Nat.div_le_div_right (by omega)
  rw [hstep, run_same hw ⟨b, 1, _⟩ n]
  dsimp only
  rw [← List.append_assoc, ← List.replicate_add, Nat.sub_add_cancel hmono, Nat.add_comm 1 n]

/-- The level has held for whole bit times. -/
def Even (w : Nat) (t : Tap) : Prop := w ∣ t.held

/-- **A held level**, from whole bit times on. -/
theorem Even.run_replicate (hw : 1 < w) {t : Tap} (h : t.Even w) (b : Bool) (n : Nat) :
    (t.run w (List.replicate n b)).bits = List.replicate (samples w n) b ++ t.bits := by
  obtain ⟨k, hk⟩ := h
  cases n with
  | zero => rw [samples_zero hw]; rfl
  | succ n =>
    by_cases hb : b = t.level
    · rw [hb, run_same hw]
      dsimp only
      have hheld : samples w t.held = k := by
        rw [hk, ← Nat.zero_add (w * k), samples_add_mul hw, samples_zero hw, Nat.zero_add]
      have hrun : samples w (t.held + (n + 1)) = samples w (n + 1) + k := by
        rw [hk, Nat.add_comm, samples_add_mul hw]
      rw [hheld, hrun, Nat.add_sub_cancel]
    · rw [run_edge hw hb]

theorem run_level {t : Tap} (b : Bool) {n : Nat} (hn : 0 < n) :
    (t.run w (List.replicate n b)).level = b := by
  cases n with
  | zero => cases hn
  | succ n =>
    rw [List.replicate_succ', run_append]
    rfl

/-- Whole bit times end at whole bit times. -/
theorem Even.run_even (hw : 1 < w) {t : Tap} (h : t.Even w) (b : Bool) {n : Nat} (hn : w ∣ n) :
    (t.run w (List.replicate n b)).Even w := by
  cases n with
  | zero => exact h
  | succ n =>
    by_cases hb : b = t.level
    · rw [hb, run_same hw]
      exact Nat.dvd_add h hn
    · rw [run_edge hw hb]
      exact hn

theorem samples_self (hw : 1 < w) : samples w w = 1 := by
  have h := samples_add_mul hw 0 1
  rwa [Nat.mul_one, Nat.zero_add, samples_zero hw, Nat.zero_add] at h

/-- **One bit time** gives one bit. -/
theorem Even.run_bit (hw : 1 < w) {t : Tap} (h : t.Even w) (b : Bool) :
    (t.run w (List.replicate w b)).bits = b :: t.bits := by
  rw [h.run_replicate hw, samples_self hw]
  rfl

/-- Bit times, one after the other. -/
theorem Even.run_bits (hw : 1 < w) {t : Tap} (h : t.Even w) (bs : List Bool) :
    (t.run w (bs.flatMap (List.replicate w))).bits = bs.reverse ++ t.bits ∧
      (t.run w (bs.flatMap (List.replicate w))).Even w := by
  induction bs generalizing t with
  | nil => exact ⟨rfl, h⟩
  | cons b bs ih =>
    rw [List.flatMap_cons, run_append]
    obtain ⟨hbits, heven⟩ := ih (h.run_even hw b (dvd_refl w))
    refine ⟨?_, heven⟩
    rw [hbits, h.run_bit hw, List.reverse_cons, List.append_assoc]
    rfl

/-- After an edge the count starts afresh, so whole bit times need not come before it. -/
theorem run_replicate_edge (hw : 1 < w) {t : Tap} {b : Bool} (hb : b ≠ t.level) {n : Nat}
    (hn : 0 < n) : (t.run w (List.replicate n b)).bits = List.replicate (samples w n) b ++ t.bits ∧
      (t.run w (List.replicate n b)).held = n := by
  obtain ⟨k, rfl⟩ := Nat.exists_eq_succ_of_ne_zero hn.ne'
  rw [run_edge hw hb]
  exact ⟨rfl, rfl⟩

end Tap
end Support
