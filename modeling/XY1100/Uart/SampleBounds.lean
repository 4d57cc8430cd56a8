import XY1100.Uart.Recorder

/-!
# Uart — the sampler stays in its buffer

`rcv_dat` has 32 bits, one of which is the idle bit.  Nothing but the limits on the ticks bounds
the number of bits recorded, and every edge brings the next sample point closer: a level that
changes every four ticks gives a bit every four ticks.

* `samplesSafely_iff`: every write is in `rcv_dat` and the sampling ends, exactly when the line has
  no 33rd bit before a limit or a character, and goes high after a character.
-/

namespace XY1100.Uart

/-- Every bit-band write is to a bit of `rcv_dat` and changes no other field, and the sampling ends:
the handler is called at most 321 times. -/
structure SamplesSafely (table : List (BitVec 8)) (m : Sampler) (levels : Nat → Bool) : Prop where
  inBuffer : ∀ n, (m.after table levels n).Running →
    ((m.after table levels n).beforeRecord (levels n)).AtSamplePoint →
    let g := ((m.after table levels n).beforeRecord (levels n)).gpiUtc
    g.bitNumCnt.toNat < 32 ∧
      ∃ rcvDat, g.putRcvBit g.bitNumCnt.toNat (levels n) = { g with rcvDat := rcvDat }
  ends : ∃ n, (m.after table levels n).gpiUtc.sampleFlag.finished = true
  ticks : ∀ n, (m.after table levels n).Running →
    n ≤ cspDataBits * oneBitSampleNum + maxSampleNum

/-- The line has a 33rd bit, the idle bit counted, before a limit or a character. -/
def Overfull (table : List (BitVec 8)) (levels : Nat → Bool) : Prop :=
  ∃ n, OpenUntil table levels (n + 1) ∧ 32 < (Line.after levels (n + 1)).bits.length

/-- The line goes high after a character was found. -/
def StopComes (table : List (BitVec 8)) (levels : Nat → Bool) : Prop :=
  ∀ n, OpenUntil table levels n → foundId table (Line.after levels n).bits ≠ 0 →
    ∃ k, n ≤ k ∧ levels k = true

variable {table : List (BitVec 8)} {levels : Nat → Bool} {m : Sampler}

theorem length_of_not_overfull (h : ¬ Overfull table levels) {n : Nat}
    (hopen : OpenUntil table levels n) : (Line.after levels n).bits.length ≤ 32 := by
  cases n with
  | zero => exact Nat.zero_le _
  | succ n => exact Nat.le_of_not_lt fun hlt => h ⟨n, hopen, hlt⟩

/-- The first 33rd bit is written behind the buffer. -/
theorem not_safely_of_overfull (h : Follows table m .quiet 0) (hover : Overfull table levels) :
    ¬ SamplesSafely table m levels := by
  classical
  intro hsafe
  have hlen := (Nat.find_spec hover).2
  have hopen := (Nat.find_spec hover).1
  set n := Nat.find hover with hn
  have hroom : (Line.after levels n).bits.length ≤ 32 := by
    rcases Nat.eq_zero_or_pos n with hzero | hpos
    · rw [hzero]
      exact Nat.zero_le _
    · have hmin := Nat.find_min hover (m := n - 1) (by omega)
      rw [Nat.sub_add_cancel hpos, not_and, not_lt] at hmin
      exact hmin (hopen.mono (Nat.le_succ n))
  obtain ⟨hexp, hnone⟩ := hopen n (Nat.lt_succ_self n)
  have hf := h.after (hopen.mono (Nat.le_succ n)) hroom
  have hp := hf.beforeRecord hexp (hopen.le.trans_lt (by decide)) (levels n)
  have hrunning : (m.after table levels n).Running :=
    ⟨hf.finished, hf.waitStop.trans (decide_eq_false (not_not.mpr hnone))⟩
  rcases hp.bits with ⟨hat, hholds, hbits⟩ | ⟨-, hholds, -⟩
  · have hlt := (hsafe.inBuffer n hrunning hat).1
    rw [hholds.bitNumCnt] at hlt
    rw [Line.after, hbits, List.length_cons] at hlen
    omega
  · exact absurd hholds.length_le (Nat.not_le_of_lt hlen)

/-- **The buffer is kept.** -/
theorem samplesSafely_iff_of_follows (h : Follows table m .quiet 0) :
    SamplesSafely table m levels ↔ ¬ Overfull table levels ∧ StopComes table levels := by
  constructor
  · intro hsafe
    have hfull : ¬ Overfull table levels := fun hover => not_safely_of_overfull h hover hsafe
    refine ⟨hfull, ?_⟩
    intro n hopen hfound
    by_contra hlow
    have hlow' : ∀ j, n ≤ j → levels j = false := by
      intro j hj
      by_contra hne
      exact hlow ⟨j, hj, Bool.not_eq_false _ ▸ hne⟩
    have hf := h.after hopen (length_of_not_overfull hfull hopen)
    have hwait := hf.waitStop.trans (decide_eq_true hfound)
    obtain ⟨k, hk⟩ := hsafe.ends
    -- before the character the sampling has not ended, and after it nothing changes
    rcases Nat.le_total n k with hle | hle
    · rw [after_waiting hf.finished hwait hle (fun j hj _ => hlow' j hj), hf.finished] at hk
      cases hk
    · have hsame := after_finished hk hle
      rw [← hsame, hf.finished] at hk
      cases hk
  · rintro ⟨hfull, hstop⟩
    obtain ⟨n, hn, hopen, hclose⟩ := exists_closing table levels
    have hfollows : ∀ k ≤ n, Follows table (m.after table levels k) (Line.after levels k) k := by
      intro k hk
      exact h.after (hopen.mono hk) (length_of_not_overfull hfull (hopen.mono hk))
    have hf := hfollows n le_rfl
    have hsmall : n + 1 < 65536 := (Nat.succ_le_succ hn).trans_lt (by decide)
    -- at tick `n + 1` the handler ends the sampling, or is in its loop
    have hnext : ¬ (m.after table levels (n + 1)).Running ∧
        ∃ k, (m.after table levels k).gpiUtc.sampleFlag.finished = true := by
      by_cases hfound : foundId table (Line.after levels n).bits = 0
      · have hexp := hclose.resolve_right (not_not.mpr hfound)
        have hfin : (m.after table levels (n + 1)).gpiUtc.sampleFlag.finished = true :=
          (hf.read_expired hexp hfound hsmall _).1
        exact ⟨fun hr => absurd (hfin.symm.trans hr.1) (by decide), n + 1, hfin⟩
      · have hwait := hf.waitStop.trans (decide_eq_true hfound)
        obtain ⟨k, hk⟩ := exists_finished_of_waiting hf.finished hwait (hstop n hopen hfound)
        refine ⟨not_running_read (fun hr => ?_) _, k, by rw [hk]; rfl⟩
        exact absurd (hwait.symm.trans hr.2) (by decide)
    -- so every tick with the timer running is one that was followed
    have hlate : ∀ k, (m.after table levels k).Running → k ≤ n := by
      intro k hr
      by_contra hlt
      exact not_running_after hnext.1 (Nat.lt_of_not_le hlt) hr
    refine ⟨?_, hnext.2, fun k hr => (hlate k hr).trans hn⟩
    intro k hr hat
    have hk := hfollows k (hlate k hr)
    have hnone : foundId table (Line.after levels k).bits = 0 := by
      have hdec := hk.waitStop.symm.trans hr.2
      exact not_not.mp (of_decide_eq_false hdec)
    have hlt : k + 1 < 65536 := (Nat.succ_le_succ (hlate k hr)).trans_lt hsmall
    by_cases hexp : (Line.after levels k).Expired k
    · exact absurd hat (hk.beforeRecord_expired hexp hlt _).1
    · have hopen' : OpenUntil table levels (k + 1) := by
        intro j hj
        rcases Nat.lt_succ_iff_lt_or_eq.mp hj with hj | rfl
        · exact hopen j (hj.trans_le (hlate k hr))
        · exact ⟨hexp, hnone⟩
      have hlen := length_of_not_overfull hfull hopen'
      rcases (hk.beforeRecord hexp hlt (levels k)).bits with ⟨-, hholds, hbits⟩ | ⟨hno, -⟩
      · rw [Line.after, hbits, List.length_cons] at hlen
        have hidx : ((m.after table levels k).beforeRecord (levels k)).gpiUtc.bitNumCnt.toNat < 32 := by
          rw [hholds.bitNumCnt]
          exact hlen
        exact ⟨hidx, _, SoftSample.putRcvBit_of_lt _ _ hidx⟩
      · exact absurd hat hno

/-- **The sampler stays in its buffer**, from any state `soft_sample_init` is called in. -/
theorem samplesSafely_iff (table : List (BitVec 8)) (workMode : BitVec 8) (usePll : Bool)
    (m : Sampler) (levels : Nat → Bool) :
    SamplesSafely table (m.softSampleInit workMode usePll) levels ↔
      ¬ Overfull table levels ∧ StopComes table levels :=
  samplesSafely_iff_of_follows (follows_init table workMode usePll m)

/-! ### A level that changes every four ticks -/

instance (n : Nat) : (line : Line) → Decidable (line.Expired n)
  | .quiet => inferInstanceAs (Decidable (_ ≤ n))
  | .idle => inferInstanceAs (Decidable (_ ≤ n))
  | .tapping startCnt _ => inferInstanceAs (Decidable (_ < startCnt))

def squareWave (n : Nat) : Bool := n / 4 % 2 = 0

/-- 32 edges after the idle bit, none of them part of a character of the table. -/
theorem overfull_squareWave : Overfull gAtReqThirdChars squareWave := by
  refine ⟨131, ?_, by decide +kernel⟩
  unfold OpenUntil
  decide +kernel

theorem not_samplesSafely_squareWave :
    ¬ SamplesSafely gAtReqThirdChars (Sampler.fresh.softSampleInit 0 false) squareWave :=
  not_safely_of_overfull (follows_init _ _ _ _) overfull_squareWave

end XY1100.Uart
