import XY1100.Support.Sampling
import XY1100.Uart.SoftSample

/-!
# Uart — what the sampler records

Beside the handler runs a recorder without a buffer (`Line`): it waits for a high level, then for
the first low one, and from there on takes the bits of the line.

* `Follows`: the handler's variables say what the recorder knows, as long as no more than 32 bits
  were taken.
* `Follows.read`: a tick keeps that.
* `Follows.after`: so do all ticks up to a limit of the handler, a character that is found, or the
  33rd bit.
-/

namespace XY1100.Uart
open Support

/-! ### Characters in a list of bits -/

/-- The character of eight bits, the newest first. -/
def charOf (bits : List Bool) : BitVec 8 := bits.foldl BitVec.shiftConcat 0

theorem getLsbD_charOf : ∀ (bits : List Bool) (c : BitVec 8) (i : Nat), i < 8 →
    (bits.foldl BitVec.shiftConcat c).getLsbD i =
      if h : i < bits.length then bits[bits.length - 1 - i] else c.getLsbD (i - bits.length)
  | [], c, i, _ => by simp
  | b :: bits, c, i, hi => by
      rw [List.foldl_cons, getLsbD_charOf bits _ i hi]
      by_cases hlt : i < bits.length
      · rw [dif_pos hlt, dif_pos (by rw [List.length_cons]; omega)]
        simp only [List.length_cons, Nat.add_sub_cancel]
        rw [List.getElem_cons, dif_neg (by omega)]
        congr 1
        omega
      · rw [dif_neg hlt, BitVec.getLsbD_shiftConcat]
        by_cases heq : i = bits.length
        · subst heq
          simp
        · rw [dif_neg (by rw [List.length_cons]; omega), List.length_cons]
          have hpos : ¬ i - bits.length = 0 := by omega
          have hdec : decide (i - bits.length < 8) = true := decide_eq_true (by omega)
          rw [hdec, Bool.true_and, if_neg hpos]
          congr 1

/-- The code of the character that the newest ten bits spell behind an idle and a start bit: its
`special_id`, or 0. -/
def lastId (table : List (BitVec 8)) (bits : List Bool) : BitVec 8 :=
  if bits[9]? = some true ∧ bits[8]? = some false then
    searchChar (charOf (bits.take 8)) table 0 0
  else 0

/-- The code of the first character that the bits spell, the newest bit first. -/
def foundId (table : List (BitVec 8)) : List Bool → BitVec 8
  | [] => 0
  | b :: bits => if foundId table bits ≠ 0 then foundId table bits else lastId table (b :: bits)

theorem lastId_of_length_lt {table : List (BitVec 8)} {bits : List Bool} (h : bits.length < 10) :
    lastId table bits = 0 := by
  unfold lastId
  rw [if_neg]
  rintro ⟨h9, -⟩
  rw [List.getElem?_eq_none (by omega)] at h9
  cases h9

theorem foundId_cons {table : List (BitVec 8)} {b : Bool} {bits : List Bool}
    (h : foundId table bits = 0) : foundId table (b :: bits) = lastId table (b :: bits) := by
  rw [foundId, if_neg (not_not.mpr h)]

/-! ### The recorder -/

/-- What is known of the line: no high level was seen, no low level after it, or the ticks since
the first low level and the bits taken. -/
inductive Line
  | quiet
  | idle
  | tapping (startCnt : Nat) (tap : Tap)
  deriving Repr, DecidableEq

namespace Line

/-- Before the first low level: the idle bit is taken. -/
def idleTap : Tap := ⟨true, 0, [true]⟩

def read : Line → Bool → Line
  | .quiet, b => if b then .idle else .quiet
  | .idle, b => if b then .idle else .tapping 1 (idleTap.step oneBitSampleNum false)
  | .tapping startCnt tap, b => .tapping (startCnt + 1) (tap.step oneBitSampleNum b)

/-- The bits taken, the newest first. -/
def bits : Line → List Bool
  | .quiet => []
  | .idle => [true]
  | .tapping _ tap => tap.bits

/-- The line after `n` ticks. -/
def after (levels : Nat → Bool) : Nat → Line
  | 0 => .quiet
  | n + 1 => (after levels n).read (levels n)

/-- The handler ends the sampling at tick `n + 1`. -/
def Expired (n : Nat) : Line → Prop
  | .tapping startCnt _ => maxSampleNum < startCnt
  | _ => cspDataBits * oneBitSampleNum ≤ n

/-- At a tick at most one bit is taken, and it is the level read. -/
theorem bits_read (line : Line) (b : Bool) :
    (line.read b).bits = line.bits ∨ (line.read b).bits = b :: line.bits := by
  cases line with
  | quiet => cases b <;> simp [read, bits]
  | idle => cases b <;> simp [read, bits, idleTap, Tap.step, Tap.nextHeld, oneBitSampleNum]
  | tapping startCnt tap =>
    simp only [read, bits, Tap.step]
    split
    · exact .inr rfl
    · exact .inl rfl

end Line

/-! ### The handler follows the recorder -/

/-- The variables that count the ticks of a line. -/
def Counts (g : SoftSample) : Line → Prop
  | .quiet => g.sampleFlag.start = false ∧ g.startCnt = 0 ∧ g.dataCnt = 0 ∧
      g.sampleFlag.lastLevel = true
  | .idle => g.sampleFlag.start = true ∧ g.startCnt = 0 ∧ g.dataCnt = 0 ∧
      g.sampleFlag.lastLevel = true
  | .tapping startCnt tap => g.sampleFlag.start = true ∧ g.startCnt.toNat = startCnt ∧
      0 < startCnt ∧ g.dataCnt.toNat = tap.held % 256 ∧ g.sampleFlag.lastLevel = tap.level

/-- `rcv_dat` and `bit_num_cnt` hold the bits. -/
structure Holds (g : SoftSample) (bits : List Bool) : Prop where
  bitNumCnt : g.bitNumCnt.toNat = bits.length
  length_le : bits.length ≤ 32
  rcvDat : ∀ i (hi : i < bits.length), g.rcvDat.getLsbD (bits.length - 1 - i) = bits[i]

/-- After `n` ticks the sampler knows what the recorder does. -/
structure Follows (table : List (BitVec 8)) (m : Sampler) (line : Line) (n : Nat) : Prop where
  finished : m.gpiUtc.sampleFlag.finished = false
  sampleCnt : m.gpiUtc.sampleCnt.toNat = n
  counts : Counts m.gpiUtc line
  holds : Holds m.gpiUtc line.bits
  specialId : m.gpiUtc.specialId = foundId table line.bits
  waitStop : m.waitStop = decide (foundId table line.bits ≠ 0)

/-! ### Bits in the buffer -/


namespace Holds

variable {g : SoftSample} {bits : List Bool}

theorem rcvBit (h : Holds g bits) {i : Nat} (hi : i < bits.length) :
    g.rcvBit (bits.length - 1 - i) = bits[i] := by
  rw [SoftSample.rcvBit_of_lt g (by have := h.length_le; omega), h.rcvDat i hi]

/-- One more bit, as long as there is room for it. -/
theorem put (h : Holds g bits) (b : Bool) (hroom : bits.length < 32) {g' : SoftSample}
    (hnum : g'.bitNumCnt = g.bitNumCnt + 1) (hdat : g'.rcvDat = putBit g.rcvDat bits.length b) :
    Holds g' (b :: bits) where
  bitNumCnt := by
    rw [hnum, BitVec.toNat_add, h.bitNumCnt, List.length_cons]
    exact Nat.mod_eq_of_lt (show bits.length + 1 < 256 by omega)
  length_le := hroom
  rcvDat i hi := by
    rw [hdat, getLsbD_putBit _ _ hroom, List.length_cons, Nat.add_sub_cancel]
    cases i with
    | zero => simp
    | succ i =>
      have hlt : i < bits.length := Nat.lt_of_succ_lt_succ hi
      rw [if_neg (by omega), List.getElem_cons_succ, ← h.rcvDat i hlt]
      congr 1
      omega

/-- The eight newest bits, as `matchChar` takes them from the buffer. -/
theorem special_eq (h : Holds g bits) (hlen : 8 ≤ bits.length) :
    (g.rcvDat >>> (bits.length - 8)).setWidth 8 = charOf (bits.take 8) := by
  apply BitVec.eq_of_getLsbD_eq
  intro i hi
  have htake : (bits.take 8).length = 8 := by rw [List.length_take]; omega
  rw [BitVec.getLsbD_setWidth, BitVec.getLsbD_ushiftRight, decide_eq_true hi, Bool.true_and,
    charOf, getLsbD_charOf _ _ _ hi, dif_pos (by omega), List.getElem_take]
  rw [← h.rcvDat _ (by omega)]
  congr 1
  omega

end Holds

/-! ### A tick -/

theorem matchChar_eq {table : List (BitVec 8)} {m : Sampler} {bits : List Bool}
    (h : Holds m.gpiUtc bits) (hlen : 10 ≤ bits.length) (hid : m.gpiUtc.specialId = 0) :
    m.matchChar table =
      { m with gpiUtc := { m.gpiUtc with specialId := lastId table bits } } := by
  have hidle : m.gpiUtc.rcvBit (bits.length - 10) = bits[9] := h.rcvBit (i := 9) (by omega)
  have hstart : m.gpiUtc.rcvBit (bits.length - 9) = bits[8] := h.rcvBit (i := 8) (by omega)
  unfold Sampler.matchChar lastId
  dsimp only
  rw [h.bitNumCnt, hidle, hstart, h.special_eq (by omega), hid,
    List.getElem?_eq_getElem (by omega), List.getElem?_eq_getElem (by omega)]
  simp only [Option.some.injEq]
  split
  · rfl
  · rw [← hid]

/-- A sample point, with room for the bit. -/
theorem record_eq {table : List (BitVec 8)} {m : Sampler} {bits : List Bool} {b : Bool}
    (h : Holds m.gpiUtc bits) (hroom : bits.length < 32) (hid : m.gpiUtc.specialId = 0)
    (hwait : m.waitStop = false) (hfound : foundId table bits = 0) :
    ∃ sysDiv, m.record table b =
      { gpiUtc := { m.gpiUtc with
          rcvDat := putBit m.gpiUtc.rcvDat bits.length b
          bitNumCnt := m.gpiUtc.bitNumCnt + 1
          specialId := foundId table (b :: bits) }
        sysDiv := sysDiv
        cspMode1 := m.cspMode1
        waitStop := decide (foundId table (b :: bits) ≠ 0) } := by
  have hw : m.writeBit b = { m with gpiUtc := { m.gpiUtc with
      rcvDat := putBit m.gpiUtc.rcvDat bits.length b
      bitNumCnt := m.gpiUtc.bitNumCnt + 1 } } := by
    unfold Sampler.writeBit
    rw [h.bitNumCnt, SoftSample.putRcvBit_of_lt _ _ hroom]
  have hput : Holds (m.writeBit b).gpiUtc (b :: bits) := by
    rw [hw]
    exact h.put b hroom rfl rfl
  have hid' : (m.writeBit b).gpiUtc.specialId = 0 := by rw [hw]; exact hid
  rw [foundId_cons hfound]
  unfold Sampler.record
  dsimp only
  rw [hput.bitNumCnt]
  by_cases hlen : 10 ≤ (b :: bits).length
  · rw [if_pos hlen, matchChar_eq hput hlen hid', hw]
    by_cases hnone : lastId table (b :: bits) = 0
    · rw [if_neg (not_not.mpr hnone), decide_eq_false (not_not.mpr hnone), ← hwait]
      exact ⟨m.sysDiv, rfl⟩
    · rw [if_pos hnone, decide_eq_true hnone]
      exact ⟨m.gpiUtc.backupSysDiv, rfl⟩
  · have hnone : lastId table (b :: bits) = 0 := lastId_of_length_lt (by omega)
    rw [if_neg hlen, hw, decide_eq_false (not_not.mpr hnone), hnone, ← hwait, ← hid]
    exact ⟨m.sysDiv, rfl⟩

/-- Before the test for a sample point. -/
structure Prepared (m' m : Sampler) (line : Line) (b : Bool) (n : Nat) : Prop where
  finished : m'.gpiUtc.sampleFlag.finished = false
  sampleCnt : m'.gpiUtc.sampleCnt.toNat = n + 1
  counts : Counts m'.gpiUtc (line.read b)
  specialId : m'.gpiUtc.specialId = m.gpiUtc.specialId
  waitStop : m'.waitStop = m.waitStop
  bits : (m'.AtSamplePoint ∧ Holds m'.gpiUtc line.bits ∧ (line.read b).bits = b :: line.bits) ∨
    (¬ m'.AtSamplePoint ∧ Holds m'.gpiUtc (line.read b).bits ∧
      ((line.read b).bits = line.bits ∨ (line.read b).bits = [true]))

variable {table : List (BitVec 8)} {m : Sampler} {line : Line} {n : Nat}

theorem limitIdle_startCnt (g : SoftSample) : g.limitIdle.startCnt = g.startCnt := by
  unfold SoftSample.limitIdle
  split <;> rfl

theorem limitIdle_specialId (g : SoftSample) : g.limitIdle.specialId = g.specialId := by
  unfold SoftSample.limitIdle
  split <;> rfl

theorem limitData_specialId (g : SoftSample) : g.limitData.specialId = g.specialId := by
  unfold SoftSample.limitData
  split <;> rfl

theorem limitData_finished {g : SoftSample} (h : g.sampleFlag.finished = true) :
    g.limitData.sampleFlag.finished = true := by
  unfold SoftSample.limitData
  split
  · rfl
  · exact h

/-- What the limits look at. -/
theorem Follows.limits (h : Follows table m line n) (hn : n + 1 < 65536) :
    (m.gpiUtc.sampleCnt + 1).toNat = n + 1 ∧ (line.Expired n ↔
      (n + 1 > cspDataBits * oneBitSampleNum ∧ m.gpiUtc.startCnt = 0) ∨
        m.gpiUtc.startCnt.toNat > maxSampleNum) := by
  constructor
  · rw [BitVec.toNat_add, h.sampleCnt]
    exact Nat.mod_eq_of_lt hn
  · have hc := h.counts
    cases line with
    | quiet | idle =>
      rw [hc.2.1]
      exact ⟨fun hexp => .inl ⟨Nat.lt_succ_of_le hexp, rfl⟩, fun hlim =>
        hlim.elim (fun hidle => Nat.le_of_lt_succ hidle.1) (fun hdata => absurd hdata (by decide))⟩
    | tapping startCnt tap =>
      obtain ⟨-, hcnt, hpos, -⟩ := hc
      have hne : m.gpiUtc.startCnt ≠ 0 := by
        intro hzero
        rw [hzero] at hcnt
        exact absurd hcnt.symm hpos.ne'
      rw [hcnt]
      exact ⟨.inr, fun hlim => hlim.elim (fun hidle => absurd hidle.2 hne) id⟩

/-- A tick within the limits. -/
theorem Follows.countTick (h : Follows table m line n) (hopen : ¬ line.Expired n)
    (hn : n + 1 < 65536) : m.countTick =
      { m with gpiUtc := { m.gpiUtc with sampleCnt := m.gpiUtc.sampleCnt + 1 } } := by
  obtain ⟨hcnt, hlim⟩ := h.limits hn
  rw [hlim, not_or] at hopen
  unfold Sampler.countTick SoftSample.limitIdle
  dsimp only
  rw [hcnt, if_neg hopen.1, SoftSample.limitData, if_neg hopen.2]

/-- Past a limit the sampling ends. -/
theorem Follows.finished_of_expired (h : Follows table m line n) (hexp : line.Expired n)
    (hn : n + 1 < 65536) : m.countTick.gpiUtc.sampleFlag.finished = true := by
  obtain ⟨hcnt, hlim⟩ := h.limits hn
  unfold Sampler.countTick
  dsimp only
  rcases hlim.mp hexp with hidle | hdata
  · refine limitData_finished ?_
    rw [SoftSample.limitIdle, if_pos (by rw [hcnt]; exact hidle)]
    rfl
  · rw [SoftSample.limitData, limitIdle_startCnt, if_pos hdata]
    rfl

theorem awaitIdle_low (m : Sampler) : m.awaitIdle false = m := by
  unfold Sampler.awaitIdle
  exact if_neg (fun h => absurd h.1 (by decide))

theorem awaitIdle_started (h : m.gpiUtc.sampleFlag.start = true) (b : Bool) : m.awaitIdle b = m := by
  unfold Sampler.awaitIdle
  exact if_neg (fun hs => absurd (h.symm.trans hs.2) (by decide))

theorem awaitIdle_first (h : m.gpiUtc.sampleFlag.start = false) :
    m.awaitIdle true = { m with gpiUtc := { m.gpiUtc with
      sampleFlag := { m.gpiUtc.sampleFlag with start := true }
      rcvDat := 1
      bitNumCnt := 1 } } := by
  unfold Sampler.awaitIdle
  exact if_pos ⟨rfl, h⟩

/-- Before the first low level nothing is counted. -/
theorem followLevel_idle (h : m.gpiUtc.startCnt = 0) : m.followLevel true = m := by
  unfold Sampler.followLevel
  exact if_neg (fun hs => hs.elim (fun hne => hne h) (by decide))

theorem followLevel_eq {b : Bool} (h : m.gpiUtc.startCnt ≠ 0 ∨ b = false) :
    m.followLevel b = { m with gpiUtc := { m.gpiUtc with
      startCnt := m.gpiUtc.startCnt + 1
      dataCnt := (if b ≠ m.gpiUtc.sampleFlag.lastLevel then 0 else m.gpiUtc.dataCnt) + 1
      sampleFlag := { m.gpiUtc.sampleFlag with lastLevel := b } } } := by
  unfold Sampler.followLevel
  exact if_pos h

/-- `data_cnt` counts the ticks since the last edge. -/
theorem dataCnt_nextHeld {tap : Tap} {dataCnt : BitVec 8} (h : dataCnt.toNat = tap.held % 256)
    (b : Bool) :
    ((if b ≠ tap.level then 0 else dataCnt) + 1).toNat = tap.nextHeld b % 256 := by
  unfold Tap.nextHeld
  by_cases hb : b = tap.level
  · rw [if_neg (not_not.mpr hb), if_pos hb, BitVec.toNat_add, h]
    exact (Nat.mod_add_mod _ _ _)
  · rw [if_pos hb, if_neg hb]
    rfl

/-- A tick that was counted, up to the test for a sample point. -/
theorem prepared_of_counted (hfin : m.gpiUtc.sampleFlag.finished = false)
    (hcnt : m.gpiUtc.sampleCnt.toNat = n + 1) (hc : Counts m.gpiUtc line)
    (hh : Holds m.gpiUtc line.bits) (hopen : ¬ line.Expired n) (b : Bool) :
    Prepared (if (m.awaitIdle b).gpiUtc.sampleFlag.start then (m.awaitIdle b).followLevel b
      else m.awaitIdle b) m line b n := by
  cases line with
  | quiet =>
    obtain ⟨hstart, hsc, hdc, hlast⟩ := hc
    cases b with
    | false =>
      rw [awaitIdle_low, if_neg (by rw [hstart]; decide)]
      exact ⟨hfin, hcnt, ⟨hstart, hsc, hdc, hlast⟩, rfl, rfl,
        .inr ⟨fun hat => absurd (hstart.symm.trans hat.2.1) (by decide), hh, .inl rfl⟩⟩
    | true =>
      rw [awaitIdle_first hstart, if_pos rfl, followLevel_idle (by exact hsc)]
      refine ⟨hfin, hcnt, ⟨rfl, hsc, hdc, hlast⟩, rfl, rfl,
        .inr ⟨fun hat => ?_, ⟨rfl, by decide, ?_⟩, .inr rfl⟩⟩
      · have hpoint : m.gpiUtc.dataCnt.toNat % oneBitSampleNum = oneBitSampleNum / 2 := hat.2.2
        rw [hdc] at hpoint
        exact absurd hpoint (by decide)
      · intro i hi
        have hzero : i = 0 := Nat.lt_one_iff.mp hi
        subst hzero
        exact (by decide : (1 : BitVec 32).getLsbD 0 = true)
  | idle =>
    obtain ⟨hstart, hsc, hdc, hlast⟩ := hc
    rw [awaitIdle_started hstart, if_pos hstart]
    cases b with
    | true =>
      rw [followLevel_idle hsc]
      refine ⟨hfin, hcnt, ⟨hstart, hsc, hdc, hlast⟩, rfl, rfl,
        .inr ⟨fun hat => ?_, hh, .inl rfl⟩⟩
      have hpoint : m.gpiUtc.dataCnt.toNat % oneBitSampleNum = oneBitSampleNum / 2 := hat.2.2
      rw [hdc] at hpoint
      exact absurd hpoint (by decide)
    | false =>
      rw [followLevel_eq (.inr rfl), hlast, if_pos (by decide), hsc]
      refine ⟨hfin, hcnt, ⟨hstart, rfl, by decide, rfl, rfl⟩, rfl, rfl,
        .inr ⟨fun hat => ?_, ⟨hh.1, hh.2, hh.3⟩, .inr rfl⟩⟩
      have hpoint : (0 + 1 : BitVec 8).toNat % oneBitSampleNum = oneBitSampleNum / 2 := hat.2.2
      exact absurd hpoint (by decide)
  | tapping startCnt tap =>
    obtain ⟨hstart, hsc, hpos, hdc, hlast⟩ := hc
    have hne : m.gpiUtc.startCnt ≠ 0 := by
      intro hzero
      rw [hzero] at hsc
      exact absurd hsc.symm hpos.ne'
    have hnext : (m.gpiUtc.startCnt + 1).toNat = startCnt + 1 := by
      have hle : startCnt ≤ maxSampleNum := Nat.le_of_not_lt hopen
      rw [BitVec.toNat_add, hsc]
      exact Nat.mod_eq_of_lt (Nat.lt_of_le_of_lt (Nat.succ_le_succ hle) (by decide))
    have hdata := dataCnt_nextHeld hdc b
    rw [← hlast] at hdata
    rw [awaitIdle_started hstart, if_pos hstart, followLevel_eq (.inl hne)]
    refine ⟨hfin, hcnt, ⟨hstart, hnext, Nat.succ_pos _, hdata, rfl⟩, rfl, rfl, ?_⟩
    have hpoint : tap.nextHeld b % 256 % oneBitSampleNum = tap.nextHeld b % oneBitSampleNum :=
      Nat.mod_mod_of_dvd _ (by decide)
    by_cases hmid : tap.nextHeld b % oneBitSampleNum = oneBitSampleNum / 2
    · refine .inl ⟨⟨hfin, hstart, ?_⟩, ⟨hh.1, hh.2, hh.3⟩, if_pos hmid⟩
      exact (congrArg (· % oneBitSampleNum) hdata).trans (hpoint.trans hmid)
    · have hbits : (Line.tapping startCnt tap |>.read b).bits = tap.bits := if_neg hmid
      refine .inr ⟨fun hat => hmid ?_, by rw [hbits]; exact ⟨hh.1, hh.2, hh.3⟩, .inl hbits⟩
      exact (hpoint.symm.trans (congrArg (· % oneBitSampleNum) hdata).symm).trans hat.2.2

/-- A tick within the limits, up to the test for a sample point. -/
theorem Follows.beforeRecord (h : Follows table m line n) (hopen : ¬ line.Expired n)
    (hn : n + 1 < 65536) (b : Bool) : Prepared (m.beforeRecord b) m line b n := by
  have hcnt := (h.limits hn).1
  have hc := h.counts
  have hh := h.holds
  unfold Sampler.beforeRecord
  rw [h.countTick hopen hn]
  dsimp only
  rw [if_neg (by rw [h.finished]; decide)]
  have hp := prepared_of_counted (m := { m with gpiUtc := { m.gpiUtc with
    sampleCnt := m.gpiUtc.sampleCnt + 1 } }) h.finished hcnt
    (show Counts _ line by revert hc; cases line <;> exact id) ⟨hh.1, hh.2, hh.3⟩ hopen b
  exact ⟨hp.finished, hp.sampleCnt, hp.counts, hp.specialId, hp.waitStop, hp.bits⟩

/-- Past a limit the handler ends the sampling and gets to no sample point. -/
theorem Follows.beforeRecord_expired (h : Follows table m line n) (hexp : line.Expired n)
    (hn : n + 1 < 65536) (b : Bool) : ¬ (m.beforeRecord b).AtSamplePoint ∧
      (m.beforeRecord b).gpiUtc.sampleFlag.finished = true ∧ m.beforeRecord b = m.countTick := by
  have hfin := h.finished_of_expired hexp hn
  have heq : m.beforeRecord b = m.countTick := by
    unfold Sampler.beforeRecord
    exact if_pos hfin
  rw [heq]
  exact ⟨fun hat => absurd (hfin.symm.trans hat.1) (by decide), hfin, rfl⟩

theorem countTick_specialId (m : Sampler) :
    m.countTick.gpiUtc.specialId = m.gpiUtc.specialId :=
  (limitData_specialId _).trans (limitIdle_specialId _)

theorem Follows.read_expired (h : Follows table m line n) (hexp : line.Expired n)
    (hnone : foundId table line.bits = 0) (hn : n + 1 < 65536) (b : Bool) :
    (m.read table b).gpiUtc.sampleFlag.finished = true ∧
      (m.read table b).gpiUtc.specialId = 0 := by
  obtain ⟨hat, hfin, heq⟩ := h.beforeRecord_expired hexp hn b
  have hwait : m.waitStop = false := by rw [h.waitStop, decide_eq_false (not_not.mpr hnone)]
  unfold Sampler.read Sampler.softSampleTimerHandler
  rw [if_neg (by rw [h.finished]; decide), if_neg (by rw [hwait]; decide)]
  dsimp only
  rw [if_neg hat]
  exact ⟨hfin, by rw [heq, countTick_specialId, h.specialId, hnone]⟩

/-- **A tick.** -/
theorem Follows.read (h : Follows table m line n) (hopen : ¬ line.Expired n)
    (hnone : foundId table line.bits = 0) (hn : n + 1 < 65536) {b : Bool}
    (hroom : (line.read b).bits.length ≤ 32) : Follows table (m.read table b) (line.read b) (n + 1) := by
  have hp := h.beforeRecord hopen hn b
  have hwait : m.waitStop = false := by rw [h.waitStop, decide_eq_false (not_not.mpr hnone)]
  have hid : m.gpiUtc.specialId = 0 := by rw [h.specialId, hnone]
  unfold Sampler.read Sampler.softSampleTimerHandler
  rw [if_neg (by rw [h.finished]; decide), if_neg (by rw [hwait]; decide)]
  dsimp only
  rcases hp.bits with ⟨hat, hholds, hbits⟩ | ⟨hat, hholds, hbits⟩
  · rw [if_pos hat]
    -- the recorder still has room for this bit
    have hlt : line.bits.length < 32 := by rw [hbits, List.length_cons] at hroom; omega
    obtain ⟨sysDiv, hrec⟩ := record_eq (b := b) hholds hlt (hp.specialId.trans hid)
      (hp.waitStop.trans hwait) hnone
    rw [hrec]
    have hc := hp.counts
    refine ⟨hp.finished, hp.sampleCnt, ?_, ?_, ?_, ?_⟩
    · revert hc
      cases line.read b <;> exact id
    · rw [hbits]
      exact hholds.put b hlt rfl rfl
    · rw [hbits]
    · rw [hbits]
  · rw [if_neg hat]
    have hsame : foundId table (line.read b).bits = 0 := by
      rcases hbits with hbits | hbits
      · rw [hbits, hnone]
      · rw [hbits, foundId_cons rfl, lastId_of_length_lt (by decide)]
    refine ⟨hp.finished, hp.sampleCnt, hp.counts, hholds, ?_, ?_⟩
    · rw [hp.specialId, hid, hsame]
    · rw [hp.waitStop, hwait, hsame]
      rfl

/-! ### A run of ticks -/

/-- No limit was reached, and no character found, before tick `n + 1`. -/
def OpenUntil (table : List (BitVec 8)) (levels : Nat → Bool) (n : Nat) : Prop :=
  ∀ k < n, ¬ (Line.after levels k).Expired k ∧ foundId table (Line.after levels k).bits = 0

variable {levels : Nat → Bool}

theorem OpenUntil.mono (h : OpenUntil table levels n) {k : Nat} (hk : k ≤ n) :
    OpenUntil table levels k :=
  fun j hj => h j (hj.trans_le hk)

namespace Line

/-- Once a low level was seen every tick counts. -/
theorem after_tapping {n startCnt : Nat} {tap : Tap} (h : after levels n = .tapping startCnt tap)
    (j : Nat) : ∃ tap', after levels (n + j) = .tapping (startCnt + j) tap' := by
  induction j with
  | zero => exact ⟨tap, h⟩
  | succ j ih =>
    obtain ⟨tap', htap⟩ := ih
    exact ⟨_, by rw [← Nat.add_assoc, after, htap]; rfl⟩

theorem startCnt_pos : ∀ {n startCnt : Nat} {tap : Tap},
    after levels n = .tapping startCnt tap → 0 < startCnt
  | 0, _, _, h => by cases h
  | n + 1, startCnt, tap, h => by
      rw [after] at h
      rcases hline : after levels n with _ | _ | ⟨c, t⟩ <;> rw [hline] at h
      · cases hb : levels n <;> rw [hb] at h <;> cases h
      · cases hb : levels n <;> rw [hb] at h <;> cases h
        exact Nat.one_pos
      · cases h
        exact Nat.succ_pos c

/-- The limits end the sampling at tick 321 at the latest. -/
theorem exists_expired (levels : Nat → Bool) :
    ∃ n ≤ cspDataBits * oneBitSampleNum + maxSampleNum, (after levels n).Expired n := by
  by_cases hexp : (after levels (cspDataBits * oneBitSampleNum)).Expired
      (cspDataBits * oneBitSampleNum)
  · exact ⟨_, Nat.le_add_right _ _, hexp⟩
  · rcases hline : after levels (cspDataBits * oneBitSampleNum) with _ | _ | ⟨c, t⟩
    · rw [hline] at hexp
      exact absurd le_rfl hexp
    · rw [hline] at hexp
      exact absurd le_rfl hexp
    · obtain ⟨tap', htap⟩ := after_tapping hline maxSampleNum
      have hpos := startCnt_pos hline
      exact ⟨_, le_rfl, by rw [htap]; exact Nat.lt_add_of_pos_left hpos⟩

theorem length_bits_succ (levels : Nat → Bool) (n : Nat) :
    (after levels n).bits.length ≤ (after levels (n + 1)).bits.length ∧
      (after levels (n + 1)).bits.length ≤ (after levels n).bits.length + 1 := by
  rcases bits_read (after levels n) (levels n) with h | h <;> rw [after, h]
  · exact ⟨le_rfl, Nat.le_succ _⟩
  · exact ⟨Nat.le_succ _, le_rfl⟩

end Line

theorem OpenUntil.le (h : OpenUntil table levels n) :
    n ≤ cspDataBits * oneBitSampleNum + maxSampleNum := by
  obtain ⟨k, hk, hexp⟩ := Line.exists_expired levels
  by_contra hlt
  exact (h k (hk.trans_lt (Nat.lt_of_not_le hlt))).1 hexp

/-- The first tick that finds a limit reached or a character found. -/
theorem exists_closing (table : List (BitVec 8)) (levels : Nat → Bool) :
    ∃ n ≤ cspDataBits * oneBitSampleNum + maxSampleNum, OpenUntil table levels n ∧
      ((Line.after levels n).Expired n ∨ foundId table (Line.after levels n).bits ≠ 0) := by
  classical
  obtain ⟨n, hn, hexp⟩ := Line.exists_expired levels
  have hex : ∃ k, (Line.after levels k).Expired k ∨ foundId table (Line.after levels k).bits ≠ 0 :=
    ⟨n, .inl hexp⟩
  refine ⟨Nat.find hex, (Nat.find_min' hex (.inl hexp)).trans hn, ?_, Nat.find_spec hex⟩
  intro k hk
  have hmin := Nat.find_min hex hk
  rw [not_or, not_not] at hmin
  exact hmin

/-- **A run of ticks.** -/
theorem Follows.after (h : Follows table m .quiet 0) {n : Nat}
    (hopen : OpenUntil table levels n) (hroom : (Line.after levels n).bits.length ≤ 32) :
    Follows table (m.after table levels n) (Line.after levels n) n := by
  induction n with
  | zero => exact h
  | succ n ih =>
    obtain ⟨hexp, hnone⟩ := hopen n (Nat.lt_succ_self n)
    have hf := ih (hopen.mono (Nat.le_succ n)) ((Line.length_bits_succ levels n).1.trans hroom)
    exact hf.read hexp hnone (hopen.le.trans_lt (by decide)) hroom

/-- `soft_sample_init` leaves nothing recorded. -/
theorem follows_init (table : List (BitVec 8)) (workMode : BitVec 8) (usePll : Bool) (m : Sampler) :
    Follows table (m.softSampleInit workMode usePll) .quiet 0 where
  finished := rfl
  sampleCnt := rfl
  counts := ⟨rfl, rfl, rfl, rfl⟩
  holds := ⟨rfl, by decide, fun i hi => absurd hi (Nat.not_lt_zero i)⟩
  specialId := rfl
  waitStop := rfl

/-! ### After the sampling -/

/-- The timer runs, and the handler is not in its loop. -/
def Sampler.Running (m : Sampler) : Prop :=
  m.gpiUtc.sampleFlag.finished = false ∧ m.waitStop = false

theorem read_finished (h : m.gpiUtc.sampleFlag.finished = true) (b : Bool) : m.read table b = m := by
  unfold Sampler.read
  exact if_pos h

theorem read_waiting (h : m.gpiUtc.sampleFlag.finished = false) (hw : m.waitStop = true) (b : Bool) :
    m.read table b = if b then m.enableCsp else m := by
  unfold Sampler.read
  rw [if_neg (by rw [h]; decide), if_pos hw]

/-- The handler is not called again. -/
theorem not_running_read (h : ¬ m.Running) (b : Bool) : ¬ (m.read table b).Running := by
  by_cases hfin : m.gpiUtc.sampleFlag.finished = true
  · rwa [read_finished hfin]
  · rw [Bool.not_eq_true] at hfin
    have hw : m.waitStop = true := by
      by_contra hne
      exact h ⟨hfin, Bool.not_eq_true _ ▸ hne⟩
    -- in the loop for the stop bit a high level ends the sampling
    rw [read_waiting hfin hw]
    cases b with
    | true => exact fun hr => absurd (show true = false from hr.1) (by decide)
    | false => exact h

theorem not_running_after {k : Nat} (h : ¬ (m.after table levels k).Running) {n : Nat}
    (hn : k ≤ n) : ¬ (m.after table levels n).Running := by
  induction n, hn using Nat.le_induction with
  | base => exact h
  | succ n _ ih => exact not_running_read ih _

theorem after_finished {k : Nat}
    (h : (m.after table levels k).gpiUtc.sampleFlag.finished = true) {n : Nat} (hn : k ≤ n) :
    m.after table levels n = m.after table levels k := by
  induction n, hn using Nat.le_induction with
  | base => rfl
  | succ n _ ih => rw [Sampler.after, ih, read_finished h]

/-- The loop for the stop bit, while the line is low. -/
theorem after_waiting {k : Nat} (h : (m.after table levels k).gpiUtc.sampleFlag.finished = false)
    (hw : (m.after table levels k).waitStop = true) {n : Nat} (hn : k ≤ n)
    (hlow : ∀ j, k ≤ j → j < n → levels j = false) :
    m.after table levels n = m.after table levels k := by
  induction n, hn using Nat.le_induction with
  | base => rfl
  | succ n hn ih =>
    rw [Sampler.after, ih (fun j hj hjn => hlow j hj (hjn.trans (Nat.lt_succ_self n))),
      read_waiting h hw, hlow n hn (Nat.lt_succ_self n)]
    rfl

/-- Where a character was found and the line goes high, the sampling ends. -/
theorem exists_finished_of_waiting {k : Nat}
    (h : (m.after table levels k).gpiUtc.sampleFlag.finished = false)
    (hw : (m.after table levels k).waitStop = true) (hhigh : ∃ j, k ≤ j ∧ levels j = true) :
    ∃ n, m.after table levels n = (m.after table levels k).enableCsp := by
  classical
  refine ⟨Nat.find hhigh + 1, ?_⟩
  obtain ⟨hk, hlev⟩ := Nat.find_spec hhigh
  -- up to the first high level the loop stays where it is
  have hlow : ∀ j, k ≤ j → j < Nat.find hhigh → levels j = false := by
    intro j hj hlt
    have hmin := Nat.find_min hhigh hlt
    rw [not_and] at hmin
    exact Bool.not_eq_true _ ▸ hmin hj
  rw [Sampler.after, after_waiting h hw hk hlow, read_waiting h hw, hlev]
  rfl

end XY1100.Uart
