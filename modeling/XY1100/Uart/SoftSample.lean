import Mathlib.Tactic

/-!
# Uart — sampling the line after a standby

`dirty_data_processing.c`: after a wake-up from standby the UART is not yet running, and a timer
reads the RXD pin eight times a bit.  The handler records bits in `rcv_dat` through the bit-band
alias and looks for one of the characters that follow `AT`.

A bit-band write addresses any bit from `rcv_dat` on: from bit 32 on it is a bit of the fields
behind.  `putRcvBit` and `rcvBit` say which.
-/

namespace XY1100.Uart

def oneBitSampleNum : Nat := 8
def cspDataBits : Nat := 10
def maxSampleNum : Nat := 3 * cspDataBits * oneBitSampleNum

def sampleSuccess : BitVec 8 := 1
def sampleFailAllIdle : BitVec 8 := 2
def sampleFailWithData : BitVec 8 := 3
def wakeupFromUtc : BitVec 8 := 2
def cspMode1CspEn : BitVec 32 := 0x20

/-- The bits of `sample_flag`. -/
structure SampleFlag where
  start : Bool := false
  finished : Bool := false
  lastLevel : Bool := false
  usePll : Bool := false
  giveSem : Bool := false
  wakeup : Bool := false
  gpiFail : Bool := false
  utcSuc : Bool := false
  firstEnter : Bool := false
  deriving Repr, DecidableEq

/-- `soft_sample_t`.  `debugCnt` is `enter_cnt[4]` followed by `success_cnt[4]`. -/
structure SoftSample where
  specialId : BitVec 8 := 0
  bitNumCnt : BitVec 8 := 0
  sampleFlag : SampleFlag := {}
  wakeupRea : BitVec 8 := 0
  failRea : Bool → BitVec 8 := fun _ => 0
  rcvDat : BitVec 32 := 0
  sampleCnt : BitVec 16 := 0
  startCnt : BitVec 16 := 0
  dataCnt : BitVec 8 := 0
  backupSpecialId : BitVec 8 := 0
  backupSysDiv : BitVec 8 := 0
  reserved : BitVec 8 := 0
  backupCspMode : BitVec 32 := 0
  debugCnt : Nat → BitVec 16 := fun _ => 0

/-- `gpi_utc` and the two registers the sampler switches.  `waitStop`: the handler is in its loop
for the stop bit. -/
structure Sampler where
  gpiUtc : SoftSample
  sysDiv : BitVec 8
  cspMode1 : BitVec 32
  waitStop : Bool := false

/-! ### Bits -/

def putBit {n : Nat} (v : BitVec n) (i : Nat) (b : Bool) : BitVec n :=
  if b then v ||| BitVec.twoPow n i else v &&& ~~~ BitVec.twoPow n i

theorem getLsbD_putBit {n : Nat} (v : BitVec n) {i : Nat} (b : Bool) (hi : i < n) (j : Nat) :
    (putBit v i b).getLsbD j = if j = i then b else v.getLsbD j := by
  by_cases hj : j = i
  · subst hj
    cases b <;> simp [putBit, hi]
  · cases b with
    | true => simp [putBit, hj, Ne.symm hj]
    | false =>
      simp only [putBit, Bool.false_eq_true, if_false, if_neg hj, BitVec.getLsbD_and,
        BitVec.getLsbD_not, BitVec.getLsbD_twoPow]
      by_cases hn : j < n
      · simp [hn, Ne.symm hj]
      · simp [hn, BitVec.getLsbD_of_ge v j (by omega)]

namespace SoftSample

/-- `MEM_BIT_ADDR(&gpi_utc.rcv_dat, k) = b`. -/
def putRcvBit (g : SoftSample) (k : Nat) (b : Bool) : SoftSample :=
  if k < 32 then { g with rcvDat := putBit g.rcvDat k b }
  else if k < 48 then { g with sampleCnt := putBit g.sampleCnt (k - 32) b }
  else if k < 64 then { g with startCnt := putBit g.startCnt (k - 48) b }
  else if k < 72 then { g with dataCnt := putBit g.dataCnt (k - 64) b }
  else if k < 80 then { g with backupSpecialId := putBit g.backupSpecialId (k - 72) b }
  else if k < 88 then { g with backupSysDiv := putBit g.backupSysDiv (k - 80) b }
  else if k < 96 then { g with reserved := putBit g.reserved (k - 88) b }
  else if k < 128 then { g with backupCspMode := putBit g.backupCspMode (k - 96) b }
  else
    let i := (k - 128) / 16
    { g with debugCnt := Function.update g.debugCnt i (putBit (g.debugCnt i) ((k - 128) % 16) b) }

/-- `MEM_BIT_ADDR(&gpi_utc.rcv_dat, k)`. -/
def rcvBit (g : SoftSample) (k : Nat) : Bool :=
  if k < 32 then g.rcvDat.getLsbD k
  else if k < 48 then g.sampleCnt.getLsbD (k - 32)
  else if k < 64 then g.startCnt.getLsbD (k - 48)
  else if k < 72 then g.dataCnt.getLsbD (k - 64)
  else if k < 80 then g.backupSpecialId.getLsbD (k - 72)
  else if k < 88 then g.backupSysDiv.getLsbD (k - 80)
  else if k < 96 then g.reserved.getLsbD (k - 88)
  else if k < 128 then g.backupCspMode.getLsbD (k - 96)
  else (g.debugCnt ((k - 128) / 16)).getLsbD ((k - 128) % 16)

theorem putRcvBit_of_lt (g : SoftSample) {k : Nat} (b : Bool) (hk : k < 32) :
    g.putRcvBit k b = { g with rcvDat := putBit g.rcvDat k b } := if_pos hk

theorem rcvBit_of_lt (g : SoftSample) {k : Nat} (hk : k < 32) :
    g.rcvBit k = g.rcvDat.getLsbD k := if_pos hk

end SoftSample

/-! ### The handler -/

/-- `g_AT_Req_third_chars`. -/
def gAtReqThirdChars : List (BitVec 8) := [0x2B, 0x0D, 0x44, 0x49, 0x45, 0x65]

/-- The loop over `p_AT_Req_third_char`, from entry `i` on. -/
def searchChar (special : BitVec 8) : List (BitVec 8) → Nat → BitVec 8 → BitVec 8
  | [], _, specialId => specialId
  | c :: table, i, _ =>
      if special = c then BitVec.ofNat 8 (i + 1) else searchChar special table (i + 1) 0

namespace SoftSample

/-- `SAMPLE_END_FLAG` is set, and the reason noted. -/
def fail (g : SoftSample) (reason : BitVec 8) : SoftSample :=
  { g with
    sampleFlag := { g.sampleFlag with finished := true }
    failRea := Function.update g.failRea g.sampleFlag.usePll reason }

/-- No start bit was seen for the time of a character. -/
def limitIdle (g : SoftSample) : SoftSample :=
  if g.sampleCnt.toNat > cspDataBits * oneBitSampleNum ∧ g.startCnt = 0 then
    g.fail sampleFailAllIdle
  else g

/-- The sampling lasted for three characters. -/
def limitData (g : SoftSample) : SoftSample :=
  if g.startCnt.toNat > maxSampleNum then g.fail sampleFailWithData else g

end SoftSample

namespace Sampler

/-- The tick is counted, and the limits are checked. -/
def countTick (m : Sampler) : Sampler :=
  let g := { m.gpiUtc with sampleCnt := m.gpiUtc.sampleCnt + 1 }
  { m with gpiUtc := g.limitIdle.limitData }

/-- The first high level is the idle bit. -/
def awaitIdle (m : Sampler) (rxdLevel : Bool) : Sampler :=
  let g := m.gpiUtc
  if rxdLevel = true ∧ g.sampleFlag.start = false then
    { m with gpiUtc := { g with
        sampleFlag := { g.sampleFlag with start := true }
        rcvDat := 1
        bitNumCnt := 1 } }
  else m

/-- From the first low level on, the samples since the last edge are counted. -/
def followLevel (m : Sampler) (rxdLevel : Bool) : Sampler :=
  let g := m.gpiUtc
  if g.startCnt ≠ 0 ∨ rxdLevel = false then
    { m with gpiUtc := { g with
        startCnt := g.startCnt + 1
        dataCnt := (if rxdLevel ≠ g.sampleFlag.lastLevel then 0 else g.dataCnt) + 1
        sampleFlag := { g.sampleFlag with lastLevel := rxdLevel } } }
  else m

/-- The handler up to the test for a sample point. -/
def beforeRecord (m : Sampler) (rxdLevel : Bool) : Sampler :=
  let m := m.countTick
  if m.gpiUtc.sampleFlag.finished then m
  else
    let m := m.awaitIdle rxdLevel
    if m.gpiUtc.sampleFlag.start then m.followLevel rxdLevel else m

/-- The handler gets to a bit-band write. -/
def AtSamplePoint (m : Sampler) : Prop :=
  m.gpiUtc.sampleFlag.finished = false ∧ m.gpiUtc.sampleFlag.start = true ∧
    m.gpiUtc.dataCnt.toNat % oneBitSampleNum = oneBitSampleNum / 2

instance (m : Sampler) : Decidable m.AtSamplePoint := inferInstanceAs (Decidable (_ ∧ _ ∧ _))

/-- The bit is written and counted. -/
def writeBit (m : Sampler) (rxdLevel : Bool) : Sampler :=
  let g := m.gpiUtc.putRcvBit m.gpiUtc.bitNumCnt.toNat rxdLevel
  { m with gpiUtc := { g with bitNumCnt := g.bitNumCnt + 1 } }

/-- The last eight bits, behind an idle and a start bit, are looked up. -/
def matchChar (table : List (BitVec 8)) (m : Sampler) : Sampler :=
  let g := m.gpiUtc
  let n := g.bitNumCnt.toNat
  if g.rcvBit (n - 10) = true ∧ g.rcvBit (n - 9) = false then
    let special := (g.rcvDat >>> (n - 8)).setWidth 8
    { m with gpiUtc := { g with specialId := searchChar special table 0 g.specialId } }
  else m

/-- The handler from the bit-band write on. -/
def record (table : List (BitVec 8)) (m : Sampler) (rxdLevel : Bool) : Sampler :=
  let m := m.writeBit rxdLevel
  if m.gpiUtc.bitNumCnt.toNat ≥ 10 then
    let m := m.matchChar table
    if m.gpiUtc.specialId ≠ 0 then { m with sysDiv := m.gpiUtc.backupSysDiv, waitStop := true }
    else m
  else m

/-- `soft_sample_timer_handler`, up to its loop for the stop bit. -/
def softSampleTimerHandler (table : List (BitVec 8)) (m : Sampler) (rxdLevel : Bool) : Sampler :=
  let m := m.beforeRecord rxdLevel
  if m.AtSamplePoint then m.record table rxdLevel else m

/-- The handler past its loop for the stop bit. -/
def enableCsp (m : Sampler) : Sampler :=
  let g := m.gpiUtc
  { m with
    cspMode1 := g.backupCspMode
    waitStop := false
    gpiUtc := { g with
      sampleFlag := { g.sampleFlag with
        finished := true
        utcSuc := if g.wakeupRea = wakeupFromUtc then true else g.sampleFlag.utcSuc }
      debugCnt := Function.update g.debugCnt (4 + g.wakeupRea.toNat)
        (g.debugCnt (4 + g.wakeupRea.toNat) + 1) } }

/-- One reading of the pin: by the handler, or by its loop for the stop bit.  The timer is off once
the sampling has ended. -/
def read (table : List (BitVec 8)) (m : Sampler) (rxdLevel : Bool) : Sampler :=
  if m.gpiUtc.sampleFlag.finished then m
  else if m.waitStop then (if rxdLevel then m.enableCsp else m)
  else m.softSampleTimerHandler table rxdLevel

/-- `soft_sample_init` up to its wait for the end of the sampling. -/
def softSampleInit (workMode : BitVec 8) (usePll : Bool) (m : Sampler) : Sampler :=
  let g := m.gpiUtc
  let firstEnter := if usePll then g.sampleFlag.firstEnter else true
  { sysDiv := if usePll then m.sysDiv else 1
    cspMode1 := m.cspMode1
    gpiUtc := { g with
      backupSysDiv := if workMode ≠ 2 then m.sysDiv &&& 0xFE else m.sysDiv
      backupCspMode := m.cspMode1 ||| cspMode1CspEn
      specialId := 0
      bitNumCnt := 0
      rcvDat := 0
      sampleCnt := 0
      startCnt := 0
      dataCnt := 0
      sampleFlag := { g.sampleFlag with
        lastLevel := true, start := false, finished := false, usePll := usePll
        firstEnter := firstEnter }
      failRea := if usePll = false ∨ firstEnter = false then fun _ => 0 else g.failRea
      debugCnt := Function.update g.debugCnt g.wakeupRea.toNat
        (g.debugCnt g.wakeupRea.toNat + 1) } }

/-- `soft_sample_init` past its wait, up to the semaphore. -/
def softSampleEnd (m : Sampler) : Sampler :=
  let g := m.gpiUtc
  if g.specialId = 0 then
    { m with
      sysDiv := g.backupSysDiv
      cspMode1 := if g.failRea false = sampleFailWithData ∨ g.sampleFlag.usePll = true then
        g.backupCspMode else m.cspMode1
      gpiUtc := { g with backupSpecialId := g.specialId } }
  else
    { m with gpiUtc := { g with
        failRea := Function.update g.failRea g.sampleFlag.usePll sampleSuccess
        sampleFlag := { g.sampleFlag with giveSem := true }
        backupSpecialId := g.specialId } }

/-- `gpi_utc` as it is loaded. -/
def fresh : Sampler := ⟨{}, 0, 0, false⟩

/-- The sampler after `n` readings. -/
def after (table : List (BitVec 8)) (m : Sampler) (levels : Nat → Bool) : Nat → Sampler
  | 0 => m
  | n + 1 => (m.after table levels n).read table (levels n)

end Sampler
end XY1100.Uart
