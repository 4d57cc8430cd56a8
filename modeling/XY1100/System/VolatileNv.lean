import XY1100.Flash.Area
import XY1100.Utils.Checksum

/-!
# System — the volatile NV across deep sleep

`oss_nv.c`: `save_volatile_nv` leaves the volatile NV in retention memory or writes it back to
flash, and `nv_restore` finds it again after the wake-up.  The two decide from the same factory
parameters, but not by the same tests: the save writes back when `keep_retension_mem` is `0`, and
the restore trusts retention memory when it is `1`.

Both work on the board, through `xy_ftl_write` and `xy_ftl_read`.  `nvRestore` starts where the
factory parameters have been read, and takes what runs after the volatile NV is back
(`restore_RTC_list`, `set_DSP_work_mode`) as a parameter; with `Hooks.none` it stops before them.
-/

namespace XY1100.Nv
open Support

/-! ### Layout of the retention memory -/

def ramNvVolatilePsLen : Nat := 1024 * 3
def ramNvVolatilePhyLen : Nat := 608
def ramNvVolatileLpmStart : Nat := ramNvVolatilePsLen + ramNvVolatilePhyLen
def ramNvVolatileLpmLen : Nat := 64
def dspVolatileAllLen : Nat := ramNvVolatilePsLen + ramNvVolatilePhyLen + ramNvVolatileLpmLen
def ramNvVolatileSoftapStart : Nat := ramNvVolatileLpmStart + ramNvVolatileLpmLen
def ramNvVolatileSoftapLen : Nat := 96
def ramNvVolatileRtclistStart : Nat := ramNvVolatileSoftapStart + ramNvVolatileSoftapLen
def ramNvVolatileRtclistLen : Nat := 236
def flashSectorLength : Nat := 0x1000
def backupMemChecksum : Nat := 0xFF0
def backupMemFlag : Nat := backupMemChecksum + 4
def userVolDataLen : Nat := dspVolatileAllLen

def bkFlagInvalid : UInt32 := 0
def bkFlagInuse : UInt32 := 0xaa55a5a5
def bkFlagInuse2 : UInt32 := 0x55AA5A5A

/-- Fields of `softap_var_nv_t`, which starts at `RAM_NV_VOLATILE_SOFTAP_START`. -/
def rtcSnapSec (m : Buf) : UInt32 := m.word ramNvVolatileSoftapStart
def nextPsSec (m : Buf) : UInt32 := m.word (ramNvVolatileSoftapStart + 4)
def rtcMsecReset : Nat := ramNvVolatileSoftapStart + 8
def cclkLocalSec : Nat := ramNvVolatileSoftapStart + 32
def dmCfg : Nat := ramNvVolatileSoftapStart + 64
def dmCfgLen : Nat := 28

/-! ### The machine -/

/-- The fields of `softap_fac_nv_t` that the two paths and `check_conflict_nv` read.  A `char` is
signed. -/
structure SoftapFacNv where
  deepsleepEnable : Int8 := 1
  workMode : Int8 := 0
  verType : Int8 := 2
  offtime : Int8 := 0
  gNPSMREnable : Int8 := 0
  keepRetensionMem : Int8 := 0
  offDebug : Int8 := 0
  openLog : Int8 := 1
  highFreqData : Int8 := 0
  backupThreshold : UInt16 := 0
  needStartDm : UInt8 := 0

/-- The `USER_VOL_DATA_LEN` bytes `g_user_vol_data` points to. -/
structure UserVolData where
  bytes : List UInt8
  length_eq : bytes.length = userVolDataLen

/-- Fresh from `xy_zalloc`. -/
def UserVolData.zero : UserVolData := ⟨List.replicate userVolDataLen 0, List.length_replicate⟩

/-- A copy of the start of the retention memory. -/
def UserVolData.ofMem (m : Buf) : UserVolData := ⟨m.read 0 userVolDataLen, Buf.length_read ..⟩

/-- The state the two paths work on: retention memory from `BACKUP_MEM_BASE`, the board with the
flash, `g_user_vol_data` and `g_BKMEMCTL_reg`. -/
structure Soc where
  mem : Buf
  board : Board
  gUserVolData : Option UserVolData
  gBKMEMCTLReg : UInt8

inductive NvFault
  | assertion
  /-- a copy through a null `g_user_vol_data` -/
  | nullPointer
  /-- a stop in a flash function -/
  | flash (fault : Fault)
  deriving DecidableEq

def xyAssert (p : Prop) [Decidable p] : Except NvFault Unit :=
  if p then .ok () else .error .assertion

/-- A flash function, on the board. -/
def onBoard {α : Type} (x : Exec α) (s : Soc) : Except NvFault (α × Soc) :=
  match x s.board with
  | .ok a board => .ok (a, { s with board := board })
  | .error fault _ => .error (.flash fault)

/-! ### `check_conflict_nv` -/

/-- The lines `check_conflict_nv` reports at its first call. -/
def checkConflictNv (fac : SoftapFacNv) : List String :=
  if fac.offDebug = 1 then
    if fac.openLog = 1 then
      ["+DBGINFO:NV_ERR:off_debug=" ++ toString fac.offDebug ++ ";open_log=" ++
        toString fac.openLog ++ ";deepsleep_enable=" ++ toString fac.deepsleepEnable ++ "\r\n"]
    else []
  else
    (if fac.highFreqData = 1 ∧ (fac.workMode = 0 ∨ fac.keepRetensionMem ≠ 1) then
      ["+DBGINFO:NV_ERR:high_freq=" ++ toString fac.highFreqData ++ ";workmode=" ++
        toString fac.workMode ++ ";keep_backup=" ++ toString fac.keepRetensionMem ++ "\r\n"]
    else []) ++
    (if fac.offtime = 1 ∧ fac.keepRetensionMem = 1 then
      ["+DBGINFO:NV_ERR:offtime=" ++ toString fac.offtime ++ ";keep_backup=" ++
        toString fac.keepRetensionMem ++ "\r\n"]
    else []) ++
    (if fac.deepsleepEnable = 0 ∧ (fac.highFreqData ≠ 0 ∨ fac.keepRetensionMem ≠ 1) then
      ["+DBGINFO:NV_ERR:deepsleep_enable=" ++ toString fac.deepsleepEnable ++
        ";high_freq_data=" ++ toString fac.highFreqData ++ ";keep_retension_mem=" ++
        toString fac.keepRetensionMem ++ "\r\n"]
    else []) ++
    (if fac.deepsleepEnable = 1 ∧ fac.gNPSMREnable = 1 ∧ fac.offtime ≠ 0 then
      ["+DBGINFO:NV_ERR:deepsleep_enable=" ++ toString fac.deepsleepEnable ++
        ";g_NPSMR_enable=" ++ toString fac.gNPSMREnable ++ ",offtime=" ++
        toString fac.offtime ++ "\r\n"]
    else [])

/-! ### `save_volatile_nv` -/

/-- What a save meets: the factory parameters, whether the DSP core is loaded, the clock
(`global_timepoint_get(0)`, `rtc_get_global_byoffset(0)`), and what the flash functions read, with
the attempts `xy_choose_valid_ftl` may make. -/
structure SleepEnv where
  fac : SoftapFacNv
  dspIsNotLoaded : Bool
  globalTimepoint : UInt64
  rtcGlobal : UInt64
  flash : Env
  fuel : Nat

/-- The next wake-up of the protocol stack is further away than `backup_threshold`. -/
def BeyondThreshold (env : SleepEnv) (m : Buf) : Prop :=
  nextPsSec m ≠ 0 ∧ env.fac.backupThreshold ≠ 0 ∧
    (nextPsSec m).toUInt64 - env.globalTimepoint / 1000 > env.fac.backupThreshold.toUInt64

instance (env : SleepEnv) (m : Buf) : Decidable (BeyondThreshold env m) :=
  inferInstanceAs (Decidable (_ ∧ _ ∧ _))

/-- `varnv_is_need_wrtieback`. -/
def VarnvIsNeedWrtieback (env : SleepEnv) (m : Buf) : Prop :=
  env.fac.keepRetensionMem = 0 ∨ BeyondThreshold env m

instance (env : SleepEnv) (m : Buf) : Decidable (VarnvIsNeedWrtieback env m) :=
  inferInstanceAs (Decidable (_ ∨ _))

/-- The checksum of the `softap_var_nv_t` in a memory. -/
def softapChksum (m : Buf) : UInt32 :=
  xyChksum m ramNvVolatileSoftapStart ramNvVolatileSoftapLen

/-- The checksum and a flag stored beside the volatile NV. -/
def sealMem (m : Buf) (flag : UInt32) : Buf :=
  (m.putWord backupMemChecksum (softapChksum m)).putWord backupMemFlag flag

/-- The write of the working NV to flash, with the assertion on its result. -/
def writeBack (env : SleepEnv) (s : Soc) : Except NvFault Soc := do
  let (ret, s) ← onBoard (xyFtlWrite env.flash env.fuel NV_FLASH_DSP_VOLATILE_BASE 0
    (s.mem.read 0 xyFtlAvailableSize)) s
  xyAssert (ret = .xyOk)
  return s

/-- `save_user_ram_to_retension_mem`. -/
def saveUserRamToRetensionMem (env : SleepEnv) (s : Soc) : Except NvFault Soc := do
  let s ← if ¬ env.dspIsNotLoaded then writeBack env s else pure s
  match s.gUserVolData with
  | some d => return { s with mem := sealMem (s.mem.write 0 d.bytes) bkFlagInuse2 }
  | none => return { s with mem := sealMem s.mem bkFlagInuse }

/-- A 64-bit store. -/
def putDword (m : Buf) (a : Nat) (v : UInt64) : Buf :=
  (m.putWord a v.toUInt32).putWord (a + 4) (v >>> 32).toUInt32

/-- `save_volatile_nv`. -/
def saveVolatileNv (env : SleepEnv) (reBoot : Bool) (s : Soc) : Except NvFault Soc := do
  let s :=
    if reBoot ∧ ¬ (s.mem.word cclkLocalSec = 0 ∧ s.mem.word (cclkLocalSec + 4) = 0) then
      { s with mem := putDword s.mem rtcMsecReset env.rtcGlobal }
    else s
  if env.fac.highFreqData = 1 then
    let s ← saveUserRamToRetensionMem env s
    return if reBoot then s else { s with gBKMEMCTLReg := 0x41 }
  else if VarnvIsNeedWrtieback env s.mem then
    let s ← writeBack env s
    -- the dirty mark: the next wake-up must read from flash
    let m := s.mem.putWord backupMemChecksum (s.mem.word backupMemChecksum + 1)
    let s := { s with mem := m.putWord backupMemFlag bkFlagInvalid }
    return if reBoot then s else { s with gBKMEMCTLReg := s.gBKMEMCTLReg &&& 0xFE }
  else
    let s := { s with mem := sealMem s.mem bkFlagInuse }
    return if reBoot then s else { s with gBKMEMCTLReg := 0x41 }

/-! ### Deep sleep -/

/-- The checks of `nv_restore` on retention memory. -/
def Retained (m : Buf) : Prop :=
  m.word backupMemChecksum = softapChksum m ∧
    (m.word backupMemFlag = bkFlagInuse2 ∨ m.word backupMemFlag = bkFlagInuse)

/-- Retention memory keeps its power. -/
def Powered (reg : UInt8) : Prop := reg &&& 1 = 1

/-- Deep sleep.  Retention memory keeps its bytes where it keeps its power, and otherwise comes
back with bytes that fail a check; flash stays; the RAM variables start anew. -/
structure Sleeps (s s' : Soc) : Prop where
  kept : Powered s.gBKMEMCTLReg → s'.mem = s.mem
  lost : ¬ Powered s.gBKMEMCTLReg → ¬ Retained s'.mem
  flash : s'.board.flash = s.board.flash
  gUserVolData : s'.gUserVolData = none
  gBKMEMCTLReg : s'.gBKMEMCTLReg = 0x11

/-! ### `nv_restore` -/

inductive SysUpStat
  | powerOn | pinReset | softReset | utcWakeup | extpinWakeup | wdtReset | unknownOn
  deriving DecidableEq

inductive RbType
  | byAssert | byNrb | byReset | byPowertest | byFota | byLowVol
  deriving DecidableEq

/-- What a boot meets: why it happened, the factory parameters, `pin_reset` of the main factory
image, and what the flash functions read. -/
structure BootEnv where
  sysUpStat : SysUpStat
  softresetType : RbType
  fac : SoftapFacNv
  mainPinReset : Int8
  flash : Env
  fuel : Nat

/-- `CHECK_SDK_TYPE(OPERATION_VER)`. -/
def SoftapFacNv.OperationVer (fac : SoftapFacNv) : Prop := fac.verType &&& 1 ≠ 0

instance (fac : SoftapFacNv) : Decidable fac.OperationVer :=
  inferInstanceAs (Decidable (_ ≠ _))

/-- What `nv_restore` calls once the volatile NV is back, on the retention memory:
`restore_RTC_list`, `set_DSP_work_mode`, and the timers it deletes and resets for `AT+NRB`. -/
structure Hooks where
  restoreRtcList : Buf → Buf
  setDspWorkMode : Buf → Buf
  rtcTimersReset : Buf → Buf

/-- Nothing runs after the volatile NV is back. -/
def Hooks.none : Hooks := ⟨id, id, id⟩

/-- The whole sector of retention memory, or all of it but the reset flag's word. -/
def clearMem (stat : SysUpStat) (m : Buf) : Buf :=
  m.fill 0 (if stat = .softReset then flashSectorLength - 4 else flashSectorLength) 0

/-- `erase_flash_by_abnormal`, but for the factory region of `AT+RESET`. -/
def eraseFlashByAbnormal (env : Env) : Exec Unit := do
  let _ ← xyFlashErase env NV_FLASH_DSP_VOLATILE_BASE NV_FLASH_DSP_VOLATILE_LEN
  let _ ← xyFlashErase env NV_FLASH_DSP_NON_VOLATILE_BASE NV_FLASH_DSP_NON_VOLATILE_LEN
  let _ ← xyFlashErase env NV_FLASH_NET_BASE NV_FLASH_NET_LEN

/-- What an abnormal reset erases first, the same in the two branches of the source. -/
def eraseByUpStat (env : BootEnv) (s : Soc) : Except NvFault Soc :=
  if (env.sysUpStat = .wdtReset ∨ (env.sysUpStat = .softReset ∧ env.softresetType = .byAssert)) ∨
      (env.sysUpStat = .pinReset ∧ env.mainPinReset = 1) then do
    let (_, s) ← onBoard (eraseFlashByAbnormal env.flash) s
    return { s with mem := clearMem env.sysUpStat s.mem }
  else .ok s

/-- How the volatile NV was found. -/
inductive Found
  | ok (s : Soc)
  /-- the jump to `NV_ERR_PROC` -/
  | nvErr (s : Soc)

/-- The label `READ_FLASH`. -/
def readFlash (env : BootEnv) (s : Soc) : Except NvFault Found := do
  match ← onBoard (xyFtlRead env.flash env.fuel NV_FLASH_DSP_VOLATILE_BASE
    (UInt32.ofNat xyFtlAvailableSize)) s with
  | (some data, s) => return .ok { s with mem := s.mem.write 0 data }
  | (none, s) =>
    if env.fac.highFreqData = 1 then return .ok { s with mem := clearMem env.sysUpStat s.mem }
    else return .nvErr s

/-- The volatile NV, from retention memory or from flash. -/
def restoreVolatileNv (env : BootEnv) (s : Soc) : Except NvFault Found :=
  if env.fac.keepRetensionMem = 1 then
    if s.mem.word backupMemChecksum = softapChksum s.mem ∧
        s.mem.word backupMemFlag = bkFlagInuse2 then
      match s.gUserVolData with
      | some _ => .ok (.ok { s with gUserVolData := some (.ofMem s.mem) })
      | none => .error .nullPointer
    else if s.mem.word backupMemChecksum = softapChksum s.mem ∧
        s.mem.word backupMemFlag = bkFlagInuse then
      .ok (.ok s)
    else if env.fac.backupThreshold ≠ 0 ∨ env.fac.highFreqData = 1 then readFlash env s
    else .ok (.nvErr s)
  else readFlash env s

/-- What the restart reason does to the volatile NV that was found. -/
def procByUpStat (hooks : Hooks) (env : BootEnv) (m : Buf) : Buf :=
  let stat := env.sysUpStat
  if stat = .wdtReset ∨ stat = .softReset ∨ stat = .pinReset then
    let lo := m.word rtcMsecReset
    let hi := m.word (rtcMsecReset + 4)
    let m :=
      if stat = .softReset ∧ env.softresetType = .byNrb ∧ ¬ (lo = 0 ∧ hi = 0) ∧
          ¬ (lo = 0xffffffff ∧ hi = 0) then
        let m := (m.putWord (ramNvVolatileSoftapStart + 4) 0).putWord ramNvVolatileSoftapStart 0
        let m := hooks.restoreRtcList (hooks.rtcTimersReset m)
        (putDword m rtcMsecReset 0).fill 0 dspVolatileAllLen 0
      else clearMem stat m
    if env.fac.workMode ≠ 0 then m else hooks.setDspWorkMode m
  else if env.fac.workMode ≠ 0 then
    if stat = .powerOn then m.fill 0 flashSectorLength 0
    else hooks.restoreRtcList (m.fill ramNvVolatileLpmStart ramNvVolatileLpmLen 0)
  else if stat = .powerOn ∧ ¬ env.fac.OperationVer ∧ env.fac.keepRetensionMem = 0 ∧
      env.fac.offtime = 1 ∧ rtcSnapSec m ≠ 0 ∧ nextPsSec m ≠ 0 ∧ nextPsSec m > rtcSnapSec m then
    m.fill ramNvVolatileLpmStart ramNvVolatileLpmLen 0
  else if stat = .powerOn then hooks.setDspWorkMode (m.fill 0 flashSectorLength 0)
  else hooks.setDspWorkMode (hooks.restoreRtcList m)

/-- `nv_restore`. -/
def nvRestore (hooks : Hooks) (env : BootEnv) (s : Soc) : Except NvFault Soc := do
  let s ← eraseByUpStat env s
  let s ←
    if env.fac.highFreqData = 1 then do
      xyAssert (env.fac.keepRetensionMem = 1)
      pure { s with gUserVolData := some .zero }
    else pure s
  match ← restoreVolatileNv env s with
  | .ok s =>
    let dmCtlCpy := s.mem.read dmCfg dmCfgLen
    let m := procByUpStat hooks env s.mem
    let m :=
      if env.sysUpStat = .powerOn ∧ env.fac.needStartDm = 1 then m.write dmCfg dmCtlCpy else m
    return { s with mem := m }
  | .nvErr s =>
    let m := s.mem.fill 0 flashSectorLength 0
    return { s with mem := if env.fac.workMode ≠ 0 then m else hooks.setDspWorkMode m }

end XY1100.Nv
