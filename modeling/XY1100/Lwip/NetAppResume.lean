import XY1100.Support.Bytes
import XY1100.Support.Calls

/-!
# Lwip — cloud sessions across sleep

`net_app_resume.c`: which of the services (socket, OneNET, CDP) have a session to be resumed.
The flags live in `g_app_recovery_type` and in the record at `NV_FLASH_NET_BASE`; the first resume
of a wake-up reads the record, and `save_net_app_infos` writes it before deep sleep.

The session writers, the checks of the stored registrations and `inet_aton` are parameters of
the calls.  Beside the code runs the set of the sessions that are pending: saved, and neither
resumed nor ended since.
-/

namespace XY1100.Resume
open Support

/-! ### Flags -/

inductive NetAppType
  | socketTask | onenetTask | cdpTask
  deriving DecidableEq

instance : Fintype NetAppType := ⟨{.socketTask, .onenetTask, .cdpTask}, by rintro ⟨⟩ <;> decide⟩

/-- The values of `net_app_type_t`. -/
def NetAppType.val : NetAppType → Nat
  | .socketTask => 0
  | .onenetTask => 2
  | .cdpTask => 3

def noTask : Int := -2
def unknownIp : Int := -1

/-- `1<<param`. -/
def NetAppType.bit (t : NetAppType) : UInt32 := 1 <<< UInt32.ofNat t.val

/-- `NET_NEED_RECOVERY`. -/
def NetNeedRecovery (gAppRecoveryType : UInt32) (t : NetAppType) : Prop :=
  gAppRecoveryType &&& t.bit = t.bit

instance (w : UInt32) (t : NetAppType) : Decidable (NetNeedRecovery w t) :=
  inferInstanceAs (Decidable (_ = _))

/-! ### The record in flash -/

structure UdpContextFd where
  localPort : UInt16
  socketIdx : UInt8
  afType : UInt8
  recvCtl : UInt8

structure UdpContext where
  udpSocket0 : UdpContextFd
  udpSocket1 : UdpContextFd
  dataMode : UInt32

/-- `onenet_regInfo_t` and `cdp_regInfo_t` as `net_infos_t` reads them, and their other bytes. -/
structure RegInfo where
  localPort : UInt16
  remotePort : UInt16
  remoteIp : List UInt8
  rest : List UInt8

structure AppDeepsleepInfos where
  recoveryType : UInt32
  localAddr : UInt32
  udpContext : UdpContext
  onenetRegInfo : RegInfo
  cdpRegInfo : RegInfo

/-- All bytes zero. -/
def AppDeepsleepInfos.zero : AppDeepsleepInfos where
  recoveryType := 0
  localAddr := 0
  udpContext := ⟨⟨0, 0, 0, 0⟩, ⟨0, 0, 0, 0⟩, 0⟩
  onenetRegInfo := ⟨0, 0, [], []⟩
  cdpRegInfo := ⟨0, 0, [], []⟩

/-! ### State and surroundings -/

/-- The factory parameters the file reads. -/
structure Cfg where
  saveCloud : UInt8
  keepCloudAlive : UInt8
  inetAton : List UInt8 → UInt32

/-- The variables in RAM, and the record: unreadable until it was first written. -/
structure State where
  gAppRecoveryType : UInt32 := 0
  gAppLocalIp : UInt32 := 0xFFFF
  gHaveReadSavedInfo : Bool := false
  flash : Option AppDeepsleepInfos

/-- What a call meets: the results of `onenet_resume_check_info` and `cdp_resume_check_info`, and
whether a flash write succeeds. -/
structure Env where
  onenetCheck : Int
  cdpCheck : Int
  ftlWriteOk : Bool

def xyOk : Int := 0
def lifetimeTimeout : Int := -1
def regConfigError : Int := -2

def resumeSucceed : Int := 0
def resumeSwitchInactive : Int := 1
def resumeReadFlashFailed : Int := 2
def resumeFlagError : Int := 3

/-- What a call returns and does: the services it resumes, and those whose stored registration is
out of date. -/
structure Reply where
  ret : Int
  resumed : List NetAppType := []
  expired : List NetAppType := []

/-! ### The functions -/

def State.clearFlag (s : State) (t : NetAppType) : State :=
  { s with gAppRecoveryType := s.gAppRecoveryType &&& ~~~t.bit }

/-- `xy_ftl_write` of `g_app_recovery_type` over the first word of the record. -/
def State.writeFlags (s : State) (env : Env) : State :=
  if env.ftlWriteOk then
    { s with flash := some { s.flash.getD .zero with recoveryType := s.gAppRecoveryType } }
  else s

/-- The first read of the record in a wake-up. -/
def State.loadFlags (s : State) (infos : AppDeepsleepInfos) : State :=
  { s with gAppRecoveryType := infos.recoveryType, gAppLocalIp := infos.localAddr }

/-- The branch of a service with a stored registration: the flag is cleared whatever the check
says, and the record is brought up to date where `drops` holds. -/
def resumeRegistered (t : NetAppType) (check : Int) (drops : Bool) (env : Env) (s : State) :
    Reply × State :=
  let s := if drops then (s.clearFlag t).writeFlags env else s
  (⟨check, if check = xyOk then [t] else [],
      if check = lifetimeTimeout ∨ check = regConfigError then [t] else []⟩, s.clearFlag t)

/-- `resume_net_app` past the check of the flag. -/
def resumeFlagged (cfg : Cfg) (env : Env) (t : NetAppType) (s : State) : Reply × State :=
  match t with
  | .socketTask => (⟨resumeSucceed, [t], []⟩, s.clearFlag t)
  | .onenetTask =>
    let check := env.onenetCheck
    resumeRegistered t check (check = lifetimeTimeout ∨ check = regConfigError) env s
  | .cdpTask =>
    let check := env.cdpCheck
    resumeRegistered t check (check = regConfigError ∨
      (check = lifetimeTimeout ∧ cfg.keepCloudAlive = 0)) env s

/-- `resume_net_app`. -/
def resumeNetApp (cfg : Cfg) (env : Env) (t : NetAppType) (s : State) : Reply × State :=
  if cfg.saveCloud = 0 then ({ ret := resumeSwitchInactive }, s)
  else
    let (readFailed, s) :=
      if s.gHaveReadSavedInfo then (false, s)
      else
        let s := { s with gHaveReadSavedInfo := true }
        match s.flash with
        | none => (true, s)
        | some infos => (false, s.loadFlags infos)
    if readFailed then ({ ret := resumeReadFlashFailed }, s)
    else if ¬ NetNeedRecovery s.gAppRecoveryType t then ({ ret := resumeFlagError }, s)
    else resumeFlagged cfg env t s

/-- The bytes of a port, the other way round. -/
def swapPort (p : UInt16) : UInt16 := (p >>> 8) + (p <<< 8)

/-- The two bytes of a packet at an offset, as the core reads them. -/
def halfword (data : Buf) (i : Nat) : UInt16 :=
  UInt16.ofNat ((data i).toNat + 256 * (data (i + 1)).toNat)

/-- `match_net_app_by_touple`, for the sockets on both stored contexts. -/
def matchNetAppByTouple (cfg : Cfg) (t : NetAppType) (data : Buf) (infos : AppDeepsleepInfos) :
    Bool :=
  let srcIp := data.word 12
  let srcPort := swapPort (halfword data 20)
  let localPort := swapPort (halfword data 22)
  let protocol := data 9
  match t with
  | .socketTask =>
    (infos.udpContext.udpSocket0.localPort = localPort ∧ protocol = 17) ∨
      (infos.udpContext.udpSocket1.localPort = localPort ∧ protocol = 17)
  | .onenetTask =>
    cfg.inetAton infos.onenetRegInfo.remoteIp = srcIp ∧ infos.onenetRegInfo.remotePort = srcPort
  | .cdpTask =>
    cfg.inetAton infos.cdpRegInfo.remoteIp = srcIp ∧ infos.cdpRegInfo.remotePort = srcPort

/-- One service of `resume_net_app_by_dl_pkt`. -/
def resumeMatched (cfg : Cfg) (env : Env) (data : Buf) (t : NetAppType) (rs : Reply × State) :
    Reply × State :=
  let (r, s) := rs
  -- a flag is set only once the record was read
  match s.flash with
  | none => rs
  | some infos =>
    if NetNeedRecovery s.gAppRecoveryType t ∧ matchNetAppByTouple cfg t data infos then
      let (r', s) := resumeNetApp cfg env t s
      (⟨t.val, r.resumed ++ r'.resumed, r.expired ++ r'.expired⟩, s.clearFlag t)
    else rs

/-- `resume_net_app_by_dl_pkt`. -/
def resumeNetAppByDlPkt (cfg : Cfg) (env : Env) (data : Buf) (s : State) : Reply × State :=
  if cfg.saveCloud = 0 then ({ ret := noTask }, s)
  else
    let s :=
      if s.gHaveReadSavedInfo then s
      else { s.loadFlags (s.flash.getD .zero) with gHaveReadSavedInfo := true }
    if s.gAppRecoveryType = 0 then ({ ret := noTask }, s)
    else if (data 0 &&& 0xf0) >>> 4 ≠ 4 then ({ ret := unknownIp }, s)
    else if data.word 16 ≠ s.gAppLocalIp then ({ ret := unknownIp }, s)
    else
      resumeMatched cfg env data .cdpTask
        (resumeMatched cfg env data .onenetTask
          (resumeMatched cfg env data .socketTask ({ ret := noTask }, s)))

/-- What the session writers report: a session to save, or none (`CLOUD_SAVE_NONEED_WRITE`). -/
structure Writers where
  udpContext : Option UdpContext
  onenetRegInfo : Option RegInfo
  cdpRegInfo : Option RegInfo

/-- `SET_NET_RECOVERY_FLAG`. -/
def setNetRecoveryFlag (w : UInt32) (t : NetAppType) (saved : Bool) : UInt32 :=
  if saved then w ||| t.bit else w

/-- `save_net_app_infos`. -/
def saveNetAppInfos (cfg : Cfg) (ws : Writers) (ipAddr : UInt32) (ftlWriteOk : Bool) (s : State) :
    State :=
  if cfg.saveCloud = 0 then s
  else
    let netInfo := s.flash.getD .zero
    let netInfo := { netInfo with
      udpContext := ws.udpContext.getD netInfo.udpContext
      onenetRegInfo := ws.onenetRegInfo.getD netInfo.onenetRegInfo
      cdpRegInfo := ws.cdpRegInfo.getD netInfo.cdpRegInfo }
    let w := setNetRecoveryFlag s.gAppRecoveryType .socketTask ws.udpContext.isSome
    let w := setNetRecoveryFlag w .onenetTask ws.onenetRegInfo.isSome
    let w := setNetRecoveryFlag w .cdpTask ws.cdpRegInfo.isSome
    let s := { s with gAppRecoveryType := w }
    if w = 0 then s
    else if ftlWriteOk then
      { s with flash := some { netInfo with recoveryType := w, localAddr := ipAddr } }
    else s

end XY1100.Resume
