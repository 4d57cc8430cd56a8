import XY1100.Dm.Boot
import XY1100.Dm.Registration

/-!
# DM — registrations over time

The tasks of the two operators (`telecom_dm_run`, `unicom_dm_run`) from start to end, over boots.  A
task registers the card with the server and keeps its number in flash; when the server does not answer
as it should, the task waits for a timer and tries again.  The number of unicom's card is registered
anew when a long timer says that it is overdue.  A run is a list of events, whatever their order.

A boot takes the parameters from retention memory or from flash, or clears them (`restoreDmCfg`).  What
is written to flash is taken to be what `xy_ftl_read` finds there; the tasks assert that the write
succeeds.

* `telecom_registers`: a card is registered again only after another one, or after a boot that does not
  keep the parameters.
* `unicom_registers`: or when a registration is overdue; and what the tasks leave of the lock that
  keeps the module awake.
* `unicom_idle_leaks`: each start of unicom's task that finds nothing to do leaves a lock.
-/

namespace XY1100.Dm
open Support

/-! ### A try -/

/-- What the socket layer answers: no descriptor, no connection, or what handles it. -/
inductive Link
  | noSocket
  | refused (rc : Int) (failed : rc ≠ 0)
  | connected (sent : Int) (first : Received requestbufSize)
      (second : Received (requestbufSize - first.ret).toNat)

/-- `dm_socket_client`, from the value `rc` has before there is a socket; `none` is an access outside
of `requestbuf`. -/
def dmSocketClient (rc : Int) : Link → Option Int
  | .noSocket => some rc
  | .refused rc _ => some rc
  | .connected sent first second => handleConnection sent first second

/-- What a turn of a task finds: whether the network is up, the texts of the module and the card,
what `getaddrinfo` returns, and the socket layer. -/
structure Attempt where
  netif : Bool
  meid : List UInt8
  imsi : List UInt8
  dns : Int
  link : Link

/-- The check of `imsi`. -/
def ImsiInvalid (imsi : List UInt8) : Prop :=
  imsi = [] ∨ imsi.take 3 = [48, 48, 49] ∨ imsi.take 3 = [48, 48, 50]

instance : DecidablePred ImsiInvalid := fun imsi =>
  inferInstanceAs (Decidable (imsi = [] ∨ imsi.take 3 = [48, 48, 49] ∨ imsi.take 3 = [48, 48, 50]))

/-- How a turn behind `FIRST_POWERON` ends. -/
inductive Turn
  | left
  | registered
  | failed
  | fault
  deriving DecidableEq

/-- A turn behind `FIRST_POWERON`. -/
def turn (rc : Int) (a : Attempt) : Turn :=
  if a.meid = [] ∨ ImsiInvalid a.imsi then .left
  else
    match dmSocketClient rc a.link with
    | none => .fault
    | some ret => if ret = 0 then .registered else .failed

/-! ### The state -/

/-- The factory parameters. -/
structure Factory where
  dmRetryNum : UInt8
  dmRegTime : UInt32

/-- The task: none, one that waits on `dm_sem` with the card it has and its `current_time`, or one
that left a buffer. -/
inductive Task
  | none
  | waiting (nccid : List UInt8) (now : UInt32)
  | faulted

/-- A registration: the card, the `current_time` of the task, whether the long timer had fired, and
what the socket layer answered. -/
structure Registration where
  nccid : List UInt8
  now : UInt32
  flagged : Bool
  rc : Int
  link : Link

/-- What a task that ended, or a boot, leaves behind. -/
inductive Entry
  | boot (b : Boot)
  | idle
  | left
  | gaveUp
  | registered (r : Registration)

/-- The state of both operators; `flash` is the copy of `dm_cfg` in flash, `log` tells what has
happened, the last first, and `tries` how often the current task has called `dm_socket_client`. -/
structure DmState where
  cfg : DmCfg
  flash : Option DmCfg
  task : Task
  /-- Whether this boot is one in which the tasks take the lock. -/
  powerOn : Bool
  /-- `unicom_timer_flag`. -/
  timerFlag : Bool
  /-- `dm_timer_overdue` runs. -/
  overdue : Bool
  /-- Calls of `xy_work_lock`, less those of `xy_work_unlock`. -/
  locks : Int
  log : List Entry
  tries : Nat

/-- `strncmp(_, _, 20) == 0`. -/
def SameCard (nccid ueIccid : List UInt8) : Prop := cText (nccid.take 20) = cText (ueIccid.take 20)

instance (nccid ueIccid : List UInt8) : Decidable (SameCard nccid ueIccid) :=
  inferInstanceAs (Decidable (cText (nccid.take 20) = cText (ueIccid.take 20)))

/-- `strncpy(ue_iccid, nccid, 20)`. -/
def storeCard (ueIccid nccid : List UInt8) : List UInt8 :=
  let text := cText (nccid.take 20)
  text ++ List.replicate (20 - text.length) 0 ++ ueIccid.drop 20

namespace DmState

def lock (d : DmState) (c : Prop) [Decidable c] : DmState :=
  { d with locks := d.locks + if c then 1 else 0 }

def unlock (d : DmState) (c : Prop) [Decidable c] : DmState :=
  { d with locks := d.locks - if c then 1 else 0 }

/-- The task ends. -/
def ends (d : DmState) (e : Entry) : DmState := { d with task := .none, log := e :: d.log }

end DmState

/-- The turn failed: the task waits, or gives up. -/
def failedTurn (fac : Factory) (nccid : List UInt8) (now : UInt32)
    (out : Entry → DmState → DmState) (d : DmState) :
    DmState :=
  let d := { d with cfg := { d.cfg with haveRetryNum := d.cfg.haveRetryNum + 1 } }
  if d.cfg.haveRetryNum < fac.dmRetryNum then { d with task := .waiting nccid now }
  else out .gaveUp d

/-! ### Telecom -/

/-- `out` of `telecom_dm_run`. -/
def telecomOut (e : Entry) (d : DmState) : DmState := (d.unlock (d.powerOn = true)).ends e

/-- `telecom_dm_run` from `FIRST_POWERON` until it ends or waits. -/
def telecomTurn (fac : Factory) (nccid : List UInt8) (now : UInt32) (a : Attempt) (d : DmState) :
    DmState :=
  match turn a.dns a with
  | .left => telecomOut .left d
  | .registered =>
    let cfg := { d.cfg with ueIccid := storeCard d.cfg.ueIccid nccid }
    telecomOut (.registered ⟨nccid, now, false, a.dns, a.link⟩)
      { d with cfg := cfg, flash := some cfg, tries := d.tries + 1 }
  | .failed => failedTurn fac nccid now telecomOut { d with tries := d.tries + 1 }
  | .fault => { d with task := .faulted, tries := d.tries + 1 }

/-- `telecom_dm_init`: the task starts where there is none. -/
def telecomInit (fac : Factory) (nccid : List UInt8) (now : UInt32) (a : Attempt) (d : DmState) :
    DmState :=
  match d.task with
  | .none =>
    let d := d.lock (d.powerOn = true)
    if SameCard nccid d.cfg.ueIccid then telecomOut .idle d
    else
      telecomTurn fac nccid now a
        { d with cfg := { d.cfg with haveRetryNum := 0 }, tries := 0 }
  | _ => d

/-! ### Unicom -/

/-- `out` of `unicom_dm_run`. -/
def unicomOut (e : Entry) (d : DmState) : DmState :=
  (d.unlock (d.powerOn = true ∧ d.timerFlag = false)).ends e

/-- `unicom_dm_run` from `FIRST_POWERON` until it ends or waits. -/
def unicomTurn (fac : Factory) (nccid : List UInt8) (now : UInt32) (a : Attempt) (d : DmState) :
    DmState :=
  match turn 0 a with
  | .left => unicomOut .left d
  | .registered =>
    let cfg := { d.cfg with ueIccid := storeCard d.cfg.ueIccid nccid, lastRegTime := now }
    unicomOut (.registered ⟨nccid, now, d.timerFlag, 0, a.link⟩)
      { d with
        cfg := cfg, flash := some cfg, overdue := true, timerFlag := false, tries := d.tries + 1 }
  | .failed => failedTurn fac nccid now unicomOut { d with tries := d.tries + 1 }
  | .fault => { d with task := .faulted, tries := d.tries + 1 }

/-- The test of `unicom_is_start_dm`. -/
def UnicomDue (fac : Factory) (nccid : List UInt8) (now : UInt32) (d : DmState) : Prop :=
  ¬SameCard nccid d.cfg.ueIccid ∨ d.timerFlag = true ∨ fac.dmRegTime < now - d.cfg.lastRegTime

instance (fac : Factory) (nccid : List UInt8) (now : UInt32) (d : DmState) :
    Decidable (UnicomDue fac nccid now d) :=
  inferInstanceAs (Decidable (¬SameCard nccid d.cfg.ueIccid ∨ d.timerFlag = true ∨
    fac.dmRegTime < now - d.cfg.lastRegTime))

/-- `unicom_dm_init`: the task starts where there is none. -/
def unicomInit (fac : Factory) (nccid : List UInt8) (now : UInt32) (a : Attempt) (d : DmState) :
    DmState :=
  match d.task with
  | .none =>
    let d := d.lock (d.powerOn = true ∧ d.timerFlag = false)
    if UnicomDue fac nccid now d then
      unicomTurn fac nccid now a
        { d with cfg := { d.cfg with haveRetryNum := 0 }, overdue := false, tries := 0 }
    else
      -- the card is registered: the long timer starts anew, and the lock is taken once more
      unicomOut .idle ({ d with overdue := true }.lock (d.powerOn = true ∧ d.timerFlag = false))
  | _ => d

/-! ### Events -/

/-- The network comes up with a card, the retry timer fires, the long timer fires, something else
saves the parameters, or the module boots (`erased`: with a battery that is good for an erase). -/
inductive DmEvent
  | netifUp (nccid : List UInt8) (now : UInt32) (a : Attempt)
  | retry (a : Attempt)
  | overdue (nccid : List UInt8) (now : UInt32) (a : Attempt)
  | save
  | boot (b : Boot) (erased : Bool)

/-- A boot: the memory is lost, but for what `nv_restore` makes of the parameters. -/
def bootDm (b : Boot) (erased : Bool) (d : DmState) : DmState :=
  let flash := if b.Erases ∧ erased = true then none else d.flash
  { cfg := restoreDmCfg b (if b.Erases then .zero else d.cfg) flash, flash := flash, task := .none,
    powerOn := b.sysUpStat = .powerOn ∧ b.fac.OperationVer, timerFlag := false, overdue := false,
    locks := 0, log := .boot b :: d.log, tries := 0 }

/-- A step of telecom's task. -/
def telecomStep (fac : Factory) (d : DmState) : DmEvent → DmState
  | .netifUp nccid now a => telecomInit fac nccid now a d
  | .retry a =>
    match d.task with
    | .waiting nccid now => if a.netif then telecomTurn fac nccid now a d else telecomOut .left d
    | _ => d
  | .overdue _ _ _ => d
  | .save => { d with flash := some d.cfg }
  | .boot b erased => bootDm b erased d

/-- A step of unicom's task. -/
def unicomStep (fac : Factory) (d : DmState) : DmEvent → DmState
  | .netifUp nccid now a => unicomInit fac nccid now a d
  | .retry a =>
    match d.task with
    | .waiting nccid now => if a.netif then unicomTurn fac nccid now a d else unicomOut .left d
    | _ => d
  | .overdue nccid now a =>
    -- `dm_register_overdue_proc`
    if d.overdue then unicomInit fac nccid now a { d with timerFlag := true, overdue := false }
    else d
  | .save => { d with flash := some d.cfg }
  | .boot b erased => bootDm b erased d

/-- The state behind the first boot. -/
def freshDm (flash : DmCfg) (powerOn : Bool) : DmState :=
  { cfg := flash, flash := some flash, task := .none, powerOn := powerOn, timerFlag := false,
    overdue := false, locks := 0, log := [], tries := 0 }

/-! ### The reply -/

/-- Zero is returned only where the text received has `Success` in it. -/
theorem handleConnection_zero {sent : Int} {first : Received requestbufSize}
    {second : Received (requestbufSize - first.ret).toNat}
    (h : handleConnection sent first second = some 0) :
    0 ≤ sent ∧ success <:+: cText (received first second) := by
  obtain ⟨hnul, hne, hshort⟩ := success_short
  unfold handleConnection at h
  by_cases hsent : sent < 0
  · rw [if_pos hsent] at h
    cases h
  · rw [if_neg hsent] at h
    refine ⟨by omega, ?_⟩
    by_cases hfirst : first.bytes = none → second.data = []
    · obtain ⟨-, hrec⟩ := receive_eq hfirst
      rw [hrec] at h
      dsimp only at h
      rw [← cText_append_zeros (received first second)
        (requestbufSize - (received first second).length)]
      generalize received first second ++
        List.replicate (requestbufSize - (received first second).length) 0 = buf at h ⊢
      by_cases hnot : 0 ∈ buf
      · rw [findstr_eq hnul hne hshort hnot] at h
        by_contra hin
        rw [if_neg hin] at h
        split_ifs at h <;> simp at h
      · rw [findstr_eq_none hshort hnot] at h
        cases h
    · obtain ⟨hnone, hsome⟩ := Classical.not_imp.mp hfirst
      rw [receive_eq_none hnone hsome] at h
      cases h

/-- A registration counts: the server said `Success`, or there was no socket and `rc` was zero. -/
def Counts (r : Registration) : Prop :=
  r.link = .noSocket ∧ r.rc = 0 ∨
    ∃ sent first second, r.link = .connected sent first second ∧ 0 ≤ sent ∧
      success <:+: cText (received first second)

theorem turn_registered {rc : Int} {a : Attempt} (h : turn rc a = .registered) {nccid : List UInt8}
    {now : UInt32} {flagged : Bool} : Counts ⟨nccid, now, flagged, rc, a.link⟩ := by
  unfold turn at h
  split_ifs at h
  cases hlink : a.link with
  | noSocket =>
    rw [hlink, dmSocketClient] at h
    dsimp only at h
    split_ifs at h with hrc
    exact .inl ⟨rfl, hrc⟩
  | refused rc' hfailed =>
    rw [hlink, dmSocketClient] at h
    dsimp only at h
    rw [if_neg hfailed] at h
    cases h
  | connected sent first second =>
    rw [hlink, dmSocketClient] at h
    cases hret : handleConnection sent first second with
    | none =>
      rw [hret] at h
      cases h
    | some ret =>
      rw [hret] at h
      dsimp only at h
      split_ifs at h with hz
      subst hz
      exact .inr ⟨sent, first, second, rfl, handleConnection_zero hret⟩

/-! ### What is recorded -/

/-- The last registration, unless a boot behind it has not kept the parameters. -/
def latest : List Entry → Option Registration
  | [] => none
  | .registered r :: _ => some r
  | .boot b :: log => if b.Keeps then latest log else none
  | _ :: log => latest log

/-- Each registration counts.  `apart` is what it has to do with the one before it, where the boots
between them keep the parameters. -/
def Sound (apart : Registration → Registration → Prop) : List Entry → Prop
  | [] => True
  | .registered r :: log => Counts r ∧ (∀ old ∈ latest log, apart r old) ∧ Sound apart log
  | _ :: log => Sound apart log

theorem sameCard_storeCard (card nccid ueIccid : List UInt8) :
    SameCard card (storeCard ueIccid nccid) ↔ SameCard card nccid := by
  have hlen : (cText (nccid.take 20)).length ≤ 20 :=
    ((cText_prefix_self _).length_le).trans (List.length_take_le 20 nccid)
  have hclean : 0 ∉ cText (nccid.take 20) := by
    intro h
    have := List.mem_takeWhile_imp h
    simp at this
  have htext : cText ((storeCard ueIccid nccid).take 20) = cText (nccid.take 20) := by
    rw [storeCard, List.take_left' (by rw [List.length_append, List.length_replicate]; omega),
      cText_append_zeros, cText_of_not_mem hclean]
  rw [SameCard, SameCard, htext]

/-- The registrations of a log are sound, and what the parameters hold in memory and in flash is the
last one. -/
structure Recorded (stored : Registration → DmCfg → Prop)
    (apart : Registration → Registration → Prop) (d : DmState) : Prop where
  last : ∀ r ∈ latest d.log, stored r d.cfg ∧ ∃ cfg ∈ d.flash, stored r cfg
  sound : Sound apart d.log

section
variable {stored : Registration → DmCfg → Prop} {apart : Registration → Registration → Prop}
  {d d' : DmState}

/-- A step that registers nothing, and leaves what the parameters hold. -/
theorem Recorded.keeps (h : Recorded stored apart d) (hlatest : latest d'.log = latest d.log)
    (hsound : Sound apart d.log → Sound apart d'.log)
    (hcfg : ∀ r, stored r d.cfg → stored r d'.cfg)
    (hflash : ∀ r, stored r d.cfg → (∃ cfg ∈ d.flash, stored r cfg) →
      ∃ cfg ∈ d'.flash, stored r cfg) :
    Recorded stored apart d' where
  last r hr := by
    rw [hlatest] at hr
    obtain ⟨hc, hf⟩ := h.last r hr
    exact ⟨hcfg r hc, hflash r hc hf⟩
  sound := hsound h.sound

/-- A registration. -/
theorem Recorded.registers (h : Recorded stored apart d) {r : Registration}
    (hlog : d'.log = .registered r :: d.log) (hcounts : Counts r)
    (hapart : ∀ old, stored old d.cfg → apart r old) (hcfg : stored r d'.cfg)
    (hflash : ∃ cfg ∈ d'.flash, stored r cfg) : Recorded stored apart d' where
  last r' hr := by
    rw [hlog] at hr
    cases hr
    exact ⟨hcfg, hflash⟩
  sound := by
    rw [hlog]
    exact ⟨hcounts, fun old hold => hapart old (h.last old hold).1, h.sound⟩

/-- A boot that keeps the parameters keeps a registration in both; behind another nothing is said of
them. -/
theorem Recorded.boots (h : Recorded stored apart d) (b : Boot) (erased : Bool) :
    Recorded stored apart (bootDm b erased d) where
  last r hr := by
    change r ∈ (if b.Keeps then latest d.log else none) at hr
    by_cases hkeeps : b.Keeps
    · rw [if_pos hkeeps] at hr
      obtain ⟨hcfg, cfg, hflash, hstored⟩ := h.last r hr
      have hno : ¬b.Erases := hkeeps.not_erases
      have hkept : (bootDm b erased d).flash = some cfg :=
        (if_neg fun he => hno he.1).trans hflash
      have hram : (bootDm b erased d).cfg = restoreDmCfg b d.cfg (some cfg) := by
        rw [← hkept]
        exact congrArg (restoreDmCfg b · _) (if_neg hno)
      refine ⟨?_, cfg, hkept, hstored⟩
      rcases restoreDmCfg_keeps hkeeps d.cfg cfg with heq | heq
      · rw [hram, heq]
        exact hcfg
      · rw [hram, heq]
        exact hstored
    · rw [if_neg hkeeps] at hr
      cases hr
  sound := h.sound

end

/-! ### Telecom -/

/-- The parameters hold the card of a registration. -/
def StoredCard (r : Registration) (cfg : DmCfg) : Prop :=
  ∀ card, SameCard card cfg.ueIccid ↔ SameCard card r.nccid

/-- The tries of the current task. -/
structure Tried (fac : Factory) (d : DmState) : Prop where
  bound : d.tries ≤ max 1 fac.dmRetryNum.toNat
  waits : ∀ nccid now, d.task = .waiting nccid now →
    d.cfg.haveRetryNum.toNat = d.tries ∧ d.tries < fac.dmRetryNum.toNat

/-- A turn may begin. -/
structure MayTry (fac : Factory) (d : DmState) : Prop where
  counted : d.cfg.haveRetryNum.toNat = d.tries
  bound : d.tries < max 1 fac.dmRetryNum.toNat

/-- What holds of telecom's task at all times. -/
structure TelecomKept (fac : Factory) (d : DmState) : Prop where
  recorded : Recorded StoredCard (fun new old => ¬SameCard new.nccid old.nccid) d
  tried : Tried fac d
  waits : ∀ nccid now, d.task = .waiting nccid now → ¬SameCard nccid d.cfg.ueIccid
  locks : d.locks = if d.powerOn = true then (match d.task with | .none => 0 | _ => 1) else 0

/-- What holds of it in front of a turn. -/
structure TelecomReady (fac : Factory) (nccid : List UInt8) (d : DmState) : Prop where
  recorded : Recorded StoredCard (fun new old => ¬SameCard new.nccid old.nccid) d
  mayTry : MayTry fac d
  other : ¬SameCard nccid d.cfg.ueIccid
  locks : d.locks = if d.powerOn = true then 1 else 0

variable {fac : Factory} {nccid : List UInt8} {now : UInt32} {a : Attempt} {d : DmState}

/-- The task ends where the lock is held. -/
theorem telecomOut_kept {e : Entry} (hrecorded : Recorded StoredCard
      (fun new old => ¬SameCard new.nccid old.nccid) (telecomOut e d))
    (hbound : d.tries ≤ max 1 fac.dmRetryNum.toNat)
    (hlocks : d.locks = if d.powerOn = true then 1 else 0) : TelecomKept fac (telecomOut e d) where
  recorded := hrecorded
  tried := ⟨hbound, fun _ _ h => nomatch h⟩
  waits _ _ h := nomatch h
  locks := by
    change d.locks - (if d.powerOn = true then 1 else 0) = if d.powerOn = true then 0 else 0
    rw [hlocks]
    split_ifs <;> rfl

/-- The number of tries is counted in a byte. -/
theorem haveRetryNum_succ (h : MayTry fac d) (hlt : d.cfg.haveRetryNum + 1 < fac.dmRetryNum) :
    (d.cfg.haveRetryNum + 1).toNat = d.tries + 1 ∧ d.tries + 1 < fac.dmRetryNum.toNat := by
  have hcounted := h.counted
  have hbound := h.bound
  have hmax := fac.dmRetryNum.toNat_lt
  rw [UInt8.lt_iff_toNat_lt] at hlt
  have hsum : (d.cfg.haveRetryNum + 1).toNat = d.tries + 1 := by
    rw [UInt8.toNat_add, hcounted, show (1 : UInt8).toNat = 1 from rfl]
    omega
  exact ⟨hsum, hsum ▸ hlt⟩

theorem telecomTurn_kept (h : TelecomReady fac nccid d) :
    TelecomKept fac (telecomTurn fac nccid now a d) := by
  have hbound := h.mayTry.bound
  unfold telecomTurn
  cases hturn : turn a.dns a with
  | left =>
    exact telecomOut_kept (h.recorded.keeps rfl id (fun _ hs => hs) (fun _ _ hs => hs)) (by omega)
      h.locks
  | registered =>
    refine telecomOut_kept (h.recorded.registers (r := ⟨nccid, now, false, a.dns, a.link⟩) rfl
      (turn_registered hturn) (fun old hold hsame => h.other ((hold nccid).mpr hsame)) ?_ ?_)
      (by dsimp only; omega) h.locks
    · exact fun card => sameCard_storeCard card nccid d.cfg.ueIccid
    · exact ⟨_, rfl, fun card => sameCard_storeCard card nccid d.cfg.ueIccid⟩
  | failed =>
    dsimp only [failedTurn]
    split_ifs with hlt
    · obtain ⟨hcount, hless⟩ := haveRetryNum_succ h.mayTry hlt
      refine ⟨h.recorded.keeps rfl id (fun _ hs => hs) (fun _ _ hs => hs), ⟨by dsimp only; omega, ?_⟩,
        ?_, h.locks⟩
      · rintro _ _ -
        exact ⟨hcount, hless⟩
      · rintro _ _ hw
        cases hw
        exact h.other
    · exact telecomOut_kept (h.recorded.keeps rfl id (fun _ hs => hs) (fun _ _ hs => hs))
        (by dsimp only; omega) h.locks
  | fault =>
    exact ⟨h.recorded.keeps rfl id (fun _ hs => hs) (fun _ _ hs => hs),
      ⟨by dsimp only; omega, fun _ _ hw => nomatch hw⟩, (fun _ _ hw => nomatch hw), h.locks⟩

theorem telecomInit_kept (h : TelecomKept fac d) :
    TelecomKept fac (telecomInit fac nccid now a d) := by
  unfold telecomInit
  have hlocks := h.locks
  cases htask : d.task with
  | none =>
    rw [htask] at hlocks
    have hheld : d.locks + (if d.powerOn = true then 1 else 0) =
        if d.powerOn = true then 1 else 0 := by
      rw [hlocks]
      split_ifs <;> rfl
    dsimp only
    split_ifs with hsame
    · exact telecomOut_kept (h.recorded.keeps rfl id (fun _ hs => hs) (fun _ _ hs => hs)) h.tried.bound
        hheld
    · exact telecomTurn_kept ⟨h.recorded.keeps rfl id (fun _ hs => hs) (fun _ _ hs => hs),
        ⟨rfl, Nat.lt_of_lt_of_le Nat.one_pos (Nat.le_max_left 1 _)⟩, hsame, hheld⟩
  | waiting nccid' now' => exact h
  | faulted => exact h

/-- A task that waits may try again. -/
theorem TelecomKept.ready (h : TelecomKept fac d) (htask : d.task = .waiting nccid now) :
    TelecomReady fac nccid d := by
  obtain ⟨hcounted, hless⟩ := h.tried.waits nccid now htask
  refine ⟨h.recorded, ⟨hcounted, Nat.lt_of_lt_of_le hless (Nat.le_max_right 1 _)⟩,
    h.waits nccid now htask, ?_⟩
  rw [h.locks, htask]

theorem telecomStep_kept (h : TelecomKept fac d) (e : DmEvent) :
    TelecomKept fac (telecomStep fac d e) := by
  cases e with
  | netifUp nccid now a => exact telecomInit_kept h
  | retry a =>
    unfold telecomStep
    cases htask : d.task with
    | none => exact h
    | waiting nccid now =>
      have hready := h.ready htask
      dsimp only
      split_ifs
      · exact telecomTurn_kept hready
      · exact telecomOut_kept (hready.recorded.keeps rfl id (fun _ hs => hs) (fun _ _ hs => hs))
          h.tried.bound hready.locks
    | faulted => exact h
  | overdue nccid now a => exact h
  | save =>
    exact ⟨h.recorded.keeps rfl id (fun _ hs => hs) (fun _ hs _ => ⟨_, rfl, hs⟩),
      ⟨h.tried.bound, h.tried.waits⟩, h.waits, h.locks⟩
  | boot b erased =>
    refine ⟨h.recorded.boots b erased, ⟨Nat.zero_le _, fun _ _ hw => nomatch hw⟩,
      (fun _ _ hw => nomatch hw), ?_⟩
    change (0 : Int) = if (bootDm b erased d).powerOn = true then 0 else 0
    split_ifs <;> rfl

theorem telecomKept_fresh (fac : Factory) (flash : DmCfg) (powerOn : Bool) :
    TelecomKept fac (freshDm flash powerOn) := by
  refine ⟨⟨nofun, trivial⟩, ⟨Nat.zero_le _, nofun⟩, nofun, ?_⟩
  change (0 : Int) = if powerOn = true then 0 else 0
  split_ifs <;> rfl

/-- **Telecom registers a card once.**  In every run, a card that is registered is not the one registered
before it, unless a boot since then has cleared the parameters; each registration counts; a task tries
at most as often as it may, and once if it may not; and the lock is held exactly while there is a
task. -/
theorem telecom_registers (fac : Factory) (flash : DmCfg) (powerOn : Bool) (events : List DmEvent) :
    TelecomKept fac (events.foldl (telecomStep fac) (freshDm flash powerOn)) := by
  have hrun : ∀ {d : DmState}, TelecomKept fac d →
      TelecomKept fac (events.foldl (telecomStep fac) d) := by
    induction events with
    | nil => exact fun h => h
    | cons e events ih => exact fun h => ih (telecomStep_kept h e)
  exact hrun (telecomKept_fresh fac flash powerOn)

/-! ### Unicom -/

/-- The parameters hold the card and the time of a registration. -/
def StoredAt (r : Registration) (cfg : DmCfg) : Prop := StoredCard r cfg ∧ cfg.lastRegTime = r.now

/-- A registration of the same card is overdue. -/
def Apart (fac : Factory) (new old : Registration) : Prop :=
  ¬SameCard new.nccid old.nccid ∨ new.flagged = true ∨ fac.dmRegTime < new.now - old.now

/-- What the tasks since the last boot leave of the lock: one that finds nothing to do takes it twice,
and one that the long timer started gives it back without having it. -/
def balance : List Entry → Int
  | [] => 0
  | .boot _ :: _ => 0
  | .idle :: log => balance log + 1
  | .registered r :: log => if r.flagged then balance log - 1 else balance log
  | _ :: log => balance log

/-- What holds of unicom's task at all times. -/
structure UnicomKept (fac : Factory) (d : DmState) : Prop where
  recorded : Recorded StoredAt (Apart fac) d
  tried : Tried fac d
  waits : ∀ nccid now, d.task = .waiting nccid now → UnicomDue fac nccid now d
  quiet : d.overdue = true → d.task = .none
  locks : d.locks = if d.powerOn = true then
    balance d.log + (match d.task with | .none => 0 | _ => if d.timerFlag then 0 else 1) else 0

/-- What holds of it in front of a turn. -/
structure UnicomReady (fac : Factory) (nccid : List UInt8) (now : UInt32) (d : DmState) : Prop where
  recorded : Recorded StoredAt (Apart fac) d
  mayTry : MayTry fac d
  due : UnicomDue fac nccid now d
  quiet : d.overdue = false
  locks : d.locks = if d.powerOn = true then
    balance d.log + (if d.timerFlag then 0 else 1) else 0

/-- The task ends. -/
theorem unicomOut_kept {e : Entry} (hrecorded : Recorded StoredAt (Apart fac) (unicomOut e d))
    (hbound : d.tries ≤ max 1 fac.dmRetryNum.toNat)
    (hlocks : d.locks = if d.powerOn = true then
      balance (e :: d.log) + (if d.timerFlag then 0 else 1) else 0) :
    UnicomKept fac (unicomOut e d) where
  recorded := hrecorded
  tried := ⟨hbound, fun _ _ h => nomatch h⟩
  waits _ _ h := nomatch h
  quiet _ := rfl
  locks := by
    change d.locks - (if d.powerOn = true ∧ d.timerFlag = false then 1 else 0) =
      if d.powerOn = true then balance (e :: d.log) + 0 else 0
    rw [hlocks]
    cases d.powerOn <;> cases d.timerFlag <;> simp

theorem unicomTurn_kept (h : UnicomReady fac nccid now d) :
    UnicomKept fac (unicomTurn fac nccid now a d) := by
  have hbound := h.mayTry.bound
  unfold unicomTurn
  cases hturn : turn 0 a with
  | left =>
    exact unicomOut_kept (h.recorded.keeps rfl id (fun _ hs => hs) (fun _ _ hs => hs)) (by omega)
      h.locks
  | registered =>
    refine unicomOut_kept (h.recorded.registers (r := ⟨nccid, now, d.timerFlag, 0, a.link⟩) rfl
      (turn_registered hturn) (fun old hold => ?_) ?_ ?_) (by dsimp only; omega) ?_
    · rcases h.due with hother | hflag | hlong
      · exact .inl fun hsame => hother ((hold.1 nccid).mpr hsame)
      · exact .inr (.inl hflag)
      · exact .inr (.inr (hold.2 ▸ hlong))
    · exact ⟨fun card => sameCard_storeCard card nccid d.cfg.ueIccid, rfl⟩
    · exact ⟨_, rfl, fun card => sameCard_storeCard card nccid d.cfg.ueIccid, rfl⟩
    · have hlocks := h.locks
      dsimp only
      rw [hlocks, balance]
      cases d.powerOn <;> cases d.timerFlag <;> simp
  | failed =>
    dsimp only [failedTurn]
    split_ifs with hlt
    · obtain ⟨hcount, hless⟩ := haveRetryNum_succ h.mayTry hlt
      refine ⟨h.recorded.keeps rfl id (fun _ hs => hs) (fun _ _ hs => hs), ⟨by dsimp only; omega, ?_⟩,
        ?_, fun hover => ?_, h.locks⟩
      · rintro _ _ -
        exact ⟨hcount, hless⟩
      · rintro _ _ hw
        cases hw
        exact h.due
      · rw [h.quiet] at hover
        cases hover
    · exact unicomOut_kept (h.recorded.keeps rfl id (fun _ hs => hs) (fun _ _ hs => hs))
        (by dsimp only; omega) h.locks
  | fault =>
    refine ⟨h.recorded.keeps rfl id (fun _ hs => hs) (fun _ _ hs => hs),
      ⟨by dsimp only; omega, fun _ _ hw => nomatch hw⟩, (fun _ _ hw => nomatch hw),
      fun hover => ?_, h.locks⟩
    rw [h.quiet] at hover
    cases hover

theorem unicomInit_kept (h : UnicomKept fac d) : UnicomKept fac (unicomInit fac nccid now a d) := by
  unfold unicomInit
  have hlocks := h.locks
  cases htask : d.task with
  | none =>
    rw [htask] at hlocks
    have hheld : d.locks + (if d.powerOn = true ∧ d.timerFlag = false then 1 else 0) =
        if d.powerOn = true then balance d.log + (if d.timerFlag then 0 else 1) else 0 := by
      rw [hlocks]
      cases d.powerOn <;> cases d.timerFlag <;> simp
    dsimp only
    split_ifs with hdue
    · exact unicomTurn_kept ⟨h.recorded.keeps rfl id (fun _ hs => hs) (fun _ _ hs => hs),
        ⟨rfl, Nat.lt_of_lt_of_le Nat.one_pos (Nat.le_max_left 1 _)⟩, hdue, rfl, hheld⟩
    · refine unicomOut_kept (h.recorded.keeps rfl id (fun _ hs => hs) (fun _ _ hs => hs))
        h.tried.bound ?_
      -- no flag is set where there is nothing to do
      have hflag : d.timerFlag = false := by
        rw [UnicomDue, not_or, not_or] at hdue
        exact Bool.eq_false_iff.mpr hdue.2.1
      change d.locks + (if d.powerOn = true ∧ d.timerFlag = false then 1 else 0) +
          (if d.powerOn = true ∧ d.timerFlag = false then 1 else 0) =
        if d.powerOn = true then balance d.log + 1 + (if d.timerFlag then 0 else 1) else 0
      rw [hheld, hflag]
      cases d.powerOn <;> simp
  | waiting nccid' now' => exact h
  | faulted => exact h

/-- A task that waits may try again. -/
theorem UnicomKept.ready (h : UnicomKept fac d) (htask : d.task = .waiting nccid now) :
    UnicomReady fac nccid now d := by
  obtain ⟨hcounted, hless⟩ := h.tried.waits nccid now htask
  refine ⟨h.recorded, ⟨hcounted, Nat.lt_of_lt_of_le hless (Nat.le_max_right 1 _)⟩,
    h.waits nccid now htask, ?_, ?_⟩
  · by_contra hover
    rw [h.quiet (Bool.eq_true_of_not_eq_false hover)] at htask
    cases htask
  · rw [h.locks, htask]

theorem unicomStep_kept (h : UnicomKept fac d) (e : DmEvent) :
    UnicomKept fac (unicomStep fac d e) := by
  cases e with
  | netifUp nccid now a => exact unicomInit_kept h
  | retry a =>
    unfold unicomStep
    cases htask : d.task with
    | none => exact h
    | waiting nccid now =>
      have hready := h.ready htask
      dsimp only
      split_ifs
      · exact unicomTurn_kept hready
      · exact unicomOut_kept (hready.recorded.keeps rfl id (fun _ hs => hs) (fun _ _ hs => hs))
          h.tried.bound hready.locks
    | faulted => exact h
  | overdue nccid now a =>
    unfold unicomStep
    dsimp only
    split_ifs with hover
    · have htask := h.quiet hover
      refine unicomInit_kept ⟨h.recorded.keeps rfl id (fun _ hs => hs) (fun _ _ hs => hs),
        ⟨h.tried.bound, h.tried.waits⟩, fun nccid' now' hw => ?_, (fun hno => nomatch hno), ?_⟩
      · rw [htask] at hw
        cases hw
      · have hlocks := h.locks
        rw [htask] at hlocks
        rw [hlocks, htask]
    · exact h
  | save =>
    exact ⟨h.recorded.keeps rfl id (fun _ hs => hs) (fun _ hs _ => ⟨_, rfl, hs⟩),
      ⟨h.tried.bound, h.tried.waits⟩, h.waits, h.quiet, h.locks⟩
  | boot b erased =>
    refine ⟨h.recorded.boots b erased, ⟨Nat.zero_le _, fun _ _ hw => nomatch hw⟩,
      (fun _ _ hw => nomatch hw), fun _ => rfl, ?_⟩
    change (0 : Int) = if (bootDm b erased d).powerOn = true then 0 + 0 else 0
    split_ifs <;> rfl

theorem unicomKept_fresh (fac : Factory) (flash : DmCfg) (powerOn : Bool) :
    UnicomKept fac (freshDm flash powerOn) := by
  refine ⟨⟨nofun, trivial⟩, ⟨Nat.zero_le _, nofun⟩, nofun, fun _ => rfl, ?_⟩
  change (0 : Int) = if powerOn = true then 0 + 0 else 0
  split_ifs <;> rfl

/-- **Unicom registers a card again only when it is overdue.**  In every run, a registration of the
card registered before it is one the long timer started, or the time since then is long, unless a boot
since then has cleared the parameters; each registration counts; a task tries at most as often as it
may; and the lock is held while there is a task that the long timer did not start, but for what the
tasks since the boot left of it. -/
theorem unicom_registers (fac : Factory) (flash : DmCfg) (powerOn : Bool) (events : List DmEvent) :
    UnicomKept fac (events.foldl (unicomStep fac) (freshDm flash powerOn)) := by
  have hrun : ∀ {d : DmState}, UnicomKept fac d →
      UnicomKept fac (events.foldl (unicomStep fac) d) := by
    induction events with
    | nil => exact fun h => h
    | cons e events ih => exact fun h => ih (unicomStep_kept h e)
  exact hrun (unicomKept_fresh fac flash powerOn)

/-- An event at which unicom's task finds nothing to do. -/
def FindsNothing (fac : Factory) (flash : DmCfg) : DmEvent → Prop
  | .netifUp nccid now _ =>
    SameCard nccid flash.ueIccid ∧ ¬fac.dmRegTime < now - flash.lastRegTime
  | _ => False

/-- A boot after which no task runs and the timer has not set its flag. -/
structure Idle (flash : DmCfg) (d : DmState) : Prop where
  task : d.task = .none
  cfg : d.cfg = flash
  powerOn : d.powerOn = true
  timerFlag : d.timerFlag = false

/-- The task that finds nothing to do ends without giving the lock back. -/
theorem Idle.step {fac : Factory} {flash : DmCfg} {d : DmState} {e : DmEvent} (h : Idle flash d)
    (he : FindsNothing fac flash e) :
    Idle flash (unicomStep fac d e) ∧ (unicomStep fac d e).locks = d.locks + 1 := by
  cases e with
  | netifUp nccid now a =>
    have hnot : ¬UnicomDue fac nccid now (d.lock (d.powerOn = true ∧ d.timerFlag = false)) := by
      change ¬(¬SameCard nccid d.cfg.ueIccid ∨ d.timerFlag = true ∨
        fac.dmRegTime < now - d.cfg.lastRegTime)
      rw [h.cfg, h.timerFlag]
      rintro (hother | hset | hlong)
      · exact hother he.1
      · cases hset
      · exact he.2 hlong
    have hstep : unicomStep fac d (.netifUp nccid now a) =
        { d with
          overdue := true, task := .none, locks := d.locks + 1, log := .idle :: d.log } := by
      rw [unicomStep, unicomInit, h.task]
      dsimp only
      rw [if_neg hnot, unicomOut, DmState.unlock, DmState.lock, DmState.lock, DmState.ends]
      simp only [h.powerOn, h.timerFlag, and_self, if_true]
      congr 1
      omega
    rw [hstep]
    exact ⟨⟨rfl, h.cfg, h.powerOn, h.timerFlag⟩, rfl⟩
  | retry a => exact absurd he id
  | overdue nccid now a => exact absurd he id
  | save => exact absurd he id
  | boot powerOn => exact absurd he id

theorem Idle.run {fac : Factory} {flash : DmCfg} {events : List DmEvent} {d : DmState}
    (h : Idle flash d) (hevents : ∀ e ∈ events, FindsNothing fac flash e) :
    Idle flash (events.foldl (unicomStep fac) d) ∧
      (events.foldl (unicomStep fac) d).locks = d.locks + events.length := by
  induction events generalizing d with
  | nil => exact ⟨h, (Int.add_zero _).symm⟩
  | cons e events ih =>
    obtain ⟨hidle, hlock⟩ := h.step (hevents e List.mem_cons_self)
    obtain ⟨hend, hlocks⟩ := ih hidle fun e' he' => hevents e' (List.mem_cons_of_mem _ he')
    refine ⟨hend, ?_⟩
    rw [List.foldl_cons, hlocks, hlock, List.length_cons]
    push_cast
    omega

/-- **Starts that find nothing to do leave the lock.**  However often the network comes up with a
registered card behind a boot, the lock is held once more each time, and no task is left to give it
back. -/
theorem unicom_idle_leaks {fac : Factory} {flash : DmCfg} {events : List DmEvent}
    (h : ∀ e ∈ events, FindsNothing fac flash e) :
    (events.foldl (unicomStep fac) (freshDm flash true)).locks = events.length ∧
      (events.foldl (unicomStep fac) (freshDm flash true)).task = .none := by
  have hfresh : Idle flash (freshDm flash true) := ⟨rfl, rfl, rfl, rfl⟩
  obtain ⟨hidle, hlocks⟩ := hfresh.run h
  exact ⟨hlocks.trans (Int.zero_add _), hidle.task⟩

/-- A turn without a network. -/
def noAttempt : Attempt := ⟨false, [], [], 0, .noSocket⟩

/-- The network comes up three times, with a card that was registered an hour before. -/
theorem unicom_idle_leaks_thrice :
    ((List.replicate 3 (DmEvent.netifUp [56, 57] 3600 noAttempt)).foldl
        (unicomStep ⟨3, 2592000⟩) (freshDm ⟨0, [56, 57, 0], 0⟩ true)).locks = 3 ∧
      ((List.replicate 3 (DmEvent.netifUp [56, 57] 3600 noAttempt)).foldl
        (unicomStep ⟨3, 2592000⟩) (freshDm ⟨0, [56, 57, 0], 0⟩ true)).task = .none :=
  unicom_idle_leaks (fun e he => by
    rw [List.eq_of_mem_replicate he]
    exact ⟨by decide, by decide⟩)

end XY1100.Dm
