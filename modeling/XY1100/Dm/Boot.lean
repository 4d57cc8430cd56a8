import XY1100.System.VolatileNv

/-!
# DM — the registration across boots

`dm_cfg` lies in the volatile NV, and `nv_restore` decides at each boot what becomes of it
(`restoreDmCfg`).  What it finds, in retention memory or in flash, comes back after deep sleep, and at
a power-on where `need_start_dm` is set; a reset clears it, but for `AT+NRB` with a time saved.

* `nvRestore_dmCfg`: this is what `nv_restore` does, on the whole of retention memory.
* `restoreDmCfg_keeps`, `restoreDmCfg_clears`: the boots that keep `dm_cfg`, where flash has a copy;
  the others clear it.
-/

namespace XY1100.Dm
open Support Nv

/-- `dm_cfg` of the volatile parameters. -/
structure DmCfg where
  haveRetryNum : UInt8
  ueIccid : List UInt8
  lastRegTime : UInt32
  deriving DecidableEq

def DmCfg.zero : DmCfg := ⟨0, List.replicate 23 0, 0⟩

/-- `dm_cfg` in retention memory. -/
def DmCfg.ofMem (m : Buf) : DmCfg := ⟨m dmCfg, m.read (dmCfg + 1) 23, m.word (dmCfg + 24)⟩

/-- What `nv_restore` meets, as far as it decides about `dm_cfg`. -/
structure Boot where
  sysUpStat : SysUpStat
  softresetType : RbType
  fac : SoftapFacNv
  mainPinReset : Int8
  /-- Retention memory passes the checks. -/
  retained : Bool
  /-- `rtc_msec_reset` holds a time. -/
  msecReset : Bool
  /-- `rtc_snap_sec` and `next_PS_sec` are in order. -/
  offtimeDue : Bool

/-! ### `nv_restore` -/

section
variable (b : Boot)

/-- The resets behind which the volatile NV is cleared. -/
def Boot.Resets : Prop :=
  b.sysUpStat = .wdtReset ∨ b.sysUpStat = .softReset ∨ b.sysUpStat = .pinReset

/-- The reset of `AT+NRB` with a time saved, which clears the NV of the DSP alone. -/
def Boot.Nrb : Prop := b.sysUpStat = .softReset ∧ b.softresetType = .byNrb ∧ b.msecReset = true

/-- The power-on of `AT+OFFTIME`. -/
def Boot.Offtime : Prop :=
  b.fac.workMode = 0 ∧ b.sysUpStat = .powerOn ∧ ¬b.fac.OperationVer ∧
    b.fac.keepRetensionMem = 0 ∧ b.fac.offtime = 1 ∧ b.offtimeDue = true

/-- The resets that erase the volatile NV in flash. -/
def Boot.Erases : Prop :=
  (b.sysUpStat = .wdtReset ∨ (b.sysUpStat = .softReset ∧ b.softresetType = .byAssert)) ∨
    (b.sysUpStat = .pinReset ∧ b.mainPinReset = 1)

instance : Decidable b.Resets := inferInstanceAs (Decidable (_ ∨ _ ∨ _))
instance : Decidable b.Nrb := inferInstanceAs (Decidable (_ ∧ _ ∧ _))
instance : Decidable b.Offtime := inferInstanceAs (Decidable (_ ∧ _ ∧ _ ∧ _ ∧ _ ∧ _))
instance : Decidable b.Erases := inferInstanceAs (Decidable ((_ ∨ _ ∧ _) ∨ _ ∧ _))

/-- The `dm_cfg` that is found in retention memory or in flash; `none` is the jump to
`NV_ERR_PROC`. -/
def findDmCfg (ram : DmCfg) (flash : Option DmCfg) : Option DmCfg :=
  let readFlash := flash.or (if b.fac.highFreqData = 1 then some .zero else none)
  if b.fac.keepRetensionMem = 1 then
    if b.retained then some ram
    else if b.fac.backupThreshold ≠ 0 ∨ b.fac.highFreqData = 1 then readFlash
    else none
  else readFlash

/-- What the restart reason leaves of it. -/
def procDmCfg (cfg : DmCfg) : DmCfg :=
  if b.Resets then if b.Nrb then cfg else .zero
  else if b.sysUpStat = .powerOn ∧ ¬b.Offtime then .zero
  else cfg

/-- `nv_restore`, on `dm_cfg`. -/
def restoreDmCfg (ram : DmCfg) (flash : Option DmCfg) : DmCfg :=
  match findDmCfg b ram flash with
  | some cfg => if b.sysUpStat = .powerOn ∧ b.fac.needStartDm = 1 then cfg else procDmCfg b cfg
  | none => .zero

end

/-! ### Boots that keep `dm_cfg` -/

/-- `dm_cfg` comes back: it is looked for where there is a copy, and the boot is a wake-up, a
power-on with `need_start_dm` or of `AT+OFFTIME`, or the reset of `AT+NRB`. -/
structure Boot.Keeps (b : Boot) : Prop where
  found : b.fac.keepRetensionMem = 1 →
    b.retained = true ∨ b.fac.backupThreshold ≠ 0 ∨ b.fac.highFreqData = 1
  kept : ¬b.Resets ∧ b.sysUpStat ≠ .powerOn ∨
    b.sysUpStat = .powerOn ∧ (b.fac.needStartDm = 1 ∨ b.Offtime) ∨ b.Nrb

instance (b : Boot) : Decidable b.Keeps :=
  decidable_of_iff ((b.fac.keepRetensionMem = 1 →
      b.retained = true ∨ b.fac.backupThreshold ≠ 0 ∨ b.fac.highFreqData = 1) ∧
    (¬b.Resets ∧ b.sysUpStat ≠ .powerOn ∨
      b.sysUpStat = .powerOn ∧ (b.fac.needStartDm = 1 ∨ b.Offtime) ∨ b.Nrb))
    ⟨fun h => ⟨h.1, h.2⟩, fun h => ⟨h.1, h.2⟩⟩

theorem Boot.Keeps.not_erases {b : Boot} (h : b.Keeps) : ¬b.Erases := by
  rintro ((hwdt | ⟨hsoft, hassert⟩) | ⟨hpin, -⟩)
  · rcases h.kept with ⟨hno, -⟩ | ⟨hon, -⟩ | ⟨hnrb, -⟩
    · exact hno (.inl hwdt)
    · cases hwdt.symm.trans hon
    · cases hwdt.symm.trans hnrb
  · rcases h.kept with ⟨hno, -⟩ | ⟨hon, -⟩ | ⟨-, hnrb, -⟩
    · exact hno (.inr (.inl hsoft))
    · cases hsoft.symm.trans hon
    · cases hassert.symm.trans hnrb
  · rcases h.kept with ⟨hno, -⟩ | ⟨hon, -⟩ | ⟨hnrb, -⟩
    · exact hno (.inr (.inr hpin))
    · cases hpin.symm.trans hon
    · cases hpin.symm.trans hnrb

/-- Such a boot gives back what it finds. -/
theorem Boot.Keeps.restore {b : Boot} (h : b.Keeps) (ram : DmCfg) (flash : Option DmCfg) :
    restoreDmCfg b ram flash = (findDmCfg b ram flash).getD .zero := by
  unfold restoreDmCfg
  cases findDmCfg b ram flash with
  | none => rfl
  | some cfg =>
    dsimp only [Option.getD_some]
    unfold procDmCfg
    rcases h.kept with ⟨hno, hon⟩ | ⟨hon, hdm | hoff⟩ | hnrb
    · rw [if_neg fun h => hon h.1, if_neg hno, if_neg fun h => hon h.1]
    · rw [if_pos ⟨hon, hdm⟩]
    · have hno : ¬b.Resets := by
        rintro (h | h | h) <;> cases hon.symm.trans h
      have hback : ¬(b.sysUpStat = .powerOn ∧ ¬b.Offtime) := fun h => h.2 hoff
      rw [if_neg hno, if_neg hback, ite_self]
    · have hoff : ¬(b.sysUpStat = .powerOn ∧ b.fac.needStartDm = 1) := by
        rintro ⟨hon, -⟩
        cases hnrb.1.symm.trans hon
      have hreset : b.Resets := .inr (.inl hnrb.1)
      rw [if_neg hoff, if_pos hreset, if_pos hnrb]

/-- **What is kept** is the copy in memory or the one in flash. -/
theorem restoreDmCfg_keeps {b : Boot} (h : b.Keeps) (ram cfg : DmCfg) :
    restoreDmCfg b ram (some cfg) = ram ∨ restoreDmCfg b ram (some cfg) = cfg := by
  rw [h.restore]
  unfold findDmCfg
  dsimp only [Option.some_or]
  split_ifs with hkeep hretained hread
  · exact .inl rfl
  · exact .inr rfl
  · exact absurd (h.found hkeep) (not_or.mpr ⟨hretained, hread⟩)
  · exact .inr rfl

/-- **What is not kept** is cleared. -/
theorem restoreDmCfg_clears {b : Boot} (h : ¬b.Keeps) (ram : DmCfg) (flash : Option DmCfg) :
    restoreDmCfg b ram flash = .zero := by
  by_cases hfound : b.fac.keepRetensionMem = 1 →
      b.retained = true ∨ b.fac.backupThreshold ≠ 0 ∨ b.fac.highFreqData = 1
  · unfold restoreDmCfg
    cases findDmCfg b ram flash with
    | none => rfl
    | some cfg =>
      have hno : ¬(b.sysUpStat = .powerOn ∧ b.fac.needStartDm = 1) := fun hon =>
        h ⟨hfound, .inr (.inl ⟨hon.1, .inl hon.2⟩)⟩
      dsimp only
      rw [if_neg hno, procDmCfg]
      by_cases hreset : b.Resets
      · rw [if_pos hreset, if_neg fun hnrb => h ⟨hfound, .inr (.inr hnrb)⟩]
      by_cases hon : b.sysUpStat = .powerOn
      · have hoff : ¬b.Offtime := fun hoff => h ⟨hfound, .inr (.inl ⟨hon, .inr hoff⟩)⟩
        rw [if_neg hreset, if_pos ⟨hon, hoff⟩]
      · exact absurd ⟨hfound, .inl ⟨hreset, hon⟩⟩ h
  · obtain ⟨hkeep, hnone⟩ := Classical.not_imp.mp hfound
    obtain ⟨hdirty, hread⟩ := not_or.mp hnone
    rw [restoreDmCfg, findDmCfg, if_pos hkeep, if_neg hdirty, if_neg hread]

/-! ### On the whole of retention memory -/

/-- What `nv_restore` calls leaves `dm_cfg`. -/
structure LeavesDmCfg (hooks : Hooks) : Prop where
  restoreRtcList : ∀ m, (hooks.restoreRtcList m).Agree m dmCfg dmCfgLen
  setDspWorkMode : ∀ m, (hooks.setDspWorkMode m).Agree m dmCfg dmCfgLen
  rtcTimersReset : ∀ m, (hooks.rtcTimersReset m).Agree m dmCfg dmCfgLen

/-- The boot, on a board behind the erase of an abnormal reset. -/
structure Boot.Meets (b : Boot) (env : BootEnv) (s : Soc) : Prop where
  sysUpStat : b.sysUpStat = env.sysUpStat
  softresetType : b.softresetType = env.softresetType
  fac : b.fac = env.fac
  mainPinReset : b.mainPinReset = env.mainPinReset
  retained : b.retained = true ↔ Retained s.mem

/-- The `dm_cfg` that `xy_ftl_read` finds. -/
def flashDmCfg (env : BootEnv) (s : Soc) : Option DmCfg :=
  match xyFtlRead env.flash env.fuel NV_FLASH_DSP_VOLATILE_BASE (UInt32.ofNat xyFtlAvailableSize)
      s.board with
  | .ok (some data) _ => some (.ofMem (s.mem.write 0 data))
  | _ => none

/-- The `dm_cfg` in what was found. -/
def foundDmCfg : Found → Option DmCfg
  | .ok s => some (.ofMem s.mem)
  | .nvErr _ => none

theorem DmCfg.ofMem_congr {m m' : Buf} (h : m.Agree m' dmCfg dmCfgLen) :
    DmCfg.ofMem m = DmCfg.ofMem m' := by
  have hbyte : m dmCfg = m' dmCfg := h dmCfg (Nat.le_refl _) (by decide)
  have hread : m.read (dmCfg + 1) 23 = m'.read (dmCfg + 1) 23 := h.read (by decide) (by decide)
  have hword : m.word (dmCfg + 24) = m'.word (dmCfg + 24) :=
    Buf.word_congr fun i hi => h _ (by omega) (by rw [dmCfgLen]; omega)
  rw [DmCfg.ofMem, DmCfg.ofMem, hbyte, hread, hword]

/-- Zeros over `dm_cfg`. -/
theorem DmCfg.ofMem_fill {m : Buf} {n : Nat} (h : dmCfg + dmCfgLen ≤ n) :
    DmCfg.ofMem (m.fill 0 n 0) = .zero := by
  have hzero : (m.fill 0 n 0).Agree (fun _ => 0) dmCfg dmCfgLen := fun i _ hi =>
    Buf.fill_inside (Nat.zero_le i) (by omega)
  rw [DmCfg.ofMem_congr hzero]
  rfl

theorem DmCfg.ofMem_clearMem (stat : SysUpStat) (m : Buf) : DmCfg.ofMem (clearMem stat m) = .zero :=
  ofMem_fill (by split <;> decide)

/-- A fill below `dm_cfg`. -/
theorem fill_agree {m : Buf} {a n : Nat} (h : a + n ≤ dmCfg) (v : UInt8) :
    (m.fill a n v).Agree m dmCfg dmCfgLen :=
  fun i hi _ => Buf.fill_outside (.inr (by omega))

theorem putWord_agree {m : Buf} {a : Nat} (h : a + 4 ≤ dmCfg) (v : UInt32) :
    (m.putWord a v).Agree m dmCfg dmCfgLen :=
  fun i hi _ => Buf.putWord_outside (.inr (by omega))

variable {hooks : Hooks} {env : BootEnv} {b : Boot} {s : Soc}

/-- The reset of `AT+NRB` writes below `dm_cfg`. -/
theorem nrb_agree (hhooks : LeavesDmCfg hooks) (m : Buf) :
    ((putDword (hooks.restoreRtcList (hooks.rtcTimersReset
      ((m.putWord (ramNvVolatileSoftapStart + 4) 0).putWord ramNvVolatileSoftapStart 0)))
        rtcMsecReset 0).fill 0 dspVolatileAllLen 0).Agree m dmCfg dmCfgLen := by
  intro i hi hi'
  rw [fill_agree (by decide) _ i hi hi', putDword, putWord_agree (by decide) _ i hi hi',
    putWord_agree (by decide) _ i hi hi', hhooks.restoreRtcList _ i hi hi',
    hhooks.rtcTimersReset _ i hi hi', putWord_agree (by decide) _ i hi hi',
    putWord_agree (by decide) _ i hi hi']

/-- A reset leaves `dm_cfg` if it is that of `AT+NRB` with a time saved, and clears it otherwise. -/
theorem procByUpStat_reset (hhooks : LeavesDmCfg hooks) {m : Buf}
    (hreset : env.sysUpStat = .wdtReset ∨ env.sysUpStat = .softReset ∨
      env.sysUpStat = .pinReset) :
    DmCfg.ofMem (procByUpStat hooks env m) =
      if env.sysUpStat = .softReset ∧ env.softresetType = .byNrb ∧
          ¬(m.word rtcMsecReset = 0 ∧ m.word (rtcMsecReset + 4) = 0) ∧
          ¬(m.word rtcMsecReset = 0xffffffff ∧ m.word (rtcMsecReset + 4) = 0) then .ofMem m
      else .zero := by
  have hmode : ∀ m', DmCfg.ofMem (if env.fac.workMode ≠ 0 then m' else hooks.setDspWorkMode m') =
      .ofMem m' := by
    intro m'
    split
    · rfl
    · exact DmCfg.ofMem_congr (hhooks.setDspWorkMode m')
  unfold procByUpStat
  dsimp only
  rw [if_pos hreset, hmode]
  split
  · exact DmCfg.ofMem_congr (nrb_agree hhooks m)
  · exact DmCfg.ofMem_clearMem _ m

/-- A power-on but that of `AT+OFFTIME` clears `dm_cfg`, and a wake-up leaves it. -/
theorem procByUpStat_not_reset (hhooks : LeavesDmCfg hooks) {m : Buf}
    (hreset : ¬(env.sysUpStat = .wdtReset ∨ env.sysUpStat = .softReset ∨
      env.sysUpStat = .pinReset)) :
    DmCfg.ofMem (procByUpStat hooks env m) =
      if env.sysUpStat = .powerOn ∧ ¬(env.fac.workMode = 0 ∧ env.sysUpStat = .powerOn ∧
          ¬env.fac.OperationVer ∧ env.fac.keepRetensionMem = 0 ∧ env.fac.offtime = 1 ∧
          rtcSnapSec m ≠ 0 ∧ nextPsSec m ≠ 0 ∧ nextPsSec m > rtcSnapSec m) then .zero
      else .ofMem m := by
  have hdsp : ∀ m, DmCfg.ofMem (hooks.setDspWorkMode m) = .ofMem m := fun m =>
    DmCfg.ofMem_congr (hhooks.setDspWorkMode m)
  have hrtc : ∀ m, DmCfg.ofMem (hooks.restoreRtcList m) = .ofMem m := fun m =>
    DmCfg.ofMem_congr (hhooks.restoreRtcList m)
  unfold procByUpStat
  dsimp only
  rw [if_neg hreset]
  by_cases hwork : env.fac.workMode ≠ 0
  · rw [if_pos hwork]
    by_cases hon : env.sysUpStat = .powerOn
    · rw [if_pos hon, if_pos ⟨hon, fun h => hwork h.1⟩]
      exact DmCfg.ofMem_fill (by decide)
    · rw [if_neg hon, if_neg fun h => hon h.1, hrtc]
      exact DmCfg.ofMem_congr (fill_agree (by decide) 0)
  · -- in this mode the power-on of `AT+OFFTIME` is told apart
    rw [if_neg hwork]
    have hzero := not_not.mp hwork
    split_ifs with hoff hclears hon hclears hclears
    · exact absurd ⟨hzero, hoff⟩ hclears.2
    · exact DmCfg.ofMem_congr (fill_agree (by decide) 0)
    · rw [hdsp]
      exact DmCfg.ofMem_fill (by decide)
    · exact absurd ⟨hon, fun h => hoff h.2⟩ hclears
    · exact absurd hclears.1 hon
    · rw [hdsp, hrtc]

theorem procByUpStat_dmCfg (hhooks : LeavesDmCfg hooks) (hb : b.Meets env s) {m : Buf}
    (hmsec : b.msecReset = true ↔ ¬(m.word rtcMsecReset = 0 ∧ m.word (rtcMsecReset + 4) = 0) ∧
      ¬(m.word rtcMsecReset = 0xffffffff ∧ m.word (rtcMsecReset + 4) = 0))
    (hoff : b.offtimeDue = true ↔
      rtcSnapSec m ≠ 0 ∧ nextPsSec m ≠ 0 ∧ nextPsSec m > rtcSnapSec m) :
    DmCfg.ofMem (procByUpStat hooks env m) = procDmCfg b (.ofMem m) := by
  unfold procDmCfg Boot.Resets Boot.Nrb Boot.Offtime
  simp only [hb.sysUpStat, hb.softresetType, hb.fac, hmsec, hoff]
  by_cases hreset : env.sysUpStat = .wdtReset ∨ env.sysUpStat = .softReset ∨
      env.sysUpStat = .pinReset
  · rw [if_pos hreset, procByUpStat_reset hhooks hreset]
  · rw [if_neg hreset, procByUpStat_not_reset hhooks hreset]

/-- `READ_FLASH`. -/
theorem readFlash_dmCfg {found : Found} (h : readFlash env s = .ok found) :
    (flashDmCfg env s).or (if env.fac.highFreqData = 1 then some .zero else none) =
      foundDmCfg found := by
  unfold readFlash onBoard at h
  unfold flashDmCfg
  rcases hread : xyFtlRead env.flash env.fuel NV_FLASH_DSP_VOLATILE_BASE
    (UInt32.ofNat xyFtlAvailableSize) s.board with ⟨data, board⟩ | ⟨fault, board⟩
  · rw [hread] at h
    cases data with
    | some data =>
      cases h
      rfl
    | none =>
      by_cases hhigh : env.fac.highFreqData = 1
      · simp only [bind, Except.bind, if_pos hhigh] at h
        cases h
        rw [if_pos hhigh]
        exact congrArg some (DmCfg.ofMem_clearMem _ _).symm
      · simp only [bind, Except.bind, if_neg hhigh] at h
        cases h
        rw [if_neg hhigh]
        rfl
  · rw [hread] at h
    cases h

theorem restoreVolatileNv_dmCfg (hb : b.Meets env s) {found : Found}
    (h : restoreVolatileNv env s = .ok found) :
    findDmCfg b (.ofMem s.mem) (flashDmCfg env s) = foundDmCfg found := by
  have hretained := hb.retained
  unfold restoreVolatileNv at h
  unfold findDmCfg
  rw [hb.fac]
  dsimp only
  by_cases hkeep : env.fac.keepRetensionMem = 1
  · rw [if_pos hkeep] at h
    rw [if_pos hkeep]
    by_cases h2 : s.mem.word backupMemChecksum = softapChksum s.mem ∧
        s.mem.word backupMemFlag = bkFlagInuse2
    · rw [if_pos h2] at h
      rw [if_pos (hretained.mpr ⟨h2.1, .inl h2.2⟩)]
      split at h
      · cases h
        rfl
      · cases h
    rw [if_neg h2] at h
    by_cases h1 : s.mem.word backupMemChecksum = softapChksum s.mem ∧
        s.mem.word backupMemFlag = bkFlagInuse
    · rw [if_pos h1] at h
      rw [if_pos (hretained.mpr ⟨h1.1, .inr h1.2⟩)]
      cases h
      rfl
    rw [if_neg h1] at h
    have hdirty : ¬ b.retained = true := by
      rw [hretained]
      rintro ⟨hsum, hflag | hflag⟩
      · exact h2 ⟨hsum, hflag⟩
      · exact h1 ⟨hsum, hflag⟩
    rw [if_neg hdirty]
    by_cases hback : env.fac.backupThreshold ≠ 0 ∨ env.fac.highFreqData = 1
    · rw [if_pos hback] at h
      rw [if_pos hback]
      exact readFlash_dmCfg h
    · rw [if_neg hback] at h
      rw [if_neg hback]
      cases h
      rfl
  · rw [if_neg hkeep] at h
    rw [if_neg hkeep]
    exact readFlash_dmCfg h

/-- The retention memory `nv_restore` ends with. -/
def endMem (hooks : Hooks) (env : BootEnv) : Found → Buf
  | .ok s =>
    let m := procByUpStat hooks env s.mem
    if env.sysUpStat = .powerOn ∧ env.fac.needStartDm = 1 then
      m.write dmCfg (s.mem.read dmCfg dmCfgLen)
    else m
  | .nvErr s =>
    let m := s.mem.fill 0 flashSectorLength 0
    if env.fac.workMode ≠ 0 then m else hooks.setDspWorkMode m

/-- Behind the erase and the assertion, which leaves memory and flash, `nv_restore` ends with what it
makes of the NV that was found. -/
theorem nvRestore_found {s₁ s' : Soc} (herase : eraseByUpStat env s = .ok s₁)
    (h : nvRestore hooks env s = .ok s') :
    ∃ (s₂ : Soc) (found : Found), s₂.mem = s₁.mem ∧ s₂.board = s₁.board ∧
      restoreVolatileNv env s₂ = .ok found ∧ s'.mem = endMem hooks env found := by
  have hfrom : ∀ s₂ : Soc, (restoreVolatileNv env s₂ >>= fun found => match found with
        | .ok s => pure { s with mem := endMem hooks env (.ok s) }
        | .nvErr s => pure { s with mem := endMem hooks env (.nvErr s) }) = .ok s' →
      ∃ found, restoreVolatileNv env s₂ = .ok found ∧ s'.mem = endMem hooks env found := by
    intro s₂ h
    rcases hfound : restoreVolatileNv env s₂ with fault | found
    · rw [hfound] at h
      cases h
    · rw [hfound] at h
      cases found <;> cases h <;> exact ⟨_, rfl, rfl⟩
  unfold nvRestore at h
  rw [herase] at h
  by_cases hhigh : env.fac.highFreqData = 1
  · by_cases hkeep : env.fac.keepRetensionMem = 1
    · simp only [bind, Except.bind, if_pos hhigh, xyAssert, if_pos hkeep] at h
      obtain ⟨found, hfound, hend⟩ := hfrom { s₁ with gUserVolData := some .zero } h
      exact ⟨{ s₁ with gUserVolData := some .zero }, found, rfl, rfl, hfound, hend⟩
    · simp only [bind, Except.bind, if_pos hhigh, xyAssert, if_neg hkeep] at h
      cases h
  · simp only [bind, Except.bind, if_neg hhigh] at h
    obtain ⟨found, hfound, hend⟩ := hfrom s₁ h
    exact ⟨s₁, found, rfl, rfl, hfound, hend⟩

/-- **What becomes of `dm_cfg`** is what `nv_restore` does. -/
theorem nvRestore_dmCfg (hhooks : LeavesDmCfg hooks) {s₁ s' : Soc}
    (herase : eraseByUpStat env s = .ok s₁) (h : nvRestore hooks env s = .ok s') :
    ∃ b : Boot, b.Meets env s₁ ∧
      DmCfg.ofMem s'.mem = restoreDmCfg b (.ofMem s₁.mem) (flashDmCfg env s₁) := by
  classical
  obtain ⟨s₂, found, hmem, hboard, hfound, hend⟩ := nvRestore_found herase h
  -- the times that decide are those in the memory that was found
  let m : Buf := match found with
    | .ok s => s.mem
    | .nvErr s => s.mem
  let b : Boot :=
    { sysUpStat := env.sysUpStat
      softresetType := env.softresetType
      fac := env.fac
      mainPinReset := env.mainPinReset
      retained := decide (Retained s₁.mem)
      msecReset := decide (¬(m.word rtcMsecReset = 0 ∧ m.word (rtcMsecReset + 4) = 0) ∧
        ¬(m.word rtcMsecReset = 0xffffffff ∧ m.word (rtcMsecReset + 4) = 0))
      offtimeDue := decide (rtcSnapSec m ≠ 0 ∧ nextPsSec m ≠ 0 ∧ nextPsSec m > rtcSnapSec m) }
  have hmeets : b.Meets env s₁ := ⟨rfl, rfl, rfl, rfl, decide_eq_true_iff⟩
  have hmeets₂ : b.Meets env s₂ := ⟨rfl, rfl, rfl, rfl, hmem ▸ decide_eq_true_iff⟩
  have hflash : flashDmCfg env s₂ = flashDmCfg env s₁ := by
    rw [flashDmCfg, flashDmCfg, hmem, hboard]
  have hfind : findDmCfg b (.ofMem s₁.mem) (flashDmCfg env s₁) = foundDmCfg found := by
    rw [← hflash, ← hmem]
    exact restoreVolatileNv_dmCfg hmeets₂ hfound
  refine ⟨b, hmeets, ?_⟩
  rw [restoreDmCfg, hfind, hend]
  cases found with
  | ok s₃ =>
    dsimp only [foundDmCfg, endMem]
    split
    · refine DmCfg.ofMem_congr fun i hi hi' => ?_
      obtain ⟨j, rfl⟩ := Nat.exists_eq_add_of_le hi
      exact Buf.write_read_inside (by omega)
    · exact procByUpStat_dmCfg hhooks hmeets decide_eq_true_iff decide_eq_true_iff
  | nvErr s₃ =>
    dsimp only [foundDmCfg, endMem]
    split
    · exact DmCfg.ofMem_fill (by decide)
    · rw [DmCfg.ofMem_congr (hhooks.setDspWorkMode _)]
      exact DmCfg.ofMem_fill (by decide)

end XY1100.Dm
