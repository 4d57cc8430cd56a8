import XY1100.System.VolatileNv

/-!
# System — what survives deep sleep

A save followed by deep sleep and a wake-up gives the volatile NV back (`round_trip_iff`) when
`keep_retension_mem` is `0` or `1`, the two values the two paths test for, and when the save
wrote back all the same.  With another value the save leaves the volatile NV in retention memory
and the restore reads flash, so it comes back as flash last held it.

Where the save writes back and the restore reads flash, the region has to take the write
(`FtlRegion.Takes`): a page that is not intact but has a higher number hides the page that is
written.
-/

namespace XY1100.Nv
open Support

/-- Two memories hold the same `softap_var_nv_t` and RTC list. -/
def SameNv (m m' : Buf) : Prop :=
  m.Agree m' ramNvVolatileSoftapStart (ramNvVolatileSoftapLen + ramNvVolatileRtclistLen)

/-- A save, deep sleep of any kind, and a restore up to `restore_RTC_list`, give the volatile NV
back, and `g_user_vol_data` where it is in use. -/
def RoundTrips (env : SleepEnv) (boot : BootEnv) (s : Soc) : Prop :=
  ∃ s₁, saveVolatileNv env false s = .ok s₁ ∧ ∀ s₂, Sleeps s₁ s₂ →
    ∃ s₃, nvRestore Hooks.none boot s₂ = .ok s₃ ∧ SameNv s₃.mem s.mem ∧
      (env.fac.highFreqData = 1 → ∀ d, s.gUserVolData = some d → s₃.gUserVolData = some d)

/-- `check_conflict_nv` reports nothing and the assertion of `nv_restore` holds. -/
def Accepted (fac : SoftapFacNv) : Prop :=
  checkConflictNv fac = [] ∧ (fac.highFreqData = 1 → fac.keepRetensionMem = 1)

/-- The region of the volatile NV. -/
def dspVolatile : FtlRegion where
  cfg := ⟨NV_FLASH_DSP_VOLATILE_BASE, 3⟩
  aligned := by decide
  base_le := by decide
  end_le := by decide

/-- The flash operations succeed: the region is registered, the battery good, and the choice of a
page may be made once more than there are pages. -/
structure FlashGood (env : Env) (fuel : Nat) : Prop where
  registered : dspVolatile.Registered env
  vbatOk : ∀ k, env.vbatOk k = true
  fuel : dspVolatile.pages < fuel

/-- A boot from deep sleep with the parameters of the save. -/
structure WakesUp (env : SleepEnv) (boot : BootEnv) : Prop where
  stat : boot.sysUpStat = .utcWakeup ∨ boot.sysUpStat = .extpinWakeup
  fac : boot.fac = env.fac
  flash : FlashGood boot.flash boot.fuel

/-- What the volatile region has stored, zeros where it has nothing. -/
def storedNv (f : Buf) : Buf := (dspVolatile.stored f).getD fun _ => 0

/-! ### The seal -/

/-- The seal is stored above the NV. -/
theorem sealMem_below {m : Buf} {flag : UInt32} {i : Nat} (h : i < backupMemChecksum) :
    sealMem m flag i = m i := by
  unfold sealMem
  rw [Buf.putWord_outside (.inl (Nat.lt_of_lt_of_le h (by decide))), Buf.putWord_outside (.inl h)]

theorem softapChksum_congr {m m' : Buf}
    (h : m.Agree m' ramNvVolatileSoftapStart ramNvVolatileSoftapLen) :
    softapChksum m = softapChksum m' := xyChksum_congr h

theorem softapChksum_sealMem (m : Buf) (flag : UInt32) :
    softapChksum (sealMem m flag) = softapChksum m := by
  refine softapChksum_congr ?_
  intro i _ hi
  exact sealMem_below (Nat.lt_of_lt_of_le hi (by decide))

theorem sealMem_checksum (m : Buf) (flag : UInt32) :
    (sealMem m flag).word backupMemChecksum = softapChksum m := by
  unfold sealMem
  rw [Buf.word_putWord_ne (.inl (by decide)), Buf.word_putWord]

@[simp] theorem sealMem_flag (m : Buf) (flag : UInt32) :
    (sealMem m flag).word backupMemFlag = flag := Buf.word_putWord ..

/-- A sealed memory passes the checksum test. -/
theorem sealMem_valid (m : Buf) (flag : UInt32) :
    (sealMem m flag).word backupMemChecksum = softapChksum (sealMem m flag) := by
  rw [sealMem_checksum, softapChksum_sealMem]

theorem sameNv_sealMem (m : Buf) (flag : UInt32) : SameNv (sealMem m flag) m := by
  intro i _ hi
  exact sealMem_below (Nat.lt_of_lt_of_le hi (by decide))

/-- The user data lies below the NV. -/
theorem sameNv_write_user (m : Buf) (d : UserVolData) : SameNv (m.write 0 d.bytes) m := by
  intro i hi _
  refine Buf.write_outside (.inr ?_)
  rw [d.length_eq]
  exact Nat.le_trans (by decide) hi

theorem SameNv.symm {m m' : Buf} (h : SameNv m m') : SameNv m' m :=
  fun i hi hi' => (h i hi hi').symm

theorem SameNv.trans {m₁ m₂ m₃ : Buf} (h₁ : SameNv m₁ m₂) (h₂ : SameNv m₂ m₃) : SameNv m₁ m₃ := by
  intro i hi hi'
  rw [h₁ i hi hi', h₂ i hi hi']

/-- The user data is read back from below the seal. -/
theorem ofMem_sealMem (m : Buf) (d : UserVolData) (flag : UInt32) :
    UserVolData.ofMem (sealMem (m.write 0 d.bytes) flag) = d := by
  obtain ⟨bytes, hlen⟩ := d
  simp only [UserVolData.ofMem, UserVolData.mk.injEq]
  calc (sealMem (m.write 0 bytes) flag).read 0 userVolDataLen
      = (m.write 0 bytes).read 0 userVolDataLen := by
        refine Buf.read_congr ?_
        intro i hi
        exact sealMem_below (Nat.lt_of_lt_of_le (by omega) (show userVolDataLen ≤ _ by decide))
    _ = bytes := by rw [← hlen, Buf.read_write]

/-! ### The save -/

section
variable {env : SleepEnv} {s : Soc}

@[simp] theorem ok_bind {α β : Type} (a : α) (f : α → Except NvFault β) :
    (Except.ok a >>= f) = f a := rfl

theorem powered_x41 : Powered 0x41 := rfl

theorem not_powered_and_xFE (reg : UInt8) : ¬ Powered (reg &&& 0xFE) := by
  unfold Powered
  rw [UInt8.and_assoc, show (0xFE : UInt8) &&& 1 = 0 from rfl, UInt8.and_zero]
  decide

theorem onBoard_ok {α : Type} {x : Exec α} {a : α} {b : Board} (h : x s.board = .ok a b) :
    onBoard x s = .ok (a, { s with board := b }) := by
  simp only [onBoard, h]

/-- The write of the working NV lies in the user area. -/
theorem length_nv_le (m : Buf) : 0 + (m.read 0 xyFtlAvailableSize).length ≤ xyFtlAvailableSize := by
  rw [Buf.length_read, Nat.zero_add]

theorem writeBack_of_ok {b : Board}
    (h : xyFtlWrite env.flash env.fuel dspVolatile.addr ((0 : Nat) : Int)
      (s.mem.read 0 xyFtlAvailableSize) s.board = .ok .xyOk b) :
    writeBack env s = .ok { s with board := b } := by
  have h' : onBoard (xyFtlWrite env.flash env.fuel NV_FLASH_DSP_VOLATILE_BASE 0
      (s.mem.read 0 xyFtlAvailableSize)) s = .ok (.xyOk, { s with board := b }) := onBoard_ok h
  rw [writeBack, h']
  rfl

theorem writeBack_ok (hgood : FlashGood env.flash env.fuel) :
    ∃ b, writeBack env s = .ok { s with board := b } := by
  obtain ⟨b, h⟩ := FtlRegion.xyFtlWrite_ok hgood.registered (by decide) (by decide) hgood.vbatOk
    hgood.fuel s.board (length_nv_le s.mem)
  exact ⟨b, writeBack_of_ok h⟩

/-- What is written back is stored, where the region takes it. -/
theorem writeBack_stored (hgood : FlashGood env.flash env.fuel)
    (htakes : dspVolatile.Takes s.board.flash 0 (s.mem.read 0 xyFtlAvailableSize)) :
    ∃ b, writeBack env s = .ok { s with board := b } ∧ SameNv (storedNv b.flash) s.mem := by
  obtain ⟨b, u, h, hstored, hu⟩ := FtlRegion.xyFtlWrite_stored hgood.registered (by decide)
    (by decide) hgood.vbatOk hgood.fuel htakes
  refine ⟨b, writeBack_of_ok h, ?_⟩
  intro i _ hi
  have hin : i < xyFtlAvailableSize := Nat.lt_of_lt_of_le hi (by decide)
  have hcopy := Buf.write_read_inside (m := (dspVolatile.area s.board.flash).getD fun _ => 0)
    (f := s.mem) (a := 0) (c := 0) hin
  rw [storedNv, hstored, Option.getD_some, hu i (Nat.zero_le i) (by omega)]
  simpa using hcopy

/-- The retention memory `save_user_ram_to_retension_mem` leaves: the user data over the protocol
stack's part, and the seal. -/
def userMem (s : Soc) : Buf :=
  match s.gUserVolData with
  | some d => sealMem (s.mem.write 0 d.bytes) bkFlagInuse2
  | none => sealMem s.mem bkFlagInuse

theorem saveUserRam_ok (hgood : FlashGood env.flash env.fuel) :
    ∃ b, saveUserRamToRetensionMem env s = .ok { s with mem := userMem s, board := b } := by
  obtain ⟨m, f, d, reg⟩ := s
  by_cases hdsp : env.dspIsNotLoaded = true
  · refine ⟨f, ?_⟩
    cases d <;> simp only [saveUserRamToRetensionMem, hdsp] <;> rfl
  · obtain ⟨b, hb⟩ := writeBack_ok (s := ⟨m, f, d, reg⟩) hgood
    refine ⟨b, ?_⟩
    cases d <;> simp only [saveUserRamToRetensionMem, hdsp, hb] <;> rfl

/-- The save with frequently changing user data. -/
theorem save_highFreq (hgood : FlashGood env.flash env.fuel) (hhigh : env.fac.highFreqData = 1) :
    ∃ b, saveVolatileNv env false s =
      .ok { s with mem := userMem s, board := b, gBKMEMCTLReg := 0x41 } := by
  obtain ⟨b, h⟩ := saveUserRam_ok (s := s) hgood
  refine ⟨b, ?_⟩
  simp only [saveVolatileNv, if_pos hhigh, Bool.false_eq_true, false_and, if_false, h]
  rfl

/-- The save that trusts retention memory. -/
theorem save_retained (hhigh : env.fac.highFreqData ≠ 1) (h : ¬ VarnvIsNeedWrtieback env s.mem) :
    saveVolatileNv env false s =
      .ok { s with mem := sealMem s.mem bkFlagInuse, gBKMEMCTLReg := 0x41 } := by
  simp only [saveVolatileNv, Bool.false_eq_true, false_and, if_false, if_neg hhigh, if_neg h]
  rfl

/-- The save that writes back and marks retention memory dirty. -/
theorem save_writeBack {b : Board} (hhigh : env.fac.highFreqData ≠ 1)
    (h : VarnvIsNeedWrtieback env s.mem) (hb : writeBack env s = .ok { s with board := b }) :
    ∃ m, saveVolatileNv env false s =
      .ok { s with mem := m, board := b, gBKMEMCTLReg := s.gBKMEMCTLReg &&& 0xFE } := by
  simp only [saveVolatileNv, Bool.false_eq_true, false_and, if_false, if_neg hhigh, if_pos h, hb]
  exact ⟨_, rfl⟩

end

/-! ### The wake-up -/

section
variable {env : SleepEnv} {boot : BootEnv} {s : Soc}

/-- Up to `restore_RTC_list`, a wake-up leaves the NV it found. -/
theorem sameNv_procByUpStat (hw : WakesUp env boot) (m : Buf) :
    SameNv (procByUpStat Hooks.none boot m) m := by
  have hstat : ¬ (boot.sysUpStat = .wdtReset ∨ boot.sysUpStat = .softReset ∨
      boot.sysUpStat = .pinReset) := by rcases hw.stat with h | h <;> simp [h]
  have hon : boot.sysUpStat ≠ .powerOn := by rcases hw.stat with h | h <;> simp [h]
  unfold procByUpStat
  simp only [if_neg hstat, hon, false_and, if_false]
  intro i hi _
  split
  · exact Buf.fill_outside (.inr (Nat.le_trans (by decide) hi))
  · rfl

theorem eraseByUpStat_wake (hw : WakesUp env boot) : eraseByUpStat boot s = .ok s := by
  unfold eraseByUpStat
  rcases hw.stat with hs | hs <;> simp [hs]

theorem nvRestore_wake (hw : WakesUp env boot) (hacc : env.fac.highFreqData = 1 →
    env.fac.keepRetensionMem = 1) {s' : Soc}
    (h : restoreVolatileNv boot (if env.fac.highFreqData = 1 then
      { s with gUserVolData := some .zero } else s) = .ok (.ok s')) :
    ∃ s₃, nvRestore Hooks.none boot s = .ok s₃ ∧ SameNv s₃.mem s'.mem ∧
      s₃.gUserVolData = s'.gUserVolData := by
  have hhigh : boot.fac.highFreqData = env.fac.highFreqData := by rw [hw.fac]
  have herase : eraseByUpStat boot s = .ok s := eraseByUpStat_wake hw
  have hon : ¬ (boot.sysUpStat = .powerOn ∧ boot.fac.needStartDm = 1) := by
    rcases hw.stat with hs | hs <;> simp [hs]
  refine ⟨{ s' with mem := procByUpStat Hooks.none boot s'.mem }, ?_,
    sameNv_procByUpStat hw s'.mem, rfl⟩
  unfold nvRestore
  by_cases hh : env.fac.highFreqData = 1
  · rw [if_pos hh] at h
    have hassert : xyAssert (boot.fac.keepRetensionMem = 1) = .ok () := by
      rw [hw.fac]
      exact if_pos (hacc hh)
    simp only [herase, hhigh, if_pos hh, hassert, ok_bind, pure, Except.pure, h, if_neg hon]
  · rw [if_neg hh] at h
    simp only [herase, hhigh, if_neg hh, pure, Except.pure, ok_bind, h, if_neg hon]

/-- A boot that finds no volatile NV starts from zeros. -/
theorem nvRestore_nvErr (hw : WakesUp env boot) (hhigh : env.fac.highFreqData ≠ 1) {s' : Soc}
    (h : restoreVolatileNv boot s = .ok (.nvErr s')) :
    ∃ s₃, nvRestore Hooks.none boot s = .ok s₃ ∧ SameNv s₃.mem fun _ => 0 := by
  have herase : eraseByUpStat boot s = .ok s := eraseByUpStat_wake hw
  refine ⟨{ s' with mem := s'.mem.fill 0 flashSectorLength 0 }, ?_, ?_⟩
  · simp only [nvRestore, herase, hw.fac, if_neg hhigh, pure, Except.pure, ok_bind, h, Hooks.none,
      id, ite_self]
  · intro i _ hi
    exact Buf.fill_inside (Nat.zero_le i) (Nat.lt_of_lt_of_le hi (by decide))

/-! ### Where the volatile NV is found -/

theorem restore_inuse (hkeep : boot.fac.keepRetensionMem = 1)
    (hsum : s.mem.word backupMemChecksum = softapChksum s.mem)
    (hflag : s.mem.word backupMemFlag = bkFlagInuse) : restoreVolatileNv boot s = .ok (.ok s) := by
  have hne : ¬ (s.mem.word backupMemChecksum = softapChksum s.mem ∧
      s.mem.word backupMemFlag = bkFlagInuse2) := by
    rintro ⟨-, h⟩
    rw [hflag] at h
    exact absurd h (by decide)
  simp only [restoreVolatileNv, if_pos hkeep, if_neg hne, if_pos (And.intro hsum hflag)]

theorem restore_inuse2 (hkeep : boot.fac.keepRetensionMem = 1)
    (hsum : s.mem.word backupMemChecksum = softapChksum s.mem)
    (hflag : s.mem.word backupMemFlag = bkFlagInuse2) {d : UserVolData}
    (hd : s.gUserVolData = some d) :
    restoreVolatileNv boot s = .ok (.ok { s with gUserVolData := some (.ofMem s.mem) }) := by
  simp only [restoreVolatileNv, if_pos hkeep, if_pos (And.intro hsum hflag), hd]

theorem restore_flash (h : boot.fac.keepRetensionMem = 1 →
    ¬ Retained s.mem ∧ boot.fac.backupThreshold ≠ 0) :
    restoreVolatileNv boot s = readFlash boot s := by
  unfold restoreVolatileNv
  by_cases hkeep : boot.fac.keepRetensionMem = 1
  · obtain ⟨hlost, hthreshold⟩ := h hkeep
    have h₂ : ¬ (s.mem.word backupMemChecksum = softapChksum s.mem ∧
        s.mem.word backupMemFlag = bkFlagInuse2) := fun hr => hlost ⟨hr.1, .inl hr.2⟩
    have h₁ : ¬ (s.mem.word backupMemChecksum = softapChksum s.mem ∧
        s.mem.word backupMemFlag = bkFlagInuse) := fun hr => hlost ⟨hr.1, .inr hr.2⟩
    rw [if_pos hkeep, if_neg h₂, if_neg h₁, if_pos (.inl hthreshold)]
  · rw [if_neg hkeep]

/-- A wake-up that reads flash gives back what the region has stored. -/
theorem nvRestore_flash (hw : WakesUp env boot) (hhigh : env.fac.highFreqData ≠ 1)
    (h : boot.fac.keepRetensionMem = 1 → ¬ Retained s.mem ∧ boot.fac.backupThreshold ≠ 0) :
    ∃ s₃, nvRestore Hooks.none boot s = .ok s₃ ∧ SameNv s₃.mem (storedNv s.board.flash) := by
  have hrestore := restore_flash h
  have hhigh' : boot.fac.highFreqData ≠ 1 := by rwa [hw.fac]
  obtain ⟨b, hread⟩ := FtlRegion.xyFtlRead_stored hw.flash.registered (by decide) hw.flash.vbatOk
    hw.flash.fuel s.board (Nat.le_refl xyFtlAvailableSize)
  have hread' : onBoard (xyFtlRead boot.flash boot.fuel NV_FLASH_DSP_VOLATILE_BASE
      (UInt32.ofNat xyFtlAvailableSize)) s = .ok _ := onBoard_ok hread
  rcases hstored : dspVolatile.stored s.board.flash with _ | f
  · rw [hstored] at hread'
    have hfound : restoreVolatileNv boot s = .ok (.nvErr { s with board := b }) := by
      rw [hrestore, readFlash, hread']
      simp only [ok_bind, Option.map_none, if_neg hhigh']
      rfl
    obtain ⟨s₃, h₃, hsame⟩ := nvRestore_nvErr hw hhigh hfound
    exact ⟨s₃, h₃, by rwa [storedNv, hstored]⟩
  · rw [hstored] at hread'
    have hfound : restoreVolatileNv boot (if env.fac.highFreqData = 1 then
        { s with gUserVolData := some .zero } else s) =
        .ok (.ok { s with board := b, mem := s.mem.write 0 (f.read 0 xyFtlAvailableSize) }) := by
      rw [if_neg hhigh, hrestore, readFlash, hread']
      rfl
    obtain ⟨s₃, h₃, hsame, -⟩ := nvRestore_wake hw (fun hh => absurd hh hhigh) hfound
    refine ⟨s₃, h₃, hsame.trans ?_⟩
    intro i _ hi
    have hin : i < xyFtlAvailableSize := Nat.lt_of_lt_of_le hi (by decide)
    have hcopy := Buf.write_read_inside (m := s.mem) (f := f) (a := 0) (c := 0) hin
    rw [storedNv, hstored]
    simpa using hcopy

end

/-! ### The round trip -/

section
variable {env : SleepEnv} {boot : BootEnv} {s : Soc}

/-- A memory that keeps its power is found as it was left. -/
theorem roundTrips_highFreq (hacc : env.fac.highFreqData = 1 → env.fac.keepRetensionMem = 1)
    (hgood : FlashGood env.flash env.fuel) (hw : WakesUp env boot)
    (hhigh : env.fac.highFreqData = 1) : RoundTrips env boot s := by
  obtain ⟨b, hsave⟩ := save_highFreq (s := s) hgood hhigh
  refine ⟨_, hsave, ?_⟩
  intro s₂ hsleep
  have hmem : s₂.mem = userMem s := hsleep.kept powered_x41
  have hkeep : boot.fac.keepRetensionMem = 1 := by rw [hw.fac]; exact hacc hhigh
  have hsum : s₂.mem.word backupMemChecksum = softapChksum s₂.mem := by
    rw [hmem]
    unfold userMem
    split <;> exact sealMem_valid _ _
  rcases hd : s.gUserVolData with _ | d
  · have hflag : s₂.mem.word backupMemFlag = bkFlagInuse := by
      simp only [hmem, userMem, hd, sealMem_flag]
    obtain ⟨s₃, h₃, hsame, -⟩ := nvRestore_wake (s := s₂) hw hacc
      (by rw [if_pos hhigh]; exact restore_inuse hkeep hsum hflag)
    refine ⟨s₃, h₃, hsame.trans ?_, ?_⟩
    · simp only [hmem, userMem, hd]
      exact sameNv_sealMem _ _
    · intro _ d hd'
      cases hd'
  · have hflag : s₂.mem.word backupMemFlag = bkFlagInuse2 := by
      simp only [hmem, userMem, hd, sealMem_flag]
    obtain ⟨s₃, h₃, hsame, huser⟩ := nvRestore_wake (s := s₂) hw hacc
      (by rw [if_pos hhigh]; exact restore_inuse2 hkeep hsum hflag rfl)
    refine ⟨s₃, h₃, hsame.trans ?_, ?_⟩
    · simp only [hmem, userMem, hd]
      exact (sameNv_sealMem _ _).trans (sameNv_write_user _ _)
    · intro _ d' hd'
      cases hd'
      simp only [huser, hmem, userMem, hd, ofMem_sealMem]

theorem roundTrips_writeBack (hgood : FlashGood env.flash env.fuel) (hw : WakesUp env boot)
    (hhigh : env.fac.highFreqData ≠ 1) (hneed : VarnvIsNeedWrtieback env s.mem)
    (htakes : dspVolatile.Takes s.board.flash 0 (s.mem.read 0 xyFtlAvailableSize)) :
    RoundTrips env boot s := by
  obtain ⟨b, hb, hstored⟩ := writeBack_stored hgood htakes
  obtain ⟨m, hsave⟩ := save_writeBack hhigh hneed hb
  refine ⟨_, hsave, ?_⟩
  intro s₂ hsleep
  have hlost : ¬ Retained s₂.mem := hsleep.lost (not_powered_and_xFE _)
  obtain ⟨s₃, h₃, hsame⟩ := nvRestore_flash (s := s₂) hw hhigh (by
    intro hkeep
    refine ⟨hlost, ?_⟩
    rw [hw.fac] at hkeep ⊢
    rcases hneed with h | h
    · rw [hkeep] at h
      exact absurd h (by decide)
    · exact h.2.1)
  rw [hsleep.flash] at hsame
  exact ⟨s₃, h₃, hsame.trans hstored, fun h => absurd h hhigh⟩

theorem roundTrips_retained (hw : WakesUp env boot) (hhigh : env.fac.highFreqData ≠ 1)
    (hneed : ¬ VarnvIsNeedWrtieback env s.mem) (hkeep : env.fac.keepRetensionMem = 1) :
    RoundTrips env boot s := by
  refine ⟨_, save_retained hhigh hneed, ?_⟩
  intro s₂ hsleep
  have hmem : s₂.mem = sealMem s.mem bkFlagInuse := hsleep.kept powered_x41
  have hkeep' : boot.fac.keepRetensionMem = 1 := by rwa [hw.fac]
  have hsum : s₂.mem.word backupMemChecksum = softapChksum s₂.mem := by
    rw [hmem]
    exact sealMem_valid _ _
  have hflag : s₂.mem.word backupMemFlag = bkFlagInuse := by rw [hmem, sealMem_flag]
  obtain ⟨s₃, h₃, hsame, -⟩ := nvRestore_wake (s := s₂) hw (fun _ => hkeep)
    (by rw [if_neg hhigh]; exact restore_inuse hkeep' hsum hflag)
  refine ⟨s₃, h₃, hsame.trans ?_, fun h => absurd h hhigh⟩
  rw [hmem]
  exact sameNv_sealMem _ _

/-- A save that trusts retention memory, and a restore that does not: what comes back is what
the region had stored before. -/
theorem roundTrips_stale (hw : WakesUp env boot) (hhigh : env.fac.highFreqData ≠ 1)
    (hneed : ¬ VarnvIsNeedWrtieback env s.mem) (hkeep : env.fac.keepRetensionMem ≠ 1) :
    RoundTrips env boot s ↔ SameNv (storedNv s.board.flash) s.mem := by
  have hwake : ∀ s₂ : Soc, s₂.board.flash = s.board.flash →
      ∃ s₃, nvRestore Hooks.none boot s₂ = .ok s₃ ∧ SameNv s₃.mem (storedNv s.board.flash) := by
    intro s₂ hflash
    obtain ⟨s₃, h₃, hsame⟩ := nvRestore_flash (s := s₂) hw hhigh
      (fun h => absurd (hw.fac ▸ h) hkeep)
    rw [hflash] at hsame
    exact ⟨s₃, h₃, hsame⟩
  constructor
  · rintro ⟨s₁, hsave, hround⟩
    rw [save_retained hhigh hneed] at hsave
    cases hsave
    obtain ⟨s₃, h₃, hsame, -⟩ := hround ⟨sealMem s.mem bkFlagInuse, s.board, none, 0x11⟩
      ⟨fun _ => rfl, fun h => absurd powered_x41 h, rfl, rfl, rfl⟩
    obtain ⟨s₃', h₃', hsame'⟩ := hwake ⟨sealMem s.mem bkFlagInuse, s.board, none, 0x11⟩ rfl
    rw [h₃] at h₃'
    cases h₃'
    exact hsame'.symm.trans hsame
  · intro hsame
    refine ⟨_, save_retained hhigh hneed, ?_⟩
    intro s₂ hsleep
    obtain ⟨s₃, h₃, hsame'⟩ := hwake s₂ hsleep.flash
    exact ⟨s₃, h₃, hsame'.trans hsame, fun h => absurd h hhigh⟩

/-- **The volatile NV across deep sleep.**  It comes back exactly when the save and the restore
look in the same place, or flash already held it. -/
theorem round_trip_iff (hacc : Accepted env.fac) (hgood : FlashGood env.flash env.fuel)
    (hw : WakesUp env boot)
    (htakes : env.fac.highFreqData ≠ 1 → VarnvIsNeedWrtieback env s.mem →
      dspVolatile.Takes s.board.flash 0 (s.mem.read 0 xyFtlAvailableSize)) :
    RoundTrips env boot s ↔
      env.fac.keepRetensionMem = 0 ∨ env.fac.keepRetensionMem = 1 ∨ BeyondThreshold env s.mem ∨
        SameNv (storedNv s.board.flash) s.mem := by
  by_cases hhigh : env.fac.highFreqData = 1
  · exact iff_of_true (roundTrips_highFreq hacc.2 hgood hw hhigh) (.inr (.inl (hacc.2 hhigh)))
  by_cases hneed : VarnvIsNeedWrtieback env s.mem
  · refine iff_of_true (roundTrips_writeBack hgood hw hhigh hneed (htakes hhigh hneed)) ?_
    rcases hneed with h | h
    · exact .inl h
    · exact .inr (.inr (.inl h))
  by_cases hkeep : env.fac.keepRetensionMem = 1
  · exact iff_of_true (roundTrips_retained hw hhigh hneed hkeep) (.inr (.inl hkeep))
  rw [roundTrips_stale hw hhigh hneed hkeep]
  constructor
  · exact fun h => .inr (.inr (.inr h))
  · rintro (h | h | h | h)
    · exact absurd (.inl h) hneed
    · exact absurd h hkeep
    · exact absurd (.inr h) hneed
    · exact h

end

/-- A save in sleep, at time zero, with the given `keep_retension_mem`. -/
def sleepEnv (keep : Int8) : SleepEnv where
  fac := { keepRetensionMem := keep }
  dspIsNotLoaded := true
  globalTimepoint := 0
  rtcGlobal := 0
  flash := bootEnv
  fuel := 4

/-- The wake-up by the RTC after it. -/
def utcBoot (keep : Int8) : BootEnv where
  sysUpStat := .utcWakeup
  softresetType := .byAssert
  fac := { keepRetensionMem := keep }
  mainPinReset := 0
  flash := bootEnv
  fuel := 4

/-- Retention memory in use, and a page of an older volatile NV in flash. -/
def laterSleep : Soc :=
  ⟨fun _ => 1, ⟨dspVolatile.onePage (sealPage (fun _ => 0) 4 [7]), [], 0⟩, none, 0x11⟩

theorem flashGood_bootEnv : FlashGood bootEnv 4 := ⟨rfl, fun _ => rfl, by decide⟩

theorem wakesUp_utcBoot (keep : Int8) : WakesUp (sleepEnv keep) (utcBoot keep) :=
  ⟨.inl rfl, rfl, flashGood_bootEnv⟩

theorem newest_laterSleep : dspVolatile.Newest laterSleep.board.flash 0 1 :=
  FtlRegion.newest_onePage (by decide) FtlRegion.goodNum_firstPage

theorem unhidden_laterSleep : dspVolatile.Unhidden laterSleep.board.flash :=
  FtlRegion.unhidden_onePage (by decide) FtlRegion.goodNum_firstPage

theorem takes_laterSleep :
    dspVolatile.Takes laterSleep.board.flash 0 (laterSleep.mem.read 0 xyFtlAvailableSize) :=
  FtlRegion.takes_of_newest newest_laterSleep unhidden_laterSleep (by decide) (length_nv_le _)

/-- A volatile NV that is written back over an older one. -/
theorem round_trip_kept : RoundTrips (sleepEnv 0) (utcBoot 0) laterSleep :=
  (round_trip_iff ⟨by decide, by decide⟩ flashGood_bootEnv (wakesUp_utcBoot 0)
    fun _ _ => takes_laterSleep).mpr (.inl rfl)

/-- With `keep_retension_mem` at `2` the volatile NV is left in retention memory, and the wake-up
reads the older one from flash. -/
theorem not_round_trip :
    Accepted (sleepEnv 2).fac ∧ FlashGood (sleepEnv 2).flash (sleepEnv 2).fuel ∧
      WakesUp (sleepEnv 2) (utcBoot 2) ∧ ¬ RoundTrips (sleepEnv 2) (utcBoot 2) laterSleep := by
  refine ⟨⟨by decide, by decide⟩, flashGood_bootEnv, wakesUp_utcBoot 2, ?_⟩
  rw [roundTrips_stale (wakesUp_utcBoot 2) (by decide) (by decide) (by decide)]
  intro hsame
  have hstored := hsame ramNvVolatileSoftapStart (Nat.le_refl _) (by decide)
  rw [storedNv, FtlRegion.stored_of_unhidden unhidden_laterSleep, FtlRegion.area,
    FtlRegion.current_of_newest newest_laterSleep] at hstored
  -- the page holds a zero there, and retention memory a one
  have hpage : dspVolatile.page laterSleep.board.flash 0 (4 + ramNvVolatileSoftapStart) = 0 :=
    (FtlRegion.page_write 0 _ (by decide) (by decide)).trans (by
      rw [sealPage_data (by decide)]
      exact (Buf.write_outside (.inr (by decide))).trans rfl)
  exact absurd (hpage.symm.trans hstored) (by decide)

end XY1100.Nv
