import XY1100.Support.Flags
import XY1100.Lwip.NetAppResume

/-!
# Lwip — the sessions that are pending

Runs of wake-ups: services start, end and are resumed, and at the end of each wake-up
`save_net_app_infos` runs before deep sleep.  The law of a step (`Lawful`): only a pending
session is resumed, and the record holds, after a save, the sessions saved and those still
pending.

The code keeps the law exactly as long as each step is harmless in the state it is made in
(`sessions_lawful_iff`): the flags in RAM are behind the pending sessions when the record was not
read before a save or when a resume failed, and ahead of them when a session ended otherwise
than by being resumed; and with no flag set the record is not written at all.
-/

namespace XY1100.Resume
open Support

/-! ### Flags as sets -/

/-- The services whose flags are set. -/
def services (w : UInt32) : Finset NetAppType := Finset.univ.filter (NetNeedRecovery w ·)

/-- No other bit is set. -/
def OnlyServices (w : UInt32) : Prop := ∀ k, HasBit w k → ∃ t : NetAppType, t.val = k

theorem hasBit_bit (t : NetAppType) (k : Nat) : HasBit t.bit k ↔ k = t.val := by
  have h : t.bit.toBitVec = BitVec.ofNat 32 (2 ^ t.val) := by cases t <;> rfl
  have hlt : t.val < 32 := by cases t <;> decide
  unfold HasBit
  rw [h, BitVec.getLsbD_ofNat, Nat.testBit_two_pow]
  simp only [Bool.and_eq_true, decide_eq_true_eq]
  omega

theorem val_injective {t u : NetAppType} (h : t.val = u.val) : t = u := by
  cases t <;> cases u <;> first | rfl | cases h

theorem netNeedRecovery_iff (w : UInt32) (t : NetAppType) :
    NetNeedRecovery w t ↔ HasBit w t.val := and_eq_iff_hasBit (hasBit_bit t)

theorem mem_services {w : UInt32} {t : NetAppType} : t ∈ services w ↔ NetNeedRecovery w t := by
  simp [services]

theorem services_zero : services 0 = ∅ := by decide

theorem services_or_bit (w : UInt32) (t : NetAppType) :
    services (w ||| t.bit) = insert t (services w) := by
  ext u
  rw [Finset.mem_insert, mem_services, mem_services, netNeedRecovery_iff, netNeedRecovery_iff,
    hasBit_or, hasBit_bit]
  constructor
  · rintro (h | h)
    · exact .inr h
    · exact .inl (val_injective h)
  · rintro (rfl | h)
    · exact .inr rfl
    · exact .inl h

theorem services_clear (w : UInt32) (t : NetAppType) :
    services (w &&& ~~~t.bit) = (services w).erase t := by
  ext u
  rw [Finset.mem_erase, mem_services, mem_services, netNeedRecovery_iff, netNeedRecovery_iff,
    hasBit_clear, hasBit_bit]
  constructor
  · rintro ⟨h, hne⟩
    exact ⟨fun hu => hne (congrArg NetAppType.val hu), h⟩
  · rintro ⟨hne, h⟩
    exact ⟨h, fun hv => hne (val_injective hv)⟩

theorem onlyServices_zero : OnlyServices 0 := fun k h => absurd h (not_hasBit_zero k)

theorem OnlyServices.or_bit {w : UInt32} (h : OnlyServices w) (t : NetAppType) :
    OnlyServices (w ||| t.bit) := by
  intro k hk
  rcases (hasBit_or w t.bit k).mp hk with hw | ht
  · exact h k hw
  · exact ⟨t, ((hasBit_bit t k).mp ht).symm⟩

theorem OnlyServices.clear {w : UInt32} (h : OnlyServices w) (t : NetAppType) :
    OnlyServices (w &&& ~~~t.bit) := by
  intro k hk
  exact h k ((hasBit_clear w t.bit k).mp hk).1

/-- With no other bits, no flag is set only in the zero word. -/
theorem OnlyServices.eq_zero_iff {w : UInt32} (h : OnlyServices w) : w = 0 ↔ services w = ∅ := by
  constructor
  · rintro rfl
    exact services_zero
  · intro hw
    refine hasBit_ext ?_
    intro k
    refine iff_of_false ?_ (not_hasBit_zero k)
    intro hk
    obtain ⟨t, rfl⟩ := h k hk
    have ht : t ∈ services w := mem_services.mpr ((netNeedRecovery_iff w t).mpr hk)
    rw [hw] at ht
    exact absurd ht (Finset.notMem_empty t)

/-! ### Runs -/

/-- The code, and the sessions saved and neither resumed nor ended since. -/
structure Sys where
  code : State
  pending : Finset NetAppType

/-- Nothing was ever saved. -/
def Sys.erased : Sys := ⟨{ flash := none }, ∅⟩

/-- What happens to the services of a device that wakes up and sleeps.  A session that starts, or
ends otherwise than by being found out of date, touches none of the flags. -/
inductive Event
  | start (t : NetAppType)
  | finish (t : NetAppType)
  | resume (t : NetAppType) (env : Env)
  | dlPkt (data : Buf) (env : Env)
  | sleep (ws : Writers) (ipAddr : UInt32) (ftlWriteOk : Bool)

def Writers.reports (ws : Writers) : NetAppType → Bool
  | .socketTask => ws.udpContext.isSome
  | .onenetTask => ws.onenetRegInfo.isSome
  | .cdpTask => ws.cdpRegInfo.isSome

/-- The sessions `save_net_app_infos` saves: the writers are called where `save_cloud` is set. -/
def Writers.saved (cfg : Cfg) (ws : Writers) : Finset NetAppType :=
  if cfg.saveCloud = 0 then ∅ else Finset.univ.filter (ws.reports ·)

/-- The services the record names. -/
def persisted (flash : Option AppDeepsleepInfos) : Finset NetAppType :=
  match flash with
  | none => ∅
  | some infos => services infos.recoveryType

/-- The state after a resume: what it resumed or found out of date is no longer pending. -/
def Sys.after (s : Sys) (r : Reply) (code : State) : Sys :=
  ⟨code, s.pending \ (r.resumed ++ r.expired).toFinset⟩

/-- An event. -/
def exec (cfg : Cfg) (ev : Event) : EStateM Empty Sys Reply := fun s =>
  match ev with
  | .start _ => .ok { ret := 0 } s
  | .finish t => .ok { ret := 0 } { s with pending := s.pending.erase t }
  | .resume t env =>
    let (r, code) := resumeNetApp cfg env t s.code
    .ok r (s.after r code)
  | .dlPkt data env =>
    let (r, code) := resumeNetAppByDlPkt cfg env data s.code
    .ok r (s.after r code)
  | .sleep ws ipAddr ftlWriteOk =>
    let code := saveNetAppInfos cfg ws ipAddr ftlWriteOk s.code
    -- deep sleep loses the variables in RAM
    .ok { ret := 0 } ⟨{ flash := code.flash }, ws.saved cfg ∪ s.pending⟩

/-- Only a pending session is resumed, and a save leaves a record of the sessions saved and of
those pending. -/
def Lawful (cfg : Cfg) (s : Sys) (ev : Event) : Prop :=
  ∀ r s', exec cfg ev s = .ok r s' →
    (∀ t ∈ r.resumed, t ∈ s.pending) ∧
      ∀ ws ipAddr ok, ev = .sleep ws ipAddr ok →
        persisted s'.code.flash = ws.saved cfg ∪ s.pending

/-! ### Harmless steps -/

/-- The flags a resume goes by: those in RAM, or those of the record it reads first. -/
def State.seen (c : State) : UInt32 :=
  if c.gHaveReadSavedInfo then c.gAppRecoveryType
  else match c.flash with
    | none => 0
    | some infos => infos.recoveryType

/-- The address a downlink packet is compared with. -/
def State.seenIp (c : State) : UInt32 :=
  if c.gHaveReadSavedInfo then c.gAppLocalIp
  else match c.flash with
    | none => 0
    | some infos => infos.localAddr

/-- The stored registration passes its check. -/
def Env.Accepts (env : Env) : NetAppType → Prop
  | .socketTask => True
  | .onenetTask => env.onenetCheck = xyOk
  | .cdpTask => env.cdpCheck = xyOk

/-- A downlink packet is for a stored session. -/
def Matches (cfg : Cfg) (c : State) (data : Buf) (t : NetAppType) : Prop :=
  (data 0 &&& 0xf0) >>> 4 = 4 ∧ data.word 16 = c.seenIp ∧
    ∃ infos, c.flash = some infos ∧ matchNetAppByTouple cfg t data infos = true

/-- No service whose session is not pending is resumed; and at a save that writes the record, the
pending sessions not saved again are flagged in RAM, the flagged sessions not saved again are
pending, and the write succeeds or is not needed; a save that does not write it finds it up to
date. -/
def Harmless (cfg : Cfg) (s : Sys) : Event → Prop
  | .start _ => True
  | .finish _ => True
  | .resume t env =>
    cfg.saveCloud ≠ 0 → NetNeedRecovery s.code.seen t → env.Accepts t → t ∈ s.pending
  | .dlPkt data env =>
    cfg.saveCloud ≠ 0 → ∀ t, NetNeedRecovery s.code.seen t → Matches cfg s.code data t →
      env.Accepts t → t ∈ s.pending
  | .sleep ws _ ftlWriteOk =>
    let flagged := services s.code.gAppRecoveryType
    if cfg.saveCloud = 0 ∨ (flagged = ∅ ∧ ws.saved cfg = ∅) then
      persisted s.code.flash = s.pending
    else if ftlWriteOk then
      s.pending \ flagged ⊆ ws.saved cfg ∧ flagged \ s.pending ⊆ ws.saved cfg
    else persisted s.code.flash = ws.saved cfg ∪ s.pending

/-! ### The flags are flags of services -/

/-- No word of flags has another bit. -/
structure State.Wf (c : State) : Prop where
  ram : OnlyServices c.gAppRecoveryType
  record : ∀ infos, c.flash = some infos → OnlyServices infos.recoveryType

namespace State.Wf
variable {c : State}

theorem clearFlag (h : c.Wf) (t : NetAppType) : (c.clearFlag t).Wf := ⟨h.ram.clear t, h.record⟩

theorem writeFlags (h : c.Wf) (env : Env) : (c.writeFlags env).Wf := by
  unfold State.writeFlags
  split
  · refine ⟨h.ram, ?_⟩
    intro infos hinfos
    cases hinfos
    exact h.ram
  · exact h

theorem seen (h : c.Wf) : OnlyServices c.seen := by
  unfold State.seen
  split
  · exact h.ram
  · split
    · exact onlyServices_zero
    · exact h.record _ ‹_›

end State.Wf

/-! ### Resuming one service -/

/-- What consuming a flag leaves: the other flags, the record but for its flags. -/
structure Consumed (t : NetAppType) (c c' : State) : Prop where
  flags : c'.gAppRecoveryType = c.gAppRecoveryType &&& ~~~t.bit
  read : c'.gHaveReadSavedInfo = c.gHaveReadSavedInfo
  record : ∀ infos, c.flash = some infos → ∃ w, c'.flash = some { infos with recoveryType := w }
  wf : c.Wf → c'.Wf

theorem clear_clear (w : UInt32) (t : NetAppType) :
    (w &&& ~~~t.bit) &&& ~~~t.bit = w &&& ~~~t.bit := by
  refine hasBit_ext ?_
  intro k
  rw [hasBit_clear, hasBit_clear]
  tauto

theorem consumed_clearFlag (t : NetAppType) (c : State) : Consumed t c (c.clearFlag t) :=
  ⟨rfl, rfl, fun infos h => ⟨infos.recoveryType, h⟩, fun hw => hw.clearFlag t⟩

/-- Clearing the flag once more changes nothing. -/
theorem Consumed.clearFlag {t : NetAppType} {c c' : State} (h : Consumed t c c') :
    Consumed t c (c'.clearFlag t) := by
  refine ⟨?_, h.read, h.record, fun hw => (h.wf hw).clearFlag t⟩
  show c'.gAppRecoveryType &&& ~~~t.bit = _
  rw [h.flags, clear_clear]

theorem Consumed.writeFlags {t : NetAppType} {c c' : State} (h : Consumed t c c') (env : Env) :
    Consumed t c (c'.writeFlags env) := by
  unfold State.writeFlags
  split
  · refine ⟨h.flags, h.read, ?_, fun hw => ?_⟩
    · intro infos hinfos
      obtain ⟨w, hw⟩ := h.record infos hinfos
      exact ⟨c'.gAppRecoveryType, by simp only [hw, Option.getD_some]⟩
    · refine ⟨(h.wf hw).ram, ?_⟩
      intro infos hinfos
      cases hinfos
      exact (h.wf hw).ram
  · exact h

theorem consumed_resumeRegistered (t : NetAppType) (check : Int) (drops : Bool) (env : Env)
    (c : State) : Consumed t c (resumeRegistered t check drops env c).2 := by
  cases drops with
  | false => exact consumed_clearFlag t c
  | true => exact ((consumed_clearFlag t c).writeFlags env).clearFlag

theorem consumed_resumeFlagged (cfg : Cfg) (env : Env) (t : NetAppType) (c : State) :
    Consumed t c (resumeFlagged cfg env t c).2 := by
  cases t with
  | socketTask => exact consumed_clearFlag _ c
  | onenetTask => exact consumed_resumeRegistered _ _ _ env c
  | cdpTask => exact consumed_resumeRegistered _ _ _ env c

theorem mem_resumed_resumeRegistered {t u : NetAppType} {check : Int} {drops : Bool} {env : Env}
    {c : State} :
    u ∈ (resumeRegistered t check drops env c).1.resumed ↔ u = t ∧ check = xyOk := by
  by_cases h : check = xyOk <;> simp [resumeRegistered, h]

theorem mem_resumed_resumeFlagged {cfg : Cfg} {env : Env} {t u : NetAppType} {c : State} :
    u ∈ (resumeFlagged cfg env t c).1.resumed ↔ u = t ∧ env.Accepts t := by
  cases t with
  | socketTask => simp [resumeFlagged, Env.Accepts]
  | onenetTask => exact mem_resumed_resumeRegistered
  | cdpTask => exact mem_resumed_resumeRegistered

/-- `resume_net_app` once the record was read. -/
theorem resumeNetApp_of_read {cfg : Cfg} {env : Env} {t : NetAppType} {c : State}
    (hcloud : cfg.saveCloud ≠ 0) (hread : c.gHaveReadSavedInfo = true) :
    resumeNetApp cfg env t c =
      if NetNeedRecovery c.gAppRecoveryType t then resumeFlagged cfg env t c
      else ({ ret := resumeFlagError }, c) := by
  by_cases h : NetNeedRecovery c.gAppRecoveryType t <;> simp [resumeNetApp, hcloud, hread, h]

/-- The state in which a resume looks at the flags. -/
def State.loaded (c : State) : State :=
  if c.gHaveReadSavedInfo then c
  else match c.flash with
    | none => { c with gHaveReadSavedInfo := true }
    | some infos => { c.loadFlags infos with gHaveReadSavedInfo := true }

theorem State.Wf.loaded {c : State} (h : c.Wf) : c.loaded.Wf := by
  unfold State.loaded
  split
  · exact h
  · split
    · exact ⟨h.ram, h.record⟩
    · exact ⟨h.record _ ‹_›, h.record⟩

/-- `resume_net_app` reads the record if it must, and goes by the flags it then sees. -/
theorem resumeNetApp_eq {cfg : Cfg} (env : Env) (t : NetAppType) (c : State)
    (hcloud : cfg.saveCloud ≠ 0) :
    (NetNeedRecovery c.seen t ∧
        resumeNetApp cfg env t c = resumeFlagged cfg env t c.loaded) ∨
      (¬ NetNeedRecovery c.seen t ∧
        ∃ ret, resumeNetApp cfg env t c = ({ ret := ret }, c.loaded)) := by
  by_cases hread : c.gHaveReadSavedInfo = true
  · have hloaded : c.loaded = c := if_pos hread
    have hseen : c.seen = c.gAppRecoveryType := if_pos hread
    rw [resumeNetApp_of_read hcloud hread, hloaded, hseen]
    by_cases h : NetNeedRecovery c.gAppRecoveryType t
    · exact .inl ⟨h, if_pos h⟩
    · exact .inr ⟨h, resumeFlagError, if_neg h⟩
  rcases hflash : c.flash with _ | infos
  · have hzero : ¬ NetNeedRecovery 0 t := by cases t <;> decide
    refine .inr ⟨?_, resumeReadFlashFailed, ?_⟩
    · simpa only [State.seen, if_neg hread, hflash] using hzero
    · simp [resumeNetApp, State.loaded, hcloud, hread, hflash]
  · have hseen : c.seen = infos.recoveryType := by simp only [State.seen, if_neg hread, hflash]
    rw [hseen]
    by_cases h : NetNeedRecovery infos.recoveryType t
    · refine .inl ⟨h, ?_⟩
      simp [resumeNetApp, State.loaded, State.loadFlags, hcloud, hread, hflash, h]
    · refine .inr ⟨h, resumeFlagError, ?_⟩
      simp [resumeNetApp, State.loaded, State.loadFlags, hcloud, hread, hflash, h]

theorem mem_resumed_resumeNetApp {cfg : Cfg} {env : Env} {t u : NetAppType} {c : State} :
    u ∈ (resumeNetApp cfg env t c).1.resumed ↔
      u = t ∧ cfg.saveCloud ≠ 0 ∧ NetNeedRecovery c.seen t ∧ env.Accepts t := by
  by_cases hcloud : cfg.saveCloud = 0
  · simp [resumeNetApp, hcloud]
  rcases resumeNetApp_eq env t c hcloud with ⟨hneed, h⟩ | ⟨hneed, ret, h⟩
  · rw [h, mem_resumed_resumeFlagged]
    tauto
  · rw [h]
    simp [hneed]

theorem wf_resumeNetApp {cfg : Cfg} {env : Env} {t : NetAppType} {c : State} (hw : c.Wf) :
    (resumeNetApp cfg env t c).2.Wf := by
  by_cases hcloud : cfg.saveCloud = 0
  · simpa [resumeNetApp, hcloud] using hw
  rcases resumeNetApp_eq env t c hcloud with ⟨-, h⟩ | ⟨-, ret, h⟩
  · rw [h]
    exact (consumed_resumeFlagged cfg env t c.loaded).wf hw.loaded
  · rw [h]
    exact hw.loaded

/-! ### Resuming by a downlink packet -/

/-- What serving one service leaves: the flags of the others, the record but for its flags. -/
structure Served (t : NetAppType) (infos : AppDeepsleepInfos) (c c' : State) : Prop where
  read : c'.gHaveReadSavedInfo = true
  others : ∀ u, u ≠ t →
    (NetNeedRecovery c'.gAppRecoveryType u ↔ NetNeedRecovery c.gAppRecoveryType u)
  record : ∃ w, c'.flash = some { infos with recoveryType := w }
  wf : c.Wf → c'.Wf

theorem netNeedRecovery_clear {w : UInt32} {t u : NetAppType} (h : u ≠ t) :
    NetNeedRecovery (w &&& ~~~t.bit) u ↔ NetNeedRecovery w u := by
  rw [← mem_services, services_clear, Finset.mem_erase, mem_services]
  simp [h]

theorem Consumed.served {t : NetAppType} {infos : AppDeepsleepInfos} {c c' : State}
    (h : Consumed t c c') (hread : c.gHaveReadSavedInfo = true) (hflash : c.flash = some infos) :
    Served t infos c c' := by
  refine ⟨h.read.trans hread, ?_, h.record infos hflash, h.wf⟩
  intro u hu
  rw [h.flags]
  exact netNeedRecovery_clear hu

section
variable {cfg : Cfg} {env : Env} {data : Buf} {infos : AppDeepsleepInfos} {r : Reply} {c : State}

variable (env data r) in
/-- One service of a downlink packet. -/
theorem resumeMatched_spec (t : NetAppType) (hcloud : cfg.saveCloud ≠ 0)
    (hread : c.gHaveReadSavedInfo = true) (hflash : c.flash = some infos) :
    Served t infos c (resumeMatched cfg env data t (r, c)).2 ∧
      ∀ u, u ∈ (resumeMatched cfg env data t (r, c)).1.resumed ↔ u ∈ r.resumed ∨
        (u = t ∧ NetNeedRecovery c.gAppRecoveryType t ∧
          matchNetAppByTouple cfg t data infos = true ∧ env.Accepts t) := by
  by_cases h : NetNeedRecovery c.gAppRecoveryType t ∧ matchNetAppByTouple cfg t data infos = true
  · have heq : resumeMatched cfg env data t (r, c) =
        (⟨t.val, r.resumed ++ (resumeFlagged cfg env t c).1.resumed,
          r.expired ++ (resumeFlagged cfg env t c).1.expired⟩,
          (resumeFlagged cfg env t c).2.clearFlag t) := by
      simp only [resumeMatched, hflash, if_pos h, resumeNetApp_of_read hcloud hread, if_pos h.1]
    rw [heq]
    refine ⟨(consumed_resumeFlagged cfg env t c).clearFlag.served hread hflash, ?_⟩
    intro u
    rw [List.mem_append, mem_resumed_resumeFlagged]
    tauto
  · have heq : resumeMatched cfg env data t (r, c) = (r, c) := by
      simp only [resumeMatched, hflash, if_neg h]
    rw [heq]
    refine ⟨⟨hread, fun _ _ => Iff.rfl, ⟨infos.recoveryType, hflash⟩, id⟩, ?_⟩
    intro u
    tauto

theorem resumeMatched_unreadable (t : NetAppType) (hflash : c.flash = none) :
    resumeMatched cfg env data t (r, c) = (r, c) := by
  simp only [resumeMatched, hflash]

/-- Which sessions a packet is for does not depend on the stored flags. -/
theorem matchNetAppByTouple_flags (t : NetAppType) (w : UInt32) :
    matchNetAppByTouple cfg t data { infos with recoveryType := w } =
      matchNetAppByTouple cfg t data infos := by
  cases t <;> rfl

variable (env data) in
/-- The three services in turn. -/
theorem resumeMatched_all (hcloud : cfg.saveCloud ≠ 0) (hread : c.gHaveReadSavedInfo = true)
    (hflash : c.flash = some infos) :
    let rs := resumeMatched cfg env data .cdpTask
      (resumeMatched cfg env data .onenetTask
        (resumeMatched cfg env data .socketTask ({ ret := noTask }, c)))
    (c.Wf → rs.2.Wf) ∧ ∀ u, u ∈ rs.1.resumed ↔ NetNeedRecovery c.gAppRecoveryType u ∧
      matchNetAppByTouple cfg u data infos = true ∧ env.Accepts u := by
  intro rs
  obtain ⟨h₁, hm₁⟩ := resumeMatched_spec env data { ret := noTask }
    .socketTask hcloud hread hflash
  obtain ⟨w₁, hflash₁⟩ := h₁.record
  obtain ⟨h₂, hm₂⟩ := resumeMatched_spec env data
    (resumeMatched cfg env data .socketTask ({ ret := noTask }, c)).1
    .onenetTask hcloud h₁.read hflash₁
  obtain ⟨w₂, hflash₂⟩ := h₂.record
  obtain ⟨h₃, hm₃⟩ := resumeMatched_spec env data
    (resumeMatched cfg env data .onenetTask
      (resumeMatched cfg env data .socketTask ({ ret := noTask }, c))).1
    .cdpTask hcloud h₂.read hflash₂
  refine ⟨fun hw => h₃.wf (h₂.wf (h₁.wf hw)), ?_⟩
  have honenet := h₁.others .onenetTask (by decide)
  have hcdp := (h₂.others .cdpTask (by decide)).trans (h₁.others .cdpTask (by decide))
  have hmatch₂ : matchNetAppByTouple cfg .onenetTask data { infos with recoveryType := w₁ } =
      matchNetAppByTouple cfg .onenetTask data infos := matchNetAppByTouple_flags _ _
  have hmatch₃ : matchNetAppByTouple cfg .cdpTask data { infos with recoveryType := w₂ } =
      matchNetAppByTouple cfg .cdpTask data infos := matchNetAppByTouple_flags _ _
  intro u
  cases u with
  | socketTask => rw [hm₃, hm₂, hm₁]; simp
  | onenetTask => rw [hm₃, hm₂, hm₁, honenet]; simp [hmatch₂]
  | cdpTask => rw [hm₃, hm₂, hm₁, hcdp]; simp [hmatch₃]

end

/-- The state in which a downlink packet looks at the flags. -/
def State.loadedByPkt (c : State) : State :=
  if c.gHaveReadSavedInfo then c
  else { c.loadFlags (c.flash.getD .zero) with gHaveReadSavedInfo := true }

theorem loadedByPkt_spec (c : State) :
    c.loadedByPkt.gHaveReadSavedInfo = true ∧ c.loadedByPkt.flash = c.flash ∧
      c.loadedByPkt.gAppRecoveryType = c.seen ∧ c.loadedByPkt.gAppLocalIp = c.seenIp := by
  unfold State.loadedByPkt State.seen State.seenIp
  by_cases h : c.gHaveReadSavedInfo = true
  · simp [h]
  · rcases hflash : c.flash with _ | infos <;>
      simp [h, hflash, State.loadFlags, AppDeepsleepInfos.zero]

theorem State.Wf.loadedByPkt {c : State} (h : c.Wf) : c.loadedByPkt.Wf := by
  obtain ⟨-, hflash, hflags, -⟩ := loadedByPkt_spec c
  refine ⟨?_, ?_⟩
  · rw [hflags]
    exact h.seen
  · rw [hflash]
    exact h.record

theorem resumeNetAppByDlPkt_eq {cfg : Cfg} {env : Env} {data : Buf} {c : State}
    (hcloud : cfg.saveCloud ≠ 0) : resumeNetAppByDlPkt cfg env data c =
      if c.seen = 0 then ({ ret := noTask }, c.loadedByPkt)
      else if (data 0 &&& 0xf0) >>> 4 ≠ 4 then ({ ret := unknownIp }, c.loadedByPkt)
      else if data.word 16 ≠ c.seenIp then ({ ret := unknownIp }, c.loadedByPkt)
      else resumeMatched cfg env data .cdpTask
        (resumeMatched cfg env data .onenetTask
          (resumeMatched cfg env data .socketTask ({ ret := noTask }, c.loadedByPkt))) := by
  obtain ⟨-, -, hflags, hip⟩ := loadedByPkt_spec c
  rw [← hflags, ← hip]
  simp only [resumeNetAppByDlPkt, if_neg hcloud]
  rfl

theorem resumeNetAppByDlPkt_spec {cfg : Cfg} {env : Env} {data : Buf} {c : State} :
    (c.Wf → (resumeNetAppByDlPkt cfg env data c).2.Wf) ∧
      ∀ u, u ∈ (resumeNetAppByDlPkt cfg env data c).1.resumed ↔ cfg.saveCloud ≠ 0 ∧
        NetNeedRecovery c.seen u ∧ Matches cfg c data u ∧ env.Accepts u := by
  by_cases hcloud : cfg.saveCloud = 0
  · simp [resumeNetAppByDlPkt, hcloud]
  obtain ⟨hread, hflash, hflags, -⟩ := loadedByPkt_spec c
  rw [resumeNetAppByDlPkt_eq hcloud]
  have hwf := fun hw : c.Wf => hw.loadedByPkt
  by_cases hzero : c.seen = 0
  · rw [if_pos hzero]
    refine ⟨hwf, ?_⟩
    intro u
    have hneed : ¬ NetNeedRecovery c.seen u := by
      rw [hzero]
      cases u <;> decide
    simp [hneed]
  rw [if_neg hzero]
  by_cases htype : (data 0 &&& 0xf0) >>> 4 = 4
  · rw [if_neg (fun h => h htype)]
    by_cases hdst : data.word 16 = c.seenIp
    · rw [if_neg (fun h => h hdst)]
      rcases hf : c.flash with _ | infos
      · have hnone : c.loadedByPkt.flash = none := hflash.trans hf
        rw [resumeMatched_unreadable _ hnone, resumeMatched_unreadable _ hnone,
          resumeMatched_unreadable _ hnone]
        refine ⟨hwf, ?_⟩
        intro u
        simp [Matches, hf]
      · obtain ⟨hw, hmem⟩ := resumeMatched_all env data hcloud hread
          (hflash.trans hf)
        refine ⟨fun h => hw (hwf h), ?_⟩
        intro u
        rw [hmem, hflags]
        simp [hcloud, Matches, htype, hdst, hf]
    · rw [if_pos hdst]
      refine ⟨hwf, ?_⟩
      intro u
      simp [Matches, hdst]
  · rw [if_pos htype]
    refine ⟨hwf, ?_⟩
    intro u
    simp [Matches, htype]

/-! ### Saving -/

/-- `g_app_recovery_type` after the session writers have reported. -/
def Writers.flags (ws : Writers) (w : UInt32) : UInt32 :=
  setNetRecoveryFlag
    (setNetRecoveryFlag (setNetRecoveryFlag w .socketTask ws.udpContext.isSome) .onenetTask
      ws.onenetRegInfo.isSome) .cdpTask ws.cdpRegInfo.isSome

theorem mem_services_setNetRecoveryFlag {w : UInt32} {t u : NetAppType} {b : Bool} :
    u ∈ services (setNetRecoveryFlag w t b) ↔ (u = t ∧ b = true) ∨ u ∈ services w := by
  cases b with
  | false => simp [setNetRecoveryFlag]
  | true => simp [setNetRecoveryFlag, services_or_bit]

theorem OnlyServices.setNetRecoveryFlag {w : UInt32} (h : OnlyServices w) (t : NetAppType)
    (b : Bool) : OnlyServices (setNetRecoveryFlag w t b) := by
  cases b with
  | false => exact h
  | true => exact h.or_bit t

theorem OnlyServices.flags {w : UInt32} (h : OnlyServices w) (ws : Writers) :
    OnlyServices (ws.flags w) :=
  ((h.setNetRecoveryFlag _ _).setNetRecoveryFlag _ _).setNetRecoveryFlag _ _

theorem mem_saved {cfg : Cfg} (hcloud : cfg.saveCloud ≠ 0) {ws : Writers} {t : NetAppType} :
    t ∈ ws.saved cfg ↔ ws.reports t = true := by
  simp [Writers.saved, hcloud]

theorem services_flags {cfg : Cfg} (hcloud : cfg.saveCloud ≠ 0) (ws : Writers) (w : UInt32) :
    services (ws.flags w) = ws.saved cfg ∪ services w := by
  ext u
  rw [Writers.flags, mem_services_setNetRecoveryFlag, mem_services_setNetRecoveryFlag,
    mem_services_setNetRecoveryFlag, Finset.mem_union, mem_saved hcloud]
  cases u <;> simp [Writers.reports]

theorem persisted_saveNetAppInfos {cfg : Cfg} (hcloud : cfg.saveCloud ≠ 0) (ws : Writers)
    (ipAddr : UInt32) (ok : Bool) (c : State) :
    persisted (saveNetAppInfos cfg ws ipAddr ok c).flash =
      if ws.flags c.gAppRecoveryType = 0 then persisted c.flash
      else if ok = true then ws.saved cfg ∪ services c.gAppRecoveryType
      else persisted c.flash := by
  have heq : ∃ infos : AppDeepsleepInfos,
      infos.recoveryType = ws.flags c.gAppRecoveryType ∧
      (saveNetAppInfos cfg ws ipAddr ok c).flash =
        if ws.flags c.gAppRecoveryType = 0 then c.flash
        else if ok = true then some infos else c.flash := by
    let netInfo := c.flash.getD .zero
    refine ⟨{ netInfo with
      udpContext := ws.udpContext.getD netInfo.udpContext
      onenetRegInfo := ws.onenetRegInfo.getD netInfo.onenetRegInfo
      cdpRegInfo := ws.cdpRegInfo.getD netInfo.cdpRegInfo
      recoveryType := ws.flags c.gAppRecoveryType
      localAddr := ipAddr }, rfl, ?_⟩
    simp only [saveNetAppInfos, if_neg hcloud]
    unfold Writers.flags
    split_ifs <;> rfl
  obtain ⟨infos, hword, hflash⟩ := heq
  rw [hflash]
  split_ifs
  · rfl
  · show services infos.recoveryType = _
    rw [hword, services_flags hcloud]
  · rfl

/-- Two sets agree beside a third. -/
theorem union_eq_union_iff {A F P : Finset NetAppType} :
    A ∪ F = A ∪ P ↔ P \ F ⊆ A ∧ F \ P ⊆ A := by
  constructor
  · intro h
    have hmem : ∀ t, (t ∈ A ∨ t ∈ F) ↔ (t ∈ A ∨ t ∈ P) := by
      intro t
      rw [← Finset.mem_union, ← Finset.mem_union, h]
    constructor <;> intro t ht <;> rw [Finset.mem_sdiff] at ht <;> have := hmem t <;> tauto
  · rintro ⟨h₁, h₂⟩
    ext t
    have hp : t ∈ P → t ∉ F → t ∈ A := fun hp hf => h₁ (Finset.mem_sdiff.mpr ⟨hp, hf⟩)
    have hf : t ∈ F → t ∉ P → t ∈ A := fun hf hp => h₂ (Finset.mem_sdiff.mpr ⟨hf, hp⟩)
    rw [Finset.mem_union, Finset.mem_union]
    tauto

theorem State.Wf.saveNetAppInfos {cfg : Cfg} {ws : Writers} {ipAddr : UInt32} {ok : Bool}
    {c : State} (h : c.Wf) : (saveNetAppInfos cfg ws ipAddr ok c).Wf := by
  unfold Resume.saveNetAppInfos
  have hword : OnlyServices (ws.flags c.gAppRecoveryType) := h.ram.flags ws
  split
  · exact h
  dsimp only
  split
  · exact ⟨hword, h.record⟩
  split
  · refine ⟨hword, ?_⟩
    intro infos hinfos
    cases hinfos
    exact hword
  · exact ⟨hword, h.record⟩

/-! ### The law -/

/-- What an event leaves has no other flags either. -/
theorem wf_exec {cfg : Cfg} {ev : Event} {s s' : Sys} {r : Reply} (hw : s.code.Wf)
    (h : exec cfg ev s = .ok r s') : s'.code.Wf := by
  cases ev with
  | start t => cases h; exact hw
  | finish t => cases h; exact hw
  | resume t env => cases h; exact wf_resumeNetApp hw
  | dlPkt data env => cases h; exact resumeNetAppByDlPkt_spec.1 hw
  | sleep ws ipAddr ok =>
    cases h
    have hsave : (saveNetAppInfos cfg ws ipAddr ok s.code).Wf := hw.saveNetAppInfos
    exact ⟨onlyServices_zero, hsave.record⟩

/-- A save is lawful where it is harmless. -/
theorem harmless_sleep_iff {cfg : Cfg} {s : Sys} {ws : Writers} {ipAddr : UInt32} {ok : Bool}
    (hw : s.code.Wf) :
    Harmless cfg s (.sleep ws ipAddr ok) ↔
      persisted (saveNetAppInfos cfg ws ipAddr ok s.code).flash = ws.saved cfg ∪ s.pending := by
  by_cases hcloud : cfg.saveCloud = 0
  · simp [Harmless, saveNetAppInfos, Writers.saved, hcloud]
  rw [persisted_saveNetAppInfos hcloud]
  have hzero : ws.flags s.code.gAppRecoveryType = 0 ↔
      services s.code.gAppRecoveryType = ∅ ∧ ws.saved cfg = ∅ := by
    rw [(hw.ram.flags ws).eq_zero_iff, services_flags hcloud, Finset.union_eq_empty, and_comm]
  by_cases hnone : services s.code.gAppRecoveryType = ∅ ∧ ws.saved cfg = ∅
  · rw [if_pos (hzero.mpr hnone)]
    simp [Harmless, hnone]
  · rw [if_neg (fun h => hnone (hzero.mp h))]
    have hcond : ¬ (cfg.saveCloud = 0 ∨
        (services s.code.gAppRecoveryType = ∅ ∧ ws.saved cfg = ∅)) := by tauto
    cases ok with
    | false => simp [Harmless, hcond]
    | true =>
      simp only [Harmless, if_neg hcond, if_true]
      exact union_eq_union_iff.symm

theorem harmless_iff_lawful {cfg : Cfg} {s : Sys} {ev : Event} (hw : s.code.Wf) :
    Harmless cfg s ev ↔ Lawful cfg s ev := by
  cases ev with
  | start t =>
    refine iff_of_true trivial ?_
    rintro r s' ⟨⟩
    exact ⟨fun t ht => absurd ht List.not_mem_nil, fun ws ip ok h => by cases h⟩
  | finish t =>
    refine iff_of_true trivial ?_
    rintro r s' ⟨⟩
    exact ⟨fun t ht => absurd ht List.not_mem_nil, fun ws ip ok h => by cases h⟩
  | resume t env =>
    constructor
    · rintro h r s' ⟨⟩
      refine ⟨?_, fun ws ip ok h => by cases h⟩
      intro u hu
      obtain ⟨rfl, hcloud, hneed, hok⟩ := mem_resumed_resumeNetApp.mp hu
      exact h hcloud hneed hok
    · intro h hcloud hneed hok
      exact (h _ _ rfl).1 t (mem_resumed_resumeNetApp.mpr ⟨rfl, hcloud, hneed, hok⟩)
  | dlPkt data env =>
    constructor
    · rintro h r s' ⟨⟩
      refine ⟨?_, fun ws ip ok h => by cases h⟩
      intro u hu
      obtain ⟨hcloud, hneed, hmatch, hok⟩ := (resumeNetAppByDlPkt_spec.2 u).mp hu
      exact h hcloud u hneed hmatch hok
    · intro h hcloud t hneed hmatch hok
      exact (h _ _ rfl).1 t ((resumeNetAppByDlPkt_spec.2 t).mpr ⟨hcloud, hneed, hmatch, hok⟩)
  | sleep ws ipAddr ok =>
    rw [harmless_sleep_iff hw]
    constructor
    · rintro h r s' ⟨⟩
      refine ⟨fun t ht => absurd ht List.not_mem_nil, ?_⟩
      rintro ws' ip' ok' ⟨⟩
      exact h
    · intro h
      exact (h _ _ rfl).2 ws ipAddr ok rfl

/-- **Sessions across sleep.**  A run resumes only pending sessions, and leaves every save with a
record of the sessions saved and those pending, exactly when each of its steps is harmless. -/
theorem sessions_lawful_iff (cfg : Cfg) (evs : List Event) :
    Along (exec cfg) (Lawful cfg) evs Sys.erased ↔
      Along (exec cfg) (Harmless cfg) evs Sys.erased := by
  refine (along_iff_of_invariant (fun s : Sys => s.code.Wf) ?_ ?_ ?_).symm
  · intro s ev hw
    exact harmless_iff_lawful hw
  · intro s ev r s' hw _ h
    exact wf_exec hw h
  · exact ⟨onlyServices_zero, fun infos h => by cases h⟩

/-- A device with `save_cloud`, where a socket session is saved, and in the next wake-up a CDP
session, without a resume in between. -/
def twoSaves : List Event :=
  [.sleep ⟨some ⟨⟨5000, 0, 0, 0⟩, ⟨0, 0, 0, 0⟩, 0⟩, none, none⟩ 0x0100007f true,
    .sleep ⟨none, none, some ⟨5683, 5683, [], []⟩⟩ 0x0100007f true]

/-- The socket session is lost, though nobody resumed or ended it. -/
theorem not_sessions_lawful : ¬ Along (exec ⟨1, 0, fun _ => 0⟩) (Lawful ⟨1, 0, fun _ => 0⟩)
    twoSaves Sys.erased := by
  rintro ⟨-, h⟩
  obtain ⟨hlaw, -⟩ := h _ _ rfl
  have hrecord := (hlaw _ _ rfl).2 _ _ _ rfl
  revert hrecord
  decide

end XY1100.Resume
