import XY1100.Flash.PowerFail

/-!
# Flash — the factory region

The factory NV is read at boot through `CheckFactoryNvValid`, which scans the pages as
`xy_choose_valid_ftl` does but does not test the checksum of the page it finds, and is saved by
`SAVE_FAC_PARAM` and `save_factory_nv`, which erase the whole region when the save fails.

* **The two selections** (`selectsAlike_iff`) agree exactly when the page with the highest number
  is intact.
* **A failed save** (`losesNothing_iff`) leaves what is read back, because the battery check that
  refused the write refuses the erase as well.  The exception is a save that first rejects a page
  that hid an older intact one: then the older page is read back, where the main factory image was
  before.
-/

namespace XY1100
open Support

/-- The factory region, of two pages. -/
def factory : FtlRegion where
  cfg := ⟨NV_FLASH_FACTORY_BASE, 2⟩
  aligned := by decide
  base_le := by decide
  end_le := by decide

theorem registered_factory : factory.Registered bootEnv := rfl

theorem pages_factory : factory.pages = 2 := rfl

/-! ### `CheckFactoryNvValid` -/

/-- `CheckFactoryNvValid`: the address of the last page with the highest number, or 0. -/
def checkFactoryNvValid (f : Buf) : UInt32 :=
  match scan (pageNum f NV_FLASH_FACTORY_BASE) (NV_FLASH_FACTORY_LEN / 4096).toNat 0 with
  | (_, some validPage) => pageAddr NV_FLASH_FACTORY_BASE validPage
  | (_, none) => 0

/-- `xy_choose_valid_ftl` returns, and takes for the current page the one `CheckFactoryNvValid`
returns, or none when that returns 0. -/
def SelectsAlike (env : Env) (fuel : Nat) (b : Board) : Prop :=
  ∃ cur nxt b', xyChooseValidFtl env fuel NV_FLASH_FACTORY_BASE b = .ok (cur, nxt) b' ∧
    (∀ i < 2, checkFactoryNvValid b.flash = pageAddr NV_FLASH_FACTORY_BASE i → cur = some i) ∧
    (checkFactoryNvValid b.flash = 0 ↔ cur = none)

/-- The last page with the highest number in use, if there is one, passes its checksum. -/
def TopIntact (f : Buf) : Prop :=
  ∀ i k, IsLastMax (factory.nums f) factory.pages 0 i k → ChksumOk (factory.page f i)

theorem pageAddr_factory {i j : Nat} (hi : i < 2) (hj : j < 2)
    (h : pageAddr NV_FLASH_FACTORY_BASE i = pageAddr NV_FLASH_FACTORY_BASE j) : i = j := by
  obtain rfl | rfl : i = 0 ∨ i = 1 := by omega
  all_goals obtain rfl | rfl : j = 0 ∨ j = 1 := by omega
  all_goals first | rfl | exact absurd h (by decide)

theorem pageAddr_factory_ne_zero {i : Nat} (hi : i < 2) : pageAddr NV_FLASH_FACTORY_BASE i ≠ 0 := by
  obtain rfl | rfl : i = 0 ∨ i = 1 := by omega
  all_goals decide

theorem checkFactoryNvValid_of_isLastMax {f : Buf} {i k : Nat}
    (h : IsLastMax (factory.nums f) factory.pages 0 i k) :
    checkFactoryNvValid f = pageAddr NV_FLASH_FACTORY_BASE i := by
  have hs : scan (pageNum f NV_FLASH_FACTORY_BASE) (NV_FLASH_FACTORY_LEN / 4096).toNat 0 =
      (k, some i) := (FtlRegion.scan_pageNum (r := factory) f 0).trans (scan_of_isLastMax h)
  rw [checkFactoryNvValid, hs]

theorem checkFactoryNvValid_of_none {f : Buf}
    (h : ∀ i < factory.pages, ∀ k, factory.nums f i = some k → k < 0) :
    checkFactoryNvValid f = 0 := by
  have hs : scan (pageNum f NV_FLASH_FACTORY_BASE) (NV_FLASH_FACTORY_LEN / 4096).toNat 0 =
      (0, none) := (FtlRegion.scan_pageNum (r := factory) f 0).trans (scan_of_forall_lt h)
  rw [checkFactoryNvValid, hs]

section Selection
open FtlRegion
variable {env : Env}

/-- With the highest page intact both scans take it. -/
theorem selectsAlike_of_topIntact (hr : factory.Registered env) {fuel : Nat} (hf : 0 < fuel)
    {b : Board} (h : TopIntact b.flash) : SelectsAlike env fuel b := by
  obtain ⟨n, rfl⟩ := Nat.exists_eq_add_of_lt hf
  have heq := xyChooseValidFtl_eq hr (0 + n + 1)
  rcases scan_cases (factory.nums b.flash) factory.pages 0 with ⟨i, k, hm, -⟩ | ⟨hm, -⟩
  · have hc := checkFactoryNvValid_of_isLastMax hm
    refine ⟨some i, (i + 1) % factory.pages, b, ?_, fun j hj he => ?_, ?_⟩
    · exact (congrFun heq b).trans (chooseAgain_done (chooseAttempt_good hm (h i k hm)))
    · rw [hc] at he
      rw [pageAddr_factory hm.lt hj he]
    · exact ⟨fun he => absurd (hc.symm.trans he) (pageAddr_factory_ne_zero hm.lt),
        fun he => by cases he⟩
  · have hc := checkFactoryNvValid_of_none hm
    refine ⟨none, 0, b, ?_, fun j hj he => ?_, ?_⟩
    · exact (congrFun heq b).trans (chooseAgain_done (chooseAttempt_none hm))
    · exact absurd (he.symm.trans hc) (pageAddr_factory_ne_zero hj)
    · exact ⟨fun _ => rfl, fun _ => hc⟩

/-- A page that fails its checksum is rejected by one scan and returned by the other. -/
theorem not_selectsAlike (hr : factory.Registered env) (hv : ∀ k, env.vbatOk k = true) (fuel : Nat)
    {b : Board} {i k : Nat} (hm : IsLastMax (factory.nums b.flash) factory.pages 0 i k)
    (hc : ¬ ChksumOk (factory.page b.flash i)) : ¬ SelectsAlike env fuel b := by
  rintro ⟨cur, nxt, b', he, hpage, -⟩
  obtain rfl := hpage i hm.lt (checkFactoryNvValid_of_isLastMax hm)
  rw [show NV_FLASH_FACTORY_BASE = factory.addr from rfl, xyChooseValidFtl_eq hr] at he
  cases fuel with
  | zero => cases he
  | succ fuel =>
    rw [chooseAgain_again (chooseAttempt_bad hm hc)] at he
    obtain ⟨-, l, hl⟩ := chosen_good he
    replace hl := nums_of_goods hl
    simp only [rejected, hv, if_true, Board.flash_perform, Board.flash_checked,
      FlashOp.replay_cons, FlashOp.replay_nil, nums_erase] at hl
    cases hl

/-- **The boot-time and the run-time selection.**  With the battery good they agree exactly when
the page with the highest number in use passes its checksum. -/
theorem selectsAlike_iff (hr : factory.Registered env) (hv : ∀ k, env.vbatOk k = true) {fuel : Nat}
    (hf : factory.pages < fuel) (b : Board) : SelectsAlike env fuel b ↔ TopIntact b.flash := by
  constructor
  · intro h i k hm
    by_contra hc
    exact not_selectsAlike hr hv fuel hm hc h
  · exact selectsAlike_of_topIntact hr (Nat.zero_lt_of_lt hf)

/-- Page 0 intact under number 1 with the byte 7. -/
def sealedFactoryFlash : Buf :=
  blankFlash.write (factory.sector 0) ((sealPage (fun _ => 0) 4 [7]).read 0 sectorLength)

def sealedFactoryBoard : Board := ⟨sealedFactoryFlash, [], 0⟩

theorem newest_sealedFactoryFlash : factory.Newest sealedFactoryFlash 0 1 :=
  newest_onePage (by decide) goodNum_firstPage

theorem topIntact_sealedFactoryFlash : TopIntact sealedFactoryFlash := by
  intro i k hm
  rcases eq_or_ne i 0 with rfl | hi
  · exact chksumOk_of_goodNum newest_sealedFactoryFlash.key_eq
  · have hnone : factory.nums sealedFactoryFlash i = none := nums_onePage_ne factory _ hi
    cases hnone.symm.trans hm.key_eq

/-- Both find an intact page. -/
theorem selectsAlike_iff_sealedFactoryBoard : SelectsAlike bootEnv 3 sealedFactoryBoard :=
  (selectsAlike_iff registered_factory (fun _ => rfl) (by decide) sealedFactoryBoard).mpr
    topIntact_sealedFactoryFlash

/-- A torn page in an otherwise erased factory region. -/
def tornFactoryBoard : Board where
  flash := blankFlash.write (factory.sector 0) ((tornPage 1).read 0 sectorLength)
  ops := []
  checks := 0

theorem isLastMax_tornFactoryBoard :
    IsLastMax (factory.nums tornFactoryBoard.flash) factory.pages 0 0 1 := by
  refine isLastMax_of_only_zero ?_ ?_ (Nat.zero_le 1)
  · exact (num_congr (page_write 0)).trans (num_tornPage (by decide) (by decide))
  · exact (num_congr (page_write_ne (by decide) (by simp))).trans (num_of_erased fun _ _ => rfl)

/-- A torn page is the boot-time selection's, and not the run-time selection's. -/
theorem not_selectsAlike_tornFactoryBoard : ¬ SelectsAlike bootEnv 3 tornFactoryBoard :=
  not_selectsAlike registered_factory (fun _ => rfl) 3 isLastMax_tornFactoryBoard fun h =>
    not_chksumOk_tornPage 1 ((chksumOk_congr (page_write 0)).mp h)

end Selection

/-! ### `SAVE_FAC_PARAM` and `save_factory_nv` -/

section Save
variable (env : Env)

/-- A save of factory data: a write, and when it fails an erase of the whole region, whose result
is not looked at, and the assertion. -/
def saveOrErase (fuel : Nat) (offset : Int) (data : List UInt8) : Exec Unit := do
  if (← xyFtlWrite env fuel NV_FLASH_FACTORY_BASE offset data) ≠ .xyOk then
    let _ ← xyFlashErase env NV_FLASH_FACTORY_BASE NV_FLASH_FACTORY_LEN
    Exec.xyAssert False

/-- `SAVE_FAC_PARAM` of the field at `offsetFacParam` of `softap_fac_nv_t`, which lies behind the
`DSP_FAC_LEN` bytes of the DSP. -/
def saveFacParam (fuel dspFacLen offsetFacParam : Nat) (param : List UInt8) : Exec Unit :=
  saveOrErase env fuel (dspFacLen + offsetFacParam : Nat) param

/-- `save_factory_nv` of the `DSP_FAC_LEN` bytes at `RAM_FACTORY_NV_BASE`. -/
def saveFactoryNv (fuel : Nat) (ram : List UInt8) : Exec Unit := saveOrErase env fuel 0 ram

/-- A save, by the code that makes it. -/
inductive FactorySave
  | facParam (dspFacLen offsetFacParam : Nat) (param : List UInt8)
  | factoryNv (ram : List UInt8)

namespace FactorySave

def run (fuel : Nat) : FactorySave → Exec Unit
  | .facParam dspFacLen offsetFacParam param =>
      saveFacParam env fuel dspFacLen offsetFacParam param
  | .factoryNv ram => saveFactoryNv env fuel ram

/-- Where and what a save writes. -/
def offset : FactorySave → Nat
  | .facParam dspFacLen offsetFacParam _ => dspFacLen + offsetFacParam
  | .factoryNv _ => 0

def data : FactorySave → List UInt8
  | .facParam _ _ param => param
  | .factoryNv ram => ram

/-- The save writes inside the user area. -/
def InRange (s : FactorySave) : Prop := s.offset + s.data.length ≤ xyFtlAvailableSize

instance (s : FactorySave) : Decidable s.InRange := inferInstanceAs (Decidable (_ ≤ _))

theorem run_eq (fuel : Nat) (s : FactorySave) :
    s.run env fuel = saveOrErase env fuel s.offset s.data := by
  cases s <;> rfl

end FactorySave

/-- Every range of factory data reads the same on both flashes. -/
def SameReadable (f g : Buf) : Prop :=
  ∀ off size, off + size ≤ xyFtlAvailableSize →
    ∃ v, factory.ReadsAs f off size v ∧ factory.ReadsAs g off size v

/-- Whenever the write of a save returns a failure, what is read after the save's error handling
is what was read before. -/
def LosesNothing (b : Board) (s : FactorySave) : Prop :=
  ∀ fuel ret b', xyFtlWrite env fuel NV_FLASH_FACTORY_BASE s.offset s.data b = .ok ret b' →
    ret ≠ .xyOk → SameReadable b.flash (finalState (s.run env fuel b)).flash

/-- A page that fails its checksum hides an intact one with other data than the main factory
image, and the battery gets low right after the erase of it. -/
structure Uncovers (b : Board) : Prop where
  hidden : ¬ factory.Unhidden b.flash
  differs : ∃ i k, factory.current b.flash = some i ∧ k < xyFtlAvailableSize ∧
    factory.page b.flash i (4 + k) ≠ b.flash (NV_FLASH_MAIN_FACTORY_BASE.toNat + k)
  erases : env.vbatOk b.checks = true
  refuses : env.vbatOk (b.checks + 1) = false

end Save

/-! ### What a flash of the factory region reads as -/

section Reading
open FtlRegion
variable {env : Env}

/-- The main factory image. -/
def mainRead (f : Buf) (off size : Nat) : List UInt8 :=
  f.read (NV_FLASH_MAIN_FACTORY_BASE.toNat + off) size

/-- When the newest intact page is hidden, reads return the main factory image. -/
theorem readsAs_of_hidden {f : Buf} (hU : ¬ factory.Unhidden f) {off size : Nat}
    (hin : off + size ≤ xyFtlAvailableSize) :
    factory.ReadsAs f off size (some (mainRead f off size)) := by
  -- a read that returns has chosen no page, and the image is outside the region
  have hread : ∀ (env : Env) (b : Board) (fuel : Nat) (x : Option Nat × Nat) (b' : Board),
      factory.Registered env → b.flash = f →
      chooseAgain env factory.cfg factory.addr fuel 0 b = .ok x b' →
      xyFtlRead env fuel (factory.addr + UInt32.ofNat off) (UInt32.ofNat size) b =
        .ok (some (mainRead f off size)) b' := by
    intro env b fuel x b' hr hb hx
    obtain ⟨b'', he⟩ := chooseAgain_hidden env fuel (b := b) (by rwa [hb])
    obtain rfl : x = (none, 0) := by
      rcases he with he | ⟨e, he⟩ <;> rw [he] at hx <;> cases hx
      rfl
    rw [xyFtlRead_eq hr (readInRange_of_le hin), bind_ok hx]
    dsimp only [readChosen]
    rw [if_pos (show factory.addr = NV_FLASH_FACTORY_BASE from rfl), bind_ok (Exec.flash_eq b')]
    simp only [xyFtlAvailableSize] at hin
    have hm : (NV_FLASH_MAIN_FACTORY_BASE + UInt32.ofNat off).toNat =
        NV_FLASH_MAIN_FACTORY_BASE.toNat + off := by
      have : NV_FLASH_MAIN_FACTORY_BASE.toNat = 0x27003000 := rfl
      rw [UInt32.toNat_add, UInt32.toNat_ofNat']
      omega
    have hmain : b'.flash.read (NV_FLASH_MAIN_FACTORY_BASE.toNat + off) size =
        mainRead f off size := by
      refine Buf.read_congr fun k hk => ?_
      rw [Nat.add_assoc, chooseAgain_outside hx (main_outside rfl (by omega)), hb]
    rw [hm]
    exact congrArg (EStateM.Result.ok · b') (congrArg some hmain)
  constructor
  · intro env b fuel x b' hr hb h
    rcases hc : chooseAgain env factory.cfg factory.addr fuel 0 b with ⟨y, b''⟩ | ⟨e, b''⟩
    · rw [hread env b fuel y b'' hr hb hc] at h
      cases h
      rfl
    · rw [xyFtlRead_eq hr (readInRange_of_le hin), bind_error hc] at h
      cases h
  · intro env b fuel hr hb hv hf
    obtain ⟨x, b', hx⟩ := chooseAgain_returns_of_vbatOk hv hf b
    exact ⟨b', hread env b fuel x b' hr hb hx⟩

/-- A flash that keeps the newest intact page, not hidden before or after, reads the same. -/
theorem sameReadable_of_keeps {f g : Buf} (h : factory.KeepsCurrent f g)
    (hf : factory.Unhidden f) (hg : factory.Unhidden g) : SameReadable f g := by
  intro off size hin
  refine ⟨_, readsAs_of_unhidden hf hin, ?_⟩
  rw [← h.areaRead_eq hin]
  exact readsAs_of_unhidden hg hin

end Reading

/-! ### Saves that fail -/

section Failing
open FtlRegion
variable {env : Env} {b b' : Board} {fuel off : Nat} {data : List UInt8} {ret : XyRet}

/-- The error handling of a save whose write was refused: the erase is refused as well. -/
theorem flash_saveOrErase (he : xyFtlWrite env fuel NV_FLASH_FACTORY_BASE off data b = .ok ret b')
    (hret : ret ≠ .xyOk) (hv : env.vbatOk b'.checks = false) :
    (finalState (saveOrErase env fuel off data b)).flash = b'.flash := by
  have herase : xyFlashErase env NV_FLASH_FACTORY_BASE NV_FLASH_FACTORY_LEN b' =
      .ok .xyErrLowVbat b'.checked := by
    simp [xyFlashErase, checkVbat, hv, bind, EStateM.bind, pure, EStateM.pure]
  rw [saveOrErase, bind_ok he, if_pos hret, bind_ok herase,
    Exec.xyAssert_of_not (show ¬ False from id)]
  rfl

/-- A write that fails after choosing the newest intact page was refused for low battery. -/
theorem refused_of_unhidden (hr : factory.Registered env) (hU : factory.Unhidden b.flash)
    (hin : off + data.length ≤ xyFtlAvailableSize)
    (he : xyFtlWrite env fuel NV_FLASH_FACTORY_BASE off data b = .ok ret b') (hret : ret ≠ .xyOk) :
    ∃ c : Board, factory.KeepsCurrent b.flash c.flash ∧ factory.Unhidden c.flash ∧
      env.vbatOk c.checks = false ∧ b' = c.checked := by
  have ha := assert_of_le hin
  have he : xyFtlWrite env fuel factory.addr off data b = .ok ret b' := he
  obtain ⟨ops, c, hs, -, hc | ⟨e, hc⟩⟩ := chooseAgain_spec env fuel 0 hU fun _ _ _ => Nat.zero_le _
  case inr =>
    rw [xyFtlWrite, bind_ok (Exec.xyAssert_of ha b), xyChooseValidFtl_eq hr, bind_error hc] at he
    cases he
  rw [← hs.keeps.current_eq, ← hs.keeps.next_eq] at hc
  refine ⟨c, hs.keeps, hs.unhidden hU, ?_⟩
  rcases xyFtlWrite_cases hr (by decide) _ _ ha hc with
    ⟨-, h⟩ | ⟨-, -, -, h⟩ | ⟨hv, h⟩ | ⟨-, -, -, h⟩
  · rw [h] at he; cases he
  · rw [h] at he; cases he; exact absurd rfl hret
  · rw [h] at he; cases he; exact ⟨hv, rfl⟩
  · rw [h] at he
    obtain ⟨_, _, _, hok⟩ := bind_eq_ok he
    cases hok
    exact absurd rfl hret

/-- A write that has chosen no page takes the main factory image, and depends on the battery. -/
theorem xyFtlWrite_of_none {c : Board} (hr : factory.Registered env)
    (hin : off + data.length ≤ xyFtlAvailableSize)
    (hc : chooseAgain env factory.cfg factory.addr fuel 0 b = .ok (none, 0) c) :
    ∃ p : Board, xyFtlWrite env fuel NV_FLASH_FACTORY_BASE off data b =
      if env.vbatOk c.checks then
        (Exec.xyAssert (p.flash.word (factory.sector 0) = EFTL_MAGIC_NUM) >>= fun _ => pure .xyOk) p
      else .ok .xyErrLowVbat c.checked := by
  have hload : loadPage env factory.addr none c = .ok
      (env.heap.write 4 (c.flash.read NV_FLASH_MAIN_FACTORY_BASE.toNat (sectorLength - 4))) c := by
    rw [loadPage, if_pos (show factory.addr = NV_FLASH_FACTORY_BASE from rfl), xyFlashRead,
      bind_ok (Exec.xyAssert_of (by decide) c), bind_ok (Exec.flash_eq c)]
    rfl
  generalize hbuf : env.heap.write 4 (c.flash.read NV_FLASH_MAIN_FACTORY_BASE.toNat
    (sectorLength - 4)) = buf at hload
  have hw := xyFlashWrite_sector env
    ((sealPage buf (4 + (off : Int)).toNat data).read 0 sectorLength)
    (pageAddr_mod (r := factory) (i := 0) (by decide)) (inFlash (by decide)) (by simp) c
  have hov : ¬ (4 + (off : Int) < 0 ∨ (sectorLength : Int) < 4 + off + data.length) := by
    simp only [xyFtlAvailableSize, sectorLength] at hin ⊢
    omega
  refine ⟨c.checked.perform [.erase (factory.sector 0), .program (factory.sector 0)
    ((sealPage buf (4 + (off : Int)).toNat data).read 0 sectorLength)], ?_⟩
  show xyFtlWrite env fuel factory.addr off data b = _
  rw [xyFtlWrite, bind_ok (Exec.xyAssert_of (assert_of_le hin) b), xyChooseValidFtl_eq hr,
    bind_ok hc]
  dsimp only
  rw [bind_ok hload, if_neg hov, if_neg (by simp)]
  rw [toNat_pageAddr (r := factory) (by decide)] at hw ⊢
  cases hv : env.vbatOk c.checks
  · rw [hv, if_neg (by decide)] at hw
    rw [bind_ok hw, if_pos (by decide), if_neg (by decide)]
    rfl
  · rw [hv, if_pos rfl] at hw
    rw [bind_ok hw, if_neg (fun h => h rfl), if_pos rfl, bind_ok (Exec.flash_eq _)]

/-- Of the two pages, the one that is left when the bad one is erased is the intact one. -/
theorem nums_uncovered {f : Buf} {i k j l m k' : Nat}
    (hm : IsLastMax (factory.nums f) factory.pages 0 i k) (hc : ¬ ChksumOk (factory.page f i))
    (hn : factory.Newest f j l) (hm' : m < factory.pages)
    (hk' : factory.nums ((FlashOp.erase (factory.sector i)).apply f) m = some k') : k' = l := by
  obtain ⟨hne, hk'⟩ := nums_of_nums_erase hk'
  have hji : j ≠ i := by
    rintro rfl
    exact hc (chksumOk_of_goodNum hn.key_eq)
  have hi := hm.lt
  have hj := hn.lt
  rw [pages_factory] at hi hj hm'
  obtain rfl : m = j := by omega
  rw [nums_of_goods hn.key_eq] at hk'
  cases hk'
  rfl

/-- What the choice does in a hidden region of two pages, once the battery stays refused: it
erases the page that hides the other and finds none. -/
theorem chooseAgain_of_hidden {i k j l : Nat}
    (hm : IsLastMax (factory.nums b.flash) factory.pages 0 i k)
    (hc : ¬ ChksumOk (factory.page b.flash i)) (hn : factory.Newest b.flash j l) (hlk : l < k)
    (hv : env.vbatOk b.checks = true) (fuel : Nat) :
    chooseAgain env factory.cfg factory.addr (fuel + 2) 0 b =
      .ok (none, 0) (b.checked.perform [.erase (factory.sector i)]) := by
  rw [chooseAgain_again (chooseAttempt_bad hm hc), rejected, if_pos hv]
  refine chooseAgain_done (chooseAttempt_none fun m hm' k' hk' => ?_)
  rw [nums_uncovered hm hc hn hm' hk']
  exact hlk

/-- When the battery stays refused, the choice in a hidden region does not return. -/
theorem not_chooseAgain_of_hidden {x : Option Nat × Nat} {c : Board} {i k : Nat}
    (hm : IsLastMax (factory.nums b.flash) factory.pages 0 i k)
    (hc : ¬ ChksumOk (factory.page b.flash i)) (hv : ∀ t, b.checks ≤ t → env.vbatOk t = false) :
    chooseAgain env factory.cfg factory.addr fuel 0 b ≠ .ok x c := by
  intro he
  obtain ⟨m, hle⟩ := chooseAgain_returns_inv fuel (Nat.zero_le _) (fun i hi k hk => le_top hi hk)
    (top_reached b.flash) he
  have hp : passed env b m = 0 := by simp [passed, hv]
  have hb := mem_blockingAt_of_isLastMax hm hc
  rw [top_eq hm, hp] at hle
  exact absurd (Finset.card_pos.mpr ⟨i, hb⟩) (by omega)

/-- After the page that hid it is erased, the newest intact page is read. -/
theorem readsAs_uncovered {i k j l : Nat}
    (hm : IsLastMax (factory.nums b.flash) factory.pages 0 i k)
    (hc : ¬ ChksumOk (factory.page b.flash i)) (hn : factory.Newest b.flash j l) {size : Nat}
    (hin : off + size ≤ xyFtlAvailableSize) :
    factory.ReadsAs ((FlashOp.erase (factory.sector i)).apply b.flash) off size
      (some ((factory.page b.flash j).read (4 + off) size)) := by
  have hs : factory.Scrubs b.flash [.erase (factory.sector i)]
      ((FlashOp.erase (factory.sector i)).apply b.flash) := .cons hm.lt hc (.nil _)
  have hU : factory.Unhidden ((FlashOp.erase (factory.sector i)).apply b.flash) := by
    intro j' l' hn' m hm' k' hk'
    obtain ⟨rfl, rfl⟩ := hn.unique (hn'.congr fun m _ => congrFun hs.goods_eq.symm m)
    exact (nums_uncovered hm hc hn hm' hk').le
  have h := readsAs_of_unhidden hU hin
  rwa [hs.keeps.areaRead_eq hin, areaRead, current_of_newest hn] at h

/-- A write that fails in a hidden region has erased the page that hides the other, and was
refused after that. -/
theorem refused_of_hidden {i k j l : Nat} (hr : factory.Registered env)
    (hstay : ∀ k, env.vbatOk k = false → ∀ t, k ≤ t → env.vbatOk t = false)
    (hm : IsLastMax (factory.nums b.flash) factory.pages 0 i k)
    (hc : ¬ ChksumOk (factory.page b.flash i)) (hn : factory.Newest b.flash j l) (hlk : l < k)
    (hin : off + data.length ≤ xyFtlAvailableSize)
    (he : xyFtlWrite env fuel NV_FLASH_FACTORY_BASE off data b = .ok ret b') (hret : ret ≠ .xyOk) :
    env.vbatOk b.checks = true ∧ env.vbatOk (b.checks + 1) = false ∧
      b' = (b.checked.perform [.erase (factory.sector i)]).checked := by
  obtain ⟨-, x, c, hx⟩ := chose_of_write hr he
  cases hv : env.vbatOk b.checks
  · exact absurd hx (not_chooseAgain_of_hidden hm hc (hstay _ hv))
  obtain ⟨fuel, rfl⟩ : ∃ n, fuel = n + 2 := by
    rcases fuel with _ | _ | n
    · cases hx
    · rw [chooseAgain_again (chooseAttempt_bad hm hc)] at hx; cases hx
    · exact ⟨n, rfl⟩
  obtain ⟨p, hw⟩ := xyFtlWrite_of_none hr hin (chooseAgain_of_hidden hm hc hn hlk hv fuel)
  rw [he] at hw
  cases hv' : env.vbatOk (b.checks + 1)
  · rw [if_neg (by simp [hv'])] at hw
    cases hw
    exact ⟨rfl, rfl, rfl⟩
  · rw [if_pos (by simp [hv'])] at hw
    obtain ⟨_, _, _, hok⟩ := bind_eq_ok hw.symm
    cases hok
    exact absurd rfl hret

/-- An older page that comes to light is read, where the main factory image was before. -/
theorem not_losesNothing {s : FactorySave} (hr : factory.Registered env)
    (hstay : ∀ k, env.vbatOk k = false → ∀ t, k ≤ t → env.vbatOk t = false) (hin : s.InRange)
    (h : Uncovers env b) : ¬ LosesNothing env b s := by
  intro hs
  obtain ⟨hU, ⟨i', k', hcur, hk', hne⟩, hok, hlow⟩ := h
  obtain ⟨i, k, j, l, hm, hc, hn, hlk⟩ := exists_top_of_hidden hU
  rw [current_of_newest hn] at hcur
  cases hcur
  obtain ⟨p, hw⟩ := xyFtlWrite_of_none hr hin (chooseAgain_of_hidden hm hc hn hlk hok 0)
  rw [if_neg (by simp [hlow])] at hw
  have hlow' : env.vbatOk (b.checks + 2) = false := hstay _ hlow _ (by omega)
  obtain ⟨v, hbefore, hafter⟩ := hs 2 _ _ hw (by decide) k' 1 (by omega)
  rw [s.run_eq, flash_saveOrErase hw (by decide) hlow'] at hafter
  have h₁ := hbefore.unique registered_factory (fun _ => rfl) (readsAs_of_hidden hU (by omega))
  have h₂ := hafter.unique registered_factory (fun _ => rfl) (readsAs_uncovered hm hc hn (by omega))
  rw [h₁] at h₂
  simp only [mainRead, Buf.read, List.range_one, List.map_cons, List.map_nil, Nat.add_zero,
    Option.some.injEq, List.cons.injEq, and_true] at h₂
  exact hne h₂.symm

/-- Otherwise the save leaves what is read back. -/
theorem losesNothing_of_not_uncovers {s : FactorySave} (hr : factory.Registered env)
    (hstay : ∀ k, env.vbatOk k = false → ∀ t, k ≤ t → env.vbatOk t = false) (hin : s.InRange)
    (hno : ¬ Uncovers env b) : LosesNothing env b s := by
  intro fuel ret b' he hret
  rw [s.run_eq]
  by_cases hU : factory.Unhidden b.flash
  · obtain ⟨c, hk, hUc, hlow, rfl⟩ := refused_of_unhidden hr hU hin he hret
    rw [flash_saveOrErase he hret (hstay _ hlow _ (Nat.le_succ _))]
    exact sameReadable_of_keeps hk hU hUc
  · obtain ⟨i, k, j, l, hm, hc, hn, hlk⟩ := exists_top_of_hidden hU
    obtain ⟨hok, hlow, rfl⟩ := refused_of_hidden hr hstay hm hc hn hlk hin he hret
    rw [flash_saveOrErase he hret (hstay _ hlow _ (by simp))]
    -- the page that comes to light has the main factory image's data
    have hsame : ∀ t < xyFtlAvailableSize, factory.page b.flash j (4 + t) =
        b.flash (NV_FLASH_MAIN_FACTORY_BASE.toNat + t) := fun t ht => by
      by_contra hne
      exact hno ⟨hU, ⟨j, t, current_of_newest hn, ht, hne⟩, hok, hlow⟩
    intro off size hin
    refine ⟨_, readsAs_of_hidden hU hin, ?_⟩
    have hread : mainRead b.flash off size = (factory.page b.flash j).read (4 + off) size := by
      refine Buf.read_congr fun t ht => ?_
      rw [Nat.add_assoc, Nat.add_assoc]
      exact (hsame (off + t) (by omega)).symm
    rw [hread]
    exact readsAs_uncovered hm hc hn hin

/-- A battery check that refused once refuses for the rest of the boot. -/
theorem stays_refused {cfg : VbatCfg} {readings : Nat → UInt32}
    (hv : env.vbatOk = vbatCourse cfg readings) {k : Nat} (hk : env.vbatOk k = false) :
    ∀ t, k ≤ t → env.vbatOk t = false := by
  rw [hv] at hk ⊢
  exact vbatCourse_sticky hk

/-- **A failed save** leaves what is read back, unless it uncovers an older page. -/
theorem losesNothing_iff {cfg : VbatCfg} {readings : Nat → UInt32} (hr : factory.Registered env)
    (hv : env.vbatOk = vbatCourse cfg readings) (b : Board) (s : FactorySave) (hin : s.InRange) :
    LosesNothing env b s ↔ ¬ Uncovers env b := by
  constructor
  · exact fun h hu => not_losesNothing hr (fun _ => stays_refused hv) hin hu h
  · exact losesNothing_of_not_uncovers hr (fun _ => stays_refused hv) hin

theorem registered_lowVoltageEnv : factory.Registered lowVoltageEnv := rfl

/-- The battery checks of a board whose voltage is low throughout. -/
theorem vbatOk_lowVoltageEnv : lowVoltageEnv.vbatOk = vbatCourse ⟨30, true⟩ fun _ => 2500 := rfl

/-- A save of `work_mode` to a region with one page, while the voltage is low. -/
theorem losesNothing_iff_sealedFactoryBoard :
    LosesNothing lowVoltageEnv sealedFactoryBoard (.facParam 1664 1 [1]) :=
  (losesNothing_iff registered_lowVoltageEnv vbatOk_lowVoltageEnv sealedFactoryBoard
    (.facParam 1664 1 [1]) (by decide)).mpr fun h =>
      h.hidden (unhidden_onePage (by decide) goodNum_firstPage)

/-! ### An older page that comes to light -/

/-- The region with an intact page 0, and page 1 torn under number 2. -/
def hiddenFactoryFlash : Buf :=
  sealedFactoryFlash.write (factory.sector 1) ((tornPage 2).read 0 sectorLength)

def hiddenFactoryBoard : Board := ⟨hiddenFactoryFlash, [], 0⟩

/-- The voltage falls after the first battery check, and the last reset was for low voltage. -/
def fallingEnv : Env :=
  { bootEnv with vbatOk := vbatCourse ⟨30, true⟩ fun k => if k = 0 then 3300 else 2500 }

theorem byte_sealedFactoryFlash : factory.page sealedFactoryFlash 0 4 = 7 :=
  (page_write 0 _ (by decide) (by decide)).trans (by
    rw [show 4 = 4 + 0 from rfl, sealPage_data (by decide)]
    exact Buf.write_inside (by decide))

theorem newest_hiddenFactoryFlash : factory.Newest hiddenFactoryFlash 0 1 := by
  refine isLastMax_of_only_zero ?_ ?_ (Nat.zero_le 1)
  · exact (goodNum_congr (page_write_ne (by decide) (by simp))).trans newest_sealedFactoryFlash.key_eq
  · exact goodNum_eq_none fun h =>
      not_chksumOk_tornPage 2 ((chksumOk_congr (page_write 1)).mp h)

theorem nums_hiddenFactoryFlash : factory.nums hiddenFactoryFlash 1 = some 2 :=
  (num_congr (page_write 1)).trans (num_tornPage (by decide) (by decide))

theorem byte_hiddenFactoryFlash : factory.page hiddenFactoryFlash 0 4 = 7 :=
  (page_write_ne (by decide) (by simp) 4 (by decide) (by decide)).trans byte_sealedFactoryFlash

theorem main_hiddenFactoryFlash : hiddenFactoryFlash NV_FLASH_MAIN_FACTORY_BASE.toNat = 0xFF :=
  (Buf.write_outside (.inl (by decide))).trans (Buf.write_outside (.inl (by decide)))

theorem flash_hiddenFactoryBoard : hiddenFactoryBoard.flash = hiddenFactoryFlash := by
  simp only [hiddenFactoryBoard]

theorem not_unhidden_hiddenFactoryFlash : ¬ factory.Unhidden hiddenFactoryFlash := fun h =>
  absurd (h 0 1 newest_hiddenFactoryFlash 1 (by decide) 2 nums_hiddenFactoryFlash) (by decide)

theorem uncovers_hiddenFactoryBoard : Uncovers fallingEnv hiddenFactoryBoard where
  hidden := by
    rw [flash_hiddenFactoryBoard]
    exact not_unhidden_hiddenFactoryFlash
  differs := by
    rw [flash_hiddenFactoryBoard]
    refine ⟨0, 0, current_of_newest newest_hiddenFactoryFlash, by decide, ?_⟩
    rw [Nat.add_zero, Nat.add_zero, byte_hiddenFactoryFlash, main_hiddenFactoryFlash]
    decide
  erases := by decide
  refuses := by decide

/-- A save of `work_mode` refused right after the torn page was erased brings back the older page. -/
theorem not_losesNothing_hiddenFactoryBoard :
    ¬ LosesNothing fallingEnv hiddenFactoryBoard (.facParam 1664 1 [1]) := by
  have hr : factory.Registered fallingEnv := rfl
  have hv : fallingEnv.vbatOk = vbatCourse ⟨30, true⟩ fun k => if k = 0 then 3300 else 2500 := rfl
  exact not_losesNothing hr (fun _ => stays_refused hv) (by decide) uncovers_hiddenFactoryBoard

end Failing

end XY1100
