import XY1100.Flash.Ftl

/-!
# Flash — the pages of a region

A region of the FTL (`FtlRegion`) is a row of pages that lies in the flash, registered with
`xy_regist_ftl_req` (`Registered`).  A page is read as a memory of its own (`FtlRegion.page`); it
is in use when it has the magic word and a number (`num`), and intact when its checksum matches
as well (`goodNum`).

One attempt of `xy_choose_valid_ftl` either finds no page in use that reaches `max_writenum`, or
takes the last one with the highest number, and erases it, battery permitting, when its checksum
fails (`chooseAttempt_none`, `chooseAttempt_good`, `chooseAttempt_bad`).
-/

namespace XY1100
open Support

/-- A row of whole sectors of the flash. -/
structure FtlRegion where
  cfg : EftlCfg
  aligned : cfg.addr.toNat % 4096 = 0
  base_le : FLASH_BASE.toNat ≤ cfg.addr.toNat
  end_le : cfg.addr.toNat + 4096 * cfg.tpageTotal.toNat ≤ FLASH_BASE.toNat + FLASH_LENGTH.toNat

/-- The number of a page in use. -/
def num (page : Buf) : Option Nat :=
  let writeNum := page.word eftlWriteNumOffset
  if page.word 0 = EFTL_MAGIC_NUM ∧ writeNum ≠ 0xFFFFFFFF ∧ writeNum ≠ 0 then some writeNum.toNat
  else none

/-- The number of a page in use whose checksum matches. -/
def goodNum (page : Buf) : Option Nat := if ChksumOk page then num page else none

theorem num_congr {p q : Buf} (h : p.Agree q 0 4096) : num p = num q := by
  have h₀ : p.word 0 = q.word 0 := Buf.word_congr fun i hi => h _ (by omega) (by omega)
  have h₁ : p.word eftlWriteNumOffset = q.word eftlWriteNumOffset :=
    Buf.word_congr fun i hi => h _ (by omega) (by simp only [eftlWriteNumOffset]; omega)
  simp only [num, h₀, h₁]

theorem chksumOk_congr {p q : Buf} (h : p.Agree q 0 4096) : ChksumOk p ↔ ChksumOk q := by
  have h₀ : p.word eftlCsmOffset = q.word eftlCsmOffset :=
    Buf.word_congr fun i hi => h _ (by omega) (by simp only [eftlCsmOffset]; omega)
  have h₁ : xyChksum p 0 eftlCsmOffset = xyChksum q 0 eftlCsmOffset :=
    xyChksum_congr fun i h₁ h₂ => h i h₁ (by simp only [eftlCsmOffset] at h₂; omega)
  simp only [ChksumOk, h₀, h₁]

theorem goodNum_congr {p q : Buf} (h : p.Agree q 0 4096) : goodNum p = goodNum q := by
  simp only [goodNum, chksumOk_congr h, num_congr h]

theorem num_of_goodNum {p : Buf} {k : Nat} (h : goodNum p = some k) : num p = some k := by
  unfold goodNum at h
  split at h
  · exact h
  · cases h

theorem chksumOk_of_goodNum {p : Buf} {k : Nat} (h : goodNum p = some k) : ChksumOk p := by
  unfold goodNum at h
  split at h
  · assumption
  · cases h

theorem goodNum_eq {p : Buf} (h : ChksumOk p) : goodNum p = num p := if_pos h

theorem goodNum_eq_none {p : Buf} (h : ¬ ChksumOk p) : goodNum p = none := if_neg h

/-- A number in use is a word that is neither all zeros nor all ones. -/
theorem num_bounds {p : Buf} {k : Nat} (h : num p = some k) :
    k = (p.word eftlWriteNumOffset).toNat ∧ 0 < k ∧ k < 0xFFFFFFFF := by
  simp only [num] at h
  split at h
  case isFalse => cases h
  case isTrue hc =>
    cases h
    obtain ⟨-, hf, h0⟩ := hc
    have hlt := (p.word eftlWriteNumOffset).toNat_lt
    have hf' : (p.word eftlWriteNumOffset).toNat ≠ 0xFFFFFFFF := fun e =>
      hf (UInt32.toNat_inj.mp e)
    have h0' : (p.word eftlWriteNumOffset).toNat ≠ 0 := fun e => h0 (UInt32.toNat_inj.mp e)
    omega

/-- An erased page is not in use. -/
theorem num_of_erased {p : Buf} (h : ∀ i < 4, p i = 0xFF) : num p = none := by
  have h₀ : p.word 0 = 0xFFFFFFFF := by
    simp only [Buf.word, Nat.zero_add, h 0 (by omega), h 1 (by omega), h 2 (by omega),
      h 3 (by omega)]
    rfl
  simp [num, h₀, EFTL_MAGIC_NUM]

namespace FtlRegion
variable {env : Env} (r : FtlRegion)

abbrev addr : UInt32 := r.cfg.addr

/-- The region is the one `find_valid_ftl_cfg` finds at its address. -/
def Registered (env : Env) : Prop := findValidFtlCfg env.userNvCfgs r.cfg.addr = some r.cfg

abbrev pages : Nat := r.cfg.tpageTotal.toNat

/-- The address of a page. -/
def sector (i : Nat) : Nat := r.addr.toNat + sectorLength * i

/-- A page, as a memory of its own. -/
def page (f : Buf) (i : Nat) : Buf := fun k => f (r.sector i + k)

/-- The flash outside the region. -/
def Outside (a : Nat) : Prop := a < r.sector 0 ∨ r.sector r.pages ≤ a

variable {r}

theorem sector_mod (i : Nat) : r.sector i % 4096 = 0 := by
  have := r.aligned
  simp only [sector, addr, sectorLength]
  omega

theorem sector_bounds {i : Nat} (h : i < r.pages) :
    FLASH_BASE.toNat ≤ r.sector i ∧ r.sector i + 4096 ≤ FLASH_BASE.toNat + FLASH_LENGTH.toNat := by
  have h₁ := r.base_le
  have h₂ := r.end_le
  have h₃ : i < r.cfg.tpageTotal.toNat := h
  simp only [sector, addr, sectorLength]
  omega

theorem flash_end : FLASH_BASE.toNat + FLASH_LENGTH.toNat = 0x27200000 := rfl

theorem toNat_pageAddr {i : Nat} (h : i < r.pages) : (pageAddr r.addr i).toNat = r.sector i := by
  have hb := sector_bounds h
  rw [flash_end] at hb
  have hs : sectorLength * i < 4294967296 := by
    have : r.sector i = r.addr.toNat + sectorLength * i := rfl
    omega
  rw [pageAddr, UInt32.toNat_add, UInt32.toNat_ofNat', Nat.mod_eq_of_lt hs]
  exact Nat.mod_eq_of_lt (by have : r.sector i = r.addr.toNat + sectorLength * i := rfl; omega)

theorem inFlash {i : Nat} (h : i < r.pages) : InFlash (pageAddr r.addr i) := by
  have hb := sector_bounds h
  have he : (FLASH_BASE + FLASH_LENGTH).toNat = FLASH_BASE.toNat + FLASH_LENGTH.toNat := rfl
  refine ⟨UInt32.le_iff_toNat_le.mpr ?_, UInt32.le_iff_toNat_le.mpr ?_⟩ <;>
    rw [toNat_pageAddr h] <;> omega

theorem pageAddr_mod {i : Nat} (h : i < r.pages) : (pageAddr r.addr i).toNat % 4096 = 0 := by
  rw [toNat_pageAddr h]
  exact sector_mod i

/-- The number the scan reads is the page's. -/
theorem pageNum_eq (f : Buf) (i : Nat) : pageNum f r.addr i = num (r.page f i) := by
  have hw : ∀ k, f.word (r.addr.toNat + sectorLength * i + k) = (r.page f i).word k := fun k =>
    Buf.word_congr fun j _ => by simp only [page, sector]; congr 1; omega
  simp only [pageNum, eftlPageOffsetAddr, hw, num]

/-- Two flashes agree on a page. -/
theorem page_agree {f g : Buf} {i : Nat} (h : ∀ k < 4096, f (r.sector i + k) = g (r.sector i + k)) :
    (r.page f i).Agree (r.page g i) 0 4096 := fun k _ hk => h k (by omega)

theorem sector_add_lt {i j : Nat} (h : i < j) : r.sector i + 4096 ≤ r.sector j := by
  have hm : sectorLength * (i + 1) ≤ sectorLength * j := Nat.mul_le_mul_left _ h
  simp only [sector, sectorLength] at hm ⊢
  omega

/-- A byte of a page is outside every other. -/
theorem page_disjoint {i j k : Nat} (hne : i ≠ j) (hk : k < 4096) :
    r.sector i + k < r.sector j ∨ r.sector j + 4096 ≤ r.sector i + k := by
  rcases Nat.lt_or_gt_of_ne hne with h | h
  · have := sector_add_lt (r := r) h; omega
  · have := sector_add_lt (r := r) h; omega

/-- What is outside the region is outside each of its pages. -/
theorem Outside.not_mem {a i : Nat} (ha : r.Outside a) (hi : i < r.pages) :
    a < r.sector i ∨ r.sector i + 4096 ≤ a := by
  rcases ha with h | h
  · left
    rcases Nat.eq_zero_or_pos i with rfl | hi'
    · exact h
    · have := sector_add_lt (r := r) hi'; omega
  · right
    have := sector_add_lt (r := r) hi; omega

/-! ### Erasing a page and rewriting one -/

theorem page_erase_ne {f : Buf} {i j : Nat} (hne : j ≠ i) :
    (r.page ((FlashOp.erase (r.sector i)).apply f) j).Agree (r.page f j) 0 4096 :=
  page_agree fun _ hk => Buf.fill_outside (page_disjoint hne hk)

theorem num_page_erase (f : Buf) (i : Nat) :
    num (r.page ((FlashOp.erase (r.sector i)).apply f) i) = none :=
  num_of_erased fun k hk => Buf.fill_inside (by omega) (by simp only [sectorLength]; omega)

theorem page_write {f p : Buf} (i : Nat) :
    (r.page (f.write (r.sector i) (p.read 0 sectorLength)) i).Agree p 0 4096 := fun k _ hk => by
  have h := Buf.write_read_inside (m := f) (f := p) (a := r.sector i) (c := 0)
    (n := sectorLength) (i := k) (by simp only [sectorLength]; omega)
  simpa [page] using h

theorem page_write_ne {f : Buf} {i j : Nat} {bs : List UInt8} (hne : j ≠ i)
    (hl : bs.length = 4096) :
    (r.page (f.write (r.sector i) bs) j).Agree (r.page f j) 0 4096 :=
  page_agree fun _ hk => Buf.write_outside (by rw [hl]; exact page_disjoint hne hk)

/-! ### One attempt -/

/-- A page read into a block. -/
theorem xyFlashRead_page {i : Nat} (hi : i < r.pages) (b : Board) :
    xyFlashRead (pageAddr r.addr i) env.heap 0 sectorLength b =
      .ok (env.heap.write 0 (b.flash.read (r.sector i) sectorLength)) b := by
  rw [xyFlashRead, bind_ok (Exec.xyAssert_of (inFlash hi) b), toNat_pageAddr hi]
  rfl

theorem read_page_agree (m f : Buf) (i : Nat) :
    (m.write 0 (f.read (r.sector i) sectorLength)).Agree (r.page f i) 0 4096 := fun k _ hk => by
  have h := Buf.write_read_inside (m := m) (f := f) (a := 0) (c := r.sector i)
    (n := sectorLength) (i := k) (by simp only [sectorLength]; omega)
  simpa [page] using h

/-- The numbers of the pages, as the scan sees them. -/
def nums (r : FtlRegion) (f : Buf) (i : Nat) : Option Nat := num (r.page f i)

/-- The numbers of the intact pages. -/
def goods (r : FtlRegion) (f : Buf) (i : Nat) : Option Nat := goodNum (r.page f i)

theorem scan_pageNum (f : Buf) (lo : Nat) :
    scan (pageNum f r.addr) r.pages lo = scan (r.nums f) r.pages lo := by
  have : pageNum f r.addr = r.nums f := funext fun i => pageNum_eq f i
  rw [this]

theorem chooseAttempt_none {b : Board} {lo : Nat}
    (h : ∀ i < r.pages, ∀ k, r.nums b.flash i = some k → k < lo) :
    chooseAttempt env r.cfg r.addr lo b = .ok (.inr (none, 0)) b := by
  have hs : scan (pageNum b.flash r.addr) r.cfg.tpageTotal.toNat lo = (lo, none) :=
    (scan_pageNum b.flash lo).trans (scan_of_forall_lt h)
  rw [chooseAttempt, bind_ok (Exec.flash_eq b), hs]
  rfl

/-- The board after a page was rejected: its sector is erased, battery permitting. -/
def rejected (env : Env) (r : FtlRegion) (b : Board) (i : Nat) : Board :=
  if env.vbatOk b.checks then b.checked.perform [.erase (r.sector i)] else b.checked

/-- The attempt takes the last page with the highest number, or rejects it. -/
theorem chooseAttempt_eq {b : Board} {lo i k : Nat}
    (h : IsLastMax (r.nums b.flash) r.pages lo i k) :
    chooseAttempt env r.cfg r.addr lo b =
      if ChksumOk (r.page b.flash i) then .ok (.inr (some i, (i + 1) % r.pages)) b
      else .ok (.inl k) (rejected env r b i) := by
  have hs : scan (pageNum b.flash r.addr) r.cfg.tpageTotal.toNat lo = (k, some i) :=
    (scan_pageNum b.flash lo).trans (scan_of_isLastMax h)
  have he := xyFlashErase_sector env (pageAddr_mod h.lt) b
  rw [toNat_pageAddr h.lt] at he
  have hread := chksumOk_congr (read_page_agree (r := r) env.heap b.flash i)
  rw [chooseAttempt, bind_ok (Exec.flash_eq b), hs]
  dsimp only
  rw [bind_ok (xyFlashRead_page h.lt b)]
  by_cases hc : ChksumOk (r.page b.flash i)
  · rw [if_pos (hread.mpr hc), if_pos hc]
    rfl
  · rw [if_neg (mt hread.mp hc), if_neg hc]
    unfold rejected
    split_ifs at he ⊢ with hv <;> exact (bind_ok he).trans rfl

theorem chooseAttempt_good {b : Board} {lo i k : Nat}
    (h : IsLastMax (r.nums b.flash) r.pages lo i k) (hc : ChksumOk (r.page b.flash i)) :
    chooseAttempt env r.cfg r.addr lo b = .ok (.inr (some i, (i + 1) % r.pages)) b := by
  rw [chooseAttempt_eq h, if_pos hc]

theorem chooseAttempt_bad {b : Board} {lo i k : Nat}
    (h : IsLastMax (r.nums b.flash) r.pages lo i k) (hc : ¬ ChksumOk (r.page b.flash i)) :
    chooseAttempt env r.cfg r.addr lo b = .ok (.inl k) (rejected env r b i) := by
  rw [chooseAttempt_eq h, if_neg hc]

/-! ### The loop -/

theorem chooseAgain_done {b b' : Board} {lo fuel : Nat} {x : Option Nat × Nat}
    (h : chooseAttempt env r.cfg r.addr lo b = .ok (.inr x) b') :
    chooseAgain env r.cfg r.addr (fuel + 1) lo b = .ok x b' := by
  rw [chooseAgain, bind_ok h]
  rfl

theorem chooseAgain_again {b b' : Board} {lo lo' fuel : Nat}
    (h : chooseAttempt env r.cfg r.addr lo b = .ok (.inl lo') b') :
    chooseAgain env r.cfg r.addr (fuel + 1) lo b = chooseAgain env r.cfg r.addr fuel lo' b' := by
  rw [chooseAgain, bind_ok h]

theorem xyChooseValidFtl_eq (h : r.Registered env) (fuel : Nat) :
    xyChooseValidFtl env fuel r.addr = chooseAgain env r.cfg r.addr fuel 0 := by
  have h' : findValidFtlCfg env.userNvCfgs r.addr = some r.cfg := h
  simp only [xyChooseValidFtl, h']

end FtlRegion

/-! ### A region of the board -/

/-- After `xy_nv_ftl_init`, with the battery good and the DSP not loaded. -/
def bootEnv : Env := { quietEnv with userNvCfgs := (xyNvFtlInit []).getD [] }

/-- The region of the DSP's non-volatile data, of two pages. -/
def nonVolatile : FtlRegion where
  cfg := ⟨NV_FLASH_DSP_NON_VOLATILE_BASE, 2⟩
  aligned := by decide
  base_le := by decide
  end_le := by decide

theorem registered_nonVolatile : nonVolatile.Registered bootEnv := rfl

theorem pages_nonVolatile : nonVolatile.pages = 2 := rfl

/-- A page with the magic word and a number, but no checksum. -/
def tornPage (writeNum : UInt32) : Buf :=
  (Buf.putWord (fun _ => 0) 0 EFTL_MAGIC_NUM).putWord eftlWriteNumOffset writeNum

theorem num_tornPage {n : UInt32} (h₀ : n ≠ 0) (h : n ≠ 0xFFFFFFFF) :
    num (tornPage n) = some n.toNat := by
  have hm : (tornPage n).word 0 = EFTL_MAGIC_NUM := by
    rw [tornPage, Buf.word_putWord_ne (by decide), Buf.word_putWord]
  have hn : (tornPage n).word eftlWriteNumOffset = n := Buf.word_putWord ..
  simp [num, hm, hn, h₀, h]

theorem not_chksumOk_tornPage (n : UInt32) : ¬ ChksumOk (tornPage n) := by
  intro h
  have hc : (tornPage n).word eftlCsmOffset = 0 := by
    rw [tornPage, Buf.word_putWord_ne (by decide), Buf.word_putWord_ne (by decide)]
    rfl
  have := xyChksum_high (tornPage n) 0 eftlCsmOffset
  rw [← h, hc] at this
  exact absurd this (by decide)

end XY1100
