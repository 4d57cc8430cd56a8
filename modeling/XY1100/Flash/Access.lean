import XY1100.Flash.Choose

/-!
# Flash — `xy_ftl_read` and `xy_ftl_write` on a region

What the two calls do from a flash in which no page in use outranks the newest intact one.

* A read returns the bytes of the newest intact page, or what stands for it when there is none
  (`areaRead`, `xyFtlRead_spec`).
* A write erases pages that are not intact, and then either stops there or rewrites one sector
  other than the current page (`WriteTrace`, `xyFtlWrite_trace`).  With the battery good it stores
  the sealed page, unless the data is there already (`xyFtlWrite_returns`).
-/

namespace XY1100
open Support

/-! ### Sealed pages -/

/-- The number `xy_ftl_write` puts in a page, from the one its buffer holds. -/
def nextWriteNum (writeNum : UInt32) : UInt32 := (if writeNum = 0xFFFFFFFF then 0 else writeNum) + 1

theorem nextWriteNum_ne_zero (w : UInt32) : nextWriteNum w ≠ 0 := by
  unfold nextWriteNum
  split_ifs with h
  · decide
  · rw [← UInt32.toNat_inj] at h
    rw [ne_eq, ← UInt32.toNat_inj]
    have := w.toNat_lt
    simp only [UInt32.toNat_add, UInt32.reduceToNat] at h ⊢
    omega

section Seal
variable {buf : Buf} {dst : Nat} {data : List UInt8}

/-- Up to the checksum, a sealed page is the buffer with the magic word and the data. -/
theorem sealPage_inside {i : Nat} (hi : i < eftlCsmOffset) :
    sealPage buf dst data i = ((buf.putWord 0 EFTL_MAGIC_NUM).write dst data) i := by
  simp only [eftlCsmOffset] at hi
  simp only [sealPage]
  rw [Buf.putWord_outside (by simp only [eftlWriteNumOffset]; omega),
    Buf.putWord_outside (by simp only [eftlCsmOffset]; omega)]

theorem sealPage_data {k : Nat} (hk : k < xyFtlAvailableSize) :
    sealPage buf dst data (4 + k) = (buf.write dst data) (4 + k) := by
  simp only [xyFtlAvailableSize] at hk
  rw [sealPage_inside (by simp only [eftlCsmOffset]; omega)]
  simp only [Buf.write]
  rw [Buf.putWord_outside (by omega)]

theorem sealPage_magic (h : 4 ≤ dst) : (sealPage buf dst data).word 0 = EFTL_MAGIC_NUM := by
  rw [← Buf.word_putWord buf 0 EFTL_MAGIC_NUM]
  refine Buf.word_congr fun i hi => ?_
  rw [sealPage_inside (by simp only [eftlCsmOffset]; omega), Buf.write_outside (by omega)]

theorem sealPage_chksumOk : ChksumOk (sealPage buf dst data) := by
  have h : Buf.Agree (sealPage buf dst data)
      ((buf.putWord 0 EFTL_MAGIC_NUM).write dst data) 0 eftlCsmOffset :=
    fun i _ hi => sealPage_inside (by omega)
  rw [ChksumOk, xyChksum_congr h, sealPage]
  rw [Buf.word_putWord_ne (by decide), Buf.word_putWord]

theorem sealPage_writeNum (h : dst + data.length ≤ eftlCsmOffset) :
    (sealPage buf dst data).word eftlWriteNumOffset =
      nextWriteNum (buf.word eftlWriteNumOffset) := by
  have hw : ((((buf.putWord 0 EFTL_MAGIC_NUM).write dst data).putWord eftlCsmOffset
      (xyChksum ((buf.putWord 0 EFTL_MAGIC_NUM).write dst data) 0 eftlCsmOffset))).word
      eftlWriteNumOffset = buf.word eftlWriteNumOffset := by
    rw [Buf.word_putWord_ne (by decide)]
    simp only [eftlCsmOffset] at h
    refine Buf.word_congr fun i hi => ?_
    rw [Buf.write_outside (by simp only [eftlWriteNumOffset]; omega),
      Buf.putWord_outside (by simp only [eftlWriteNumOffset]; omega)]
  simp only [sealPage, Buf.word_putWord, hw, nextWriteNum]

/-- A sealed page whose magic word the data left is in use, unless its number has reached the value
of erased flash. -/
theorem goodNum_sealPage_of_magic (hm : (sealPage buf dst data).word 0 = EFTL_MAGIC_NUM)
    (h : dst + data.length ≤ eftlCsmOffset) :
    goodNum (sealPage buf dst data) =
      if nextWriteNum (buf.word eftlWriteNumOffset) = 0xFFFFFFFF then none
      else some (nextWriteNum (buf.word eftlWriteNumOffset)).toNat := by
  rw [goodNum_eq sealPage_chksumOk]
  simp only [num, hm, sealPage_writeNum h, true_and,
    ne_eq, nextWriteNum_ne_zero, not_false_eq_true, and_true]
  split_ifs <;> rfl

theorem goodNum_sealPage (buf : Buf) (dst : Nat) (data : List UInt8)
    (h : dst + data.length ≤ eftlCsmOffset) (h₀ : 4 ≤ dst) :
    goodNum (sealPage buf dst data) =
      if nextWriteNum (buf.word eftlWriteNumOffset) = 0xFFFFFFFF then none
      else some (nextWriteNum (buf.word eftlWriteNumOffset)).toNat :=
  goodNum_sealPage_of_magic (sealPage_magic h₀) h

end Seal

namespace FtlRegion
variable {env : Env} {r : FtlRegion}

/-! ### Reading -/

/-- What a read of `size` bytes at `off` returns. -/
def areaRead (r : FtlRegion) (f : Buf) (off size : Nat) : Option (List UInt8) :=
  match r.current f with
  | some i => some ((r.page f i).read (4 + off) size)
  | none =>
    if r.addr = NV_FLASH_FACTORY_BASE then
      some (f.read (NV_FLASH_MAIN_FACTORY_BASE.toNat + off) size)
    else none

theorem toNat_addr_le (r : FtlRegion) : r.addr.toNat ≤ 0x27200000 :=
  (Nat.le_add_right _ _).trans r.end_le

/-- The offset an address carries in its low 12 bits. -/
theorem addr_and_mask (r : FtlRegion) {off : Nat} (h : off < 4096) :
    (r.addr + UInt32.ofNat off) &&& 0xFFF = UInt32.ofNat off := by
  have ha : r.addr.toNat % 4096 = 0 := r.aligned
  have hl := r.toNat_addr_le
  apply UInt32.toNat_inj.mp
  rw [UInt32.toNat_and, UInt32.toNat_add, UInt32.toNat_ofNat',
    Nat.mod_eq_of_lt (a := off) (by omega),
    Nat.mod_eq_of_lt (by omega), show (0xFFF : UInt32).toNat = 2 ^ 12 - 1 from rfl,
    Nat.and_two_pow_sub_one_eq_mod]
  omega

theorem addr_align (off : Nat) : r.addr + UInt32.ofNat off - UInt32.ofNat off = r.addr := by
  simp

/-- The main factory image is outside the factory region. -/
theorem outside_main {a : Nat} (h : r.addr = NV_FLASH_FACTORY_BASE)
    (ha : a < NV_FLASH_FACTORY_BASE.toNat) : r.Outside a := .inl (by
  have hs : r.sector 0 = r.addr.toNat := by simp [sector]
  rw [hs, h]; exact ha)

/-- The bytes of the main factory image. -/
theorem main_outside (h : r.addr = NV_FLASH_FACTORY_BASE) {k : Nat} (hk : k < 4096) :
    r.Outside (NV_FLASH_MAIN_FACTORY_BASE.toNat + k) :=
  outside_main h (by
    have : NV_FLASH_MAIN_FACTORY_BASE.toNat + 4096 = NV_FLASH_FACTORY_BASE.toNat := rfl
    omega)

/-- What a read returns depends on the newest intact page only. -/
theorem KeepsCurrent.areaRead_eq {f g : Buf} (h : r.KeepsCurrent f g) {off size : Nat}
    (hin : off + size ≤ xyFtlAvailableSize) : r.areaRead g off size = r.areaRead f off size := by
  simp only [xyFtlAvailableSize] at hin
  simp only [areaRead, h.current_eq]
  rcases hc : r.current f with _ | i
  · dsimp only
    split_ifs with hf
    · refine congrArg some (Buf.read_congr fun k hk => ?_)
      rw [Nat.add_assoc]
      exact h.outside _ (main_outside hf (by omega))
    · rfl
  · exact congrArg some ((h.page i hc).read (by omega) (by omega))

/-- The range of a read that passes its assertions. -/
def ReadInRange (off size : Nat) : Prop := size ≤ xyFtlAvailableSize ∧ off + size ≤ eftlCsmOffset

instance (off size : Nat) : Decidable (ReadInRange off size) := inferInstanceAs (Decidable (_ ∧ _))

theorem readInRange_of_le {off size : Nat} (h : off + size ≤ xyFtlAvailableSize) :
    ReadInRange off size := by
  simp only [xyFtlAvailableSize] at h
  simp only [ReadInRange, xyFtlAvailableSize, eftlCsmOffset]
  omega

/-- The assertions of a read at `off` in the region, in plain numbers. -/
theorem read_asserts_iff (r : FtlRegion) {off size : Nat} (hoff : off < 4096)
    (hsize : size < 2 ^ 32) :
    ((UInt32.ofNat size).toNat ≤ xyFtlAvailableSize ∧
      r.addr + UInt32.ofNat off + UInt32.ofNat size ≤
        r.addr + UInt32.ofNat off - ((r.addr + UInt32.ofNat off) &&& 0xFFF)
          + UInt32.ofNat eftlCsmOffset) ↔
    ReadInRange off size := by
  have hl := r.toNat_addr_le
  rw [addr_and_mask r hoff, addr_align, UInt32.le_iff_toNat_le, UInt32.toNat_ofNat',
    Nat.mod_eq_of_lt hsize]
  refine and_congr_right fun hs => ?_
  simp only [xyFtlAvailableSize] at hs
  simp only [UInt32.toNat_add, UInt32.toNat_ofNat', Nat.mod_eq_of_lt hsize, eftlCsmOffset,
    Nat.mod_eq_of_lt (show off < 2 ^ 32 by omega)]
  omega

/-- The end of a read, when the page has been chosen. -/
def readChosen (env : Env) (r : FtlRegion) (off size : Nat) :
    Option Nat → Exec (Option (List UInt8))
  | none =>
    if r.addr = NV_FLASH_FACTORY_BASE then do
      return some ((← Exec.flash).read (NV_FLASH_MAIN_FACTORY_BASE + UInt32.ofNat off).toNat size)
    else return none
  | some i => do
    let temp ← xyFlashRead (pageAddr r.addr i) env.heap 0 sectorLength
    return some (temp.read (4 + off) size)

/-- A read whose assertions hold chooses, and reads. -/
theorem xyFtlRead_eq (hr : r.Registered env) {fuel : Nat} {b : Board} {off size : Nat}
    (h : ReadInRange off size) :
    xyFtlRead env fuel (r.addr + UInt32.ofNat off) (UInt32.ofNat size) b =
      (chooseAgain env r.cfg r.addr fuel 0 >>= fun x => r.readChosen env off size x.1) b := by
  obtain ⟨hsize, hin⟩ := h
  have hoff : off < 4096 := by simp only [eftlCsmOffset] at hin; omega
  have hlt : size < 2 ^ 32 := by simp only [xyFtlAvailableSize] at hsize; omega
  obtain ⟨h₁, h₂⟩ := (read_asserts_iff r hoff hlt).mpr ⟨hsize, hin⟩
  have hsz : (UInt32.ofNat size).toNat = size := by
    rw [UInt32.toNat_ofNat', Nat.mod_eq_of_lt hlt]
  have hoff' : (UInt32.ofNat off).toNat = off := by
    rw [UInt32.toNat_ofNat', Nat.mod_eq_of_lt (by omega)]
  simp only [xyFtlRead]
  rw [bind_ok (Exec.xyAssert_of h₁ b), bind_ok (Exec.xyAssert_of h₂ b)]
  simp only [addr_and_mask r hoff, addr_align, hsz, hoff', xyChooseValidFtl_eq hr]
  refine congrFun (congrArg (chooseAgain env r.cfg r.addr fuel 0 >>= ·) (funext fun x => ?_)) b
  obtain ⟨_ | i, _⟩ := x <;> rfl

/-- A read that has chosen the current page. -/
theorem xyFtlRead_of_ok (hr : r.Registered env) {fuel : Nat} {b b' : Board} {off size j : Nat}
    (hin : off + size ≤ xyFtlAvailableSize)
    (he : chooseAgain env r.cfg r.addr fuel 0 b = .ok (r.current b'.flash, j) b') :
    xyFtlRead env fuel (r.addr + UInt32.ofNat off) (UInt32.ofNat size) b =
      .ok (r.areaRead b'.flash off size) b' := by
  rw [xyFtlRead_eq hr (readInRange_of_le hin), bind_ok he, areaRead]
  dsimp only
  rcases hc : r.current b'.flash with _ | i
  · dsimp only [readChosen]
    split_ifs with hf
    · simp only [xyFtlAvailableSize] at hin
      have hm : (NV_FLASH_MAIN_FACTORY_BASE + UInt32.ofNat off).toNat =
          NV_FLASH_MAIN_FACTORY_BASE.toNat + off := by
        have : NV_FLASH_MAIN_FACTORY_BASE.toNat = 0x27003000 := rfl
        rw [UInt32.toNat_add, UInt32.toNat_ofNat']
        omega
      rw [bind_ok (Exec.flash_eq b'), hm]
      rfl
    · rfl
  · dsimp only [readChosen]
    simp only [xyFtlAvailableSize] at hin
    have hp := (read_page_agree (r := r) env.heap b'.flash i).read (b := 4 + off) (k := size)
      (by omega) (by omega)
    rw [bind_ok (xyFlashRead_page (current_lt hc) b'), hp]
    rfl

/-- **Reading a region.** -/
theorem xyFtlRead_spec (hr : r.Registered env) (fuel : Nat) {b : Board} (hU : r.Unhidden b.flash)
    {off size : Nat} (hin : off + size ≤ xyFtlAvailableSize) :
    ∃ ops b', r.Scrubs b.flash ops b'.flash ∧ b'.ops = b.ops ++ ops ∧
      EndsIn (xyFtlRead env fuel (r.addr + UInt32.ofNat off) (UInt32.ofNat size) b)
        (r.areaRead b.flash off size) b' := by
  obtain ⟨ops, b', hs, ho, he⟩ := chooseAgain_spec env fuel 0 hU
    fun _ _ _ => Nat.zero_le _
  refine ⟨ops, b', hs, ho, ?_⟩
  rw [← hs.keeps.areaRead_eq hin]
  rcases he with he | ⟨e, he⟩
  · rw [← hs.keeps.current_eq] at he
    exact .inl (xyFtlRead_of_ok hr hin he)
  · exact .inr ⟨e, by rw [xyFtlRead_eq hr (readInRange_of_le hin), bind_error he]⟩

/-- With the battery good and enough fuel, a read returns. -/
theorem xyFtlRead_returns (hr : r.Registered env) (hv : ∀ k, env.vbatOk k = true) {fuel : Nat}
    (hf : r.pages < fuel) {b : Board} (hU : r.Unhidden b.flash) {off size : Nat}
    (hin : off + size ≤ xyFtlAvailableSize) :
    ∃ ops b', r.Scrubs b.flash ops b'.flash ∧ b'.ops = b.ops ++ ops ∧
      xyFtlRead env fuel (r.addr + UInt32.ofNat off) (UInt32.ofNat size) b =
        .ok (r.areaRead b.flash off size) b' := by
  obtain ⟨ops, b', hs, ho, he⟩ := chooseAgain_ok hv hf hU
  refine ⟨ops, b', hs, ho, ?_⟩
  rw [← hs.keeps.areaRead_eq hin]
  rw [← hs.keeps.current_eq] at he
  exact xyFtlRead_of_ok hr hin he

/-- A read in a flash whose newest intact page is hidden does not find it. -/
theorem xyFtlRead_hidden (fuel : Nat) {b : Board} (hr : r.Registered env)
    (hf : r.addr ≠ NV_FLASH_FACTORY_BASE) (hU : ¬ r.Unhidden b.flash) {off size : Nat}
    (hin : off + size ≤ xyFtlAvailableSize) :
    ∃ b',
      EndsIn (xyFtlRead env fuel (r.addr + UInt32.ofNat off) (UInt32.ofNat size) b) none b' := by
  obtain ⟨b', he | ⟨e, he⟩⟩ := chooseAgain_hidden env fuel hU
  · refine ⟨b', .inl ?_⟩
    rw [xyFtlRead_eq hr (readInRange_of_le hin), bind_ok he]
    simp only [readChosen, if_neg hf]
    rfl
  · exact ⟨b', .inr ⟨e, by rw [xyFtlRead_eq hr (readInRange_of_le hin), bind_error he]⟩⟩

/-! ### Writing -/

/-- The page buffer a write starts from. -/
def source (env : Env) (r : FtlRegion) (f : Buf) : Buf :=
  match r.current f with
  | some i => env.heap.write 0 (f.read (r.sector i) sectorLength)
  | none =>
    if r.addr = NV_FLASH_FACTORY_BASE then
      env.heap.write 4 (f.read NV_FLASH_MAIN_FACTORY_BASE.toNat (sectorLength - 4))
    else fun _ => 0

theorem source_of_current {f : Buf} {i : Nat} (h : r.current f = some i) :
    r.source env f = env.heap.write 0 (f.read (r.sector i) sectorLength) := by
  simp only [source, h]

theorem loadPage_eq (b : Board) :
    loadPage env r.addr (r.current b.flash) b = .ok (r.source env b.flash) b := by
  unfold source
  rcases hc : r.current b.flash with _ | i
  · simp only [loadPage]
    split_ifs
    · rw [xyFlashRead, bind_ok (Exec.xyAssert_of (by decide) b), bind_ok (Exec.flash_eq b)]
      rfl
    · rfl
  · exact xyFlashRead_page (current_lt hc) b

theorem next_lt (h : 0 < r.pages) (f : Buf) : r.next f < r.pages := by
  rcases hc : r.current f with _ | i
  · rwa [next_of_none hc]
  · rw [next_eq hc]
    exact Nat.mod_lt _ h

/-- In a region of two pages or more, the page to write next is not the current one. -/
theorem next_ne_current (h : 2 ≤ r.pages) {f : Buf} {i : Nat} (hc : r.current f = some i) :
    r.next f ≠ i := by
  rw [next_eq hc]
  have := current_lt hc
  rcases Nat.lt_or_ge (i + 1) r.pages with hi | hi
  · rw [Nat.mod_eq_of_lt hi]; omega
  · rw [show i + 1 = r.pages by omega, Nat.mod_self]; omega

/-- The operations of a write: erases of pages that are not intact, and then either nothing, or
the erase and the program of the page to write next. -/
def WriteTrace (r : FtlRegion) (f : Buf) (ops : List FlashOp) : Prop :=
  ∃ scrub f', r.Scrubs f scrub f' ∧
    (ops = scrub ∨ ∃ bs, bs.length = sectorLength ∧
      ops = scrub ++ [.erase (r.sector (r.next f)), .program (r.sector (r.next f)) bs])

/-- The body of a write after the choice, when it stores the page. -/
def storePage (env : Env) (r : FtlRegion) (b : Board) (dst : Nat) (data : List UInt8) : Board :=
  b.checked.perform [.erase (r.sector (r.next b.flash)), .program (r.sector (r.next b.flash))
    ((sealPage (r.source env b.flash) dst data).read 0 sectorLength)]

/-- A write that has chosen the current page, by cases: outside the page buffer, nothing to
change, battery low, and the page stored. -/
theorem xyFtlWrite_cases (hr : r.Registered env) (hp : 0 < r.pages) (offset : Int)
    (data : List UInt8) {fuel : Nat} {b b' : Board}
    (ha : (UInt32.ofInt offset + UInt32.ofNat data.length).toNat ≤ xyFtlAvailableSize)
    (he : chooseAgain env r.cfg r.addr fuel 0 b = .ok (r.current b'.flash, r.next b'.flash) b') :
    let dst := (4 + offset).toNat
    let res := xyFtlWrite env fuel r.addr offset data b
    ((4 + offset < 0 ∨ (sectorLength : Int) < 4 + offset + data.length) ∧
      res = .error .heapOverflow b') ∨
    ((0 ≤ 4 + offset ∧ 4 + offset + data.length ≤ sectorLength) ∧ (r.current b'.flash).isSome ∧
      (r.source env b'.flash).read dst data.length = data ∧ res = .ok .xyOk b') ∨
    (env.vbatOk b'.checks = false ∧ res = .ok .xyErrLowVbat b'.checked) ∨
    (0 ≤ 4 + offset ∧ 4 + offset + data.length ≤ sectorLength ∧
      ¬ ((r.current b'.flash).isSome ∧ (r.source env b'.flash).read dst data.length = data) ∧
      res = (Exec.xyAssert ((r.storePage env b' dst data).flash.word
          (r.sector (r.next b'.flash)) = EFTL_MAGIC_NUM) >>= fun _ => pure .xyOk)
        (r.storePage env b' dst data)) := by
  intro dst res
  have hres : res = xyFtlWrite env fuel r.addr offset data b := rfl
  simp only [xyFtlWrite] at hres
  rw [bind_ok (Exec.xyAssert_of ha b), xyChooseValidFtl_eq hr, bind_ok he] at hres
  dsimp only at hres
  rw [bind_ok (loadPage_eq b')] at hres
  by_cases hov : 4 + offset < 0 ∨ (sectorLength : Int) < 4 + offset + data.length
  · rw [if_pos hov] at hres
    exact .inl ⟨hov, hres⟩
  rw [if_neg hov] at hres
  by_cases heq : (r.current b'.flash).isSome ∧ (r.source env b'.flash).read dst data.length = data
  · rw [if_pos heq] at hres
    exact .inr (.inl ⟨⟨by omega, by omega⟩, heq.1, heq.2, hres⟩)
  rw [if_neg heq] at hres
  have hn := r.next_lt hp b'.flash
  have hw := xyFlashWrite_sector env
    ((sealPage (r.source env b'.flash) dst data).read 0 sectorLength) (pageAddr_mod hn) (inFlash hn)
    (by simp) b'
  rw [toNat_pageAddr hn] at hw hres
  cases hv : env.vbatOk b'.checks
  · rw [hv, if_neg (by decide)] at hw
    rw [bind_ok hw] at hres
    exact .inr (.inr (.inl ⟨rfl, hres⟩))
  · rw [hv, if_pos rfl] at hw
    rw [bind_ok hw] at hres
    exact .inr (.inr (.inr ⟨by omega, by omega, heq, hres⟩))

/-- A write that returns has passed its assertion and chosen. -/
theorem chose_of_write (hr : r.Registered env) {fuel : Nat} {b b' : Board} {offset : Int}
    {data : List UInt8} {ret : XyRet} (h : xyFtlWrite env fuel r.addr offset data b = .ok ret b') :
    (UInt32.ofInt offset + UInt32.ofNat data.length).toNat ≤ xyFtlAvailableSize ∧
      ∃ x c, chooseAgain env r.cfg r.addr fuel 0 b = .ok x c := by
  by_cases ha : (UInt32.ofInt offset + UInt32.ofNat data.length).toNat ≤ xyFtlAvailableSize
  · rw [xyFtlWrite, bind_ok (Exec.xyAssert_of ha b), xyChooseValidFtl_eq hr] at h
    obtain ⟨x, c, hc, -⟩ := bind_eq_ok h
    exact ⟨ha, x, c, hc⟩
  · rw [xyFtlWrite, bind_error (Exec.xyAssert_of_not ha b)] at h
    cases h

theorem storePage_flash (env : Env) (b : Board) (dst : Nat) (data : List UInt8) :
    (r.storePage env b dst data).flash = b.flash.write (r.sector (r.next b.flash))
      ((sealPage (r.source env b.flash) dst data).read 0 sectorLength) :=
  replay_rewrite (by simp) b.flash

/-- The word the last assertion of a write reads is the first of the page that was stored. -/
theorem storePage_word (env : Env) (b : Board) (dst : Nat) (data : List UInt8) :
    (r.storePage env b dst data).flash.word (r.sector (r.next b.flash)) =
      (sealPage (r.source env b.flash) dst data).word 0 := by
  rw [storePage_flash]
  refine Buf.word_congr fun i hi => ?_
  exact Buf.write_read_inside (by simp only [sectorLength]; omega)

/-- **The operations of a write**, whatever the offset, the data and the battery. -/
theorem xyFtlWrite_trace (hr : r.Registered env) (hp : 0 < r.pages) (fuel : Nat) {b : Board}
    (hU : r.Unhidden b.flash) (offset : Int) (data : List UInt8) :
    ∃ ops, r.WriteTrace b.flash ops ∧
      (finalState (xyFtlWrite env fuel r.addr offset data b)).ops = b.ops ++ ops ∧
      (finalState (xyFtlWrite env fuel r.addr offset data b)).flash =
        FlashOp.replay ops b.flash := by
  by_cases ha : (UInt32.ofInt offset + UInt32.ofNat data.length).toNat ≤ xyFtlAvailableSize
  case neg =>
    refine ⟨[], ⟨[], b.flash, .nil _, .inl rfl⟩, ?_⟩
    rw [xyFtlWrite, bind_error (Exec.xyAssert_of_not ha b)]
    simp [finalState]
  obtain ⟨scrub, b', hs, ho, he⟩ := chooseAgain_spec env fuel 0 hU
    fun _ _ _ => Nat.zero_le _
  have hscrub : r.WriteTrace b.flash scrub := ⟨scrub, b'.flash, hs, .inl rfl⟩
  rcases he with he | ⟨e, he⟩
  case inr =>
    refine ⟨scrub, hscrub, ?_⟩
    rw [xyFtlWrite, bind_ok (Exec.xyAssert_of ha b), xyChooseValidFtl_eq hr, bind_error he]
    exact ⟨ho, hs.replay_eq⟩
  rw [← hs.keeps.current_eq, ← hs.keeps.next_eq] at he
  rcases xyFtlWrite_cases hr hp _ _ ha he with ⟨-, h⟩ | ⟨-, -, -, h⟩ | ⟨-, h⟩ | ⟨-, -, -, h⟩
  · rw [h]; exact ⟨scrub, hscrub, ho, hs.replay_eq⟩
  · rw [h]; exact ⟨scrub, hscrub, ho, hs.replay_eq⟩
  · rw [h]; exact ⟨scrub, hscrub, ho, hs.replay_eq⟩
  · have hfin : finalState (xyFtlWrite env fuel r.addr offset data b) =
        r.storePage env b' (4 + offset).toNat data := by
      rw [h, Exec.finalState_xyAssert]
    refine ⟨scrub ++ [.erase (r.sector (r.next b'.flash)), .program (r.sector (r.next b'.flash))
      ((sealPage (r.source env b'.flash) (4 + offset).toNat data).read 0 sectorLength)],
      ⟨scrub, b'.flash, hs, .inr ⟨_, Buf.length_read .., by rw [hs.keeps.next_eq]⟩⟩, ?_, ?_⟩
    · rw [hfin, storePage, Board.ops_perform, Board.ops_checked, ho, List.append_assoc]
    · rw [hfin, storePage, Board.flash_perform, Board.flash_checked, FlashOp.replay_append,
        hs.replay_eq]

/-- A range inside the user area passes the assertion of a write. -/
theorem assert_of_le {off : Nat} {data : List UInt8}
    (hin : off + data.length ≤ xyFtlAvailableSize) :
    (UInt32.ofInt (off : Int) + UInt32.ofNat data.length).toNat ≤ xyFtlAvailableSize := by
  simp only [xyFtlAvailableSize] at hin ⊢
  have hlen : (UInt32.ofNat data.length).toNat = data.length := by
    rw [UInt32.toNat_ofNat', Nat.mod_eq_of_lt (by omega)]
  have hoff : (UInt32.ofInt (off : Int)).toNat = off := by
    rw [show UInt32.ofInt (off : Int) = UInt32.ofNat ((off : Int) % 2 ^ 32).toNat from rfl,
      UInt32.toNat_ofNat']
    omega
  rw [UInt32.toNat_add, hlen, hoff]
  omega

/-- **Writing a region**, with the battery good and enough fuel: the data is there already, or
the sealed page is stored. -/
theorem xyFtlWrite_returns (hr : r.Registered env) (hp : 0 < r.pages)
    (hv : ∀ k, env.vbatOk k = true) {fuel : Nat} (hf : r.pages < fuel) {b : Board}
    (hU : r.Unhidden b.flash) {off : Nat} {data : List UInt8}
    (hin : off + data.length ≤ xyFtlAvailableSize) :
    ∃ ops f' b', r.Scrubs b.flash ops f' ∧
      xyFtlWrite env fuel r.addr off data b = .ok .xyOk b' ∧
      (((r.current b.flash).isSome ∧ (r.source env f').read (4 + off) data.length = data ∧
          b'.flash = f') ∨
        (¬ ((r.current b.flash).isSome ∧ (r.source env f').read (4 + off) data.length = data) ∧
          b'.flash = f'.write (r.sector (r.next b.flash))
            ((sealPage (r.source env f') (4 + off) data).read 0 sectorLength))) := by
  have ha := assert_of_le hin
  simp only [xyFtlAvailableSize] at hin
  obtain ⟨ops, b₁, hs, -, he⟩ := chooseAgain_ok hv hf hU
  have hdst : (4 + (off : Int)).toNat = 4 + off := by omega
  rw [← hs.keeps.current_eq, ← hs.keeps.next_eq] at he ⊢
  rcases xyFtlWrite_cases hr hp _ _ ha he with ⟨h, -⟩ | ⟨-, h₁, h₂, h⟩ | ⟨h, -⟩ | ⟨-, -, hne, h⟩
  · simp only [sectorLength] at h
    omega
  · rw [hdst] at h₂
    exact ⟨ops, b₁.flash, b₁, hs, h, .inl ⟨h₁, h₂, rfl⟩⟩
  · rw [hv] at h; cases h
  · rw [hdst] at hne h
    have hfl := storePage_flash env (r := r) b₁ (4 + off) data
    have hm : (r.storePage env b₁ (4 + off) data).flash.word (r.sector (r.next b₁.flash)) =
        EFTL_MAGIC_NUM := by
      rw [storePage_word]
      exact sealPage_magic (by omega)
    rw [bind_ok (Exec.xyAssert_of hm _)] at h
    exact ⟨ops, b₁.flash, _, hs, h, .inr ⟨hne, hfl⟩⟩

/-! ### A region with one page -/

/-- A flash in which only the first page of the region is not erased. -/
def onePage (r : FtlRegion) (p : Buf) : Buf :=
  blankFlash.write (r.sector 0) (p.read 0 sectorLength)

theorem goods_onePage (r : FtlRegion) (p : Buf) : r.goods (r.onePage p) 0 = goodNum p :=
  goodNum_congr (page_write 0)

theorem nums_onePage_ne (r : FtlRegion) (p : Buf) {i : Nat} (hi : i ≠ 0) :
    r.nums (r.onePage p) i = none :=
  (num_congr (page_write_ne hi (by simp))).trans (num_of_erased fun _ _ => rfl)

theorem newest_onePage (hp : 0 < r.pages) {p : Buf} {k : Nat} (hg : goodNum p = some k) :
    r.Newest (r.onePage p) 0 k := by
  have hzero : ∀ j l, r.goods (r.onePage p) j = some l → j = 0 ∧ l = k := by
    intro j l hl
    rcases eq_or_ne j 0 with rfl | hj
    · rw [goods_onePage, hg] at hl
      exact ⟨rfl, (Option.some.inj hl).symm⟩
    · rw [goods_eq_none (nums_onePage_ne r p hj)] at hl
      cases hl
  exact ⟨hp, (goods_onePage r p).trans hg, Nat.zero_le k, fun j _ l hl => (hzero j l hl).2.le,
    fun j _ hl => (hzero j k hl).1.le⟩

theorem unhidden_onePage (hp : 0 < r.pages) {p : Buf} {k : Nat} (hg : goodNum p = some k) :
    r.Unhidden (r.onePage p) := by
  intro j l hn i hi m hm
  obtain ⟨rfl, rfl⟩ := hn.unique (newest_onePage hp hg)
  rcases eq_or_ne i 0 with rfl | hne
  · rw [nums_of_goods ((goods_onePage r p).trans hg)] at hm
    cases hm
    exact le_rfl
  · rw [nums_onePage_ne r p hne] at hm
    cases hm

/-! ### A hidden page -/

/-- The region after its first write. -/
def sealedFlash : Buf :=
  blankFlash.write (nonVolatile.sector 0) ((sealPage (fun _ => 0) 4 [7]).read 0 sectorLength)

/-- The region after its first write and a second one torn before its checksum. -/
def hiddenFlash : Buf :=
  sealedFlash.write (nonVolatile.sector 1) ((tornPage 2).read 0 sectorLength)

/-- The page of a first write. -/
theorem goodNum_firstPage : goodNum (sealPage (fun _ => 0) 4 [7]) = some 1 :=
  (goodNum_sealPage _ _ _ (by decide) (by decide)).trans (by decide)

theorem goods_sealedFlash : nonVolatile.goods sealedFlash 0 = some 1 :=
  (goods_onePage nonVolatile _).trans goodNum_firstPage

theorem byte_sealedFlash : nonVolatile.page sealedFlash 0 4 = 7 :=
  (page_write 0 _ (by decide) (by decide)).trans (by
    rw [show 4 = 4 + 0 from rfl, sealPage_data (by decide)]
    exact Buf.write_inside (by decide))

theorem nums_sealedFlash : nonVolatile.nums sealedFlash 1 = none :=
  nums_onePage_ne nonVolatile _ (by decide)

theorem isLastMax_sealedFlash : IsLastMax (nonVolatile.nums sealedFlash) nonVolatile.pages 0 0 1 :=
  isLastMax_of_only_zero (nums_of_goods goods_sealedFlash) nums_sealedFlash (Nat.zero_le 1)

theorem goods_hiddenFlash : nonVolatile.goods hiddenFlash 0 = some 1 :=
  (goodNum_congr (page_write_ne (by decide) (by simp))).trans goods_sealedFlash

theorem nums_hiddenFlash : nonVolatile.nums hiddenFlash 1 = some 2 :=
  (num_congr (page_write 1)).trans (num_tornPage (by decide) (by decide))

/-- A flash whose page 0 is intact with number 1, and whose page 1 is not intact. -/
theorem newest_zero {f : Buf} (h₀ : nonVolatile.goods f 0 = some 1)
    (h₁ : nonVolatile.goods f 1 = none) : nonVolatile.Newest f 0 1 :=
  isLastMax_of_only_zero h₀ h₁ (Nat.zero_le 1)

theorem newest_sealedFlash : nonVolatile.Newest sealedFlash 0 1 :=
  newest_onePage (by decide) goodNum_firstPage

theorem newest_hiddenFlash : nonVolatile.Newest hiddenFlash 0 1 :=
  newest_zero goods_hiddenFlash (goodNum_eq_none fun h =>
    not_chksumOk_tornPage 2 ((chksumOk_congr (page_write 1)).mp h))

theorem unhidden_sealedFlash : nonVolatile.Unhidden sealedFlash :=
  unhidden_onePage (by decide) goodNum_firstPage

theorem not_unhidden_hiddenFlash : ¬ nonVolatile.Unhidden hiddenFlash := fun h =>
  absurd (h 0 1 newest_hiddenFlash 1 (by decide) 2 nums_hiddenFlash) (by decide)

end FtlRegion

end XY1100
