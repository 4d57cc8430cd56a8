import XY1100.Support.Scan
import XY1100.Flash.Device
import XY1100.Utils.Checksum

/-!
# Flash — the flash translation layer

`xy_flash.c`: a registered region is a row of pages, each a sector that holds a magic word, the
user area, a checksum of both and a write number.  A write puts the whole user area, changed,
with the next number into the page after the current one; `xy_choose_valid_ftl` takes the page
with the highest number for the current one, and when its checksum fails erases it and chooses
again.

The messages sent to the AT port are not modelled: they change nothing the functions read.
-/

namespace XY1100
open Support

def EFTL_MAGIC_NUM : UInt32 := 0x5A5A5A5A

/-- Offsets in a page: the checksum and the write number of its `eftl_page_tag`. -/
def eftlCsmOffset : Nat := 0xFF0
def eftlWriteNumOffset : Nat := 0xFF4

/-- `XY_FTL_AVAILABLE_SIZE`, the user area of a page, from its byte 4. -/
def xyFtlAvailableSize : Nat := 0xFEC

/-! ### The registered regions -/

/-- `xy_regist_ftl_req`, which asserts that address and size are whole sectors. -/
def xyRegistFtlReq (cfgs : List EftlCfg) (addr size : UInt32) : Option (List EftlCfg) :=
  if addr % 4096 = 0 ∧ size % 4096 = 0 then some (⟨addr, size / 4096⟩ :: cfgs) else none

/-- `xy_nv_ftl_init`. -/
def xyNvFtlInit (cfgs : List EftlCfg) : Option (List EftlCfg) := do
  let cfgs ← xyRegistFtlReq cfgs NV_FLASH_FACTORY_BASE NV_FLASH_FACTORY_LEN
  let cfgs ← xyRegistFtlReq cfgs NV_FLASH_DSP_VOLATILE_BASE NV_FLASH_DSP_VOLATILE_LEN
  let cfgs ← xyRegistFtlReq cfgs NV_FLASH_DSP_NON_VOLATILE_BASE NV_FLASH_DSP_NON_VOLATILE_LEN
  xyRegistFtlReq cfgs NV_FLASH_NET_BASE NV_FLASH_NET_LEN

/-- `find_valid_ftl_cfg`. -/
def findValidFtlCfg (cfgs : List EftlCfg) (addr : UInt32) : Option EftlCfg :=
  cfgs.find? fun cfg => cfg.addr = addr

/-- The region registered last at an address is the one found there. -/
theorem findValidFtlCfg_xyRegistFtlReq {cfgs cfgs' : List EftlCfg} {addr size : UInt32}
    (h : xyRegistFtlReq cfgs addr size = some cfgs') :
    findValidFtlCfg cfgs' addr = some ⟨addr, size / 4096⟩ := by
  unfold xyRegistFtlReq at h
  split at h
  · cases h
    simp [findValidFtlCfg]
  · cases h

/-! ### Pages -/

/-- `EFTL_PAGE_OFFSET_ADDR`. -/
def eftlPageOffsetAddr (f : Buf) (addr : UInt32) (index offset : Nat) : UInt32 :=
  f.word (addr.toNat + sectorLength * index + offset)

/-- The write number of a page with a magic word and a number in use. -/
def pageNum (f : Buf) (addr : UInt32) (i : Nat) : Option Nat :=
  let writeNum := eftlPageOffsetAddr f addr i eftlWriteNumOffset
  if eftlPageOffsetAddr f addr i 0 = EFTL_MAGIC_NUM ∧ writeNum ≠ 0xFFFFFFFF ∧ writeNum ≠ 0 then
    some writeNum.toNat
  else none

/-- The address of a page. -/
def pageAddr (addr : UInt32) (i : Nat) : UInt32 := addr + UInt32.ofNat (sectorLength * i)

/-- The checksum test of a page read into memory. -/
def ChksumOk (page : Buf) : Prop := page.word eftlCsmOffset = xyChksum page 0 eftlCsmOffset

instance (page : Buf) : Decidable (ChksumOk page) := inferInstanceAs (Decidable (_ = _))

/-- The page `xy_ftl_write` builds in its buffer: magic, data, checksum and the next number. -/
def sealPage (pPageBuf : Buf) (dst : Nat) (data : List UInt8) : Buf :=
  let buf := pPageBuf.putWord 0 EFTL_MAGIC_NUM
  let buf := buf.write dst data
  let buf := buf.putWord eftlCsmOffset (xyChksum buf 0 eftlCsmOffset)
  let writeNum := buf.word eftlWriteNumOffset
  let writeNum := if writeNum = 0xFFFFFFFF then 0 else writeNum
  buf.putWord eftlWriteNumOffset (writeNum + 1)

variable (env : Env)

/-! ### `xy_choose_valid_ftl` -/

/-- The body of `xy_choose_valid_ftl` from `CHOOSE_AGAIN`.  The `for` loop is the scan for the
last page with the highest number, from `max_writenum`; a page that fails its checksum is erased,
and the loop is entered again with `max_writenum` as the failed attempt left it. -/
def chooseAttempt (cfg : EftlCfg) (addr : UInt32) (maxWritenum : Nat) :
    Exec (Nat ⊕ Option Nat × Nat) := do
  let (maxWritenum, validPage) :=
    scan (pageNum (← Exec.flash) addr) cfg.tpageTotal.toNat maxWritenum
  match validPage with
  | some i =>
    let temp ← xyFlashRead (pageAddr cfg.addr i) env.heap 0 sectorLength
    if ChksumOk temp then
      return .inr (some i, (i + 1) % cfg.tpageTotal.toNat)
    else
      let _ ← xyFlashErase env (pageAddr cfg.addr i) 4096
      return .inl maxWritenum
  | none => return .inr (none, 0)

/-- `CHOOSE_AGAIN`, for at most `fuel` attempts. -/
def chooseAgain (cfg : EftlCfg) (addr : UInt32) : (fuel maxWritenum : Nat) → Exec (Option Nat × Nat)
  | 0, _ => throw .outOfFuel
  | fuel + 1, maxWritenum => do
    match ← chooseAttempt env cfg addr maxWritenum with
    | .inl maxWritenum => chooseAgain cfg addr fuel maxWritenum
    | .inr r => return r

/-- `xy_choose_valid_ftl`: the current page, if any, and the page to write next.  An address that
is not registered stops at the assertion before `XY_ERR` is returned. -/
def xyChooseValidFtl (fuel : Nat) (addr : UInt32) : Exec (Option Nat × Nat) :=
  match findValidFtlCfg env.userNvCfgs addr with
  | none => throw .assertion
  | some cfg => chooseAgain env cfg addr fuel 0

/-! ### `xy_ftl_read` and `xy_ftl_write` -/

/-- `xy_ftl_read`: the bytes read, or nothing for `XY_ERR`. -/
def xyFtlRead (fuel : Nat) (addr size : UInt32) : Exec (Option (List UInt8)) := do
  let offset := addr &&& 0xFFF
  let addrAlign := addr - offset
  Exec.xyAssert (size.toNat ≤ xyFtlAvailableSize)
  Exec.xyAssert (addr + size ≤ addrAlign + UInt32.ofNat eftlCsmOffset)
  let (curFtlIdx, _) ← xyChooseValidFtl env fuel addrAlign
  match curFtlIdx with
  | none =>
    if addrAlign = NV_FLASH_FACTORY_BASE then
      return some ((← Exec.flash).read (NV_FLASH_MAIN_FACTORY_BASE + offset).toNat size.toNat)
    else
      return none
  | some i =>
    let temp ← xyFlashRead (pageAddr addrAlign i) env.heap 0 sectorLength
    return some (temp.read (4 + offset.toNat) size.toNat)

/-- The page buffer of `xy_ftl_write` before the change: the current page, or what a first write
starts from. -/
def loadPage (pageAddrBase : UInt32) (curFtlIdx : Option Nat) : Exec Buf :=
  match curFtlIdx with
  | some i => xyFlashRead (pageAddr pageAddrBase i) env.heap 0 sectorLength
  | none =>
    if pageAddrBase = NV_FLASH_FACTORY_BASE then
      xyFlashRead NV_FLASH_MAIN_FACTORY_BASE env.heap 4 (sectorLength - 4)
    else
      return (fun _ => 0)

/-- `xy_ftl_write`.  The sum of the assertion is unsigned, so a negative offset can pass it; the
buffer starts 4 bytes below the user area. -/
def xyFtlWrite (fuel : Nat) (pageAddrBase : UInt32) (offset : Int) (data : List UInt8) :
    Exec XyRet := do
  Exec.xyAssert ((UInt32.ofInt offset + UInt32.ofNat data.length).toNat ≤ xyFtlAvailableSize)
  let (curFtlIdx, nextFtlIdx) ← xyChooseValidFtl env fuel pageAddrBase
  let pPageBuf ← loadPage env pageAddrBase curFtlIdx
  if 4 + offset < 0 ∨ (sectorLength : Int) < 4 + offset + data.length then throw .heapOverflow
  let dst := (4 + offset).toNat
  if curFtlIdx.isSome ∧ pPageBuf.read dst data.length = data then
    return .xyOk
  let page := sealPage pPageBuf dst data
  let ret ← xyFlashWrite env (pageAddr pageAddrBase nextFtlIdx) (page.read 0 sectorLength)
  if ret ≠ .xyOk then return ret
  Exec.xyAssert ((← Exec.flash).word (pageAddr pageAddrBase nextFtlIdx).toNat = EFTL_MAGIC_NUM)
  return .xyOk

end XY1100
