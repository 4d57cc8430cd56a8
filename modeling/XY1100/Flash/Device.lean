import XY1100.Support.Bytes
import XY1100.Support.Calls

/-!
# Flash — the device and its access functions

`flash_adapt.c`, the part of `xy_flash.c` under the FTL, and `xy_check_low_vBat`.

The flash is a NOR device with sectors of 4 KB: erasing a sector sets its bytes to `0xFF`,
programming a range clears bits.  A board holds the flash, the operations performed on it so
far, oldest first, and the number of battery checks made.  What a battery check answers, and
whether the flash is driven locally or by the DSP core, may change from one check to the next
and is a parameter (`Env`).  The DSP's side of an operation is not in the sources; it is taken
to do to the sector it is sent what the operation's name says.

A function that runs on the board is an `Exec`: it returns in a new board, or the machine stops
in one, at a failed `xy_assert`, a store outside a heap block, or a loop that has used up its
fuel.
-/

namespace XY1100
open Support

/-! ### The memory map -/

def FLASH_BASE : UInt32 := 0x27000000
def FLASH_LENGTH : UInt32 := 0x200000
def NV_FLASH_MAIN_FACTORY_BASE : UInt32 := 0x27003000
def NV_FLASH_FACTORY_BASE : UInt32 := 0x27004000
def NV_FLASH_FACTORY_LEN : UInt32 := 0x2000
def NV_FLASH_DSP_VOLATILE_BASE : UInt32 := 0x27006000
def NV_FLASH_DSP_VOLATILE_LEN : UInt32 := 0x3000
def NV_FLASH_DSP_NON_VOLATILE_BASE : UInt32 := 0x27009000
def NV_FLASH_DSP_NON_VOLATILE_LEN : UInt32 := 0x2000
def NV_FLASH_NET_BASE : UInt32 := 0x2700F000
def NV_FLASH_NET_LEN : UInt32 := 0x3000
def FOTA_UPDATE_INFO_ADDR : UInt32 := 0x270000D8
def VERSION_MIMG_SHA : UInt32 := FOTA_UPDATE_INFO_ADDR + 8
def ARM_FLASH_BASE_ADDR : UInt32 := 0x2711F000
def FOTA_BACKUP_BASE : UInt32 := 0x271EC000

/-- `FLASH_SECTOR_LENGTH`, which is `EFTL_PAGE_SIZE`. -/
def sectorLength : Nat := 0x1000

@[simp] theorem sectorLength_eq : sectorLength = 4096 := rfl

/-- The members of `xy_ret_Status_t` the modelled functions return. -/
inductive XyRet
  | xyOk
  | xyErr
  | xyErrLowVbat
  deriving DecidableEq, Repr

/-! ### The battery check -/

/-- What `xy_check_low_vBat` reads besides the voltage: the factory NV's threshold, a signed `char` in
units of 100 mV, and whether the last reset was the one it triggers itself. -/
structure VbatCfg where
  minMVbat : Int8
  lowVolReset : Bool

/-- How a battery check ends: it returns, or resets the system to try to recover. -/
inductive VbatEnd
  | ret (r : XyRet)
  | softReset
  deriving DecidableEq, Repr

/-- `xy_check_low_vBat` at the reading `vbat`, with the static `g_vBat_is_low` before and
after. -/
def xyCheckLowVBat (cfg : VbatCfg) (gVBatIsLow : Bool) (vbat : UInt32) : VbatEnd × Bool :=
  if cfg.minMVbat = 0 then (.ret .xyOk, gVBatIsLow)
  else if gVBatIsLow then (.ret .xyErr, gVBatIsLow)
  else if vbat > UInt32.ofInt (cfg.minMVbat.toInt * 100) then (.ret .xyOk, gVBatIsLow)
  else if cfg.lowVolReset then (.ret .xyErr, true)
  else (.softReset, true)

/-- `g_vBat_is_low` before the check number `k`, over a course of readings. -/
def vBatIsLow (cfg : VbatCfg) (readings : Nat → UInt32) : Nat → Bool
  | 0 => false
  | k + 1 => (xyCheckLowVBat cfg (vBatIsLow cfg readings k) (readings k)).2

/-- Whether the check number `k` lets the flash operation through. -/
def vbatCourse (cfg : VbatCfg) (readings : Nat → UInt32) (k : Nat) : Bool :=
  (xyCheckLowVBat cfg (vBatIsLow cfg readings k) (readings k)).1 == .ret .xyOk

/-- A check that refused once refuses ever after: `g_vBat_is_low` is never cleared. -/
theorem vbatCourse_sticky {cfg : VbatCfg} {readings : Nat → UInt32} {k : Nat}
    (h : vbatCourse cfg readings k = false) : ∀ j, k ≤ j → vbatCourse cfg readings j = false := by
  have hmin : cfg.minMVbat ≠ 0 := fun h0 => by simp [vbatCourse, xyCheckLowVBat, h0] at h
  have hlow : vBatIsLow cfg readings (k + 1) = true := by
    simp only [vbatCourse, xyCheckLowVBat, if_neg hmin] at h
    simp only [vBatIsLow, xyCheckLowVBat, if_neg hmin]
    split_ifs at h ⊢ <;> simp_all
  have hstay : ∀ j, k + 1 ≤ j → vBatIsLow cfg readings j = true := by
    intro j hj
    induction j, hj using Nat.le_induction with
    | base => exact hlow
    | succ j _ ih => simp [vBatIsLow, xyCheckLowVBat, ih, hmin]
  intro j hj
  rcases Nat.eq_or_lt_of_le hj with rfl | hj
  · exact h
  · simp [vbatCourse, xyCheckLowVBat, hstay j hj, hmin]

/-! ### The board -/

/-- An operation of the flash device. -/
inductive FlashOp
  | erase (sector : Nat)
  | program (addr : Nat) (data : List UInt8)
  deriving DecidableEq, Repr

namespace FlashOp

/-- What an operation does to the flash. -/
def apply : FlashOp → Buf → Buf
  | .erase s, f => f.fill s sectorLength 0xFF
  | .program a bs, f => f.program a bs

/-- The address an operation starts at, and the number of bytes it may change. -/
def start : FlashOp → Nat
  | .erase s => s
  | .program a _ => a

def length : FlashOp → Nat
  | .erase _ => sectorLength
  | .program _ bs => bs.length

theorem apply_outside {op : FlashOp} {f : Buf} {i : Nat}
    (h : i < op.start ∨ op.start + op.length ≤ i) : op.apply f i = f i := by
  cases op with
  | erase s => exact Buf.fill_outside h
  | program a bs => exact Buf.program_outside h

/-- The flash after a list of operations. -/
def replay (ops : List FlashOp) (f : Buf) : Buf := ops.foldl (fun f op => op.apply f) f

@[simp] theorem replay_nil (f : Buf) : replay [] f = f := rfl

@[simp] theorem replay_cons (op : FlashOp) (ops : List FlashOp) (f : Buf) :
    replay (op :: ops) f = replay ops (op.apply f) := rfl

theorem replay_append (ops ops' : List FlashOp) (f : Buf) :
    replay (ops ++ ops') f = replay ops' (replay ops f) := List.foldl_append ..

end FlashOp

/-- The flash, what was done to it, and how often the battery was checked. -/
structure Board where
  flash : Buf
  ops : List FlashOp
  checks : Nat

namespace Board

/-- The board after a list of flash operations. -/
def perform (b : Board) (ops : List FlashOp) : Board :=
  { b with flash := FlashOp.replay ops b.flash, ops := b.ops ++ ops }

@[simp] theorem flash_perform (b : Board) (ops : List FlashOp) :
    (b.perform ops).flash = FlashOp.replay ops b.flash := rfl

@[simp] theorem ops_perform (b : Board) (ops : List FlashOp) :
    (b.perform ops).ops = b.ops ++ ops := rfl

@[simp] theorem checks_perform (b : Board) (ops : List FlashOp) :
    (b.perform ops).checks = b.checks := rfl

@[simp] theorem perform_nil (b : Board) : b.perform [] = b := by simp [perform]

theorem perform_append (b : Board) (ops ops' : List FlashOp) :
    b.perform (ops ++ ops') = (b.perform ops).perform ops' := by
  simp [perform, FlashOp.replay_append]

/-- The board after one more battery check. -/
def checked (b : Board) : Board := { b with checks := b.checks + 1 }

@[simp] theorem flash_checked (b : Board) : b.checked.flash = b.flash := rfl
@[simp] theorem ops_checked (b : Board) : b.checked.ops = b.ops := rfl
@[simp] theorem checks_checked (b : Board) : b.checked.checks = b.checks + 1 := rfl

end Board

/-- An entry of the list of registered FTL regions. -/
structure EftlCfg where
  addr : UInt32
  tpageTotal : UInt32
  deriving DecidableEq, Repr

/-- What the flash functions read besides the board. -/
structure Env where
  /-- Whether the battery check number `k` finds the voltage high enough. -/
  vbatOk : Nat → Bool
  /-- `DSP_IS_NOT_LOADED() || g_have_suspend_dsp`, at the check number `k`. -/
  dspOff : Nat → Bool
  /-- The registered FTL regions, `user_nv_cfgs`. -/
  userNvCfgs : List EftlCfg
  /-- What a block fresh from `xy_malloc` holds. -/
  heap : Buf

/-- Why the machine stopped. -/
inductive Fault
  | assertion
  | heapOverflow
  | outOfFuel
  deriving DecidableEq, Repr

/-- A computation on the board. -/
abbrev Exec := EStateM Fault Board

namespace Exec

def flash : Exec Buf := fun b => .ok b.flash b

def perform (ops : List FlashOp) : Exec Unit := fun b => .ok () (b.perform ops)

def xyAssert (p : Prop) [Decidable p] : Exec Unit := if p then pure () else throw .assertion

theorem flash_eq (b : Board) : flash b = .ok b.flash b := rfl

theorem modify_eq (f : Board → Board) (b : Board) : (modify f : Exec Unit) b = .ok () (f b) := rfl

theorem xyAssert_of {p : Prop} [Decidable p] (h : p) (b : Board) : xyAssert p b = .ok () b := by
  simp only [xyAssert, if_pos h]; rfl

theorem xyAssert_of_not {p : Prop} [Decidable p] (h : ¬ p) (b : Board) :
    xyAssert p b = .error .assertion b := by
  simp only [xyAssert, if_neg h]; rfl

/-- A computation that ends with an assertion ends in the board it is made on, either way. -/
theorem finalState_xyAssert {α : Type} (p : Prop) [Decidable p] (x : α) (b : Board) :
    finalState ((xyAssert p >>= fun _ => pure x) b) = b := by
  by_cases h : p
  · rw [bind_ok (xyAssert_of h b)]; rfl
  · rw [bind_error (xyAssert_of_not h b)]; rfl

end Exec

variable (env : Env)

/-- One battery check, and whether it was passed. -/
def checkVbat : Exec Bool := fun b => .ok (env.vbatOk b.checks) b.checked

/-- Whether the flash is driven locally. -/
def dspIsOff : Exec Bool := fun b => .ok (env.dspOff b.checks) b

/-! ### `flash_adapt.c` -/

/-- The `size` of an erase rounded up to sectors, and the number of sectors the loop of
`flash_erase` runs over: the cast to `int` makes a size from `2^31` on negative, and the loop
empty. -/
def eraseCount (size : UInt32) : Nat :=
  let size := (size + 4095) &&& ~~~4095
  if size.toNat < 2 ^ 31 then size.toNat / sectorLength else 0

/-- `flash_erase`. -/
def flashErase (addr size : UInt32) : Exec Unit := do
  Exec.xyAssert (addr % 4096 = 0)
  Exec.perform ((List.range (eraseCount size)).map fun page =>
    .erase (addr + UInt32.ofNat (page * sectorLength)).toNat)

/-- `flash_write_no_erase`. -/
def flashWriteNoErase (addr : UInt32) (data : List UInt8) : Exec Unit :=
  Exec.perform [.program addr.toNat data]

/-- The operations by which one sector is rewritten: `bs` replaces the bytes from `offset`. -/
def rewriteSector (f : Buf) (sector offset : Nat) (bs : List UInt8) : List FlashOp :=
  [.erase sector,
    .program sector ((Buf.write (fun i => f (sector + i)) offset bs).read 0 sectorLength)]

/-- `flash_write_erase`, one sector at a time.  A part of a sector is merged with what the sector
holds, and a short part that is there already is not written. -/
def flashWriteErase (addr : UInt32) (data : List UInt8) (b : Board) : Board :=
  if data.length = 0 then b else
    let offset := addr.toNat % sectorLength
    let actAddr := addr.toNat - offset
    let writeSize := min data.length (sectorLength - offset)
    let part := data.take writeSize
    let b' :=
      if writeSize = sectorLength then b.perform [.erase actAddr, .program actAddr part]
      else if writeSize < 100 ∧ b.flash.read (actAddr + offset) writeSize = part then b
      else b.perform (rewriteSector b.flash actAddr offset part)
    flashWriteErase (addr + UInt32.ofNat writeSize) (data.drop writeSize) b'
termination_by data.length
decreasing_by
  have : addr.toNat % 4096 < 4096 := Nat.mod_lt _ (by omega)
  simp only [List.length_drop, sectorLength]
  omega

/-- `flash_operation`, the operations sent to the DSP. -/
inductive FlashOperation
  | flashOpErase
  | flashOpWriteNoErase
  | flashOpWriteErase
  deriving DecidableEq, Repr

/-- `flash_operate_ext`, one message to the DSP for each sector.  The size is an `int`, and
nothing is done when it is negative. -/
def flashOperateExt (operation : FlashOperation) (addr : UInt32) (data : List UInt8) (size : Nat)
    (b : Board) : Board :=
  if size = 0 then b else
    let offset := addr.toNat % sectorLength
    let actAddr := addr.toNat - offset
    let writeSize := min size (sectorLength - offset)
    let part := data.take writeSize
    let b' := match operation with
      | .flashOpErase => b.perform [.erase actAddr]
      | .flashOpWriteNoErase => b.perform [.program (actAddr + offset) part]
      | .flashOpWriteErase =>
        if offset = 0 ∧ writeSize = sectorLength then
          b.perform [.erase actAddr, .program actAddr part]
        else if size < 100 ∧ b.flash.read (actAddr + offset) writeSize = part then b
        else b.perform (rewriteSector b.flash actAddr offset part)
    flashOperateExt operation (addr + UInt32.ofNat writeSize) (data.drop writeSize)
      (size - writeSize) b'
termination_by size
decreasing_by
  have : addr.toNat % 4096 < 4096 := Nat.mod_lt _ (by omega)
  simp only [sectorLength]
  omega

/-- `flash_operate_ext` at a C `int` size. -/
def flashOperateExtInt (operation : FlashOperation) (addr : UInt32) (data : List UInt8)
    (size : UInt32) : Exec Unit :=
  fun b => .ok () (flashOperateExt operation addr data
    (if size.toNat < 2 ^ 31 then size.toNat else 0) b)

/-! ### `xy_flash.c`, under the FTL -/

/-- The address check of the read and write functions. -/
def InFlash (addr : UInt32) : Prop := addr ≥ FLASH_BASE ∧ addr ≤ FLASH_BASE + FLASH_LENGTH

instance (addr : UInt32) : Decidable (InFlash addr) := inferInstanceAs (Decidable (_ ∧ _))

/-- `xy_flash_read` of `size` bytes into the block `buf`, from its byte `pos`. -/
def xyFlashRead (addr : UInt32) (buf : Buf) (pos size : Nat) : Exec Buf := do
  Exec.xyAssert (InFlash addr)
  return buf.write pos ((← Exec.flash).read addr.toNat size)

/-- `xy_flash_write`. -/
def xyFlashWrite (addr : UInt32) (data : List UInt8) : Exec XyRet := do
  Exec.xyAssert (InFlash addr)
  if !(← checkVbat env) then return .xyErrLowVbat
  if ← dspIsOff env then
    modify (flashWriteErase addr data)
  else
    flashOperateExtInt .flashOpWriteErase addr data (UInt32.ofNat data.length)
  return .xyOk

/-- `xy_flash_write_no_erase`. -/
def xyFlashWriteNoErase (addr : UInt32) (data : List UInt8) : Exec XyRet := do
  Exec.xyAssert (InFlash addr)
  if !(← checkVbat env) then return .xyErrLowVbat
  if ← dspIsOff env then
    flashWriteNoErase addr data
  else
    flashOperateExtInt .flashOpWriteNoErase addr data (UInt32.ofNat data.length)
  return .xyOk

/-- `xy_flash_erase`. -/
def xyFlashErase (addr size : UInt32) : Exec XyRet := do
  let size := if size < 4096 then 4096 else size
  if !(← checkVbat env) then return .xyErrLowVbat
  if ← dspIsOff env then
    flashErase addr size
  else
    flashOperateExtInt .flashOpErase addr [] size
  return .xyOk

/-! ### Operations on one sector -/

variable {env}

theorem flashWriteErase_nil (addr : UInt32) (b : Board) : flashWriteErase addr [] b = b := by
  rw [flashWriteErase]; rfl

theorem flashWriteErase_sector {addr : UInt32} {data : List UInt8} (ha : addr.toNat % 4096 = 0)
    (hd : data.length = 4096) (b : Board) :
    flashWriteErase addr data b = b.perform [.erase addr.toNat, .program addr.toNat data] := by
  rw [flashWriteErase]
  simp [ha, hd, flashWriteErase_nil, List.take_of_length_le, List.drop_of_length_le]

theorem flashOperateExt_zero (op : FlashOperation) (addr : UInt32) (data : List UInt8)
    (b : Board) : flashOperateExt op addr data 0 b = b := by
  rw [flashOperateExt]; rfl

theorem flashOperateExt_erase_sector {addr : UInt32} (ha : addr.toNat % 4096 = 0)
    (data : List UInt8) (b : Board) :
    flashOperateExt .flashOpErase addr data 4096 b = b.perform [.erase addr.toNat] := by
  rw [flashOperateExt]
  simp [ha, flashOperateExt_zero]

theorem flashOperateExt_writeErase_sector {addr : UInt32} {data : List UInt8}
    (ha : addr.toNat % 4096 = 0) (hd : data.length = 4096) (b : Board) :
    flashOperateExt .flashOpWriteErase addr data 4096 b =
      b.perform [.erase addr.toNat, .program addr.toNat data] := by
  rw [flashOperateExt]
  simp [ha, hd, flashOperateExt_zero, List.take_of_length_le]

/-- An erase and a program of a whole sector store the data. -/
theorem replay_rewrite {s : Nat} {bs : List UInt8} (h : bs.length = 4096) (f : Buf) :
    FlashOp.replay [.erase s, .program s bs] f = f.write s bs := by
  have he : ∀ i, s ≤ i → i < s + bs.length → (f.fill s sectorLength 0xFF) i = 0xFF :=
    fun i h₁ h₂ => Buf.fill_inside h₁ (by simp only [sectorLength]; omega)
  simp only [FlashOp.replay_cons, FlashOp.replay_nil, FlashOp.apply, Buf.program_eq_write he]
  funext i
  by_cases hi : i < s ∨ s + bs.length ≤ i
  · rw [Buf.write_outside hi, Buf.write_outside hi,
      Buf.fill_outside (by simp only [sectorLength]; omega)]
  · obtain ⟨j, rfl⟩ := Nat.exists_eq_add_of_le (show s ≤ i by omega)
    have hj : j < bs.length := by omega
    rw [Buf.write_inside hj, Buf.write_inside hj]

/-- Erasing one sector: the operation, or a refusal that leaves the flash. -/
theorem xyFlashErase_sector (env : Env) {addr : UInt32} (ha : addr.toNat % 4096 = 0) (b : Board) :
    xyFlashErase env addr 4096 b =
      if env.vbatOk b.checks then .ok .xyOk (b.checked.perform [.erase addr.toNat])
      else .ok .xyErrLowVbat b.checked := by
  have ha' : addr % 4096 = 0 := by
    apply UInt32.toNat_inj.mp
    simpa using ha
  have hc : eraseCount 4096 = 1 := rfl
  cases hv : env.vbatOk b.checks <;> cases hd : env.dspOff (b.checks + 1) <;>
    simp [xyFlashErase, checkVbat, dspIsOff, flashErase, Exec.xyAssert, Exec.perform,
      flashOperateExtInt, flashOperateExt_erase_sector ha, hv, hd, ha', hc, bind, EStateM.bind,
      pure, EStateM.pure]

/-- Rewriting one sector: the erase and the program, or a refusal that leaves the flash. -/
theorem xyFlashWrite_sector (env : Env) {addr : UInt32} (data : List UInt8)
    (ha : addr.toNat % 4096 = 0) (hin : InFlash addr) (hd : data.length = 4096) (b : Board) :
    xyFlashWrite env addr data b =
      if env.vbatOk b.checks then
        .ok .xyOk (b.checked.perform [.erase addr.toNat, .program addr.toNat data])
      else .ok .xyErrLowVbat b.checked := by
  have hs : (UInt32.ofNat data.length).toNat = 4096 := by rw [hd]; rfl
  cases hv : env.vbatOk b.checks <;> cases hd' : env.dspOff (b.checks + 1) <;>
    simp [xyFlashWrite, checkVbat, dspIsOff, Exec.xyAssert, hin, hs, hv, hd',
      flashWriteErase_sector ha hd, flashOperateExtInt, flashOperateExt_writeErase_sector ha hd,
      Exec.modify_eq, bind, EStateM.bind, pure, EStateM.pure]

/-! ### A board to run on -/

/-- The battery is good, the DSP is not loaded, and no region is registered. -/
def quietEnv : Env where
  vbatOk _ := true
  dspOff _ := true
  userNvCfgs := []
  heap _ := 0

def blankFlash : Buf := fun _ => 0xFF

/-- A board whose flash is erased. -/
def blankBoard : Board := ⟨blankFlash, [], 0⟩

end XY1100
