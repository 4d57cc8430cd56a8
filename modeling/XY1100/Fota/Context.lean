import XY1100.Flash.Operate

/-!
# Fota — the package header and the download context

`xy_fota.c` and `xy_fota_utils.c`: the delta package starts with a header of 164 bytes
(`delta_head_info_t`), and is stored in what the image leaves free of the ARM core's flash, up to
the FOTA backup area.

The SHA and RSA code is not in the sources.  An HMAC context is the key of its last reset, if it
has been reset, and the bytes fed to it since; what `hmacResult` and `rsa_public_decrypt` compute
are parameters (`Crypto`).  As `sha.h` says, input after the result is a state error, and a
context that has met one stays corrupted.
-/

namespace XY1100
open Support

/-! ### HMAC contexts -/

structure HmacContext where
  key : Option (List UInt8)
  text : List UInt8
  computed : Bool
  corrupted : Bool
  deriving DecidableEq, Repr

namespace HmacContext

/-- A context fresh from `xy_zalloc`, never reset. -/
def zero : HmacContext := ⟨none, [], false, false⟩

/-- `hmacReset`. -/
def reset (key : List UInt8) : HmacContext := ⟨some key, [], false, false⟩

/-- `hmacInput`. -/
def input (c : HmacContext) (text : List UInt8) : HmacContext :=
  if c.corrupted then c
  else if c.computed then { c with corrupted := true }
  else { c with text := c.text ++ text }

/-- The context takes input. -/
structure Open (c : HmacContext) : Prop where
  computed : c.computed = false
  corrupted : c.corrupted = false

theorem input_open {c : HmacContext} (h : c.Open) (text : List UInt8) :
    c.input text = { c with text := c.text ++ text } := by
  simp [input, h.computed, h.corrupted]

theorem Open.input {c : HmacContext} (h : c.Open) (text : List UInt8) : (c.input text).Open := by
  rw [input_open h]
  exact ⟨h.computed, h.corrupted⟩

theorem input_input {c : HmacContext} (h : c.Open) (text text' : List UInt8) :
    (c.input text).input text' = c.input (text ++ text') := by
  rw [input_open (h.input text), input_open h, input_open h, List.append_assoc]

theorem open_reset (key : List UInt8) : (reset key).Open := ⟨rfl, rfl⟩

theorem open_zero : zero.Open := ⟨rfl, rfl⟩

end HmacContext

/-- `hmacResult` and `rsa_public_decrypt` as functions of the bytes they are given, and what an
uninitialised digest buffer holds. -/
structure Crypto where
  hmac : Option (List UInt8) → List UInt8 → List UInt8
  rsaPublicDecrypt : List UInt8 → List UInt8
  stack : List UInt8

/-- `hmacResult`: the digest, if it is written, and the context after it. -/
def hmacResult (crypto : Crypto) (c : HmacContext) : Option (List UInt8) × HmacContext :=
  if c.corrupted then (none, c)
  else if c.computed then (none, { c with corrupted := true })
  else (some (crypto.hmac c.key c.text), { c with computed := true })

/-! ### The header -/

def MAGIC_NUM : UInt32 := 3513

/-- `HMAC_KEY`, `"XY1100"`. -/
def HMAC_KEY : List UInt8 := [0x58, 0x59, 0x31, 0x31, 0x30, 0x30]

/-- `sizeof(delta_head_info_t)`. -/
def headSize : UInt32 := 164

@[simp] theorem toNat_headSize : headSize.toNat = 164 := rfl

/-- Offsets in `delta_head_info_t`. -/
def totalShaOffset : Nat := 4
def versionOffset : Nat := 84
def oldImageVersionShaOffset : Nat := 88
def fotaPacketBaseOffset : Nat := 148

def DELTA_RSA_SHA_LEN : Nat := 80
def SHA1HashSize : Nat := 20

namespace DeltaHeadInfo

/-- `delta_head_info_t` is a block of memory; its fields are read from it. -/
def magicNum (head : Buf) : UInt32 := head.word 0
def totalSha (head : Buf) : List UInt8 := head.read totalShaOffset DELTA_RSA_SHA_LEN
def oldImageVersionSha (head : Buf) : List UInt8 := head.read oldImageVersionShaOffset SHA1HashSize
def fotaPacketBase (head : Buf) : UInt32 := head.word fotaPacketBaseOffset

end DeltaHeadInfo

/-- The loop of `xy_rearrange_DWORD`. -/
def rearrangeRounds : List UInt8 → List UInt8
  | a :: b :: c :: d :: rest => d :: c :: b :: a :: rearrangeRounds rest
  | rest => rest

/-- `xy_rearrange_DWORD`, which leaves data that is not whole words as it is. -/
def xyRearrangeDWORD (data : List UInt8) : List UInt8 :=
  if data.length % 4 ≠ 0 then data else rearrangeRounds data

/-- `ota_version_check`: the header names the version the flash holds, in either byte order. -/
def otaVersionCheck (flash head : Buf) : XyRet :=
  let tempSha := flash.read VERSION_MIMG_SHA.toNat SHA1HashSize
  if DeltaHeadInfo.oldImageVersionSha head ≠ tempSha then
    if DeltaHeadInfo.oldImageVersionSha head ≠ xyRearrangeDWORD tempSha then .xyErr else .xyOk
  else .xyOk

/-- What `ota_downlink_packet_proc` asks of a complete header, the region starting at
`flashBase`. -/
structure HeadOk (flash : Buf) (flashBase : UInt32) (head : Buf) : Prop where
  magic : DeltaHeadInfo.magicNum head = MAGIC_NUM
  version : otaVersionCheck flash head = .xyOk
  base : flashBase ≤ DeltaHeadInfo.fotaPacketBase head

/-- The checks read the header, and no byte after it. -/
theorem HeadOk.congr {flash head head' : Buf} {flashBase : UInt32} (h : HeadOk flash flashBase head)
    (ha : head.Agree head' 0 164) : HeadOk flash flashBase head' := by
  have hm : DeltaHeadInfo.magicNum head' = DeltaHeadInfo.magicNum head :=
    Buf.word_congr fun i hi => (ha _ (by omega) (by omega)).symm
  have hs : DeltaHeadInfo.oldImageVersionSha head' = DeltaHeadInfo.oldImageVersionSha head :=
    Buf.read_congr fun i hi => (ha _ (by omega) (by
      simp only [oldImageVersionShaOffset, SHA1HashSize] at hi ⊢; omega)).symm
  have hb : DeltaHeadInfo.fotaPacketBase head' = DeltaHeadInfo.fotaPacketBase head :=
    Buf.word_congr fun i hi => (ha _ (by omega) (by
      simp only [fotaPacketBaseOffset]; omega)).symm
  exact ⟨hm.trans h.magic, by rw [otaVersionCheck, hs]; exact h.version, by rw [hb]; exact h.base⟩

/-- The header a package starts with. -/
def headOf (package : List UInt8) : Buf := Buf.write (fun _ => 0) 0 package

/-! ### The region -/

/-- The sizes the linker gives, which it asserts to fit the ARM core's part of the flash. -/
structure ImageSizes where
  flashUsed : UInt32
  ramText : UInt32
  ramData : UInt32
  fits : flashUsed.toNat + ramText.toNat + ramData.toNat < 0xCD000

/-- `UPROUND`, to sectors. -/
def upround (raw : UInt32) : UInt32 := (raw + 4096 - 1) / 4096 * 4096

/-- `xy_get_OTA_flash_info`: start and size of the region.  The size is an `int`, stored as it is
in the unsigned `flash_maxlen`. -/
def xyGetOTAFlashInfo (sizes : ImageSizes) : UInt32 × UInt32 :=
  let addr := ARM_FLASH_BASE_ADDR + upround sizes.flashUsed
    + upround (sizes.ramText + sizes.ramData)
  (addr, FOTA_BACKUP_BASE - addr)

namespace ImageSizes
variable (sizes : ImageSizes)

/-- The region. -/
def base : UInt32 := (xyGetOTAFlashInfo sizes).1
def maxlen : UInt32 := (xyGetOTAFlashInfo sizes).2

theorem toNat_upround {raw : UInt32} (h : raw.toNat < 0xCD000) :
    (upround raw).toNat = (raw.toNat + 4095) / 4096 * 4096 := by
  have h₁ : (raw + 4096 - 1).toNat = raw.toNat + 4095 := by
    rw [UInt32.toNat_sub, UInt32.toNat_add, show (4096 : UInt32).toNat = 4096 from rfl,
      show (1 : UInt32).toNat = 1 from rfl]
    omega
  rw [upround, UInt32.toNat_mul, UInt32.toNat_div, h₁, show (4096 : UInt32).toNat = 4096 from rfl]
  omega

variable {sizes}

theorem toNat_base : sizes.base.toNat = 0x2711F000 + (sizes.flashUsed.toNat + 4095) / 4096 * 4096
    + (sizes.ramText.toNat + sizes.ramData.toNat + 4095) / 4096 * 4096 := by
  have h := sizes.fits
  have hr : (sizes.ramText + sizes.ramData).toNat = sizes.ramText.toNat + sizes.ramData.toNat := by
    rw [UInt32.toNat_add]
    omega
  rw [base, xyGetOTAFlashInfo]
  rw [UInt32.toNat_add, UInt32.toNat_add, toNat_upround (by omega), toNat_upround (by omega), hr,
    show ARM_FLASH_BASE_ADDR.toNat = 0x2711F000 from rfl]
  omega

/-- The region starts at a sector, in the flash. -/
theorem base_bounds (sizes : ImageSizes) :
    sizes.base.toNat % 4096 = 0 ∧ 0x2711F000 ≤ sizes.base.toNat ∧
    sizes.base.toNat ≤ FOTA_BACKUP_BASE.toNat + 0x1000 := by
  have h := sizes.fits
  rw [toNat_base, show FOTA_BACKUP_BASE.toNat = 0x271EC000 from rfl]
  omega

/-- The image does not reach into the backup area. -/
def Room (sizes : ImageSizes) : Prop := sizes.base ≤ FOTA_BACKUP_BASE

instance (sizes : ImageSizes) : Decidable sizes.Room := inferInstanceAs (Decidable (_ ≤ _))

theorem base_add_maxlen (h : sizes.Room) :
    sizes.base.toNat + sizes.maxlen.toNat = FOTA_BACKUP_BASE.toNat := by
  have hle := UInt32.le_iff_toNat_le.mp h
  have : sizes.maxlen.toNat = (FOTA_BACKUP_BASE - sizes.base).toNat := rfl
  rw [this, UInt32.toNat_sub_of_le _ _ h]
  omega

theorem maxlen_mod (h : sizes.Room) : sizes.maxlen.toNat % 4096 = 0 := by
  have h₁ := base_add_maxlen h
  have h₂ := base_bounds sizes
  rw [show FOTA_BACKUP_BASE.toNat = 0x271EC000 from rfl] at h₁
  omega

end ImageSizes

/-! ### The context -/

/-- `ota_context_t`, its header and HMAC context included. -/
structure OtaContext where
  flashBase : UInt32
  flashMaxlen : UInt32
  recvSize : UInt32
  hmacContext : HmacContext
  headInfo : Buf

/-- `sizeof(delta_head_info_t) - recv_size`, the bytes the header lacks. -/
def OtaContext.rest (ctx : OtaContext) : Nat := (headSize - ctx.recvSize).toNat

/-- `ota_update_Init`, where the allocations succeed. -/
def otaUpdateInit (sizes : ImageSizes) : OtaContext where
  flashBase := (xyGetOTAFlashInfo sizes).1
  flashMaxlen := (xyGetOTAFlashInfo sizes).2
  recvSize := 0
  hmacContext := .reset HMAC_KEY
  headInfo _ := 0

/-- A download: the board and the context. -/
structure Fota where
  board : Board
  ctx : OtaContext

/-- A computation on a download. -/
abbrev FotaM := EStateM Fault Fota

namespace FotaM

def onBoard {α : Type} (x : Exec α) : FotaM α := fun s =>
  match x s.board with
  | .ok a b => .ok a { s with board := b }
  | .error e b => .error e { s with board := b }

theorem onBoard_ok {α : Type} {x : Exec α} {s : Fota} {a : α} {b : Board}
    (h : x s.board = .ok a b) : onBoard x s = .ok a { s with board := b } := by
  simp only [onBoard, h]

theorem onBoard_error {α : Type} {x : Exec α} {s : Fota} {e : Fault} {b : Board}
    (h : x s.board = .error e b) : onBoard x s = .error e { s with board := b } := by
  simp only [onBoard, h]

theorem get_eq (s : Fota) : (get : FotaM Fota) s = .ok s s := rfl

theorem modify_eq (f : Fota → Fota) (s : Fota) : (modify f : FotaM Unit) s = .ok () (f s) := rfl

end FotaM

/-! ### A package -/

/-- A header for a board whose version hash is erased flash. -/
def sampleHead (base : UInt32) : Buf :=
  (Buf.putWord (fun _ => 0xFF) 0 MAGIC_NUM).putWord fotaPacketBaseOffset base

def samplePackage (base : UInt32) : List UInt8 := (sampleHead base).read 0 164

theorem length_samplePackage (base : UInt32) : (samplePackage base).length = 164 :=
  Buf.length_read ..

theorem sampleHead_agree (base : UInt32) :
    (sampleHead base).Agree (headOf (samplePackage base)) 0 164 :=
  fun i _ hi => by
    have h := Buf.write_read_inside (m := fun _ => 0) (f := sampleHead base) (a := 0) (c := 0)
      (n := 164) (i := i) (by omega)
    simp only [Nat.zero_add] at h
    exact h.symm

theorem fotaPacketBase_sampleHead (base : UInt32) :
    DeltaHeadInfo.fotaPacketBase (sampleHead base) = base := Buf.word_putWord ..

theorem headOk_samplePackage {flashBase base : UInt32} (h : flashBase ≤ base) :
    HeadOk blankFlash flashBase (headOf (samplePackage base)) := by
  refine HeadOk.congr ⟨?_, ?_, ?_⟩ (sampleHead_agree base)
  · rw [DeltaHeadInfo.magicNum, sampleHead, Buf.word_putWord_ne (by decide), Buf.word_putWord]
  · have hs : DeltaHeadInfo.oldImageVersionSha (sampleHead base) =
        blankFlash.read VERSION_MIMG_SHA.toNat SHA1HashSize := by
      refine Buf.read_congr fun i hi => ?_
      simp only [SHA1HashSize] at hi
      rw [sampleHead, Buf.putWord_outside (by
          simp only [oldImageVersionShaOffset, fotaPacketBaseOffset]; omega),
        Buf.putWord_outside (by simp only [oldImageVersionShaOffset]; omega)]
      rfl
    rw [otaVersionCheck, hs, if_neg (not_not.mpr rfl)]
  · rwa [fotaPacketBase_sampleHead]

/-- An image of no size, which leaves the whole part of the flash to the region. -/
def noImage : ImageSizes := ⟨0, 0, 0, by decide⟩

theorem room_noImage : noImage.Room := by decide

end XY1100
