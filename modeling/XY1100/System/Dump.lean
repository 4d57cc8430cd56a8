import XY1100.Flash.Paths

/-!
# System — the crash dump

`Dump_M3_Into_Flash` of `dump_process.c` copies the SRAM, the main stack, the buffers shared with
the DSP and the stack of the running task into the flash behind the stored image.  Its guard adds
up the sizes of the image's sections as they are; the writes start at an address and have sizes
that are rounded up to sectors, four times over.

The guard leaves `0x100` bytes beyond what the writes need when nothing is lost by rounding, so an
image close to the limit is dumped beyond the FOTA backup area, into the user's flash
(`not_dumpSafe_tightImage`).  The dump stays in its area exactly when the sizes fit as the writes
round them (`dumpSafe_iff`).
-/

namespace XY1100
open Support

def ARM_FLASH_BASE_LEN : UInt32 := 0xCD000
def FOTA_BACKUP_LEN_MAX : UInt32 := 0x10000
def M3_SRAM_BASE : UInt32 := 0x2001D000
def M3_SRAM_END : UInt32 := 0x20060000
def RAM_ICM_BUF_START : UInt32 := 0x2001BF00
def RAM_ICM_BUF_LEN : UInt32 := 0xe00
def RAM_XTEND_SBUF_LEN : UInt32 := 0x300

/-- The section sizes the linker gives: `_Flash_Used`, `_Ram_Text`, `_Ram_Data`, `_Ram_Bss` and
`__Main_Stack_Size`. -/
structure DumpSizes where
  flashUsed : UInt32
  ramText : UInt32
  ramData : UInt32
  ramBss : UInt32
  mainStackSize : UInt32

/-- `Align_Dump`. -/
def alignDump (size align : UInt32) : UInt32 := (size + align - 1) &&& ~~~(align - 1)

/-- A call of `xy_flash_write`: to `dst`, from the RAM at `src`. -/
structure DumpCall where
  dst : UInt32
  src : UInt32
  size : UInt32

namespace DumpSizes
variable (g : DumpSizes)

/-- `flashdumpsize`. -/
def flashdumpsize : UInt32 :=
  ARM_FLASH_BASE_LEN + FOTA_BACKUP_LEN_MAX - g.flashUsed - g.ramText - g.ramData - 0x1000

/-- The guard of the dump. -/
def Admits : Prop :=
  g.flashdumpsize ≥ g.ramText + g.ramData + g.ramBss + g.mainStackSize + RAM_ICM_BUF_LEN
    + RAM_XTEND_SBUF_LEN + 0x3000

instance : Decidable g.Admits := inferInstanceAs (Decidable (_ ≤ _))

def sramSize : UInt32 := g.ramText + g.ramData + g.ramBss

def dumpStackAddr : UInt32 :=
  alignDump (alignDump g.flashUsed 0x1000 + g.ramText + g.ramData) 0x1000 + ARM_FLASH_BASE_ADDR

/-- The four calls; `stackBase` is the base of the running task's stack. -/
def dumpCalls (stackBase : UInt32) : List DumpCall :=
  let offset₁ := alignDump g.sramSize 0x1000
  let offset₂ := offset₁ + alignDump g.mainStackSize 0x1000
  let offset₃ := offset₂ + alignDump (RAM_ICM_BUF_LEN + RAM_XTEND_SBUF_LEN) 0x2000
  [⟨g.dumpStackAddr, M3_SRAM_BASE, alignDump g.sramSize 0x1000⟩,
    ⟨g.dumpStackAddr + offset₁, M3_SRAM_END - alignDump g.mainStackSize 0x1000,
      alignDump g.mainStackSize 0x1000⟩,
    ⟨g.dumpStackAddr + offset₂, alignDump (RAM_ICM_BUF_START - 0x1000) 0x1000,
      alignDump (RAM_ICM_BUF_LEN + RAM_XTEND_SBUF_LEN) 0x2000⟩,
    ⟨g.dumpStackAddr + offset₃, alignDump (stackBase - 0x1000) 0x1000, 0x3000⟩]

end DumpSizes

/-- The calls one after the other; what they return is not looked at. -/
def runDumpCalls (env : Env) (ram : Buf) : List DumpCall → Exec Unit
  | [] => pure ()
  | c :: cs => do
    let _ ← xyFlashWrite env c.dst (ram.read c.src.toNat c.size.toNat)
    runDumpCalls env ram cs

/-- `Dump_M3_Into_Flash`. -/
def dumpM3IntoFlash (env : Env) (dumpMemIntoFlash : UInt8) (g : DumpSizes) (stackBase : UInt32)
    (ram : Buf) : Exec Unit :=
  if dumpMemIntoFlash = 1 then
    if g.Admits then runDumpCalls env ram (g.dumpCalls stackBase) else pure ()
  else pure ()

/-! ### The area of the dump -/

/-- A size rounded up to whole sectors. -/
def roundUp (n : Nat) : Nat := (n + 4095) / 4096 * 4096

namespace DumpSizes
variable (g : DumpSizes)

/-- The end of the stored image: the flash sections, up to a whole sector, and behind them the RAM
sections. -/
def imageEnd : Nat :=
  ARM_FLASH_BASE_ADDR.toNat + roundUp g.flashUsed.toNat + g.ramText.toNat + g.ramData.toNat

/-- The end of the FOTA backup area, where the user's flash starts. -/
def areaEnd : Nat := FOTA_BACKUP_BASE.toNat + FOTA_BACKUP_LEN_MAX.toNat

/-- The dump stays in its area: its calls do, and so do the operations of every run of it. -/
structure StaysInArea (stackBase : UInt32) : Prop where
  calls : ∀ c ∈ g.dumpCalls stackBase,
    g.imageEnd ≤ c.dst.toNat ∧ c.dst.toNat + c.size.toNat ≤ areaEnd
  disjoint : (g.dumpCalls stackBase).Pairwise fun c d =>
    c.dst.toNat + c.size.toNat ≤ d.dst.toNat ∨ d.dst.toNat + d.size.toNat ≤ c.dst.toNat
  performs : ∀ env dumpMemIntoFlash ram b, Performs (FlashOp.Within · g.imageEnd areaEnd)
    (dumpM3IntoFlash env dumpMemIntoFlash g stackBase ram) b

/-- A dump that is admitted stays in its area, and for an image that fits the flash partition no
subtraction of the guard wraps. -/
structure DumpSafe (stackBase : UInt32) : Prop where
  inside : g.Admits → g.StaysInArea stackBase
  noWrap : g.flashUsed.toNat + g.ramText.toNat + g.ramData.toNat ≤ ARM_FLASH_BASE_LEN.toNat →
    g.flashdumpsize.toNat + (g.flashUsed.toNat + g.ramText.toNat + g.ramData.toNat + 0x1000) =
      ARM_FLASH_BASE_LEN.toNat + FOTA_BACKUP_LEN_MAX.toNat

/-- The image and the four pieces fit up to the end of the FOTA backup area, as they are rounded. -/
def RoundedFits : Prop :=
  roundUp (roundUp g.flashUsed.toNat + g.ramText.toNat + g.ramData.toNat)
    + (alignDump g.sramSize 0x1000).toNat + (alignDump g.mainStackSize 0x1000).toNat + 0x5000 ≤
    ARM_FLASH_BASE_LEN.toNat + FOTA_BACKUP_LEN_MAX.toNat

end DumpSizes

/-! ### Rounding -/

theorem toNat_alignDump (x : UInt32) :
    (alignDump x 0x1000).toNat = (x.toNat + 4095) % 2 ^ 32 / 4096 * 4096 := by
  have h : x + 0x1000 - 1 = x + 4095 := by
    rw [UInt32.sub_eq_add_neg, UInt32.add_assoc]
    rfl
  rw [alignDump, h, show (0x1000 - 1 : UInt32) = 4095 from rfl, toNat_and_not_mask,
    UInt32.toNat_add]
  rfl

theorem alignDump_shared :
    (alignDump (RAM_ICM_BUF_LEN + RAM_XTEND_SBUF_LEN) 0x2000).toNat = 0x2000 := by
  decide

theorem areaEnd_eq : DumpSizes.areaEnd = 0x271FC000 := rfl

namespace DumpSizes
variable {g : DumpSizes}

/-- The first piece starts at the end of the image, rounded up once more. -/
theorem toNat_dumpStackAddr (h : g.imageEnd ≤ areaEnd) :
    g.dumpStackAddr.toNat = 0x2711F000 +
      roundUp (roundUp g.flashUsed.toNat + g.ramText.toNat + g.ramData.toNat) := by
  have hb : ARM_FLASH_BASE_ADDR.toNat = 0x2711F000 := rfl
  rw [areaEnd_eq, imageEnd, hb] at h
  simp only [roundUp] at h ⊢
  have hf := toNat_alignDump g.flashUsed
  rw [dumpStackAddr, UInt32.toNat_add, toNat_alignDump, UInt32.toNat_add, UInt32.toNat_add, hf, hb]
  omega

theorem imageEnd_le_dumpStackAddr (h : g.imageEnd ≤ areaEnd) :
    g.imageEnd ≤ g.dumpStackAddr.toNat := by
  have hb : ARM_FLASH_BASE_ADDR.toNat = 0x2711F000 := rfl
  rw [toNat_dumpStackAddr h, imageEnd, hb]
  simp only [roundUp]
  omega

theorem imageEnd_le_of_fits (h : g.RoundedFits) : g.imageEnd ≤ areaEnd := by
  have hb : ARM_FLASH_BASE_ADDR.toNat = 0x2711F000 := rfl
  have hl : ARM_FLASH_BASE_LEN.toNat + FOTA_BACKUP_LEN_MAX.toNat = 0xDD000 := rfl
  rw [RoundedFits, hl] at h
  rw [areaEnd_eq, imageEnd, hb]
  simp only [roundUp] at h ⊢
  omega

/-- The addresses and sizes of the four calls, when nothing wraps. -/
theorem calls_of_fits {stackBase : UInt32} (h : g.RoundedFits) :
    (g.dumpCalls stackBase).map (fun c => (c.dst.toNat, c.size.toNat)) =
      let a := g.dumpStackAddr.toNat
      let n₁ := (alignDump g.sramSize 0x1000).toNat
      let n₂ := (alignDump g.mainStackSize 0x1000).toNat
      [(a, n₁), (a + n₁, n₂), (a + n₁ + n₂, 0x2000), (a + n₁ + n₂ + 0x2000, 0x3000)] := by
  have ha := toNat_dumpStackAddr (imageEnd_le_of_fits h)
  have hl : ARM_FLASH_BASE_LEN.toNat + FOTA_BACKUP_LEN_MAX.toNat = 0xDD000 := rfl
  rw [RoundedFits, hl] at h
  simp only [dumpCalls, List.map_cons, List.map_nil, UInt32.toNat_add, alignDump_shared, ha]
  simp only [List.cons.injEq, Prod.mk.injEq, and_true, true_and]
  refine ⟨by omega, by omega, by omega, rfl⟩

theorem alignDump_mod (x : UInt32) : (alignDump x 0x1000).toNat % 4096 = 0 := by
  rw [toNat_alignDump]
  omega

/-- The pieces of a dump that fits: whole sectors of the area. -/
theorem call_of_fits {stackBase : UInt32} (h : g.RoundedFits) {c : DumpCall}
    (hc : c ∈ g.dumpCalls stackBase) :
    (g.imageEnd ≤ c.dst.toNat ∧ c.dst.toNat + c.size.toNat ≤ areaEnd) ∧
      c.dst.toNat % 4096 = 0 ∧ c.size.toNat % 4096 = 0 := by
  have hmem : (c.dst.toNat, c.size.toNat) ∈
      (g.dumpCalls stackBase).map fun c => (c.dst.toNat, c.size.toNat) :=
    List.mem_map_of_mem hc
  have ha := toNat_dumpStackAddr (imageEnd_le_of_fits h)
  have hle := imageEnd_le_dumpStackAddr (imageEnd_le_of_fits h)
  have h₁ := alignDump_mod g.sramSize
  have h₂ := alignDump_mod g.mainStackSize
  have hl : ARM_FLASH_BASE_LEN.toNat + FOTA_BACKUP_LEN_MAX.toNat = 0xDD000 := rfl
  rw [calls_of_fits h] at hmem
  rw [RoundedFits, hl] at h
  have hround :
      roundUp (roundUp g.flashUsed.toNat + g.ramText.toNat + g.ramData.toNat) % 4096 = 0 :=
    Nat.mul_mod_left ..
  rw [areaEnd_eq]
  simp only [List.mem_cons, Prod.mk.injEq, List.not_mem_nil, or_false] at hmem
  rcases hmem with ⟨hd, hs⟩ | ⟨hd, hs⟩ | ⟨hd, hs⟩ | ⟨hd, hs⟩ <;> omega

/-- Calls that write whole sectors of an area perform operations in it. -/
theorem runDumpCalls_performs {lo hi : Nat} (hhi : hi < 2 ^ 31) (ram : Buf) :
    ∀ {cs : List DumpCall}, (∀ c ∈ cs, (lo ≤ c.dst.toNat ∧ c.dst.toNat + c.size.toNat ≤ hi) ∧
      c.dst.toNat % 4096 = 0 ∧ c.size.toNat % 4096 = 0) → ∀ b : Board,
    Performs (FlashOp.Within · lo hi) (runDumpCalls env ram cs) b
  | [], _, b => performs_of_ops_eq rfl
  | c :: cs, h, b => by
      obtain ⟨⟨hlo, hend⟩, hdst, hsize⟩ := h c List.mem_cons_self
      have hn : 4096 * (c.size.toNat / 4096) = c.size.toNat := by omega
      have hw : Performs (FlashOp.Within · c.dst.toNat (c.dst.toNat + 4096 * (c.size.toNat / 4096)))
          (xyFlashWrite env c.dst (ram.read c.src.toNat c.size.toNat)) b :=
        xyFlashWrite_performs (by rw [Buf.length_read, hn]) hdst (by omega) b
      rw [runDumpCalls]
      exact (hw.mono fun op hop => hop.mono hlo (by omega)).bind fun _ b' _ =>
        runDumpCalls_performs hhi ram (fun c' hc' => h c' (List.mem_cons_of_mem _ hc')) b'

/-- A dump that fits as it is rounded stays in its area. -/
theorem staysInArea_of_fits {stackBase : UInt32} (h : g.RoundedFits) : g.StaysInArea stackBase where
  calls c hc := (call_of_fits h hc).1
  disjoint := by
    have hp : ((g.dumpCalls stackBase).map fun c => (c.dst.toNat, c.size.toNat)).Pairwise
        fun p q => p.1 + p.2 ≤ q.1 ∨ q.1 + q.2 ≤ p.1 := by
      rw [calls_of_fits h]
      simp only [List.pairwise_cons, List.mem_cons, List.not_mem_nil, or_false, forall_eq_or_imp,
        forall_eq, List.Pairwise.nil, and_true, IsEmpty.forall_iff, implies_true]
      omega
    exact List.pairwise_map.mp hp
  performs env dumpMemIntoFlash ram b := by
    rw [dumpM3IntoFlash]
    split_ifs
    · exact runDumpCalls_performs (by rw [areaEnd_eq]; omega) ram (fun c hc => call_of_fits h hc) b
    · exact performs_of_ops_eq rfl
    · exact performs_of_ops_eq rfl

/-- A dump that stays in its area fits as it is rounded. -/
theorem fits_of_staysInArea {stackBase : UInt32} (h : g.StaysInArea stackBase) : g.RoundedFits := by
  have hcalls := h.calls
  simp only [dumpCalls, List.mem_cons, List.not_mem_nil, or_false, forall_eq_or_imp, forall_eq,
    UInt32.toNat_add, alignDump_shared, areaEnd_eq] at hcalls
  obtain ⟨⟨hi₁, he₁⟩, ⟨-, he₂⟩, ⟨-, he₃⟩, -, he₄⟩ := hcalls
  have ha := toNat_dumpStackAddr (g := g) (by rw [areaEnd_eq]; omega)
  have hl : ARM_FLASH_BASE_LEN.toNat + FOTA_BACKUP_LEN_MAX.toNat = 0xDD000 := rfl
  have h3 : (0x3000 : UInt32).toNat = 0x3000 := rfl
  rw [RoundedFits, hl]
  rw [ha] at hi₁ he₁ he₂ he₃ he₄
  rw [h3] at he₄
  omega

/-- The guard's subtractions, for an image that fits the flash partition. -/
theorem toNat_flashdumpsize
    (h : g.flashUsed.toNat + g.ramText.toNat + g.ramData.toNat ≤ ARM_FLASH_BASE_LEN.toNat) :
    g.flashdumpsize.toNat + (g.flashUsed.toNat + g.ramText.toNat + g.ramData.toNat + 0x1000) =
      ARM_FLASH_BASE_LEN.toNat + FOTA_BACKUP_LEN_MAX.toNat := by
  have hl : ARM_FLASH_BASE_LEN.toNat = 0xCD000 := rfl
  have hb : FOTA_BACKUP_LEN_MAX.toNat = 0x10000 := rfl
  have h1 : (0x1000 : UInt32).toNat = 0x1000 := rfl
  rw [hl] at h
  rw [flashdumpsize, UInt32.toNat_sub, UInt32.toNat_sub, UInt32.toNat_sub, UInt32.toNat_sub,
    UInt32.toNat_add, hl, hb, h1]
  omega

/-- **The crash dump** stays in its area exactly when the guard refuses it, or the image and the
pieces fit as they are rounded. -/
theorem dumpSafe_iff (g : DumpSizes) (stackBase : UInt32) :
    g.DumpSafe stackBase ↔ (g.Admits → g.RoundedFits) := by
  constructor
  · exact fun h hadm => fits_of_staysInArea (h.inside hadm)
  · exact fun h => ⟨fun hadm => staysInArea_of_fits (h hadm), toNat_flashdumpsize⟩

/-! ### An image close to the limit -/

/-- An image whose sections each end one word after the start of a sector. -/
def tightImage : DumpSizes where
  flashUsed := 0x87004
  ramText := 0x20000
  ramData := 4
  ramBss := 0x10000
  mainStackSize := 0x400

/-- It fits the flash partition and the SRAM, the guard admits it, and the dump ends three sectors
into the user's flash. -/
theorem not_dumpSafe_tightImage : ¬ tightImage.DumpSafe 0x20050000 := by
  intro h
  have hfits := fits_of_staysInArea (h.inside (by decide))
  rw [RoundedFits] at hfits
  exact absurd hfits (by decide)

end DumpSizes

end XY1100
