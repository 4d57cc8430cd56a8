import XY1100.Fota.Store

/-!
# Fota — the operations stay in the region

The region is what `xy_get_OTA_flash_info` reports, and ends where the FOTA backup area starts.
`ota_downlink_packet_proc` compares sizes with `flash_maxlen`, the size of the region, but takes
`flash_base` from the header, and erases `flash_maxlen` bytes from there: a packet base above the
start of the region moves the erase past its end (`not_packetOps_within_region`).

The operations of a run stay in the region as long as no accepted header moves `flash_base` and
no sum of sizes wraps (`packetOps_within_region`), the region itself not being inverted by the
rounding of the image sizes (`ImageSizes.Room`).
-/

namespace XY1100
open Support

/-- The flash operations of one call. -/
def packetOps (env : Env) (s : Fota) (data : List UInt8) : List FlashOp :=
  (finalState (otaDownlinkPacketProc env data s)).board.ops.drop s.board.ops.length

/-- The operations of the call stay in the region. -/
def StaysInRegion (env : Env) (sizes : ImageSizes) (s : Fota) (data : List UInt8) : Prop :=
  ∀ op ∈ packetOps env s data, op.Within sizes.base.toNat (sizes.base.toNat + sizes.maxlen.toNat)

/-- The condition on a packet and the state it finds: the sum of the sizes does not wrap, and a
header that it completes, and that is accepted, leaves `flash_base`. -/
structure KeepsBase (s : Fota) (data : List UInt8) : Prop where
  noWrap : s.ctx.recvSize.toNat + data.length < 2 ^ 32
  base_eq : s.ctx.sum data ≤ s.ctx.flashMaxlen → s.ctx.recvSize.toNat < 164 →
    164 ≤ (s.ctx.sum data).toNat → HeadOk s.board.flash s.ctx.flashBase (s.ctx.completed data) →
    DeltaHeadInfo.fotaPacketBase (s.ctx.completed data) = s.ctx.flashBase

/-- The context is that of the region. -/
structure OfRegion (sizes : ImageSizes) (ctx : OtaContext) : Prop where
  base : ctx.flashBase = sizes.base
  maxlen : ctx.flashMaxlen = sizes.maxlen
  le : ctx.recvSize.toNat ≤ sizes.maxlen.toNat

variable {env : Env} {sizes : ImageSizes}

theorem ofRegion_init : OfRegion sizes (otaUpdateInit sizes) := ⟨rfl, rfl, Nat.zero_le _⟩

theorem backup_eq : FOTA_BACKUP_BASE.toNat = 0x271EC000 := rfl

theorem regionSize_of_room (hroom : sizes.Room) {ctx : OtaContext}
    (h : ctx.flashMaxlen = sizes.maxlen) : RegionSize ctx := by
  have h₁ := ImageSizes.base_add_maxlen hroom
  have h₂ := ImageSizes.base_bounds sizes
  rw [backup_eq] at h₁ h₂
  exact ⟨by rw [h]; exact ImageSizes.maxlen_mod hroom, by rw [h]; omega⟩

theorem staysInRegion_of_ops_eq {s : Fota} {data : List UInt8}
    (h : (finalState (otaDownlinkPacketProc env data s)).board.ops = s.board.ops) :
    StaysInRegion env sizes s data := by
  intro op hop
  rw [packetOps, h, List.drop_length] at hop
  cases hop

/-- A packet stored from a context of the region. -/
theorem staysInRegion_storePacket (hroom : sizes.Room) {s : Fota} {data input : List UInt8}
    {ctx : OtaContext} (h : OfRegion sizes ctx) (h164 : 164 ≤ ctx.recvSize.toNat)
    (hfit : ctx.recvSize.toNat + input.length ≤ sizes.maxlen.toNat)
    (hres : otaDownlinkPacketProc env data s = storePacket env s.board ctx input) :
    StaysInRegion env sizes s data := by
  have h₂ := ImageSizes.base_bounds sizes
  rw [backup_eq] at h₂
  obtain ⟨ops, ho, hP⟩ := programPacket_performs env (regionSize_of_room hroom h.maxlen)
    (by rw [h.base]; exact h₂.1) (by rw [h.base]; omega) h164 (by rwa [h.maxlen]) s.board
  rw [h.base, h.maxlen] at hP
  have hops : (finalState (otaDownlinkPacketProc env data s)).board.ops = s.board.ops ++ ops := by
    rw [hres, storePacket, ← ho]
    rcases programPacket env ctx input s.board with ⟨_, b'⟩ | ⟨e, b'⟩ <;> rfl
  intro op hop
  rw [packetOps, hops, List.drop_left] at hop
  exact hP op hop

/-- The context a stored packet leaves. -/
theorem storePacket_inv {b : Board} {ctx : OtaContext} {input : List UInt8} {o : XyRet} {s' : Fota}
    (h : storePacket env b ctx input = .ok o s') :
    o = .xyOk ∧ programPacket env ctx input b = .ok () s'.board ∧ s'.ctx = ctx.stored input := by
  rw [storePacket] at h
  rcases hp : programPacket env ctx input b with ⟨_, b'⟩ | ⟨e, b'⟩ <;> rw [hp] at h <;> cases h
  exact ⟨rfl, rfl, rfl⟩

theorem toNat_recvSize_stored {ctx : OtaContext} {input : List UInt8}
    (h : ctx.recvSize.toNat + input.length < 2 ^ 32) :
    (ctx.stored input).recvSize.toNat = ctx.recvSize.toNat + input.length := toNat_sum h

/-- **One call**, from a context of the region. -/
theorem staysInRegion_step (hroom : sizes.Room) (s : Fota) (data : List UInt8)
    (h : OfRegion sizes s.ctx) (hk : KeepsBase s data) :
    StaysInRegion env sizes s data ∧
      ∀ o s', otaDownlinkPacketProc env data s = .ok o s' → OfRegion sizes s'.ctx := by
  have hsum := toNat_sum hk.noWrap
  have hstored : ∀ {ctx : OtaContext} {input : List UInt8}, OfRegion sizes ctx →
      ctx.recvSize.toNat + input.length ≤ sizes.maxlen.toNat →
      ∀ o s', storePacket env s.board ctx input = .ok o s' → OfRegion sizes s'.ctx := by
    intro ctx input hctx hfit o s' hs
    have := sizes.maxlen.toNat_lt
    obtain ⟨-, -, hs'⟩ := storePacket_inv hs
    exact ⟨by rw [hs']; exact hctx.base, by rw [hs']; exact hctx.maxlen, by
      rw [hs', toNat_recvSize_stored (by omega)]; exact hfit⟩
  rcases otaDownlinkPacketProc_cases env s data with
    ⟨-, hres⟩ | ⟨hle, ⟨-, ⟨hin, hres⟩ | ⟨-, hres⟩⟩ |
    ⟨h164, ⟨hlt, ⟨hok, hres⟩ | ⟨-, hres⟩⟩ | ⟨hge, hres⟩⟩⟩
  · -- too large
    exact ⟨staysInRegion_of_ops_eq (by rw [hres]; rfl), fun o s' hs => by
      rw [hres] at hs; cases hs; exact h⟩
  · -- within the header
    refine ⟨staysInRegion_of_ops_eq (by rw [hres]; rfl), fun o s' hs => ?_⟩
    rw [hres] at hs; cases hs
    refine ⟨h.base, h.maxlen, ?_⟩
    have := UInt32.le_iff_toNat_le.mp hle
    rwa [h.maxlen] at this
  · -- beyond the header
    exact ⟨staysInRegion_of_ops_eq (by rw [hres]; rfl), fun o s' hs => by rw [hres] at hs; cases hs⟩
  all_goals
    have hle' := UInt32.le_iff_toNat_le.mp hle
    rw [h.maxlen, hsum] at hle'
  · -- a header that is accepted
    have hrest := toNat_rest hlt
    have hlen : (data.drop s.ctx.rest).length = data.length - s.ctx.rest := List.length_drop
    have hctx : OfRegion sizes (s.ctx.acceptHead data) :=
      ⟨(hk.base_eq hle hlt h164 hok).trans h.base, h.maxlen, by
        show headSize.toNat ≤ _; rw [toNat_headSize]; omega⟩
    have hfit : (s.ctx.acceptHead data).recvSize.toNat + (data.drop s.ctx.rest).length ≤
        sizes.maxlen.toNat := by
      show headSize.toNat + _ ≤ _
      rw [toNat_headSize, hlen]; omega
    exact ⟨staysInRegion_storePacket hroom hctx (Nat.le_of_eq rfl) hfit hres, fun o s' hs =>
      hstored hctx hfit o s' (hres ▸ hs)⟩
  · -- a header that is rejected
    refine ⟨staysInRegion_of_ops_eq (by rw [hres]; rfl), fun o s' hs => ?_⟩
    rw [hres] at hs; cases hs
    exact ⟨h.base, h.maxlen, by show headSize.toNat ≤ _; rw [toNat_headSize]; omega⟩
  · -- after the header
    exact ⟨staysInRegion_storePacket hroom h hge hle' hres, fun o s' hs =>
      hstored h hle' o s' (hres ▸ hs)⟩

/-- **The operations of a run stay in the region.** -/
theorem packetOps_within_region (hroom : sizes.Room) {b : Board} {packets : List (List UInt8)}
    (h : Along (otaDownlinkPacketProc env) KeepsBase packets ⟨b, otaUpdateInit sizes⟩) :
    Along (otaDownlinkPacketProc env) (StaysInRegion env sizes) packets ⟨b, otaUpdateInit sizes⟩ :=
  h.of_invariant (fun s => OfRegion sizes s.ctx) (staysInRegion_step hroom) ofRegion_init

/-! ### A package whose base lies above the region -/

/-- The start of the download of a package of one packet. -/
def sampleFota : Fota := ⟨blankBoard, otaUpdateInit noImage⟩

theorem sampleFota_accept {base : UInt32} (h : noImage.base ≤ base) :
    otaDownlinkPacketProc env (samplePackage base) sampleFota =
      storePacket env blankBoard ((otaUpdateInit noImage).acceptHead (samplePackage base)) [] := by
  have hlen := length_samplePackage base
  have hdrop : (samplePackage base).drop 164 = [] := List.drop_eq_nil_of_le (by omega)
  have h164 : 164 ≤ (samplePackage base).length := by omega
  have hmax : noImage.maxlen.toNat = 0xCD000 := by decide
  have hok := (headOk_samplePackage h).congr (completed_init noImage _ h164)
  rw [← hdrop]
  refine otaDownlinkPacketProc_accept (s := sampleFota) ?_ ?_ (by decide) ?_ hok
  · rw [hlen]; decide
  · rw [hlen]; decide
  · rw [hlen]; decide

theorem fotaPacketBase_completed (base : UInt32) :
    DeltaHeadInfo.fotaPacketBase ((otaUpdateInit noImage).completed (samplePackage base)) =
      base := by
  have hc := completed_init noImage (samplePackage base)
    (by rw [length_samplePackage])
  refine (Buf.word_congr fun i hi => ?_).trans (fotaPacketBase_sampleHead base)
  have hlt : fotaPacketBaseOffset + i < 0 + 164 := by simp only [fotaPacketBaseOffset]; omega
  rw [← hc _ (Nat.zero_le _) hlt, sampleHead_agree base _ (Nat.zero_le _) hlt]

/-- A package of one packet is stored, or its refusals are not seen. -/
theorem sampleFota_ok (env : Env) (base : UInt32) (h : noImage.base ≤ base)
    (ha : base.toNat % 4096 = 0)
    (hin : base ≤ FOTA_BACKUP_BASE) :
    ∃ b', otaDownlinkPacketProc env (samplePackage base) sampleFota =
      .ok .xyOk ⟨b', ((otaUpdateInit noImage).acceptHead (samplePackage base)).stored []⟩ := by
  have hle := UInt32.le_iff_toNat_le.mp hin
  have hge := UInt32.le_iff_toNat_le.mp h
  have hmax : noImage.maxlen.toNat = 0xCD000 := by decide
  have hbase : noImage.base.toNat = 0x2711F000 := by decide
  rw [backup_eq] at hle
  have hctx : ((otaUpdateInit noImage).acceptHead (samplePackage base)).flashBase = base :=
    fotaPacketBase_completed base
  have hrecv : ((otaUpdateInit noImage).acceptHead (samplePackage base)).recvSize.toNat = 164 := rfl
  have hlen : ((otaUpdateInit noImage).acceptHead (samplePackage base)).flashMaxlen =
    noImage.maxlen := rfl
  obtain ⟨b', hp⟩ := programPacket_returns env []
    (regionSize_of_room room_noImage hlen) (by rw [hctx]; exact ha) (by rw [hctx]; omega)
    (by rw [hctx, hrecv]; omega) (by rw [hrecv]) (by rw [hrecv, hlen, hmax]; decide) blankBoard
  exact ⟨b', by rw [sampleFota_accept h, storePacket, hp]⟩

/-- The first operations of a package of one packet erase `flash_maxlen` bytes from its base. -/
theorem packetOps_samplePackage (base : UInt32) (h : noImage.base ≤ base)
    (ha : base.toNat % 4096 = 0) (hin : base ≤ FOTA_BACKUP_BASE) :
    ∃ erases writes, Erases erases base.toNat noImage.maxlen.toNat ∧
      packetOps quietEnv sampleFota (samplePackage base) = erases ++ writes := by
  have hle := UInt32.le_iff_toNat_le.mp hin
  have hge := UInt32.le_iff_toNat_le.mp h
  have hmax : noImage.maxlen.toNat = 0xCD000 := by decide
  have hbase : noImage.base.toNat = 0x2711F000 := by decide
  rw [backup_eq] at hle
  have hflash : InFlash base := by
    refine ⟨UInt32.le_iff_toNat_le.mpr ?_, UInt32.le_iff_toNat_le.mpr ?_⟩
    · exact le_trans (by decide : FLASH_BASE.toNat ≤ 0x2711F000) (by omega)
    · exact le_trans hle (by decide)
  have hctx : ((otaUpdateInit noImage).acceptHead (samplePackage base)).flashBase = base :=
    fotaPacketBase_completed base
  have hlen : ((otaUpdateInit noImage).acceptHead (samplePackage base)).flashMaxlen =
    noImage.maxlen := rfl
  rw [packetOps, sampleFota_accept h, storePacket, programPacket, hctx, hlen]
  rcases xyFlashErase_spec quietEnv base noImage.maxlen (by omega)
    (by omega) (by omega) blankBoard with ⟨hv, -⟩ | ⟨hne, -⟩ | ⟨-, ops, he, h₁⟩
  · cases hv
  · exact absurd ha hne
  rcases xyFlashWriteNoErase_spec quietEnv
    (((otaUpdateInit noImage).acceptHead (samplePackage base)).headInfo.read 0 headSize.toNat)
    hflash
    (by rw [Buf.length_read, toNat_headSize]; omega) (blankBoard.checked.perform ops) with
    ⟨hv, -⟩ | ⟨-, ops', -, h₂⟩
  · cases hv
  refine ⟨ops, ops', he, ?_⟩
  rw [if_pos (show ((otaUpdateInit noImage).acceptHead (samplePackage base)).recvSize = headSize
    from rfl), bind_ok h₁, bind_ok h₂]
  rfl

/-- A package one sector above the start of the region: the sector after the region is erased. -/
theorem not_packetOps_within_region :
    ¬ Along (otaDownlinkPacketProc quietEnv) (StaysInRegion quietEnv noImage)
      [samplePackage 0x27120000] sampleFota := by
  rintro ⟨h, -⟩
  obtain ⟨erases, writes, he, hops⟩ := packetOps_samplePackage 0x27120000 (by decide)
    (by decide) (by decide)
  rw [StaysInRegion, hops] at h
  have hout := replay_outside (i := 0x271EC000) (fun op hop => h op (List.mem_append_left _ hop))
    (.inr (by decide)) fun _ => 0
  rw [he.erased (fun _ => 0) 0x271EC000 (by decide) (by decide)] at hout
  exact absurd hout (by decide)

/-- A package at the start of the region. -/
theorem packetOps_within_region_samplePackage :
    Along (otaDownlinkPacketProc quietEnv) (StaysInRegion quietEnv noImage)
      [samplePackage noImage.base] sampleFota :=
  packetOps_within_region room_noImage ⟨⟨by rw [length_samplePackage]; decide,
    fun _ _ _ _ => fotaPacketBase_completed _⟩, fun _ _ _ => trivial⟩

end XY1100
