import XY1100.Fota.Integrity

/-!
# Fota — how a package is cut

Feeding a package in any packets is feeding it at once (`download_chunking`).  A packet that ends
with the header leaves the flash erased and the header programmed; the next one finds
`recv_size` at the size of the header and does the same again, before it programs its own bytes
(`programPacket_holds`).
-/

namespace XY1100
open Support

variable {env : Env} {sizes : ImageSizes}

/-! ### Packages that are accepted -/

/-- The header of the package passes the checks, and the package fits the region, which ends where
the backup area starts, from a base that starts a sector. -/
structure GoodPackage (sizes : ImageSizes) (flash : Buf) (package : List UInt8) : Prop where
  head_le : 164 ≤ package.length
  head : HeadOk flash sizes.base (headOf package)
  aligned : (DeltaHeadInfo.fotaPacketBase (headOf package)).toNat % 4096 = 0
  fits : (DeltaHeadInfo.fotaPacketBase (headOf package)).toNat + package.length ≤
    FOTA_BACKUP_BASE.toNat

theorem GoodPackage.room {flash : Buf} {package : List UInt8}
    (h : GoodPackage sizes flash package) : sizes.Room := by
  have hge := UInt32.le_iff_toNat_le.mp h.head.base
  have hfits := h.fits
  exact UInt32.le_iff_toNat_le.mpr (by omega)

/-- A header that reads as the package's names the same base. -/
theorem fotaPacketBase_of_read {package : List UInt8} {head : Buf} (h164 : 164 ≤ package.length)
    (h : head.read 0 164 = package.take 164) :
    DeltaHeadInfo.fotaPacketBase head = DeltaHeadInfo.fotaPacketBase (headOf package) := by
  have hagree := headOf_agree h164 h
  exact Buf.word_congr fun i hi => (hagree _ (by omega) (by
    simp only [fotaPacketBaseOffset]; omega)).symm

/-- **One packet** of a package that is accepted, no flash operation being refused. -/
theorem Received.accepts {f₀ : Buf} {package bytes : List UInt8}
    (hg : GoodPackage sizes f₀ package) (hv : ∀ k, env.vbatOk k = true) (data rest : List UInt8)
    (hcut : bytes ++ data ++ rest = package) {s : Fota} (h : Received sizes f₀ s bytes) :
    ∃ s', otaDownlinkPacketProc env data s = .ok .xyOk s' ∧
      Received sizes f₀ s' (bytes ++ data) := by
  have hroom := hg.room
  have hregion := ImageSizes.base_add_maxlen hroom
  have hbounds := ImageSizes.base_bounds sizes
  have hge := UInt32.le_iff_toNat_le.mp hg.head.base
  have hfits := hg.fits
  have hal := hg.aligned
  have h164 := hg.head_le
  rw [backup_eq] at hregion hbounds hfits
  have hlen : bytes.length + data.length + rest.length = package.length := by
    rw [← hcut, List.length_append, List.length_append]
  have hrecv := h.recvSize
  have hmax : s.ctx.flashMaxlen.toNat = sizes.maxlen.toNat := congrArg UInt32.toNat h.maxlen
  have hw : s.ctx.recvSize.toNat + data.length < 2 ^ 32 := by omega
  have hfit : s.ctx.recvSize.toNat + data.length ≤ s.ctx.flashMaxlen.toNat := by omega
  suffices hret : ∃ s', otaDownlinkPacketProc env data s = .ok .xyOk s' by
    obtain ⟨s', hs'⟩ := hret
    exact ⟨s', hs', h.step hroom (by omega) (fun k _ _ => hv k) hs'⟩
  have hstore : ∀ (ctx : OtaContext) (input : List UInt8), ctx.flashMaxlen = sizes.maxlen →
      ctx.flashBase = DeltaHeadInfo.fotaPacketBase (headOf package) →
      164 ≤ ctx.recvSize.toNat → ctx.recvSize.toNat + input.length ≤ package.length →
      ∃ s', storePacket env s.board ctx input = .ok .xyOk s' := by
    intro ctx input hm hb hr hi
    obtain ⟨b', hp⟩ := programPacket_returns env input
      (regionSize_of_room hroom hm)
      (by rw [hb]; exact hal) (by rw [hb]; omega) (by rw [hb]; omega) hr (by rw [hm]; omega) s.board
    exact ⟨⟨b', ctx.stored input⟩, by rw [storePacket, hp]⟩
  rcases h.phase with hc | hd
  · have hlt := hc.collected.lt
    rcases Nat.lt_or_ge (s.ctx.recvSize.toNat + data.length) 164 with hin | hout
    · exact ⟨_, otaDownlinkPacketProc_collect hw hfit hin⟩
    · -- the packet completes the header
      have hread := hc.collected.read_completed data (by omega)
      have htake : (bytes ++ data).take 164 = package.take 164 := by
        have hle : 164 ≤ (bytes ++ data).length := by rw [List.length_append]; omega
        rw [← hcut, List.take_append_of_le_length hle]
      rw [htake] at hread
      have hok : HeadOk s.board.flash s.ctx.flashBase (s.ctx.completed data) := by
        rw [hc.flash, hc.base]
        exact hg.head.congr (headOf_agree h164 hread)
      rw [otaDownlinkPacketProc_accept hw hfit (by omega) hout hok]
      refine hstore _ _ h.maxlen (fotaPacketBase_of_read h164 hread) (Nat.le_of_eq rfl) ?_
      show headSize.toNat + _ ≤ _
      rw [toNat_headSize, List.length_drop, toNat_rest (by omega)]
      omega
  · have hle := hd.head_le
    have htake : bytes.take 164 = package.take 164 := by
      rw [← hcut, List.append_assoc, List.take_append_of_le_length hle]
    rw [otaDownlinkPacketProc_after hw hfit (by omega)]
    exact hstore _ _ h.maxlen (hd.base.trans (fotaPacketBase_of_read h164 (hd.head.trans htake)))
      (by omega) (by omega)

/-- **A package in any packets**: every call returns `XY_OK`. -/
theorem Received.accepts_all {f₀ : Buf} {package : List UInt8} (hg : GoodPackage sizes f₀ package)
    (hv : ∀ k, env.vbatOk k = true) :
    ∀ (packets : List (List UInt8)) {bytes : List UInt8} {s : Fota},
    bytes ++ packets.flatten = package → Received sizes f₀ s bytes →
    ∃ s', packets.mapM (otaDownlinkPacketProc env) s =
        .ok (List.replicate packets.length .xyOk) s' ∧ Received sizes f₀ s' package := by
  intro packets
  induction packets with
  | nil =>
    intro bytes s hcut h
    rw [List.flatten_nil, List.append_nil] at hcut
    exact ⟨s, rfl, hcut ▸ h⟩
  | cons data packets ih =>
    intro bytes s hcut h
    rw [List.flatten_cons, ← List.append_assoc] at hcut
    obtain ⟨s₁, h₁, hr₁⟩ := h.accepts hg hv _ _ hcut
    obtain ⟨s', h₂, hr₂⟩ := ih hcut hr₁
    exact ⟨s', mapM_cons_ok h₁ h₂, hr₂⟩

/-! ### Two ways to feed a package -/

/-- Two downloads of a package have ended alike. -/
structure SameDownload (package : List UInt8) (s t : Fota) : Prop where
  recvSize : s.ctx.recvSize.toNat = package.length ∧ t.ctx.recvSize = s.ctx.recvSize
  flashBase : t.ctx.flashBase = s.ctx.flashBase
  head : t.ctx.headInfo.read 0 164 = s.ctx.headInfo.read 0 164
  flash : s.board.flash.read s.ctx.flashBase.toNat package.length = package ∧
    t.board.flash.read t.ctx.flashBase.toNat package.length = package
  hmac : t.ctx.hmacContext = s.ctx.hmacContext

theorem Downloaded.same {package : List UInt8} {s t : Fota} (hs : Downloaded s package)
    (ht : Downloaded t package) : SameDownload package s t where
  recvSize := ⟨hs.recvSize, UInt32.toNat_inj.mp (ht.recvSize.trans hs.recvSize.symm)⟩
  flashBase := by
    rw [hs.base, ht.base, fotaPacketBase_of_read hs.head_le hs.head,
      fotaPacketBase_of_read ht.head_le ht.head]
  head := ht.head.trans hs.head.symm
  flash := ⟨hs.holds.read_eq, ht.holds.read_eq⟩
  hmac := ht.hmac.trans hs.hmac.symm

/-- **Feeding a package in any packets is feeding it at once.** -/
theorem download_chunking {b : Board} {package : List UInt8} {packets : List (List UInt8)}
    (hg : GoodPackage sizes b.flash package) (hv : ∀ k, env.vbatOk k = true)
    (hcut : packets.flatten = package) :
    ∃ s t, packets.mapM (otaDownlinkPacketProc env) ⟨b, otaUpdateInit sizes⟩ =
        .ok (List.replicate packets.length .xyOk) s ∧
      otaDownlinkPacketProc env package ⟨b, otaUpdateInit sizes⟩ = .ok .xyOk t ∧
      SameDownload package s t := by
  have hdown : ∀ {s : Fota}, Received sizes b.flash s package → Downloaded s package := by
    rintro s ⟨-, hc | hd⟩
    · have := hc.collected.lt
      have := hg.head_le
      omega
    · exact hd
  obtain ⟨s, h₁, hs⟩ := (received_init b).accepts_all hg hv packets hcut
  obtain ⟨t, h₂, ht⟩ := (received_init b).accepts hg hv package []
    (by rw [List.nil_append, List.append_nil])
  exact ⟨s, t, h₁, h₂, (hdown hs).same (hdown ht)⟩

theorem fotaPacketBase_headOf (base : UInt32) :
    DeltaHeadInfo.fotaPacketBase (headOf (samplePackage base)) = base :=
  (fotaPacketBase_of_read (by rw [length_samplePackage])
    (by rw [samplePackage, Buf.take_read le_rfl])).symm.trans (fotaPacketBase_sampleHead base)

theorem goodPackage_samplePackage :
    GoodPackage noImage blankBoard.flash (samplePackage noImage.base) where
  head_le := by rw [length_samplePackage]
  head := headOk_samplePackage (by decide)
  aligned := by
    rw [fotaPacketBase_headOf]
    decide
  fits := by
    rw [fotaPacketBase_headOf, length_samplePackage]
    decide

/-- A package cut inside its header, with empty packets around the cut. -/
theorem download_chunking_samplePackage :
    ∃ s t, [[], (samplePackage noImage.base).take 100, [], (samplePackage noImage.base).drop 100,
          []].mapM (otaDownlinkPacketProc quietEnv) sampleFota = .ok (List.replicate 5 .xyOk) s ∧
      otaDownlinkPacketProc quietEnv (samplePackage noImage.base) sampleFota = .ok .xyOk t ∧
      SameDownload (samplePackage noImage.base) s t :=
  download_chunking goodPackage_samplePackage (fun _ => rfl) (by
    simp only [List.flatten_cons, List.flatten_nil, List.nil_append, List.append_nil,
      List.take_append_drop])

end XY1100
