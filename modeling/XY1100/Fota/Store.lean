import XY1100.Fota.Download

/-!
# Fota — storing a packet

The flash operations of `ota_downlink_packet_proc` (`programPacket`): where they fall
(`programPacket_performs`), what the flash holds after them when none is refused
(`programPacket_holds`), and that they return (`programPacket_returns`).

`HoldsPackage` is what a download keeps of the flash: the bytes received so far, and erased flash
after them.
-/

namespace XY1100
open Support

variable {env : Env}

/-! ### What the flash holds of a package -/

/-- The `n` bytes from `a` hold `bytes`, and erased flash after them. -/
structure HoldsPackage (f : Buf) (a n : Nat) (bytes : List UInt8) : Prop where
  read_eq : f.read a bytes.length = bytes
  blank : ∀ i, bytes.length ≤ i → i < n → f (a + i) = 0xFF

theorem Erases.holdsPackage {ops : List FlashOp} {a n : Nat} (h : Erases ops a n) (f : Buf) :
    HoldsPackage (FlashOp.replay ops f) a n [] where
  read_eq := rfl
  blank i _ hi := h.erased f (a + i) (by omega) (by omega)

/-- Programming the bytes that come next. -/
theorem HoldsPackage.program {f : Buf} {a n : Nat} {bytes : List UInt8}
    (h : HoldsPackage f a n bytes) (bs : List UInt8) (hfit : bytes.length + bs.length ≤ n) :
    HoldsPackage (f.program (a + bytes.length) bs) a n (bytes ++ bs) := by
  have hw : f.program (a + bytes.length) bs = f.write (a + bytes.length) bs :=
    Buf.program_eq_write fun i h₁ h₂ => by
      obtain ⟨j, rfl⟩ := Nat.exists_eq_add_of_le (show a ≤ i by omega)
      exact h.blank j (by omega) (by omega)
  rw [hw]
  constructor
  · rw [List.length_append, Buf.read_add, Buf.read_write]
    congr 1
    conv_rhs => rw [← h.read_eq]
    exact Buf.read_congr fun i hi => Buf.write_outside (.inl (by omega))
  · intro i h₁ h₂
    rw [List.length_append] at h₁
    rw [Buf.write_outside (by omega)]
    exact h.blank i (by omega) h₂

/-! ### The operations of a packet -/

/-- The sizes of a region. -/
structure RegionSize (ctx : OtaContext) : Prop where
  whole : ctx.flashMaxlen.toNat % 4096 = 0
  lt : ctx.flashMaxlen.toNat < 2 ^ 24

/-- **Where the operations fall**: in the region that starts at `flash_base`, if the packet fits
it. -/
theorem programPacket_performs (env : Env) {ctx : OtaContext} {input : List UInt8}
    (hr : RegionSize ctx)
    (ha : ctx.flashBase.toNat % 4096 = 0) (hb : ctx.flashBase.toNat < 2 ^ 30)
    (h164 : 164 ≤ ctx.recvSize.toNat)
    (hfit : ctx.recvSize.toNat + input.length ≤ ctx.flashMaxlen.toNat) (b : Board) :
    Performs (FlashOp.Within · ctx.flashBase.toNat (ctx.flashBase.toNat + ctx.flashMaxlen.toNat))
      (programPacket env ctx input) b := by
  obtain ⟨hal, hlt⟩ := hr
  have hadd : ∀ n : UInt32, n.toNat ≤ ctx.flashMaxlen.toNat →
      (ctx.flashBase + n).toNat = ctx.flashBase.toNat + n.toNat := fun n hn => by
    rw [UInt32.toNat_add]; omega
  have hwrite : ∀ (n : UInt32) (bs : List UInt8) (b : Board),
      n.toNat + bs.length ≤ ctx.flashMaxlen.toNat →
      Performs (FlashOp.Within · ctx.flashBase.toNat (ctx.flashBase.toNat + ctx.flashMaxlen.toNat))
        (xyFlashWriteNoErase env (ctx.flashBase + n) bs) b := fun n bs b hn =>
    (xyFlashWriteNoErase_performs (by rw [hadd n (by omega)]; omega) b).mono fun op h =>
      h.mono (by rw [hadd n (by omega)]; omega) (by rw [hadd n (by omega)]; omega)
  have hpure : ∀ b : Board, Performs (FlashOp.Within · ctx.flashBase.toNat
      (ctx.flashBase.toNat + ctx.flashMaxlen.toNat)) (pure ()) b := fun b => performs_of_ops_eq rfl
  rw [programPacket]
  split_ifs with h hne
  · have h' : ctx.recvSize.toNat = 164 := congrArg UInt32.toNat h
    have hhead := hwrite 0 (ctx.headInfo.read 0 headSize.toNat)
    simp only [UInt32.add_zero] at hhead
    refine .bind (xyFlashErase_performs (by omega) hal ha (by omega) b) fun _ b₁ _ => ?_
    refine .bind (hhead b₁ (by rw [Buf.length_read, toNat_headSize]; simp; omega)) fun _ b₂ _ => ?_
    exact .bind (hwrite headSize input b₂ (by rw [toNat_headSize]; omega)) fun _ b₃ _ => hpure b₃
  · have h' : ctx.recvSize.toNat = 164 := congrArg UInt32.toNat h
    have hhead := hwrite 0 (ctx.headInfo.read 0 headSize.toNat)
    simp only [UInt32.add_zero] at hhead
    refine .bind (xyFlashErase_performs (by omega) hal ha (by omega) b) fun _ b₁ _ => ?_
    exact .bind (hhead b₁ (by rw [Buf.length_read, toNat_headSize]; simp; omega)) fun _ b₂ _ =>
      hpure b₂
  · exact .bind (hwrite ctx.recvSize input b hfit) fun _ b₁ _ => hpure b₁

/-- **What the flash holds afterwards**, when the operations have returned and none was refused:
the bytes received before, which are the header if there are no others, and the packet. -/
theorem programPacket_holds (ctx : OtaContext) (input bytes : List UInt8) (hr : RegionSize ctx)
    (hb : ctx.flashBase.toNat < 2 ^ 30) (hlen : ctx.recvSize.toNat = bytes.length)
    (h164 : 164 ≤ bytes.length) (hfit : bytes.length + input.length ≤ ctx.flashMaxlen.toNat)
    (hhead : bytes.length = 164 → ctx.headInfo.read 0 164 = bytes) {b b' : Board}
    (hold : bytes.length ≠ 164 →
      HoldsPackage b.flash ctx.flashBase.toNat ctx.flashMaxlen.toNat bytes)
    (hv : ∀ k, b.checks ≤ k → k < b'.checks → env.vbatOk k = true) {u : Unit}
    (h : programPacket env ctx input b = .ok u b') :
    HoldsPackage b'.flash ctx.flashBase.toNat ctx.flashMaxlen.toNat (bytes ++ input) := by
  obtain ⟨hal, hlt⟩ := hr
  have hadd : ∀ n : UInt32, n.toNat ≤ ctx.flashMaxlen.toNat →
      (ctx.flashBase + n).toNat = ctx.flashBase.toNat + n.toNat := fun n hn => by
    rw [UInt32.toNat_add]; omega
  rw [programPacket] at h
  by_cases h' : ctx.recvSize = headSize
  · have h164' : bytes.length = 164 := hlen.symm.trans (congrArg UInt32.toNat h')
    rw [if_pos h'] at h
    obtain ⟨r₁, b₁, h₁, h⟩ := bind_eq_ok h
    obtain ⟨r₂, b₂, h₂, h⟩ := bind_eq_ok h
    obtain ⟨hc₁, hf₁⟩ := xyFlashErase_inv (by omega) hal (by omega) h₁
    obtain ⟨-, hc₂, hf₂⟩ := xyFlashWriteNoErase_inv
      (by rw [Buf.length_read, toNat_headSize]; omega) h₂
    -- the header goes to erased flash
    have hhd : b₂.checks ≤ b'.checks →
        HoldsPackage b₂.flash ctx.flashBase.toNat ctx.flashMaxlen.toNat bytes := by
      intro hle
      obtain ⟨ops, he, hfl⟩ := hf₁ (hv _ le_rfl (by omega))
      have hp := (he.holdsPackage b.flash).program (ctx.headInfo.read 0 164)
        (by rw [Buf.length_read, List.length_nil]; omega)
      rw [hhead h164', List.length_nil, Nat.add_zero, List.nil_append] at hp
      rw [hf₂ (hv _ (by omega) (by omega)), hfl, toNat_headSize, hhead h164']
      exact hp
    split_ifs at h with hpos
    · obtain ⟨r₃, b₃, h₃, h⟩ := bind_eq_ok h
      cases h
      have hbase := hadd headSize (by rw [toNat_headSize]; omega)
      obtain ⟨-, hc₃, hf₃⟩ := xyFlashWriteNoErase_inv
        (by rw [hbase, toNat_headSize]; omega) h₃
      rw [hf₃ (hv _ (by omega) (by omega)), hbase, toNat_headSize, ← h164']
      exact (hhd (by omega)).program _ hfit
    · cases h
      rw [List.length_eq_zero_iff.mp (show input.length = 0 by omega), List.append_nil]
      exact hhd le_rfl
  · have hne : bytes.length ≠ 164 := fun he => h' (UInt32.toNat_inj.mp (by
      rw [hlen, he, toNat_headSize]))
    rw [if_neg h'] at h
    obtain ⟨r₁, b₁, h₁, h⟩ := bind_eq_ok h
    cases h
    have hbase := hadd ctx.recvSize (by omega)
    obtain ⟨-, hc₁, hf₁⟩ := xyFlashWriteNoErase_inv (by rw [hbase]; omega) h₁
    rw [hf₁ (hv _ le_rfl (by omega)), hbase, hlen]
    exact (hold hne).program _ hfit

/-- **The operations return**, in a region that lies in the flash. -/
theorem programPacket_returns (env : Env) {ctx : OtaContext} (input : List UInt8)
    (hr : RegionSize ctx)
    (ha : ctx.flashBase.toNat % 4096 = 0) (hlo : 0x27000000 ≤ ctx.flashBase.toNat)
    (hhi : ctx.flashBase.toNat + ctx.recvSize.toNat ≤ 0x27200000)
    (h164 : 164 ≤ ctx.recvSize.toNat)
    (hfit : ctx.recvSize.toNat + input.length ≤ ctx.flashMaxlen.toNat) (b : Board) :
    ∃ b', programPacket env ctx input b = .ok () b' := by
  obtain ⟨hal, hlt⟩ := hr
  have hadd : ∀ n : UInt32, n.toNat ≤ ctx.recvSize.toNat →
      (ctx.flashBase + n).toNat = ctx.flashBase.toNat + n.toNat := fun n hn => by
    rw [UInt32.toNat_add]; omega
  have hwrite : ∀ (n : UInt32) (bs : List UInt8) (b : Board), n.toNat ≤ ctx.recvSize.toNat →
      n.toNat + bs.length ≤ ctx.flashMaxlen.toNat →
      ∃ r b', xyFlashWriteNoErase env (ctx.flashBase + n) bs b = .ok r b' := by
    intro n bs b hn hfit
    have hin : InFlash (ctx.flashBase + n) := by
      constructor <;> apply UInt32.le_iff_toNat_le.mpr <;> rw [hadd n hn]
      · exact le_trans (by decide : FLASH_BASE.toNat ≤ 0x27000000) (by omega)
      · exact le_trans (by omega) (by decide : 0x27200000 ≤ (FLASH_BASE + FLASH_LENGTH).toNat)
    rcases xyFlashWriteNoErase_spec env bs hin (by rw [hadd n hn]; omega) b with
      ⟨-, h⟩ | ⟨-, ops, -, h⟩
    · exact ⟨_, _, h⟩
    · exact ⟨_, _, h⟩
  rw [programPacket]
  by_cases h' : ctx.recvSize = headSize
  · have hrecv : ctx.recvSize.toNat = 164 := congrArg UInt32.toNat h'
    rw [if_pos h']
    have herase : ∃ r b₁, xyFlashErase env ctx.flashBase ctx.flashMaxlen b = .ok r b₁ := by
      rcases xyFlashErase_spec env ctx.flashBase ctx.flashMaxlen (by omega) hal (by omega) b with
        ⟨-, h⟩ | ⟨hne, -⟩ | ⟨-, ops, -, h⟩
      · exact ⟨_, _, h⟩
      · exact absurd ha hne
      · exact ⟨_, _, h⟩
    obtain ⟨r₁, b₁, h₁⟩ := herase
    obtain ⟨r₂, b₂, h₂⟩ := hwrite 0 (ctx.headInfo.read 0 headSize.toNat) b₁ (by simp)
      (by rw [Buf.length_read, toNat_headSize]; simp; omega)
    rw [UInt32.add_zero] at h₂
    rw [bind_ok h₁, bind_ok h₂]
    split_ifs
    · obtain ⟨r₃, b₃, h₃⟩ := hwrite headSize input b₂ (by rw [toNat_headSize]; omega)
        (by rw [toNat_headSize]; omega)
      exact ⟨b₃, bind_ok h₃⟩
    · exact ⟨b₂, rfl⟩
  · rw [if_neg h']
    obtain ⟨r₁, b₁, h₁⟩ := hwrite ctx.recvSize input b le_rfl hfit
    exact ⟨b₁, bind_ok h₁⟩

end XY1100
