import XY1100.Fota.Check
import XY1100.Fota.Region

/-!
# Fota — what a download leaves

A run of packets from a fresh context is either within the header (`Collecting`) or has stored
all that was received (`Downloaded`): the flash holds it from the packet base on, and the HMAC
has been fed all but its first 84 bytes.

* What the streaming check verifies is what the flash holds, when no flash operation of the run
  was refused (`download_holds_verified`).  The code does not look at the refusals
  (`not_download_holds_verified`).
* The download does not depend on how the package is cut (`download_chunking`).
* The streaming check and the flash check never verify the same HMAC
  (`check_verdicts_differ`).
-/

namespace XY1100
open Support

variable {env : Env} {sizes : ImageSizes}

/-! ### The states of a download -/

/-- All that was received, `bytes`, is part of the header. -/
structure Collecting (sizes : ImageSizes) (f₀ : Buf) (s : Fota) (bytes : List UInt8) : Prop where
  collected : Collected s.ctx bytes
  base : s.ctx.flashBase = sizes.base
  hmac : s.ctx.hmacContext = .reset HMAC_KEY
  flash : s.board.flash = f₀

/-- All that was received, `bytes`, has been stored. -/
structure Downloaded (s : Fota) (bytes : List UInt8) : Prop where
  head_le : 164 ≤ bytes.length
  recvSize : s.ctx.recvSize.toNat = bytes.length
  fits : bytes.length ≤ s.ctx.flashMaxlen.toNat
  head : s.ctx.headInfo.read 0 164 = bytes.take 164
  base : s.ctx.flashBase = DeltaHeadInfo.fotaPacketBase s.ctx.headInfo
  base_lt : s.ctx.flashBase.toNat < 2 ^ 30
  hmac : s.ctx.hmacContext = ⟨some HMAC_KEY, bytes.drop 84, false, false⟩
  holds : HoldsPackage s.board.flash s.ctx.flashBase.toNat s.ctx.flashMaxlen.toNat bytes

/-- A run of packets has received `bytes`. -/
structure Received (sizes : ImageSizes) (f₀ : Buf) (s : Fota) (bytes : List UInt8) : Prop where
  maxlen : s.ctx.flashMaxlen = sizes.maxlen
  phase : Collecting sizes f₀ s bytes ∨ Downloaded s bytes

theorem received_init (b : Board) : Received sizes b.flash ⟨b, otaUpdateInit sizes⟩ [] where
  maxlen := rfl
  phase := .inl ⟨collected_init sizes, rfl, rfl, rfl⟩

theorem Received.recvSize {f₀ : Buf} {s : Fota} {bytes : List UInt8}
    (h : Received sizes f₀ s bytes) : s.ctx.recvSize.toNat = bytes.length := by
  rcases h.phase with h | h
  · exact h.collected.recvSize
  · exact h.recvSize

/-- None of the battery checks of the call refuses. -/
def NotRefused (env : Env) (s : Fota) (data : List UInt8) : Prop :=
  ∀ k, s.board.checks ≤ k → k < (finalState (otaDownlinkPacketProc env data s)).board.checks →
    env.vbatOk k = true

/-- A header is only accepted, and stored, at an address in the flash. -/
theorem flashBase_lt_of_programPacket {ctx : OtaContext} {input : List UInt8} {b b' : Board}
    (h' : ctx.recvSize = headSize) (h : programPacket env ctx input b = .ok () b') :
    ctx.flashBase.toNat < 2 ^ 30 := by
  rw [programPacket, if_pos h'] at h
  obtain ⟨r₁, b₁, -, h⟩ := bind_eq_ok h
  obtain ⟨r₂, b₂, h₂, -⟩ := bind_eq_ok h
  by_cases hin : InFlash ctx.flashBase
  · have := UInt32.le_iff_toNat_le.mp hin.2
    have : (FLASH_BASE + FLASH_LENGTH).toNat = 0x27200000 := rfl
    omega
  · rw [xyFlashWriteNoErase_of_not_inFlash hin] at h₂
    cases h₂

/-- A packet that completes an accepted header is stored, and the header with it. -/
theorem Collecting.store (hroom : sizes.Room) {f₀ : Buf} {s s' : Fota} {bytes data : List UInt8}
    (hc : Collecting sizes f₀ s bytes) (hmaxlen : s.ctx.flashMaxlen = sizes.maxlen)
    (hlen : bytes.length + data.length < 2 ^ 32) (h164 : 164 ≤ bytes.length + data.length)
    (hfits : bytes.length + data.length ≤ s.ctx.flashMaxlen.toNat)
    (hv : ∀ k, s.board.checks ≤ k → k < s'.board.checks → env.vbatOk k = true) {o : XyRet}
    (hok : storePacket env s.board (s.ctx.acceptHead data) (data.drop s.ctx.rest) = .ok o s') :
    s'.ctx.flashMaxlen = s.ctx.flashMaxlen ∧ Downloaded s' (bytes ++ data) := by
  obtain ⟨-, hp, hctx⟩ := storePacket_inv hok
  have hrecv := hc.collected.recvSize
  have hlt := hc.collected.lt
  have hrest : s.ctx.rest = 164 - s.ctx.recvSize.toNat := toNat_rest (by omega)
  have hdrop : (data.drop s.ctx.rest).length = data.length - s.ctx.rest := List.length_drop
  have hread := hc.collected.read_completed data (by omega)
  have hbase := flashBase_lt_of_programPacket rfl hp
  have happ : (bytes ++ data).take 164 ++ data.drop s.ctx.rest = bytes ++ data := by
    rw [List.take_append, List.take_of_length_le (l := bytes) (by omega), List.append_assoc,
      hrest, hrecv, List.take_append_drop]
  have htake : ((bytes ++ data).take 164).length = 164 := by
    rw [List.length_take, List.length_append]; omega
  have hholds := programPacket_holds (s.ctx.acceptHead data) (data.drop s.ctx.rest)
    ((bytes ++ data).take 164)
    (regionSize_of_room hroom hmaxlen) hbase (by rw [htake]; rfl) (by omega)
    (by show _ ≤ s.ctx.flashMaxlen.toNat; rw [htake, hdrop]; omega) (fun _ => hread)
    (fun hne => absurd htake hne) hv hp
  have hnew : (s'.ctx).recvSize.toNat = (bytes ++ data).length := by
    rw [hctx, toNat_recvSize_stored (by show headSize.toNat + _ < _; rw [toNat_headSize]; omega)]
    show headSize.toNat + _ = _
    rw [toNat_headSize, hdrop, List.length_append]
    omega
  rw [happ] at hholds
  refine ⟨by rw [hctx]; rfl, by rw [List.length_append]; omega, hnew, ?_, ?_, ?_, ?_, ?_, ?_⟩
  · rw [hctx, List.length_append]; exact hfits
  · rw [hctx]; exact hread
  · rw [hctx]; rfl
  · rw [hctx]; exact hbase
  · have hdrop84 : (s.ctx.completed data).read versionOffset (headSize.toNat - 84) =
        ((bytes ++ data).take 164).drop 84 := by
      rw [← hread, Buf.drop_read (by omega), Nat.zero_add]
      rfl
    rw [hctx, ← happ, List.drop_append_of_le_length (by omega), ← hdrop84]
    show hmacInputBlocks (s.ctx.hmacContext.input _) _ = _
    rw [hc.hmac, hmacInputBlocks_eq _ ((HmacContext.open_reset _).input _),
      HmacContext.input_open (HmacContext.open_reset _)]
    rfl
  · rw [hctx]; exact hholds

/-- A packet after the header is stored. -/
theorem Downloaded.store (hroom : sizes.Room) {s s' : Fota} {bytes data : List UInt8}
    (hd : Downloaded s bytes) (hmaxlen : s.ctx.flashMaxlen = sizes.maxlen)
    (hlen : bytes.length + data.length < 2 ^ 32)
    (hfits : bytes.length + data.length ≤ s.ctx.flashMaxlen.toNat)
    (hv : ∀ k, s.board.checks ≤ k → k < s'.board.checks → env.vbatOk k = true) {o : XyRet}
    (hok : storePacket env s.board s.ctx data = .ok o s') :
    s'.ctx.flashMaxlen = s.ctx.flashMaxlen ∧ Downloaded s' (bytes ++ data) := by
  obtain ⟨-, hp, hctx⟩ := storePacket_inv hok
  have hrecv := hd.recvSize
  have hhead := hd.head_le
  have hholds := programPacket_holds s.ctx data bytes
    (regionSize_of_room hroom hmaxlen) hd.base_lt hrecv hhead hfits
    (fun h164 => by rw [hd.head, List.take_of_length_le (by omega)]) (fun _ => hd.holds) hv hp
  refine ⟨by rw [hctx]; rfl, by rw [List.length_append]; omega, ?_, ?_, ?_, ?_, ?_, ?_, ?_⟩
  · rw [hctx, toNat_recvSize_stored (by omega), hrecv, List.length_append]
  · rw [hctx, List.length_append]; exact hfits
  · rw [hctx, List.take_append_of_le_length hhead]; exact hd.head
  · rw [hctx]; exact hd.base
  · rw [hctx]; exact hd.base_lt
  · rw [hctx, List.drop_append_of_le_length (by omega)]
    show hmacInputBlocks s.ctx.hmacContext data = _
    rw [hmacInputBlocks_eq _ (by rw [hd.hmac]; exact ⟨rfl, rfl⟩), hd.hmac]
  · rw [hctx]; exact hholds

/-- **One call** that returned `XY_OK`, none of its flash operations having been refused. -/
theorem Received.step (hroom : sizes.Room) {f₀ : Buf} {s s' : Fota} {bytes data : List UInt8}
    (h : Received sizes f₀ s bytes) (hlen : bytes.length + data.length < 2 ^ 32)
    (hv : NotRefused env s data) (hok : otaDownlinkPacketProc env data s = .ok .xyOk s') :
    Received sizes f₀ s' (bytes ++ data) := by
  have hrecv := h.recvSize
  have hw : s.ctx.recvSize.toNat + data.length < 2 ^ 32 := by omega
  have hsum := toNat_sum hw
  have hv' : ∀ k, s.board.checks ≤ k → k < s'.board.checks → env.vbatOk k = true := by
    rw [NotRefused, hok] at hv
    exact hv
  rcases otaDownlinkPacketProc_cases env s data with
    ⟨-, hres⟩ | ⟨hle, ⟨hs, ⟨hin, hres⟩ | ⟨-, hres⟩⟩ |
    ⟨h164, ⟨hlt, ⟨-, hres⟩ | ⟨-, hres⟩⟩ | ⟨hge, hres⟩⟩⟩
  · rw [hres] at hok; cases hok
  · -- within the header
    rw [hres] at hok; cases hok
    refine ⟨h.maxlen, .inl ?_⟩
    rcases h.phase with hc | hd
    · exact ⟨hc.collected.collect (by omega), hc.base, hc.hmac, hc.flash⟩
    · have := hd.head_le
      omega
  · rw [hres] at hok; cases hok
  all_goals
    have hle' := UInt32.le_iff_toNat_le.mp hle
    rw [hsum, hrecv] at hle'
  · -- the packet completes a header that is accepted
    rw [hres] at hok
    rcases h.phase with hc | hd
    · obtain ⟨hmaxlen, hd⟩ := hc.store hroom h.maxlen hlen (by omega) hle' hv' hok
      exact ⟨hmaxlen.trans h.maxlen, .inr hd⟩
    · have := hd.head_le
      omega
  · rw [hres] at hok; cases hok
  · -- after the header
    rw [hres] at hok
    rcases h.phase with hc | hd
    · have := hc.collected.lt
      omega
    · obtain ⟨hmaxlen, hd'⟩ := hd.store hroom h.maxlen hlen hle' hv' hok
      exact ⟨hmaxlen.trans h.maxlen, .inr hd'⟩

/-- What is asked of a call: the sum of the sizes does not wrap, and no flash operation is
refused. -/
structure Undisturbed (env : Env) (s : Fota) (data : List UInt8) : Prop where
  noWrap : s.ctx.recvSize.toNat + data.length < 2 ^ 32
  notRefused : NotRefused env s data

/-- **A run** whose calls all returned `XY_OK`. -/
theorem Received.run (hroom : sizes.Room) {f₀ : Buf} : ∀ {packets : List (List UInt8)} {s s' : Fota}
    {bytes : List UInt8} {os : List XyRet}, Received sizes f₀ s bytes →
    Along (otaDownlinkPacketProc env) (Undisturbed env) packets s →
    packets.mapM (otaDownlinkPacketProc env) s = .ok os s' → (∀ o ∈ os, o = .xyOk) →
    Received sizes f₀ s' (bytes ++ packets.flatten) := by
  intro packets
  induction packets with
  | nil =>
    intro s s' bytes os h _ hrun _
    cases hrun
    simpa using h
  | cons data packets ih =>
    intro s s' bytes os h ha hrun hos
    obtain ⟨o, os', s₁, rfl, h₁, h₂⟩ := mapM_cons_inv hrun
    obtain rfl := hos o List.mem_cons_self
    have hstep := h.step hroom (by rw [← h.recvSize]; exact ha.1.noWrap) ha.1.notRefused h₁
    have hend := ih hstep (ha.2 _ _ h₁) h₂ fun o ho => hos o (List.mem_cons_of_mem _ ho)
    rwa [List.append_assoc] at hend

/-! ### The HMAC context of a download -/

/-- The context takes input, and its last reset was that of `ota_update_Init`. -/
structure Keyed (c : HmacContext) : Prop where
  isOpen : c.Open
  key : c.key = some HMAC_KEY

theorem keyed_init : Keyed (otaUpdateInit sizes).hmacContext := ⟨HmacContext.open_reset _, rfl⟩

theorem Keyed.input {c : HmacContext} (h : Keyed c) (text : List UInt8) : Keyed (c.input text) :=
  ⟨h.isOpen.input text, by rw [HmacContext.input_open h.isOpen]; exact h.key⟩

theorem Keyed.stored {ctx : OtaContext} (h : Keyed ctx.hmacContext) (input : List UInt8) :
    Keyed (ctx.stored input).hmacContext := by
  show Keyed (hmacInputBlocks ctx.hmacContext input)
  rw [hmacInputBlocks_eq _ h.isOpen, ← HmacContext.input_open h.isOpen]
  exact h.input input

/-- A call feeds the HMAC context, and does nothing else to it. -/
theorem Keyed.step {s s' : Fota} {data : List UInt8} {o : XyRet} (h : Keyed s.ctx.hmacContext)
    (hres : otaDownlinkPacketProc env data s = .ok o s') : Keyed s'.ctx.hmacContext := by
  rcases otaDownlinkPacketProc_cases env s data with ⟨-, hr⟩ | ⟨-, ⟨-, ⟨-, hr⟩ | ⟨-, hr⟩⟩ |
    ⟨-, ⟨-, ⟨-, hr⟩ | ⟨-, hr⟩⟩ | ⟨-, hr⟩⟩⟩ <;> rw [hr] at hres
  · cases hres; exact h
  · cases hres; exact h
  · cases hres
  · rw [(storePacket_inv hres).2.2]
    exact Keyed.stored (show Keyed (s.ctx.acceptHead data).hmacContext from h.input _) _
  · cases hres; exact h
  · rw [(storePacket_inv hres).2.2]
    exact h.stored _

/-! ### What is verified and what is stored -/

/-- Functions for which every package has a good signature. -/
def trustingCrypto : Crypto := ⟨fun _ _ => [], fun _ => [], []⟩

/-- If the calls of a download all return `XY_OK` and the streaming check does, the flash holds
the package that was received. -/
def HoldsVerified (env : Env) (sizes : ImageSizes) (crypto : Crypto) (b : Board)
    (packets : List (List UInt8)) : Prop :=
  ∀ os s s', packets.mapM (otaDownlinkPacketProc env) ⟨b, otaUpdateInit sizes⟩ = .ok os s →
    (∀ o ∈ os, o = .xyOk) → otaDeltaCheckSync crypto s = .ok .xyOk s' →
    s.ctx.hmacContext.text = packets.flatten.drop 84 ∧
      s.board.flash.read s.ctx.flashBase.toNat s.ctx.recvSize.toNat = packets.flatten

/-- **What is verified is what the flash holds**, when no flash operation was refused. -/
theorem download_holds_verified (hroom : sizes.Room) {crypto : Crypto} {b : Board}
    {packets : List (List UInt8)} (hlen : 164 ≤ packets.flatten.length)
    (h : Along (otaDownlinkPacketProc env) (Undisturbed env) packets ⟨b, otaUpdateInit sizes⟩) :
    HoldsVerified env sizes crypto b packets := by
  intro os s s' hrun hos _
  obtain ⟨-, hc | hd⟩ := (received_init b).run hroom h hrun hos
  · have := hc.collected.lt
    simp only [List.nil_append] at this
    omega
  · simp only [List.nil_append] at hd
    exact ⟨by rw [hd.hmac], by rw [hd.recvSize]; exact hd.holds.read_eq⟩

/-- A package of one packet, with the battery good. -/
theorem download_holds_verified_samplePackage :
    HoldsVerified quietEnv noImage trustingCrypto blankBoard [samplePackage noImage.base] :=
  download_holds_verified room_noImage (by simp [length_samplePackage])
    ⟨⟨by rw [length_samplePackage]; decide, fun _ _ _ => rfl⟩, fun _ _ _ => trivial⟩

/-- The battery is below the minimum from the start. -/
def flatBatteryEnv : Env := { quietEnv with vbatOk := vbatCourse ⟨30, true⟩ fun _ => 2500 }

theorem vbatOk_flatBatteryEnv (k : Nat) : flatBatteryEnv.vbatOk k = false :=
  vbatCourse_sticky (k := 0) (by decide) k (Nat.zero_le k)

/-- The header of a package of one packet, with every operation refused. -/
theorem programPacket_refused {ctx : OtaContext} (hin : InFlash ctx.flashBase)
    (h : ctx.recvSize = headSize) (b : Board) :
    programPacket flatBatteryEnv ctx [] b = .ok () b.checked.checked := by
  have herase : xyFlashErase flatBatteryEnv ctx.flashBase ctx.flashMaxlen b =
      .ok .xyErrLowVbat b.checked := by
    have hv : checkVbat flatBatteryEnv b = .ok false b.checked := by
      rw [checkVbat, vbatOk_flatBatteryEnv]
    rw [xyFlashErase, bind_ok hv]
    rfl
  have hwrite : xyFlashWriteNoErase flatBatteryEnv ctx.flashBase
      (ctx.headInfo.read 0 headSize.toNat) b.checked = .ok .xyErrLowVbat b.checked.checked := by
    have hv : checkVbat flatBatteryEnv b.checked = .ok false b.checked.checked := by
      rw [checkVbat, vbatOk_flatBatteryEnv]
    rw [xyFlashWriteNoErase, bind_ok (Exec.xyAssert_of hin _), bind_ok hv]
    rfl
  rw [programPacket, if_pos h, bind_ok herase, bind_ok hwrite]
  rfl

/-- A package of which nothing is stored passes the check. -/
theorem not_download_holds_verified :
    ¬ HoldsVerified flatBatteryEnv noImage trustingCrypto blankBoard
      [samplePackage noImage.base] := by
  intro h
  generalize hctx : ((otaUpdateInit noImage).acceptHead (samplePackage noImage.base)).stored [] =
    ctx
  have hbase : ctx.flashBase = noImage.base := hctx ▸ fotaPacketBase_completed noImage.base
  have hrecv : ctx.recvSize = headSize := by rw [← hctx]; rfl
  have hkeyed : Keyed ctx.hmacContext := hctx ▸
    Keyed.stored (show Keyed ((otaUpdateInit noImage).acceptHead _).hmacContext from
      keyed_init.input _) _
  have hcall : otaDownlinkPacketProc flatBatteryEnv (samplePackage noImage.base) sampleFota =
      .ok .xyOk ⟨blankBoard.checked.checked, ctx⟩ := by
    rw [sampleFota_accept (by decide), storePacket, programPacket_refused
      (by rw [show OtaContext.flashBase _ = _ from fotaPacketBase_completed noImage.base]; decide)
      rfl, ← hctx]
  obtain ⟨-, hread⟩ := h _ _ _ (mapM_cons_ok hcall (mapM_nil _ _)) (by simp)
    (otaDeltaCheckSync_open _ hkeyed.isOpen)
  rw [List.flatten_singleton, hbase, hrecv] at hread
  -- the magic number is not erased flash
  have hfirst : (blankFlash.read noImage.base.toNat headSize.toNat).head? =
    (samplePackage noImage.base).head? := congrArg (·.head?) hread
  exact absurd hfirst (by decide)

/-! ### The two checks -/

/-- A verdict of the streaming check is that of the flash check of the package where it is
stored. -/
def ChecksAgree (crypto : Crypto) (s : Fota) : Prop :=
  ∀ r s', otaDeltaCheckSync crypto s = .ok r s' →
    ∃ b', otaDeltaCheckByFlash crypto s.ctx.flashBase s.ctx.recvSize s.board = .ok r b'

/-- Functions for which a signature is good if the HMAC is under a key. -/
def keyedCrypto : Crypto := ⟨fun key _ => [if key = none then 0 else 1], fun _ => [1], []⟩

theorem Keyed.not_checksAgree {s : Fota} (h : Keyed s.ctx.hmacContext) :
    ¬ ChecksAgree keyedCrypto s := by
  intro ha
  obtain ⟨b', hb⟩ := ha _ _ (otaDeltaCheckSync_open _ h.isOpen)
  obtain ⟨text, head, hv⟩ := otaDeltaCheckByFlash_key hb
  simp [verdict, keyedCrypto, h.key, SHA1HashSize] at hv

/-- **The checks verify different HMACs**: after any download there are functions for which they
disagree. -/
theorem check_verdicts_differ {b : Board} {packets : List (List UInt8)} {os : List XyRet} {s : Fota}
    (h : packets.mapM (otaDownlinkPacketProc env) ⟨b, otaUpdateInit sizes⟩ = .ok os s) :
    ∃ crypto, ¬ ChecksAgree crypto s :=
  ⟨keyedCrypto, (mapM_invariant (fun s => Keyed s.ctx.hmacContext)
    (fun _ _ _ _ hk _ => hk.step) keyed_init (along_true _ _) h).not_checksAgree⟩

/-- For given functions, and a package that lies in the flash, the checks agree exactly when the
signature is good for both HMACs or for neither. -/
theorem Downloaded.checksAgree_iff {s : Fota} {package : List UInt8} (h : Downloaded s package)
    (hlo : 0x27000000 ≤ s.ctx.flashBase.toNat)
    (hhi : s.ctx.flashBase.toNat + package.length ≤ 0x27200000) (crypto : Crypto) :
    ChecksAgree crypto s ↔
      (verdict crypto (some (crypto.hmac (some HMAC_KEY) (package.drop 84))) (headOf package) =
        verdict crypto (some (crypto.hmac none (package.take 80 ++ package.drop 164)))
          (headOf package)) := by
  have hopen : s.ctx.hmacContext.Open := by rw [h.hmac]; exact ⟨rfl, rfl⟩
  have hsync := otaDeltaCheckSync_open crypto hopen
  have hflash := otaDeltaCheckByFlash_eq crypto hlo hhi h.head_le h.holds.read_eq
  have hsize : s.ctx.recvSize = UInt32.ofNat package.length := by
    rw [← h.recvSize, UInt32.ofNat_toNat]
  rw [h.hmac, ← verdict_congr (headOf_agree h.head_le h.head)] at hsync
  rw [ChecksAgree, hsync, hsize, hflash]
  constructor
  · intro ha
    obtain ⟨b', hb⟩ := ha _ _ rfl
    exact (EStateM.Result.ok.inj hb).1.symm
  · rintro heq r s' hs
    cases hs
    exact ⟨s.board, by rw [heq]⟩

/-- The sample package is stored, and there are functions for which the checks disagree. -/
theorem not_check_verdicts_agree :
    ∃ s, [samplePackage noImage.base].mapM (otaDownlinkPacketProc quietEnv) sampleFota =
      .ok [.xyOk] s ∧ ¬ ChecksAgree keyedCrypto s := by
  obtain ⟨b', h⟩ := sampleFota_ok quietEnv noImage.base (by decide) (by decide)
    room_noImage
  exact ⟨_, mapM_cons_ok h (mapM_nil _ _), (keyed_init.step h).not_checksAgree⟩

theorem check_verdicts_differ_samplePackage :
    ∃ s, [samplePackage noImage.base].mapM (otaDownlinkPacketProc quietEnv) sampleFota =
      .ok [.xyOk] s ∧ ∃ crypto, ¬ ChecksAgree crypto s := by
  obtain ⟨b', h⟩ := sampleFota_ok quietEnv noImage.base (by decide) (by decide) room_noImage
  exact ⟨_, mapM_cons_ok h (mapM_nil _ _), check_verdicts_differ (mapM_cons_ok h (mapM_nil _ _))⟩

end XY1100
