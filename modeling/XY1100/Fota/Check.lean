import XY1100.Fota.Download

/-!
# Fota — checking a package

`ota_delta_check_sync` compares the HMAC fed while the package came in with the signature in its
header; `ota_delta_check_by_flash` computes an HMAC of what the flash holds.  Both return a C
`bool` that is nonzero on failure, `XyRet.xyErr` here.

The flash check never resets its context, and leaves out other bytes of the header than the
streaming one (`otaDeltaCheckByFlash_eq`).

The hook that is handed the user's data of a package does not change what is modelled.
-/

namespace XY1100
open Support

/-- The comparison of a digest with the signature. -/
def verdict (crypto : Crypto) (digest : Option (List UInt8)) (head : Buf) : XyRet :=
  let digestDecrypt := crypto.rsaPublicDecrypt (DeltaHeadInfo.totalSha head)
  if (digest.getD crypto.stack).take SHA1HashSize = digestDecrypt.take SHA1HashSize then .xyOk
  else .xyErr

/-- `ota_delta_check_sync`. -/
def otaDeltaCheckSync (crypto : Crypto) : FotaM XyRet := do
  let ctx := (← get).ctx
  let (digest, hmacContext) := hmacResult crypto ctx.hmacContext
  modify fun s => { s with ctx.hmacContext := hmacContext }
  return verdict crypto digest ctx.headInfo

/-! ### The check of what the flash holds -/

/-- The size of the buffer of `ota_delta_check_by_flash`. -/
def readLen : Nat := 512

/-- The loop of `ota_delta_check_by_flash` and the read after it; nothing for the error return. -/
def readBlocks (pktAddr : UInt32) (size readSize : Nat) (c : HmacContext) :
    Exec (Option HmacContext) :=
  if readSize + readLen < size then do
    let buf ← xyFlashRead (pktAddr + UInt32.ofNat readSize) (fun _ => 0) 0 readLen
    if c.corrupted ∨ c.computed then return none
    readBlocks pktAddr size (readSize + readLen) (c.input (buf.read 0 readLen))
  else if size < readSize then
    -- the difference of the sizes is unsigned
    throw .heapOverflow
  else do
    let buf ← xyFlashRead (pktAddr + UInt32.ofNat readSize) (fun _ => 0) 0 (size - readSize)
    if c.corrupted ∨ c.computed then return none
    return some (c.input (buf.read 0 (size - readSize)))
termination_by size - readSize
decreasing_by
  simp only [readLen] at *
  omega

/-- `ota_delta_check_by_flash`. -/
def otaDeltaCheckByFlash (crypto : Crypto) (pktAddr size : UInt32) : Exec XyRet := do
  let headInfo ← xyFlashRead pktAddr (fun _ => 0) 0 headSize.toNat
  let hmacContext := HmacContext.zero.input
    (headInfo.read 0 (headSize.toNat - DELTA_RSA_SHA_LEN - 4))
  match ← readBlocks pktAddr size.toNat headSize.toNat hmacContext with
  | none => return .xyErr
  | some hmacContext => return verdict crypto (hmacResult crypto hmacContext).1 headInfo

/-! ### What the checks compute -/

theorem hmacResult_open {crypto : Crypto} {c : HmacContext} (h : c.Open) :
    hmacResult crypto c = (some (crypto.hmac c.key c.text), { c with computed := true }) := by
  simp [hmacResult, h.computed, h.corrupted]

/-- The streaming check of an open context. -/
theorem otaDeltaCheckSync_open (crypto : Crypto) {s : Fota} (h : s.ctx.hmacContext.Open) :
    otaDeltaCheckSync crypto s =
      .ok (verdict crypto (some (crypto.hmac s.ctx.hmacContext.key s.ctx.hmacContext.text))
        s.ctx.headInfo)
        { s with ctx.hmacContext := { s.ctx.hmacContext with computed := true } } := by
  rw [otaDeltaCheckSync, bind_ok (FotaM.get_eq s)]
  simp only [hmacResult_open h]
  rfl

/-- A read of the flash. -/
theorem xyFlashRead_eq {addr : UInt32} {size : Nat} {b : Board} (h : InFlash addr) :
    xyFlashRead addr (fun _ => 0) 0 size b =
      .ok (Buf.write (fun _ => 0) 0 (b.flash.read addr.toNat size)) b := by
  rw [xyFlashRead, bind_ok (Exec.xyAssert_of h b), bind_ok (Exec.flash_eq b)]
  rfl

/-- The bytes of the buffer after a read of the flash. -/
theorem read_xyFlashRead {f : Buf} {a n : Nat} :
    (Buf.write (fun _ => 0) 0 (f.read a n)).read 0 n = f.read a n := by
  have h := Buf.read_write (fun _ => 0) 0 (f.read a n)
  rwa [Buf.length_read] at h

/-- The loop ends with the key it started with. -/
theorem readBlocks_key {pktAddr : UInt32} {size readSize : Nat} {c : HmacContext} {b b' : Board}
    {o : Option HmacContext} (hc : c.Open) (h : readBlocks pktAddr size readSize c b = .ok o b') :
    ∃ c', o = some c' ∧ c'.key = c.key ∧ c'.Open := by
  induction hn : size - readSize using Nat.strong_induction_on generalizing readSize c b with
  | _ n ih =>
    have hopen : ¬ (c.corrupted ∨ c.computed) := by simp [hc.computed, hc.corrupted]
    have hkey : ∀ text, (c.input text).key = c.key := fun text => by
      rw [HmacContext.input_open hc]
    rw [readBlocks] at h
    split_ifs at h with hlt hsz
    · have hpos : 0 < readLen := by decide
      obtain ⟨buf, b₁, -, h⟩ := bind_eq_ok h
      obtain ⟨c', rfl, hk, ho⟩ := ih (size - (readSize + readLen)) (by omega) (hc.input _) h rfl
      exact ⟨c', rfl, hk.trans (hkey _), ho⟩
    · cases h
    · obtain ⟨buf, b₁, -, h⟩ := bind_eq_ok h
      cases h
      exact ⟨_, rfl, hkey _, hc.input _⟩

/-- A check of the flash that returned has verified an HMAC under no key. -/
theorem otaDeltaCheckByFlash_key {crypto : Crypto} {pktAddr size : UInt32} {r : XyRet}
    {b b' : Board} (h : otaDeltaCheckByFlash crypto pktAddr size b = .ok r b') :
    ∃ text head, r = verdict crypto (some (crypto.hmac none text)) head := by
  rw [otaDeltaCheckByFlash] at h
  obtain ⟨head, b₁, -, h⟩ := bind_eq_ok h
  obtain ⟨o, b₂, h₂, h⟩ := bind_eq_ok h
  obtain ⟨c', rfl, hk, ho⟩ := readBlocks_key (HmacContext.open_zero.input _) h₂
  rw [HmacContext.input_open HmacContext.open_zero] at hk
  cases h
  exact ⟨c'.text, head, by rw [hmacResult_open ho, hk]; rfl⟩

section Flash
variable {pktAddr : UInt32} {size : Nat} {b : Board} (hlo : 0x27000000 ≤ pktAddr.toNat)
  (hhi : pktAddr.toNat + size ≤ 0x27200000)

include hlo hhi

/-- An address within a package that lies in the flash. -/
theorem inFlash_add {n : Nat} (hn : n ≤ size) :
    (pktAddr + UInt32.ofNat n).toNat = pktAddr.toNat + n ∧ InFlash (pktAddr + UInt32.ofNat n) := by
  have h : (pktAddr + UInt32.ofNat n).toNat = pktAddr.toNat + n := by
    rw [UInt32.toNat_add, UInt32.toNat_ofNat']
    omega
  refine ⟨h, UInt32.le_iff_toNat_le.mpr ?_, UInt32.le_iff_toNat_le.mpr ?_⟩ <;> rw [h]
  · exact le_trans (by decide : FLASH_BASE.toNat ≤ 0x27000000) (by omega)
  · exact le_trans (by omega) (by decide : 0x27200000 ≤ (FLASH_BASE + FLASH_LENGTH).toNat)

/-- Reading a package in blocks feeds what the flash holds of it. -/
theorem readBlocks_eq {readSize : Nat} {c : HmacContext} (hc : c.Open) (hle : readSize ≤ size) :
    readBlocks pktAddr size readSize c b =
      .ok (some (c.input (b.flash.read (pktAddr.toNat + readSize) (size - readSize)))) b := by
  induction hn : size - readSize using Nat.strong_induction_on generalizing readSize c with
  | _ n ih =>
    have hopen : ¬ (c.corrupted ∨ c.computed) := by simp [hc.computed, hc.corrupted]
    obtain ⟨haddr, hin⟩ := inFlash_add hlo hhi hle
    rw [readBlocks]
    by_cases hlt : readSize + readLen < size
    · have hpos : 0 < readLen := by decide
      have hsplit : size - readSize = readLen + (size - (readSize + readLen)) := by omega
      rw [if_pos hlt, bind_ok (xyFlashRead_eq hin), if_neg hopen]
      refine (ih (size - (readSize + readLen)) (by omega) (hc.input _) (by omega) rfl).trans ?_
      rw [read_xyFlashRead, haddr, HmacContext.input_input hc, ← hn, hsplit, Buf.read_add,
        Nat.add_assoc]
    · rw [if_neg hlt, if_neg (Nat.not_lt.mpr hle), bind_ok (xyFlashRead_eq hin), if_neg hopen,
        read_xyFlashRead, haddr, hn]
      rfl

end Flash

/-- The verdict reads the signature in the header, and no byte after the header. -/
theorem verdict_congr {crypto : Crypto} {digest : Option (List UInt8)} {head head' : Buf}
    (h : head.Agree head' 0 164) : verdict crypto digest head = verdict crypto digest head' := by
  have hs : DeltaHeadInfo.totalSha head = DeltaHeadInfo.totalSha head' :=
    h.read (Nat.zero_le _) (by simp only [totalShaOffset, DELTA_RSA_SHA_LEN]; omega)
  rw [verdict, verdict, hs]

/-- **What the flash check verifies**: the HMAC, under no key, of the package without the last 84
bytes of its header. -/
theorem otaDeltaCheckByFlash_eq (crypto : Crypto) {pktAddr : UInt32} {package : List UInt8}
    {b : Board} (hlo : 0x27000000 ≤ pktAddr.toNat)
    (hhi : pktAddr.toNat + package.length ≤ 0x27200000) (h164 : 164 ≤ package.length)
    (h : b.flash.read pktAddr.toNat package.length = package) :
    otaDeltaCheckByFlash crypto pktAddr (UInt32.ofNat package.length) b =
      .ok (verdict crypto (some (crypto.hmac none (package.take 80 ++ package.drop 164)))
        (headOf package)) b := by
  have hlen : (UInt32.ofNat package.length).toNat = package.length := by
    rw [UInt32.toNat_ofNat']
    omega
  have hhead : b.flash.read pktAddr.toNat 164 = package.take 164 := by
    conv_rhs => rw [← h]
    rw [Buf.take_read h164]
  have hbody : b.flash.read (pktAddr.toNat + 164) (package.length - 164) = package.drop 164 := by
    conv_rhs => rw [← h]
    rw [Buf.drop_read h164]
  have hin : InFlash pktAddr := by simpa using (inFlash_add hlo hhi (Nat.zero_le _)).2
  have htake : (package.take 164).length = 164 := by rw [List.length_take]; omega
  have hfeed : (Buf.write (fun _ => 0) 0 (package.take 164)).read 0
      (164 - DELTA_RSA_SHA_LEN - 4) = package.take 80 := by
    have h' : (Buf.write (fun _ => 0) 0 (package.take 164)).read (0 + 0) 80 = _ :=
      Buf.read_write_within (by omega)
    rw [List.drop_zero, List.take_take] at h'
    exact h'
  have hagree : (headOf package).Agree (Buf.write (fun _ => 0) 0 (package.take 164)) 0 164 :=
    headOf_agree h164 (by
      have h' := Buf.read_write (fun _ => 0) 0 (package.take 164)
      rwa [htake] at h')
  rw [otaDeltaCheckByFlash, bind_ok (xyFlashRead_eq hin), hlen, toNat_headSize,
    bind_ok (readBlocks_eq hlo hhi (HmacContext.open_zero.input _) h164), hhead, hbody, hfeed,
    HmacContext.input_input HmacContext.open_zero, HmacContext.input_open HmacContext.open_zero]
  exact congrArg (EStateM.Result.ok · b) (verdict_congr fun i h₁ h₂ => (hagree i h₁ h₂).symm)

end XY1100
