import XY1100.Fota.Context

/-!
# Fota — `ota_downlink_packet_proc`

A packet is refused when it would make the package larger than the region, put into the header
while that is incomplete, and otherwise stored: a packet that completes the header has its checks
made first, and one that finds exactly the header received erases the region and programs the
header again.

The results of the flash functions are not looked at.  All sizes are 32-bit.

`otaDownlinkPacketProc_cases` says what a call does, by cases on the context; the results about
downloads start from there.
-/

namespace XY1100
open Support

variable (env : Env)

/-! ### The function -/

/-- `BUF_LEN`. -/
def bufLen : Nat := 1024

/-- The loop that feeds a packet to the HMAC in blocks. -/
def hmacInputBlocks (c : HmacContext) (input : List UInt8) : HmacContext :=
  if bufLen ≤ input.length then
    hmacInputBlocks (c.input (input.take bufLen)) (input.drop bufLen)
  else if 0 < input.length then c.input input
  else c
termination_by input.length
decreasing_by
  simp only [bufLen, List.length_drop] at *
  omega

/-- `memcpy` into the header. -/
def copyHead (pos : UInt32) (bytes : List UInt8) : FotaM Unit := do
  if headSize.toNat < pos.toNat + bytes.length then throw .heapOverflow
  modify fun s => { s with ctx.headInfo := s.ctx.headInfo.write pos.toNat bytes }

/-- The part of a packet that completes the header, and the checks of the header; what is left of
the packet, or nothing when a check fails. -/
def takeHead (input : List UInt8) : FotaM (Option (List UInt8)) := do
  let ctx := (← get).ctx
  if ctx.recvSize < headSize then
    copyHead ctx.recvSize (input.take ctx.rest)
    modify fun s => { s with ctx.recvSize := headSize }
    let s ← get
    if DeltaHeadInfo.magicNum s.ctx.headInfo ≠ MAGIC_NUM then return none
    if otaVersionCheck s.board.flash s.ctx.headInfo ≠ .xyOk then return none
    if DeltaHeadInfo.fotaPacketBase s.ctx.headInfo < s.ctx.flashBase then return none
    modify fun s => { s with
      ctx.flashBase := DeltaHeadInfo.fotaPacketBase s.ctx.headInfo
      ctx.hmacContext := s.ctx.hmacContext.input
        (s.ctx.headInfo.read versionOffset (headSize.toNat - 84)) }
    return some (input.drop ctx.rest)
  else return some input

/-- The flash operations of a packet. -/
def programPacket (ctx : OtaContext) (input : List UInt8) : Exec Unit := do
  if ctx.recvSize = headSize then
    let _ ← xyFlashErase env ctx.flashBase ctx.flashMaxlen
    let _ ← xyFlashWriteNoErase env ctx.flashBase (ctx.headInfo.read 0 headSize.toNat)
    if 0 < input.length then
      let _ ← xyFlashWriteNoErase env (ctx.flashBase + headSize) input
  else
    let _ ← xyFlashWriteNoErase env (ctx.flashBase + ctx.recvSize) input

/-- `ota_downlink_packet_proc`. -/
def otaDownlinkPacketProc (data : List UInt8) : FotaM XyRet := do
  let inputLen := UInt32.ofNat data.length
  let ctx := (← get).ctx
  if ctx.recvSize + inputLen > ctx.flashMaxlen then return .xyErr
  if ctx.recvSize + inputLen < headSize then
    copyHead ctx.recvSize data
    modify fun s => { s with ctx.recvSize := s.ctx.recvSize + inputLen }
    return .xyOk
  match ← takeHead data with
  | none => return .xyErr
  | some input =>
    FotaM.onBoard (programPacket env (← get).ctx input)
    modify fun s => { s with
      ctx.recvSize := s.ctx.recvSize + UInt32.ofNat input.length
      ctx.hmacContext := hmacInputBlocks s.ctx.hmacContext input }
    return .xyOk

/-! ### What a call does -/

/-- Feeding a packet in blocks feeds it. -/
theorem hmacInputBlocks_eq : ∀ {c : HmacContext} (input : List UInt8), c.Open →
    hmacInputBlocks c input = { c with text := c.text ++ input } := by
  intro c input h
  induction hn : input.length using Nat.strong_induction_on generalizing c input with
  | _ n ih =>
    rw [hmacInputBlocks]
    by_cases hb : bufLen ≤ input.length
    · have hlt : (input.drop bufLen).length < n := by
        simp only [bufLen, List.length_drop] at *
        omega
      rw [if_pos hb, ih _ hlt _ (h.input _) rfl, HmacContext.input_open h]
      simp only [List.append_assoc, List.take_append_drop]
    · rw [if_neg hb]
      by_cases h0 : 0 < input.length
      · rw [if_pos h0, HmacContext.input_open h]
      · rw [if_neg h0, List.length_eq_zero_iff.mp (show input.length = 0 by omega), List.append_nil]

namespace OtaContext
variable (ctx : OtaContext)

/-- `recv_size + input_len`. -/
def sum (data : List UInt8) : UInt32 := ctx.recvSize + UInt32.ofNat data.length

/-- The header a packet completes. -/
def completed (data : List UInt8) : Buf :=
  ctx.headInfo.write ctx.recvSize.toNat (data.take ctx.rest)

/-- After a packet that stays within the header. -/
def collect (data : List UInt8) : OtaContext :=
  { ctx with headInfo := ctx.headInfo.write ctx.recvSize.toNat data, recvSize := ctx.sum data }

/-- After a header that failed a check. -/
def rejectHead (data : List UInt8) : OtaContext :=
  { ctx with headInfo := ctx.completed data, recvSize := headSize }

/-- After a header that passed the checks. -/
def acceptHead (data : List UInt8) : OtaContext :=
  { ctx with
    headInfo := ctx.completed data
    recvSize := headSize
    flashBase := DeltaHeadInfo.fotaPacketBase (ctx.completed data)
    hmacContext := ctx.hmacContext.input
      ((ctx.completed data).read versionOffset (headSize.toNat - 84)) }

/-- After a packet that has been stored. -/
def stored (input : List UInt8) : OtaContext :=
  { ctx with
    recvSize := ctx.recvSize + UInt32.ofNat input.length
    hmacContext := hmacInputBlocks ctx.hmacContext input }

end OtaContext

/-- How a call ends that stores `input` from the context `ctx`. -/
def storePacket (b : Board) (ctx : OtaContext) (input : List UInt8) :
    EStateM.Result Fault Fota XyRet :=
  match programPacket env ctx input b with
  | .ok _ b' => .ok .xyOk ⟨b', ctx.stored input⟩
  | .error e b' => .error e ⟨b', ctx⟩

variable {env}

theorem copyHead_ok {pos : UInt32} {bytes : List UInt8} (h : pos.toNat + bytes.length ≤ 164)
    (s : Fota) :
    copyHead pos bytes s =
      .ok () { s with ctx.headInfo := s.ctx.headInfo.write pos.toNat bytes } := by
  rw [copyHead, if_neg (by rw [toNat_headSize]; omega)]
  rfl

theorem copyHead_overflow {pos : UInt32} {bytes : List UInt8} (h : 164 < pos.toNat + bytes.length)
    (s : Fota) : copyHead pos bytes s = .error .heapOverflow s := by
  rw [copyHead, if_pos (by rw [toNat_headSize]; omega)]
  rfl

theorem lt_headSize {x : UInt32} : x < headSize ↔ x.toNat < 164 := UInt32.lt_iff_toNat_lt

theorem toNat_rest {ctx : OtaContext} (h : ctx.recvSize.toNat < 164) :
    ctx.rest = 164 - ctx.recvSize.toNat := by
  rw [OtaContext.rest, UInt32.toNat_sub_of_le _ _ (UInt32.le_of_lt (lt_headSize.mpr h)),
    toNat_headSize]

/-- The sum of the sizes, unless it wraps. -/
theorem toNat_sum {ctx : OtaContext} {data : List UInt8}
    (h : ctx.recvSize.toNat + data.length < 2 ^ 32) :
    (ctx.sum data).toNat = ctx.recvSize.toNat + data.length := by
  rw [OtaContext.sum, UInt32.toNat_add, UInt32.toNat_ofNat']
  omega

/-- The header is taken from the packet, and checked. -/
theorem takeHead_eq {s : Fota} (data : List UInt8) (h : s.ctx.recvSize.toNat < 164) :
    (HeadOk s.board.flash s.ctx.flashBase (s.ctx.completed data) ∧
      takeHead data s =
        .ok (some (data.drop s.ctx.rest)) { s with ctx := s.ctx.acceptHead data }) ∨
    (¬ HeadOk s.board.flash s.ctx.flashBase (s.ctx.completed data) ∧
      takeHead data s = .ok none { s with ctx := s.ctx.rejectHead data }) := by
  have hlen : s.ctx.recvSize.toNat + (data.take s.ctx.rest).length ≤ 164 := by
    rw [List.length_take, toNat_rest h]
    omega
  rw [takeHead, bind_ok (FotaM.get_eq s)]
  simp only [if_pos (lt_headSize.mpr h)]
  rw [bind_ok (copyHead_ok hlen s), bind_ok (FotaM.modify_eq ..), bind_ok (FotaM.get_eq _)]
  simp only [OtaContext.rejectHead, OtaContext.acceptHead, OtaContext.completed]
  generalize s.ctx.headInfo.write s.ctx.recvSize.toNat (data.take s.ctx.rest) = head
  by_cases hm : DeltaHeadInfo.magicNum head = MAGIC_NUM
  case neg =>
    rw [if_pos hm]
    exact .inr ⟨fun hk => hm hk.magic, rfl⟩
  rw [if_neg (not_not.mpr hm)]
  by_cases hv : otaVersionCheck s.board.flash head = .xyOk
  case neg =>
    rw [if_pos hv]
    exact .inr ⟨fun hk => hv hk.version, rfl⟩
  rw [if_neg (not_not.mpr hv)]
  by_cases hb : DeltaHeadInfo.fotaPacketBase head < s.ctx.flashBase
  · rw [if_pos hb]
    exact .inr ⟨fun hk => UInt32.not_lt.mpr hk.base hb, rfl⟩
  · rw [if_neg hb]
    exact .inl ⟨⟨hm, hv, UInt32.not_lt.mp hb⟩, rfl⟩

/-- **What a call does.**  The packet is too large; it stays within the header, or overflows it
when the sum of the sizes has wrapped; it completes a header that is accepted or rejected; or it
comes after the header. -/
theorem otaDownlinkPacketProc_cases (env : Env) (s : Fota) (data : List UInt8) :
    let res := otaDownlinkPacketProc env data s
    (s.ctx.flashMaxlen < s.ctx.sum data ∧ res = .ok .xyErr s) ∨
    (s.ctx.sum data ≤ s.ctx.flashMaxlen ∧
      (((s.ctx.sum data).toNat < 164 ∧
        ((s.ctx.recvSize.toNat + data.length ≤ 164 ∧
            res = .ok .xyOk { s with ctx := s.ctx.collect data }) ∨
          (164 < s.ctx.recvSize.toNat + data.length ∧ res = .error .heapOverflow s))) ∨
      (164 ≤ (s.ctx.sum data).toNat ∧
        ((s.ctx.recvSize.toNat < 164 ∧
            ((HeadOk s.board.flash s.ctx.flashBase (s.ctx.completed data) ∧
                res = storePacket env s.board (s.ctx.acceptHead data) (data.drop s.ctx.rest)) ∨
              (¬ HeadOk s.board.flash s.ctx.flashBase (s.ctx.completed data) ∧
                res = .ok .xyErr { s with ctx := s.ctx.rejectHead data }))) ∨
          (164 ≤ s.ctx.recvSize.toNat ∧ res = storePacket env s.board s.ctx data))))) := by
  intro res
  have hres : res = otaDownlinkPacketProc env data s := rfl
  have hsum : s.ctx.recvSize + UInt32.ofNat data.length = s.ctx.sum data := rfl
  rw [otaDownlinkPacketProc, bind_ok (FotaM.get_eq s)] at hres
  simp only [hsum, gt_iff_lt] at hres
  by_cases hbig : s.ctx.flashMaxlen < s.ctx.sum data
  · rw [if_pos hbig] at hres
    exact .inl ⟨hbig, hres⟩
  rw [if_neg hbig] at hres
  refine .inr ⟨UInt32.not_lt.mp hbig, ?_⟩
  by_cases hhead : (s.ctx.sum data).toNat < 164
  · rw [if_pos (lt_headSize.mpr hhead)] at hres
    refine .inl ⟨hhead, ?_⟩
    rcases Nat.lt_or_ge 164 (s.ctx.recvSize.toNat + data.length) with h | h
    · rw [bind_error (copyHead_overflow h s)] at hres
      exact .inr ⟨h, hres⟩
    · rw [bind_ok (copyHead_ok h s)] at hres
      exact .inl ⟨h, hres⟩
  rw [if_neg (fun h => hhead (lt_headSize.mp h))] at hres
  refine .inr ⟨Nat.not_lt.mp hhead, ?_⟩
  have hstore : ∀ (t : Fota) (input : List UInt8), takeHead data s = .ok (some input) t →
      res = storePacket env t.board t.ctx input := by
    intro t input ht
    rw [bind_ok ht] at hres
    rw [hres]
    dsimp only
    rw [bind_ok (FotaM.get_eq t), storePacket]
    rcases hp : programPacket env t.ctx input t.board with ⟨_, b'⟩ | ⟨e, b'⟩
    · rw [bind_ok (FotaM.onBoard_ok hp)]
      rfl
    · rw [bind_error (FotaM.onBoard_error hp)]
  rcases Nat.lt_or_ge s.ctx.recvSize.toNat 164 with h | h
  · refine .inl ⟨h, ?_⟩
    rcases takeHead_eq data h with ⟨hk, ht⟩ | ⟨hk, ht⟩
    · exact .inl ⟨hk, hstore _ _ ht⟩
    · rw [bind_ok ht] at hres
      exact .inr ⟨hk, hres⟩
  · refine .inr ⟨h, hstore s data ?_⟩
    rw [takeHead, bind_ok (FotaM.get_eq s), if_neg (fun h' => by
      have := lt_headSize.mp h'; omega)]
    rfl

/-! ### Calls of each kind -/

section Kinds
variable {s : Fota} {data : List UInt8} (hw : s.ctx.recvSize.toNat + data.length < 2 ^ 32)
  (hfit : s.ctx.recvSize.toNat + data.length ≤ s.ctx.flashMaxlen.toNat)

include hw hfit

/-- A packet that fits is not refused for its size. -/
theorem not_large : ¬ s.ctx.flashMaxlen < s.ctx.sum data := by
  rw [UInt32.lt_iff_toNat_lt, toNat_sum hw]
  omega

theorem otaDownlinkPacketProc_collect (h : s.ctx.recvSize.toNat + data.length < 164) :
    otaDownlinkPacketProc env data s = .ok .xyOk { s with ctx := s.ctx.collect data } := by
  have hsum := toNat_sum hw
  rcases otaDownlinkPacketProc_cases env s data with ⟨hl, -⟩ | ⟨-, ⟨-, ⟨-, hres⟩ | ⟨hov, -⟩⟩ |
    ⟨h164, -⟩⟩
  · exact absurd hl (not_large hw hfit)
  · exact hres
  · omega
  · omega

theorem otaDownlinkPacketProc_accept (hlt : s.ctx.recvSize.toNat < 164)
    (h : 164 ≤ s.ctx.recvSize.toNat + data.length)
    (hok : HeadOk s.board.flash s.ctx.flashBase (s.ctx.completed data)) :
    otaDownlinkPacketProc env data s =
      storePacket env s.board (s.ctx.acceptHead data) (data.drop s.ctx.rest) := by
  have hsum := toNat_sum hw
  rcases otaDownlinkPacketProc_cases env s data with ⟨hl, -⟩ | ⟨-, ⟨hs, -⟩ |
    ⟨-, ⟨-, ⟨-, hres⟩ | ⟨hno, -⟩⟩ | ⟨hge, -⟩⟩⟩
  · exact absurd hl (not_large hw hfit)
  · omega
  · exact hres
  · exact absurd hok hno
  · omega

theorem otaDownlinkPacketProc_reject (hlt : s.ctx.recvSize.toNat < 164)
    (h : 164 ≤ s.ctx.recvSize.toNat + data.length)
    (hno : ¬ HeadOk s.board.flash s.ctx.flashBase (s.ctx.completed data)) :
    otaDownlinkPacketProc env data s = .ok .xyErr { s with ctx := s.ctx.rejectHead data } := by
  have hsum := toNat_sum hw
  rcases otaDownlinkPacketProc_cases env s data with ⟨hl, -⟩ | ⟨-, ⟨hs, -⟩ |
    ⟨-, ⟨-, ⟨hok, -⟩ | ⟨-, hres⟩⟩ | ⟨hge, -⟩⟩⟩
  · exact absurd hl (not_large hw hfit)
  · omega
  · exact absurd hok hno
  · exact hres
  · omega

theorem otaDownlinkPacketProc_after (hge : 164 ≤ s.ctx.recvSize.toNat) :
    otaDownlinkPacketProc env data s = storePacket env s.board s.ctx data := by
  have hsum := toNat_sum hw
  rcases otaDownlinkPacketProc_cases env s data with ⟨hl, -⟩ | ⟨-, ⟨hs, -⟩ |
    ⟨-, ⟨hlt, -⟩ | ⟨-, hres⟩⟩⟩
  · exact absurd hl (not_large hw hfit)
  · omega
  · omega
  · exact hres

end Kinds

/-! ### The header that is collected -/

/-- The context has received `bytes` and they do not complete the header. -/
structure Collected (ctx : OtaContext) (bytes : List UInt8) : Prop where
  recvSize : ctx.recvSize.toNat = bytes.length
  lt : bytes.length < 164
  head : ctx.headInfo.read 0 bytes.length = bytes

theorem collected_init (sizes : ImageSizes) : Collected (otaUpdateInit sizes) [] :=
  ⟨rfl, by decide, rfl⟩

theorem Collected.read_write {ctx : OtaContext} {bytes : List UInt8} (h : Collected ctx bytes)
    (data : List UInt8) :
    (ctx.headInfo.write ctx.recvSize.toNat data).read 0 (bytes.length + data.length) =
      bytes ++ data := by
  rw [Buf.read_add, h.recvSize, Nat.zero_add, Buf.read_write]
  congr 1
  conv_rhs => rw [← h.head]
  exact Buf.read_congr fun i hi => Buf.write_outside (.inl (by omega))

theorem Collected.collect {ctx : OtaContext} {bytes data : List UInt8} (h : Collected ctx bytes)
    (hlt : bytes.length + data.length < 164) : Collected (ctx.collect data) (bytes ++ data) where
  recvSize := by
    have hr := h.recvSize
    rw [List.length_append, ← hr]
    exact toNat_sum (by omega)
  lt := by rwa [List.length_append]
  head := by
    rw [List.length_append]
    exact h.read_write data

/-- The header a packet completes is the start of all that was received. -/
theorem Collected.read_completed {ctx : OtaContext} {bytes : List UInt8}
    (h : Collected ctx bytes) (data : List UInt8) (h164 : 164 ≤ bytes.length + data.length) :
    (ctx.completed data).read 0 164 = (bytes ++ data).take 164 := by
  have hr := h.recvSize
  have hlt := h.lt
  have hrest : ctx.rest = 164 - bytes.length := by rw [toNat_rest (by omega), hr]
  have hlen : (data.take ctx.rest).length = 164 - bytes.length := by
    rw [List.length_take]; omega
  have h' := h.read_write (data.take ctx.rest)
  rw [hlen, show bytes.length + (164 - bytes.length) = 164 by omega] at h'
  rw [OtaContext.completed, h', hrest, List.take_append,
    List.take_of_length_le (l := bytes) (by omega)]

/-- A header that reads as the start of a package is the package's. -/
theorem headOf_agree {package : List UInt8} {head : Buf} (h164 : 164 ≤ package.length)
    (h : head.read 0 164 = package.take 164) : (headOf package).Agree head 0 164 := by
  intro i _ hi
  have h₁ := Buf.getElem?_read (m := head) (a := 0) (show i < 164 by omega)
  rw [h, List.getElem?_take_of_lt (by omega), List.getElem?_eq_getElem (by omega)] at h₁
  have h₂ : Buf.write (fun _ => 0) 0 package (0 + i) = package[i] := Buf.write_inside (by omega)
  rw [Nat.zero_add] at h₁ h₂
  rw [headOf, h₂]
  exact Option.some.inj h₁

theorem completed_init (sizes : ImageSizes) (package : List UInt8) (h : 164 ≤ package.length) :
    (headOf package).Agree ((otaUpdateInit sizes).completed package) 0 164 :=
  headOf_agree h (by simpa using (collected_init sizes).read_completed package (by simpa))

end XY1100
