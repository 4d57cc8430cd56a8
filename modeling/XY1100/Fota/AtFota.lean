import XY1100.Coap.Segment
import XY1100.Fota.Check
import XY1100.Utils.Checksum

/-!
# Fota — the commands of `AT+NFWUPD`

`at_fota.c`: an external processor downloads a package over the AT interface.  Command 0 starts the
download anew, command 1 brings a numbered block of at most 512 bytes as hexadecimal text with its
checksum, command 2 has the package checked, and command 5 starts the update, which resets the
board.

The AT parser is not in the sources: a request holds what it makes of the text (`AtReq`).  The
messages sent besides the answer are left out.
-/

namespace XY1100
open Support

/-! ### The session -/

/-- `at_fota_cmd_e`. -/
inductive AtFotaCmd
  | atFotaIdle
  | atFotaDowning
  | atFotaDowned
  | atFotaUpdate
  deriving DecidableEq, Repr

/-- The statics of `at_fota.c`, and the board. -/
structure AtFota where
  fotaStatus : AtFotaCmd
  blockNum : Int
  otaContext : Option OtaContext
  board : Board

/-- After a reset. -/
def AtFota.init (board : Board) : AtFota := ⟨.atFotaIdle, 0, none, board⟩

/-- Why the machine stopped. -/
inductive AtFotaStop
  | fault (e : Fault)
  | nullPointer
  | softReset
  deriving DecidableEq, Repr

/-- A computation on a session. -/
abbrev AtFotaM := EStateM AtFotaStop AtFota

namespace AtFotaM

def onBoard {α : Type} (x : Exec α) : AtFotaM α := fun s =>
  match x s.board with
  | .ok a b => .ok a { s with board := b }
  | .error e b => .error (.fault e) { s with board := b }

/-- A function of `xy_fota.c`, which dereferences `ota_context` first. -/
def onContext {α : Type} (x : FotaM α) : AtFotaM α := fun s =>
  match s.otaContext with
  | none => .error .nullPointer s
  | some ctx =>
    match x ⟨s.board, ctx⟩ with
    | .ok a t => .ok a { s with otaContext := some t.ctx, board := t.board }
    | .error e t => .error (.fault e) { s with otaContext := some t.ctx, board := t.board }

end AtFotaM

/-! ### The requests -/

/-- The parameters of command 1, as typed. -/
structure AtBlock where
  sn : Int
  len : Int
  srcData : List UInt8
  crcData : List UInt8

/-- `g_req_type`. -/
inductive AtReqType
  | cmdReq
  | cmdQuery
  | other
  deriving DecidableEq

/-- A request: its type, the number of the command and the parameters of command 1, where they
parse. -/
structure AtReq where
  type : AtReqType
  cmd : Option Int
  block : Option AtBlock

/-- What is answered: nothing, for which the framework sends `OK`, an error, or a text. -/
inductive AtRsp
  | ok
  | paramInvalid
  | text (s : String)
  deriving DecidableEq

/-! ### The functions -/

/-- `chk_sum`: the bytes of a word, combined at the end.  Its last loop starts with no length
left. -/
def chkSum (data : List UInt8) : UInt8 :=
  let val := data.foldl (fun val b => val ^^^ b.toUInt32) (0 : UInt32)
  val.toUInt8 ^^^ (val >>> 8).toUInt8 ^^^ (val >>> 16).toUInt8 ^^^ (val >>> 24).toUInt8

/-- The tests `at_fota_downing` makes of a block: its bytes, or nothing for `ERR_PROC`.  The
buffer of the checksum's text is filled with zeros. -/
def checkBlock (blockNum : Int) (p : AtBlock) : Option (List UInt8) :=
  if p.sn ≠ blockNum then none
  else if p.len > 512 ∨ p.len ≤ 0 ∨ (p.srcData.length : Int) ≠ p.len * 2 then none
  else do
    let saveData ← Coap.hexstr2bytes p.srcData
    let crcSum ← Coap.hexstr2bytes ((p.crcData ++ [0, 0]).take 2)
    if [chkSum saveData] ≠ crcSum then none else some saveData

/-- `at_fota_Flash_Erase`, where the allocations succeed. -/
def atFotaFlashErase (sizes : ImageSizes) : AtFotaM Int := do
  modify fun s => { s with
    otaContext := some (otaUpdateInit sizes)
    blockNum := 0
    fotaStatus := .atFotaDowning }
  return 0

/-- `at_fota_downing`. -/
def atFotaDowning (env : Env) (block : Option AtBlock) : AtFotaM Int := do
  let s ← get
  if s.fotaStatus ≠ .atFotaDowning then return -1
  match block with
  | none => return -1
  | some p =>
    -- the buffer of the checksum's text has three bytes
    if 2 < p.crcData.length then throw (.fault .heapOverflow)
    match checkBlock s.blockNum p with
    | none => return -1
    | some saveData =>
      if (← AtFotaM.onContext (otaDownlinkPacketProc env saveData)) ≠ .xyOk then return -1
      modify fun s => { s with blockNum := s.blockNum + 1 }
      return 0

/-- `at_fota_check`. -/
def atFotaCheck (crypto : Crypto) : AtFotaM Int := do
  let s ← get
  if s.fotaStatus ≠ .atFotaDowning ∨ s.blockNum = 0 then return -1
  if (← AtFotaM.onContext (otaDeltaCheckSync crypto)) ≠ .xyOk then return -1
  modify fun s => { s with fotaStatus := .atFotaDowned }
  return 0

/-- `FOTA_UPGRADE_NEEDED`. -/
def FOTA_UPGRADE_NEEDED : UInt32 := 1

/-- `sizeof(Flash_Secondary_Boot_Fota_Def)`. -/
def fotaDefSize : Nat := 52

/-- What `ota_update_start` makes of the stored `Flash_Secondary_Boot_Fota_Def`. -/
def fotaDef (flash : Buf) (flashBase : UInt32) : Buf :=
  let stored := Buf.write (fun _ => 0) 0 (flash.read FOTA_UPDATE_INFO_ADDR.toNat fotaDefSize)
  let fotaDef := (stored.putWord 0 FOTA_UPGRADE_NEEDED).putWord 4 flashBase
  let headerCrc := xyChksum fotaDef 0 (fotaDefSize - 4)
  fotaDef.putWord 48 headerCrc.toUInt16.toUInt32

/-- `ota_update_start`. -/
def otaUpdateStart (env : Env) : AtFotaM Unit := do
  let s ← get
  match s.otaContext with
  | none => throw .nullPointer
  | some ctx =>
    let _ ← AtFotaM.onBoard (xyFlashWrite env FOTA_UPDATE_INFO_ADDR
      ((fotaDef s.board.flash ctx.flashBase).read 0 fotaDefSize))
    throw .softReset

/-- `at_fota_update`. -/
def atFotaUpdate (env : Env) : AtFotaM Int := do
  if (← get).fotaStatus ≠ .atFotaDowned then return -1
  modify fun s => { s with fotaStatus := .atFotaUpdate }
  otaUpdateStart env
  return 0

/-- The answer to a sub-command that returned `ret`. -/
def rspOf (ret : Int) : AtRsp := if ret ≠ 0 then .paramInvalid else .ok

/-- `at_NFWUPD_req`. -/
def atNFWUPDReq (env : Env) (sizes : ImageSizes) (crypto : Crypto) (r : AtReq) : AtFotaM AtRsp :=
  match r.type with
  | .cmdReq =>
    match r.cmd with
    | none => return .paramInvalid
    | some cmd =>
      if cmd = 0 then return rspOf (← atFotaFlashErase sizes)
      else if cmd = 1 then return rspOf (← atFotaDowning env r.block)
      else if cmd = 2 then return rspOf (← atFotaCheck crypto)
      else if cmd = 5 then return rspOf (← atFotaUpdate env)
      else return .paramInvalid
  | .cmdQuery => return .text "\r\n+NFWUPD:(0,1,2,5)\r\n\r\nOK\r\n"
  | .other => return .paramInvalid

/-! ### What a request does -/

/-- The request is the command of this number. -/
def AtReq.Is (r : AtReq) (n : Int) : Prop := r.type = .cmdReq ∧ r.cmd = some n

instance (r : AtReq) (n : Int) : Decidable (r.Is n) := inferInstanceAs (Decidable (_ ∧ _))

namespace AtFota

/-- A block that is handed to `ota_downlink_packet_proc`, with these bytes. -/
structure TakesBlock (s : AtFota) (r : AtReq) (bytes : List UInt8) : Prop where
  cmd : r.Is 1
  status : s.fotaStatus = .atFotaDowning
  block : ∃ p, r.block = some p ∧ p.crcData.length ≤ 2 ∧ checkBlock s.blockNum p = some bytes

/-- A check that comes to `ota_delta_check_sync`. -/
structure TakesCheck (s : AtFota) (r : AtReq) : Prop where
  cmd : r.Is 2
  status : s.fotaStatus = .atFotaDowning
  blockNum : s.blockNum ≠ 0

/-- An update that comes to `ota_update_start`. -/
structure TakesUpdate (s : AtFota) (r : AtReq) : Prop where
  cmd : r.Is 5
  status : s.fotaStatus = .atFotaDowned

/-- How a sub-command is answered, by what the function of `xy_fota.c` makes of it; `f` is what
follows its `XY_OK`. -/
def answer (s : AtFota) (f : AtFota → AtFota) :
    EStateM.Result Fault Fota XyRet → EStateM.Result AtFotaStop AtFota AtRsp
  | .ok ret t =>
    if ret = .xyOk then .ok .ok (f { s with otaContext := some t.ctx, board := t.board })
    else .ok .paramInvalid { s with otaContext := some t.ctx, board := t.board }
  | .error e t => .error (.fault e) { s with otaContext := some t.ctx, board := t.board }

/-- How a block is answered, by what `ota_downlink_packet_proc` makes of it. -/
def answerBlock (s : AtFota) :
    EStateM.Result Fault Fota XyRet → EStateM.Result AtFotaStop AtFota AtRsp :=
  s.answer fun s => { s with blockNum := s.blockNum + 1 }

/-- How a check is answered, by what `ota_delta_check_sync` makes of it. -/
def answerCheck (s : AtFota) :
    EStateM.Result Fault Fota XyRet → EStateM.Result AtFotaStop AtFota AtRsp :=
  s.answer fun s => { s with fotaStatus := .atFotaDowned }

end AtFota

/-- A block that passes the tests. -/
theorem checkBlock_some {blockNum : Int} {p : AtBlock} {bytes : List UInt8}
    (h : checkBlock blockNum p = some bytes) :
    p.sn = blockNum ∧ Coap.hexstr2bytes p.srcData = some bytes ∧ bytes.length ≤ 512 := by
  rw [checkBlock] at h
  split_ifs at h with hsn hlen
  simp only [bind, Option.bind_eq_some_iff] at h
  obtain ⟨saveData, hsave, crcSum, -, h⟩ := h
  split_ifs at h
  cases h
  have hlength := Coap.length_hexstr2bytes hsave
  simp only [not_or, ne_eq, not_not, gt_iff_lt] at hlen hsn
  exact ⟨hsn, hsave, by omega⟩

theorem AtFota.TakesBlock.length_le {s : AtFota} {r : AtReq} {bytes : List UInt8}
    (h : s.TakesBlock r bytes) : bytes.length ≤ 512 := by
  obtain ⟨p, -, -, hcheck⟩ := h.block
  exact (checkBlock_some hcheck).2.2

section
variable (env : Env) (sizes : ImageSizes) (crypto : Crypto) {r : AtReq} {s : AtFota}

theorem AtReq.Is.unique {n m : Int} (h : r.Is n) (h' : r.Is m) : n = m := by
  have := h.2.symm.trans h'.2
  cases this
  rfl

theorem atNFWUPDReq_eq {cmd : Int} (h : r.Is cmd) :
    atNFWUPDReq env sizes crypto r =
      if cmd = 0 then atFotaFlashErase sizes >>= fun ret => pure (rspOf ret)
      else if cmd = 1 then atFotaDowning env r.block >>= fun ret => pure (rspOf ret)
      else if cmd = 2 then atFotaCheck crypto >>= fun ret => pure (rspOf ret)
      else if cmd = 5 then atFotaUpdate env >>= fun ret => pure (rspOf ret)
      else pure .paramInvalid := by
  obtain ⟨htype, hcmd⟩ := h
  simp only [atNFWUPDReq, htype, hcmd]

theorem atNFWUPDReq_erase (h : r.Is 0) (s : AtFota) :
    atNFWUPDReq env sizes crypto r s = .ok .ok { s with
      fotaStatus := .atFotaDowning, blockNum := 0, otaContext := some (otaUpdateInit sizes) } := by
  rw [atNFWUPDReq_eq env sizes crypto h]
  rfl

theorem AtFotaM.onContext_ok {α : Type} {x : FotaM α} {ctx : OtaContext} {a : α} {t : Fota}
    (hctx : s.otaContext = some ctx) (h : x ⟨s.board, ctx⟩ = .ok a t) :
    AtFotaM.onContext x s = .ok a { s with otaContext := some t.ctx, board := t.board } := by
  simp only [AtFotaM.onContext, hctx, h]

theorem AtFotaM.onContext_error {α : Type} {x : FotaM α} {ctx : OtaContext} {e : Fault} {t : Fota}
    (hctx : s.otaContext = some ctx) (h : x ⟨s.board, ctx⟩ = .error e t) :
    AtFotaM.onContext x s =
      .error (.fault e) { s with otaContext := some t.ctx, board := t.board } := by
  simp only [AtFotaM.onContext, hctx, h]

theorem AtFotaM.get_eq (s : AtFota) : (get : AtFotaM AtFota) s = .ok s s := rfl

theorem AtFotaM.modify_eq (f : AtFota → AtFota) (s : AtFota) :
    (modify f : AtFotaM Unit) s = .ok () (f s) := rfl

/-- A function of `xy_fota.c` in a sub-command. -/
theorem onContext_answer {x : FotaM XyRet} {f : AtFota → AtFota} {ctx : OtaContext}
    (hctx : s.otaContext = some ctx) :
    ((AtFotaM.onContext x >>= fun ret =>
        if ret ≠ .xyOk then pure (-1) else do
          modify f
          return 0) >>= fun ret => pure (rspOf ret)) s = s.answer f (x ⟨s.board, ctx⟩) := by
  rcases hx : x ⟨s.board, ctx⟩ with ⟨ret, t⟩ | ⟨e, t⟩
  · rw [bind_assoc, bind_ok (AtFotaM.onContext_ok hctx hx)]
    by_cases hret : ret = .xyOk
    · rw [if_neg (not_not.mpr hret), AtFota.answer, if_pos hret]
      rfl
    · rw [if_pos hret, AtFota.answer, if_neg hret]
      rfl
  · rw [bind_assoc, bind_error (AtFotaM.onContext_error hctx hx)]
    rfl

theorem atNFWUPDReq_block {bytes : List UInt8} {ctx : OtaContext} (h : s.TakesBlock r bytes)
    (hctx : s.otaContext = some ctx) :
    atNFWUPDReq env sizes crypto r s =
      s.answerBlock (otaDownlinkPacketProc env bytes ⟨s.board, ctx⟩) := by
  obtain ⟨hcmd, hstatus, p, hp, hcrc, hcheck⟩ := h
  have hreq : atNFWUPDReq env sizes crypto r =
      atFotaDowning env r.block >>= fun ret => pure (rspOf ret) :=
    atNFWUPDReq_eq env sizes crypto hcmd
  have hdown : atFotaDowning env r.block s =
      (AtFotaM.onContext (otaDownlinkPacketProc env bytes) >>= fun ret =>
        if ret ≠ .xyOk then pure (-1) else do
          modify fun s => { s with blockNum := s.blockNum + 1 }
          return 0) s := by
    rw [atFotaDowning, bind_ok (AtFotaM.get_eq s), if_neg (not_not.mpr hstatus), hp]
    dsimp only
    rw [if_neg (by omega), hcheck]
  rw [hreq, bind_congr_at hdown]
  exact onContext_answer hctx

theorem atNFWUPDReq_check {ctx : OtaContext} (h : s.TakesCheck r)
    (hctx : s.otaContext = some ctx) :
    atNFWUPDReq env sizes crypto r s =
      s.answerCheck (otaDeltaCheckSync crypto ⟨s.board, ctx⟩) := by
  obtain ⟨hcmd, hstatus, hnum⟩ := h
  have hreq : atNFWUPDReq env sizes crypto r =
      atFotaCheck crypto >>= fun ret => pure (rspOf ret) :=
    atNFWUPDReq_eq env sizes crypto hcmd
  have hcheck : atFotaCheck crypto s =
      (AtFotaM.onContext (otaDeltaCheckSync crypto) >>= fun ret =>
        if ret ≠ .xyOk then pure (-1) else do
          modify fun s => { s with fotaStatus := .atFotaDowned }
          return 0) s := by
    rw [atFotaCheck, bind_ok (AtFotaM.get_eq s), if_neg (by simp [hstatus, hnum])]
  rw [hreq, bind_congr_at hcheck]
  exact onContext_answer hctx

/-- `ota_update_start` does not return, and leaves the statics. -/
theorem otaUpdateStart_stops (s : AtFota) :
    ∃ e s', otaUpdateStart env s = .error e s' ∧ s'.fotaStatus = s.fotaStatus := by
  rw [otaUpdateStart, bind_ok (AtFotaM.get_eq s)]
  rcases s.otaContext with _ | ctx
  · exact ⟨_, _, rfl, rfl⟩
  · dsimp only
    rcases hw : xyFlashWrite env FOTA_UPDATE_INFO_ADDR
      ((fotaDef s.board.flash ctx.flashBase).read 0 fotaDefSize) s.board with ⟨ret, b⟩ | ⟨e, b⟩
    · rw [bind_ok (show AtFotaM.onBoard _ s = .ok ret { s with board := b } by
        simp only [AtFotaM.onBoard, hw])]
      exact ⟨_, _, rfl, rfl⟩
    · rw [bind_error (show AtFotaM.onBoard _ s = .error (.fault e) { s with board := b } by
        simp only [AtFotaM.onBoard, hw])]
      exact ⟨_, _, rfl, rfl⟩

theorem atNFWUPDReq_update (h : s.TakesUpdate r) :
    ∃ e s', atNFWUPDReq env sizes crypto r s = .error e s' ∧ s'.fotaStatus = .atFotaUpdate := by
  obtain ⟨hcmd, hstatus⟩ := h
  have hreq : atNFWUPDReq env sizes crypto r =
      atFotaUpdate env >>= fun ret => pure (rspOf ret) := atNFWUPDReq_eq env sizes crypto hcmd
  obtain ⟨e, s', hstart, hs'⟩ := otaUpdateStart_stops env { s with fotaStatus := .atFotaUpdate }
  have hupdate : atFotaUpdate env s = .error e s' := by
    rw [atFotaUpdate, bind_ok (AtFotaM.get_eq s), if_neg (not_not.mpr hstatus)]
    rw [bind_ok (AtFotaM.modify_eq _ s), bind_error hstart]
  exact ⟨e, s', by rw [hreq, bind_error hupdate], hs'⟩

/-- A block that is not handed on leaves the session as it is. -/
theorem atFotaDowning_refuse (hcmd : r.Is 1) (h : ∀ bytes, ¬ s.TakesBlock r bytes) :
    atFotaDowning env r.block s = .ok (-1) s ∨
      atFotaDowning env r.block s = .error (.fault .heapOverflow) s := by
  by_cases hstatus : s.fotaStatus = .atFotaDowning
  case neg =>
    left
    rw [atFotaDowning, bind_ok (AtFotaM.get_eq s), if_pos hstatus]
    rfl
  rcases hp : r.block with _ | p
  · left
    rw [atFotaDowning, bind_ok (AtFotaM.get_eq s), if_neg (not_not.mpr hstatus)]
    rfl
  rw [atFotaDowning, bind_ok (AtFotaM.get_eq s), if_neg (not_not.mpr hstatus)]
  dsimp only
  by_cases hcrc : 2 < p.crcData.length
  · right
    rw [if_pos hcrc]
    rfl
  · left
    rcases hcheck : checkBlock s.blockNum p with _ | bytes
    · rw [if_neg hcrc]
      rfl
    · exact absurd ⟨hcmd, hstatus, p, hp, by omega, hcheck⟩ (h bytes)

theorem atFotaCheck_refuse (hcmd : r.Is 2) (h : ¬ s.TakesCheck r) :
    atFotaCheck crypto s = .ok (-1) s := by
  have hcond : s.fotaStatus ≠ .atFotaDowning ∨ s.blockNum = 0 := by
    by_contra hcond
    simp only [ne_eq, not_or, not_not] at hcond
    exact h ⟨hcmd, hcond.1, hcond.2⟩
  rw [atFotaCheck, bind_ok (AtFotaM.get_eq s), if_pos hcond]
  rfl

theorem atFotaUpdate_refuse (hcmd : r.Is 5) (h : ¬ s.TakesUpdate r) :
    atFotaUpdate env s = .ok (-1) s := by
  have hstatus : s.fotaStatus ≠ .atFotaDowned := fun hstatus => h ⟨hcmd, hstatus⟩
  rw [atFotaUpdate, bind_ok (AtFotaM.get_eq s), if_pos hstatus]
  rfl

/-- Any other request leaves the session as it is, and is not answered `OK`. -/
theorem atNFWUPDReq_refuse (herase : ¬ r.Is 0) (hblock : ∀ bytes, ¬ s.TakesBlock r bytes)
    (hcheck : ¬ s.TakesCheck r) (hupdate : ¬ s.TakesUpdate r) :
    (∃ rsp, rsp ≠ .ok ∧ atNFWUPDReq env sizes crypto r s = .ok rsp s) ∨
      ∃ e, atNFWUPDReq env sizes crypto r s = .error e s := by
  have hrefused : ∀ {x : AtFotaM Int}, atNFWUPDReq env sizes crypto r =
      (x >>= fun ret => pure (rspOf ret)) → x s = .ok (-1) s →
      ∃ rsp, rsp ≠ .ok ∧ atNFWUPDReq env sizes crypto r s = .ok rsp s := fun hreq hx =>
    ⟨.paramInvalid, by decide, by rw [hreq, bind_ok hx]; rfl⟩
  rcases htype : r.type with _ | _ | _
  case cmdQuery =>
    refine .inl ⟨.text "\r\n+NFWUPD:(0,1,2,5)\r\n\r\nOK\r\n", (fun h => by cases h), ?_⟩
    simp only [atNFWUPDReq, htype]
    rfl
  case other =>
    refine .inl ⟨.paramInvalid, (fun h => by cases h), ?_⟩
    simp only [atNFWUPDReq, htype]
    rfl
  rcases hcmd : r.cmd with _ | cmd
  · refine .inl ⟨.paramInvalid, (fun h => by cases h), ?_⟩
    simp only [atNFWUPDReq, htype, hcmd]
    rfl
  have his : r.Is cmd := ⟨htype, hcmd⟩
  by_cases h0 : cmd = 0
  · exact absurd (h0 ▸ his) herase
  by_cases h1 : cmd = 1
  · subst h1
    have hreq : atNFWUPDReq env sizes crypto r =
        atFotaDowning env r.block >>= fun ret => pure (rspOf ret) :=
        atNFWUPDReq_eq env sizes crypto his
    rcases atFotaDowning_refuse env his hblock with hx | hx
    · exact .inl (hrefused hreq hx)
    · exact .inr ⟨.fault .heapOverflow, by rw [hreq, bind_error hx]⟩
  by_cases h2 : cmd = 2
  · subst h2
    have hreq : atNFWUPDReq env sizes crypto r =
        atFotaCheck crypto >>= fun ret => pure (rspOf ret) := atNFWUPDReq_eq env sizes crypto his
    exact .inl (hrefused hreq (atFotaCheck_refuse crypto his hcheck))
  by_cases h5 : cmd = 5
  · subst h5
    have hreq : atNFWUPDReq env sizes crypto r =
        atFotaUpdate env >>= fun ret => pure (rspOf ret) := atNFWUPDReq_eq env sizes crypto his
    exact .inl (hrefused hreq (atFotaUpdate_refuse env his hupdate))
  · refine .inl ⟨.paramInvalid, by decide, ?_⟩
    rw [atNFWUPDReq_eq env sizes crypto his, if_neg h0, if_neg h1, if_neg h2, if_neg h5]
    rfl

end

end XY1100
