import XY1100.Fota.AtFota
import XY1100.Fota.Header
import XY1100.Fota.Integrity

/-!
# Fota — what an `AT+NFWUPD` session keeps

The requests and their answers say which blocks have been accepted since the last erase, and
whether the last check succeeded (`Ledger`).  A session should go by them: a refused request
leaves it as it was, so that the next block can be sent again; what the context holds is the
accepted blocks in order; and an update is only entered after a check of just these
(`LawfulReq`).

Three requests break this (`Spoils`): a block that completes a header which fails its checks, since
`recv_size` and the header are not taken back; a check of a stream that does not verify, since the
HMAC is then closed; and an update after a check that was refused because another had succeeded
before.  Every run is lawful exactly as long as none of them is made (`session_lawful_iff`).
-/

namespace XY1100
open Support

/-! ### What the answers say -/

/-- The blocks answered `OK` since the last erase, with their numbers, and the stream the last check
command succeeded on, if it did. -/
structure Ledger where
  blocks : List (Int × List UInt8)
  lastCheck : Option (List UInt8)

namespace Ledger

def stream (l : Ledger) : List UInt8 := (l.blocks.map Prod.snd).flatten

/-- The number of a block and the bytes its text stands for. -/
def entry (p : AtBlock) : Int × List UInt8 := (p.sn, (Coap.hexstr2bytes p.srcData).getD [])

/-- After a request and its answer. -/
def after (l : Ledger) (r : AtReq) (rsp : AtRsp) : Ledger :=
  if r.Is 0 ∧ rsp = .ok then { l with blocks := [] }
  else if r.Is 1 ∧ rsp = .ok then { l with blocks := l.blocks ++ (r.block.map entry).toList }
  else if r.Is 2 then { l with lastCheck := if rsp = .ok then some l.stream else none }
  else l

end Ledger

/-- A request, with the ledger beside the session. -/
def ledgeredReq (env : Env) (sizes : ImageSizes) (crypto : Crypto) (r : AtReq) :
    EStateM AtFotaStop (AtFota × Ledger) AtRsp := fun (s, l) =>
  match atNFWUPDReq env sizes crypto r s with
  | .ok rsp s' => .ok rsp (s', l.after r rsp)
  | .error e s' => .error e (s', l)

/-! ### The law -/

/-- What the HMAC is fed of a stream: nothing until the header is complete, and then all but its
first 84 bytes. -/
def fed (stream : List UInt8) : List UInt8 := if 164 ≤ stream.length then stream.drop 84 else []

/-- The context has taken in the stream, and nothing else. -/
structure OtaContext.HasAccepted (ctx : OtaContext) (stream : List UInt8) : Prop where
  recvSize : ctx.recvSize.toNat = stream.length
  head : (headOf stream).Agree ctx.headInfo 0 164
  hmac : ctx.hmacContext.text = fed stream

/-- The signature in the header of the stream is good. -/
def Verifies (crypto : Crypto) (stream : List UInt8) : Prop :=
  verdict crypto (some (crypto.hmac (some HMAC_KEY) (fed stream))) (headOf stream) = .xyOk

/-- The expected block number, `recv_size`, the header and the HMAC state are the same. -/
structure AtFota.SameSession (s s' : AtFota) : Prop where
  blockNum : s'.blockNum = s.blockNum
  recvSize : s'.otaContext.map (·.recvSize) = s.otaContext.map (·.recvSize)
  headInfo : s'.otaContext.map (·.headInfo) = s.otaContext.map (·.headInfo)
  hmacContext : s'.otaContext.map (·.hmacContext) = s.otaContext.map (·.hmacContext)

/-- The session holds what the ledger says: blocks numbered from 0 on, taken in in order. -/
structure Reflects (s : AtFota) (l : Ledger) : Prop where
  numbers : l.blocks.map Prod.fst = (List.range l.blocks.length).map Int.ofNat
  blockNum : s.blockNum = l.blocks.length
  context : ∀ ctx, s.otaContext = some ctx → ctx.HasAccepted l.stream

/-- What a session promises of a request.  An update that is entered shows in the status the
machine stops in. -/
structure LawfulReq (env : Env) (sizes : ImageSizes) (crypto : Crypto) (t : AtFota × Ledger)
    (r : AtReq) : Prop where
  refused : ∀ t', ledgeredReq env sizes crypto r t = .ok .paramInvalid t' → t.1.SameSession t'.1
  resumes : ∀ t', ledgeredReq env sizes crypto r t = .ok .paramInvalid t' →
    ∀ r', atNFWUPDReq env sizes crypto r' t'.1 = atNFWUPDReq env sizes crypto r' t.1
  reflects : ∀ rsp t', ledgeredReq env sizes crypto r t = .ok rsp t' → Reflects t'.1 t'.2
  updates : ∀ e t', ledgeredReq env sizes crypto r t = .error e t' →
    t'.1.fotaStatus = .atFotaUpdate →
    t.2.lastCheck = some t.2.stream ∧ Verifies crypto t.2.stream

/-- The requests that break the law. -/
inductive Spoils (sizes : ImageSizes) (crypto : Crypto) (t : AtFota × Ledger) (r : AtReq) : Prop
  | head {bytes : List UInt8} (takes : t.1.TakesBlock r bytes)
      (incomplete : t.2.stream.length < 164) (completes : 164 ≤ (t.2.stream ++ bytes).length)
      (fits : (t.2.stream ++ bytes).length ≤ sizes.maxlen.toNat)
      (rejected : ¬ HeadOk t.1.board.flash sizes.base (headOf (t.2.stream ++ bytes)))
  | check (takes : t.1.TakesCheck r) (fails : ¬ Verifies crypto t.2.stream)
  | update (takes : t.1.TakesUpdate r) (unchecked : t.2.lastCheck = none)

variable {env : Env} {sizes : ImageSizes} {crypto : Crypto}

/-! ### One packet -/

/-- The context receives, and has received the stream. -/
structure Receiving (sizes : ImageSizes) (ctx : OtaContext) (stream : List UInt8) : Prop where
  accepted : ctx.HasAccepted stream
  maxlen : ctx.flashMaxlen = sizes.maxlen
  le : stream.length ≤ sizes.maxlen.toNat
  base : stream.length < 164 → ctx.flashBase = sizes.base
  keyed : Keyed ctx.hmacContext

theorem receiving_init : Receiving sizes (otaUpdateInit sizes) [] where
  accepted := ⟨rfl, fun _ _ _ => rfl, rfl⟩
  maxlen := rfl
  le := Nat.zero_le _
  base _ := rfl
  keyed := keyed_init

/-- The size of the region leaves room for a block below `2 ^ 32`. -/
theorem maxlen_lt : sizes.maxlen.toNat + 512 < 2 ^ 32 := by
  obtain ⟨hmod, -, -⟩ := ImageSizes.base_bounds sizes
  have hmax : sizes.maxlen.toNat = (FOTA_BACKUP_BASE - sizes.base).toNat := rfl
  rw [UInt32.toNat_sub, backup_eq] at hmax
  omega

theorem headOf_append (stream bytes : List UInt8) :
    headOf (stream ++ bytes) = (headOf stream).write stream.length bytes := by
  rw [headOf, Buf.write_append, Nat.zero_add]
  rfl

namespace Receiving
variable {ctx : OtaContext} {stream bytes : List UInt8} (h : Receiving sizes ctx stream)
include h

theorem lt (hlen : bytes.length ≤ 512) : ctx.recvSize.toNat + bytes.length < 2 ^ 32 := by
  have : sizes.maxlen.toNat + 512 < 2 ^ 32 := maxlen_lt
  have := h.le
  rw [h.accepted.recvSize]
  omega

/-- A packet that stays within the header. -/
theorem collect (hlen : bytes.length ≤ 512) (hin : (stream ++ bytes).length < 164)
    (hfit : (stream ++ bytes).length ≤ sizes.maxlen.toNat) :
    Receiving sizes (ctx.collect bytes) (stream ++ bytes) where
  accepted := by
    have hin' := hin
    rw [List.length_append] at hin'
    refine ⟨?_, ?_, ?_⟩
    · rw [List.length_append, ← h.accepted.recvSize]
      exact toNat_sum (h.lt hlen)
    · rw [headOf_append]
      show Buf.Agree _ (ctx.headInfo.write ctx.recvSize.toNat bytes) 0 164
      rw [h.accepted.recvSize]
      exact fun i h₁ h₂ => Buf.write_congr (h.accepted.head i h₁ h₂) _ _
    · rw [fed, if_neg (by omega)]
      exact h.accepted.hmac.trans (if_neg (by omega))
  maxlen := h.maxlen
  le := hfit
  base _ := h.base (by rw [List.length_append] at hin; omega)
  keyed := h.keyed

/-- The header a packet completes is that of the stream. -/
theorem head_completed (hlt : stream.length < 164) (h164 : 164 ≤ (stream ++ bytes).length) :
    (headOf (stream ++ bytes)).Agree (ctx.completed bytes) 0 164 := by
  have hr := h.accepted.recvSize
  have hrest : ctx.rest = 164 - stream.length := by rw [toNat_rest (by omega), hr]
  rw [List.length_append] at h164
  intro i h₁ h₂
  have htake : (bytes.take ctx.rest).length = 164 - stream.length := by
    rw [List.length_take]; omega
  rw [headOf_append, OtaContext.completed, hr]
  conv_lhs => rw [← List.take_append_drop ctx.rest bytes, Buf.write_append,
    Buf.write_outside (.inl (by omega))]
  exact Buf.write_congr (h.accepted.head i h₁ h₂) _ _

/-- The checks of a header see that of the stream. -/
theorem headOk_iff (hlt : stream.length < 164) (h164 : 164 ≤ (stream ++ bytes).length)
    (flash : Buf) : HeadOk flash ctx.flashBase (ctx.completed bytes) ↔
      HeadOk flash sizes.base (headOf (stream ++ bytes)) := by
  have hagree := h.head_completed hlt h164
  rw [h.base hlt]
  exact ⟨fun hok => hok.congr fun i h₁ h₂ => (hagree i h₁ h₂).symm, fun hok => hok.congr hagree⟩

/-- A packet that completes a header which is accepted. -/
theorem accept (hlen : bytes.length ≤ 512) (hlt : stream.length < 164)
    (h164 : 164 ≤ (stream ++ bytes).length)
    (hfit : (stream ++ bytes).length ≤ sizes.maxlen.toNat) :
    Receiving sizes ((ctx.acceptHead bytes).stored (bytes.drop ctx.rest)) (stream ++ bytes) where
  accepted := by
    have hr := h.accepted.recvSize
    have hrest : ctx.rest = 164 - stream.length := by rw [toNat_rest (by omega), hr]
    have hagree := h.head_completed hlt h164
    have h164' := h164
    rw [List.length_append] at h164'
    refine ⟨?_, hagree, ?_⟩
    · rw [recvSize_stored_accept (by omega) (by omega), toNat_sum (h.lt hlen), hr,
        List.length_append]
    · have hread : (ctx.completed bytes).read versionOffset (headSize.toNat - 84) =
          ((stream ++ bytes).drop 84).take 80 := by
        rw [← hagree.read (by decide) (by decide)]
        exact (Buf.read_write_within (by omega) : Buf.read _ (0 + 84) 80 = _)
      have hdrop : bytes.drop ctx.rest = ((stream ++ bytes).drop 84).drop 80 := by
        rw [List.drop_drop, List.drop_append, hrest,
          List.drop_eq_nil_of_le (show stream.length ≤ 84 + 80 by omega), List.nil_append]
      have hnil : ctx.hmacContext.text = [] := h.accepted.hmac.trans (if_neg (by omega))
      show (hmacInputBlocks (ctx.hmacContext.input _) _).text = _
      rw [hmacInputBlocks_eq _ (h.keyed.isOpen.input _), HmacContext.input_open h.keyed.isOpen,
        fed, if_pos h164]
      dsimp only
      rw [hnil, hread, hdrop, List.nil_append, List.take_append_drop]
  maxlen := h.maxlen
  le := hfit
  base hlt' := absurd hlt' (by omega)
  keyed := Keyed.stored (show Keyed (ctx.acceptHead bytes).hmacContext from h.keyed.input _) _

/-- A packet after the header. -/
theorem store (hlen : bytes.length ≤ 512) (hge : 164 ≤ stream.length)
    (hfit : (stream ++ bytes).length ≤ sizes.maxlen.toNat) :
    Receiving sizes (ctx.stored bytes) (stream ++ bytes) where
  accepted := by
    refine ⟨?_, ?_, ?_⟩
    · rw [toNat_recvSize_stored (h.lt hlen), h.accepted.recvSize, List.length_append]
    · intro i h₁ h₂
      rw [headOf_append, Buf.write_outside (.inl (by omega))]
      exact h.accepted.head i h₁ h₂
    · show (hmacInputBlocks ctx.hmacContext bytes).text = _
      rw [hmacInputBlocks_eq _ h.keyed.isOpen, fed, if_pos (by rw [List.length_append]; omega),
        List.drop_append_of_le_length (by omega)]
      show ctx.hmacContext.text ++ bytes = _
      rw [h.accepted.hmac, fed, if_pos hge]
  maxlen := h.maxlen
  le := hfit
  base hlt := absurd hlt (by rw [List.length_append]; omega)
  keyed := h.keyed.stored _

/-- **What a packet does**: it is taken in; it is too large; it completes a header that is
rejected; or the machine stops. -/
theorem packet (env : Env) (b : Board) (hlen : bytes.length ≤ 512) :
    let res := otaDownlinkPacketProc env bytes ⟨b, ctx⟩
    (∃ t, res = .ok .xyOk t ∧ Receiving sizes t.ctx (stream ++ bytes)) ∨
    res = .ok .xyErr ⟨b, ctx⟩ ∨
    (stream.length < 164 ∧ 164 ≤ (stream ++ bytes).length ∧
      (stream ++ bytes).length ≤ sizes.maxlen.toNat ∧
      ¬ HeadOk b.flash sizes.base (headOf (stream ++ bytes))) ∨
    ∃ e t, res = .error e t := by
  intro res
  have hr := h.accepted.recvSize
  have hsum : (ctx.sum bytes).toNat = (stream ++ bytes).length := by
    rw [toNat_sum (h.lt hlen), hr, List.length_append]
  have hstored : ∀ {ctx' : OtaContext} {input : List UInt8},
      res = storePacket env b ctx' input → Receiving sizes (ctx'.stored input) (stream ++ bytes) →
      (∃ t, res = .ok .xyOk t ∧ Receiving sizes t.ctx (stream ++ bytes)) ∨
        ∃ e t, res = .error e t := by
    intro ctx' input hres hrec
    rcases hp : programPacket env ctx' input b with ⟨_, b'⟩ | ⟨e, b'⟩ <;>
      rw [hres, storePacket, hp]
    · exact .inl ⟨_, rfl, hrec⟩
    · exact .inr ⟨_, _, rfl⟩
  rcases otaDownlinkPacketProc_cases env ⟨b, ctx⟩ bytes with ⟨-, hres⟩ |
    ⟨hle, ⟨hs, ⟨-, hres⟩ | ⟨-, hres⟩⟩ | ⟨h164, ⟨hlt, ⟨-, hres⟩ | ⟨hno, -⟩⟩ | ⟨hge, hres⟩⟩⟩
  · exact .inr (.inl hres)
  all_goals
    have hfit : (stream ++ bytes).length ≤ sizes.maxlen.toNat := by
      rw [← hsum, ← h.maxlen]
      exact UInt32.le_iff_toNat_le.mp hle
    simp only [hsum] at *
  · exact .inl ⟨_, hres, h.collect hlen hs hfit⟩
  · exact .inr (.inr (.inr ⟨_, _, hres⟩))
  · rcases hstored hres (h.accept hlen (by omega) h164 hfit) with hok | herr
    · exact .inl hok
    · exact .inr (.inr (.inr herr))
  · exact .inr (.inr (.inl ⟨by omega, h164, hfit, fun hok =>
      hno ((h.headOk_iff (by omega) h164 _).mpr hok)⟩))
  · rcases hstored hres (h.store hlen (by omega) hfit) with hok | herr
    · exact .inl hok
    · exact .inr (.inr (.inr herr))

/-- A packet that completes a header which is rejected is taken for the header all the same. -/
theorem reject (env : Env) (b : Board) (hlen : bytes.length ≤ 512) (hlt : stream.length < 164)
    (h164 : 164 ≤ (stream ++ bytes).length)
    (hfit : (stream ++ bytes).length ≤ sizes.maxlen.toNat)
    (hno : ¬ HeadOk b.flash sizes.base (headOf (stream ++ bytes))) :
    otaDownlinkPacketProc env bytes ⟨b, ctx⟩ = .ok .xyErr ⟨b, ctx.rejectHead bytes⟩ := by
  have hr := h.accepted.recvSize
  have hno' : ¬ HeadOk b.flash ctx.flashBase (ctx.completed bytes) := fun hok =>
    hno ((h.headOk_iff hlt h164 _).mp hok)
  rw [List.length_append, ← hr] at h164 hfit
  exact otaDownlinkPacketProc_reject (h.lt hlen) (by rw [h.maxlen]; exact hfit)
    (by rw [hr]; exact hlt) h164 hno'

end Receiving

/-! ### One request -/

/-- What the context holds in each status. -/
inductive InStatus (sizes : ImageSizes) (crypto : Crypto) (l : Ledger) :
    AtFotaCmd → Option OtaContext → Prop
  | idle (h : l.blocks = []) : InStatus sizes crypto l .atFotaIdle none
  | downing {ctx : OtaContext} (h : Receiving sizes ctx l.stream) :
      InStatus sizes crypto l .atFotaDowning (some ctx)
  | downed {ctx : OtaContext} (h : ctx.HasAccepted l.stream) (hv : Verifies crypto l.stream)
      (hc : l.lastCheck = some l.stream ∨ l.lastCheck = none) :
      InStatus sizes crypto l .atFotaDowned (some ctx)

/-- The session goes by its ledger. -/
structure SessionInv (sizes : ImageSizes) (crypto : Crypto) (s : AtFota) (l : Ledger) : Prop where
  numbers : l.blocks.map Prod.fst = (List.range l.blocks.length).map Int.ofNat
  blockNum : s.blockNum = l.blocks.length
  status : InStatus sizes crypto l s.fotaStatus s.otaContext

theorem sessionInv_init (b : Board) : SessionInv sizes crypto (.init b) ⟨[], none⟩ :=
  ⟨rfl, rfl, .idle rfl⟩

namespace SessionInv
variable {s : AtFota} {l : Ledger} {r : AtReq}

theorem reflects (hi : SessionInv sizes crypto s l) : Reflects s l where
  numbers := hi.numbers
  blockNum := hi.blockNum
  context ctx hctx := by
    have hstatus := hi.status
    rw [hctx] at hstatus
    generalize s.fotaStatus = status at hstatus
    cases hstatus with
    | downing h => exact h.accepted
    | downed h => exact h

/-- While blocks are taken the context receives. -/
theorem receiving (hi : SessionInv sizes crypto s l) (h : s.fotaStatus = .atFotaDowning) :
    ∃ ctx, s.otaContext = some ctx ∧ Receiving sizes ctx l.stream := by
  have hstatus := hi.status
  rw [h] at hstatus
  generalize s.otaContext = c at hstatus
  cases hstatus with
  | downing h => exact ⟨_, rfl, h⟩

end SessionInv

namespace Ledger
variable {l : Ledger} {r : AtReq}

theorem after_erase (h : r.Is 0) : l.after r .ok = { l with blocks := [] } := if_pos ⟨h, rfl⟩

theorem after_block {s : AtFota} {bytes : List UInt8} (h : s.TakesBlock r bytes) :
    l.after r .ok = { l with blocks := l.blocks ++ [(s.blockNum, bytes)] } := by
  obtain ⟨hcmd, -, p, hp, -, hcheck⟩ := h
  obtain ⟨hsn, hhex, -⟩ := checkBlock_some hcheck
  have h0 : ¬ r.Is 0 := fun h0 => absurd (h0.unique hcmd) (by decide)
  rw [after, if_neg fun hc => h0 hc.1, if_pos ⟨hcmd, rfl⟩, hp]
  simp only [Option.map_some, Option.toList_some, entry, hsn, hhex, Option.getD_some]

theorem after_check (h : r.Is 2) : l.after r .ok = { l with lastCheck := some l.stream } := by
  have h0 : ¬ r.Is 0 := fun h0 => absurd (h0.unique h) (by decide)
  have h1 : ¬ r.Is 1 := fun h1 => absurd (h1.unique h) (by decide)
  rw [after, if_neg fun hc => h0 hc.1, if_neg fun hc => h1 hc.1, if_pos h, if_pos rfl]

/-- A refused request adds no block. -/
theorem after_refused {rsp : AtRsp} (h : rsp ≠ .ok) :
    l.after r rsp = l ∨ l.after r rsp = { l with lastCheck := none } := by
  rw [after, if_neg fun hc => h hc.2, if_neg fun hc => h hc.2, if_neg h]
  by_cases h2 : r.Is 2
  · exact .inr (if_pos h2)
  · exact .inl (if_neg h2)

theorem stream_append (l : Ledger) (e : Int × List UInt8) :
    stream { l with blocks := l.blocks ++ [e] } = l.stream ++ e.2 := by
  simp only [stream, List.map_append, List.map_cons, List.map_nil, List.flatten_append,
    List.flatten_cons, List.flatten_nil, List.append_nil]

end Ledger

section
variable {s : AtFota} {l : Ledger} {r : AtReq}

theorem ledgeredReq_ok {rsp : AtRsp} {s' : AtFota}
    (h : atNFWUPDReq env sizes crypto r s = .ok rsp s') :
    ledgeredReq env sizes crypto r (s, l) = .ok rsp (s', l.after r rsp) := by
  simp only [ledgeredReq, h]

theorem ledgeredReq_error {e : AtFotaStop} {s' : AtFota}
    (h : atNFWUPDReq env sizes crypto r s = .error e s') :
    ledgeredReq env sizes crypto r (s, l) = .error e (s', l) := by
  simp only [ledgeredReq, h]

/-- A request that is not answered `OK` and leaves the session. -/
theorem SessionInv.refused (hi : SessionInv sizes crypto s l) {rsp : AtRsp} (h : rsp ≠ .ok) :
    SessionInv sizes crypto s (l.after r rsp) := by
  rcases Ledger.after_refused (r := r) (l := l) h with hl | hl <;> rw [hl]
  · exact hi
  · refine ⟨hi.numbers, hi.blockNum, ?_⟩
    have hstatus := hi.status
    generalize s.fotaStatus = status, s.otaContext = c at hstatus
    cases hstatus with
    | idle h => exact .idle h
    | downing h => exact .downing h
    | downed h hv => exact .downed h hv (.inr rfl)

/-- The check verifies the stream. -/
theorem verdict_receiving {ctx : OtaContext} {stream : List UInt8}
    (h : Receiving sizes ctx stream) :
    verdict crypto (some (crypto.hmac ctx.hmacContext.key ctx.hmacContext.text)) ctx.headInfo =
      verdict crypto (some (crypto.hmac (some HMAC_KEY) (fed stream))) (headOf stream) := by
  rw [h.keyed.key, h.accepted.hmac]
  exact (verdict_congr h.accepted.head).symm

/-- How a request that does not spoil the session ends. -/
inductive Ends (env : Env) (sizes : ImageSizes) (crypto : Crypto) (s : AtFota) (l : Ledger)
    (r : AtReq) : Prop
  | answered {rsp : AtRsp} {s' : AtFota}
      (h : ledgeredReq env sizes crypto r (s, l) = .ok rsp (s', l.after r rsp))
      (hi : SessionInv sizes crypto s' (l.after r rsp)) (hs : rsp ≠ .ok → s' = s)
  | stopped {e : AtFotaStop} {s' : AtFota}
      (h : ledgeredReq env sizes crypto r (s, l) = .error e (s', l))
      (hu : s'.fotaStatus = .atFotaUpdate →
        l.lastCheck = some l.stream ∧ Verifies crypto l.stream)

/-- **One request** that does not spoil the session. -/
theorem SessionInv.ends (env : Env) (hi : SessionInv sizes crypto s l)
    (hs : ¬ Spoils sizes crypto (s, l) r) : Ends env sizes crypto s l r := by
  by_cases herase : r.Is 0
  · refine .answered (ledgeredReq_ok (atNFWUPDReq_erase env sizes crypto herase s)) ?_ (absurd rfl)
    rw [Ledger.after_erase herase]
    exact ⟨rfl, rfl, .downing receiving_init⟩
  by_cases hblock : ∃ bytes, s.TakesBlock r bytes
  · obtain ⟨bytes, hblock⟩ := hblock
    obtain ⟨ctx, hctx, hrec⟩ := hi.receiving hblock.status
    have hlen := hblock.length_le
    have hreq := atNFWUPDReq_block env sizes crypto hblock hctx
    rcases hrec.packet env s.board hlen with
      ⟨t, hres, hrec'⟩ | hres | ⟨hlt, h164, hfit, hno⟩ | ⟨e, t, hres⟩
    · rw [hres] at hreq
      refine .answered (ledgeredReq_ok hreq) ?_ (absurd rfl)
      rw [Ledger.after_block hblock]
      refine ⟨?_, ?_, ?_⟩
      · rw [List.map_append, hi.numbers, List.length_append, List.length_singleton,
          List.range_succ, List.map_append, hi.blockNum]
        rfl
      · show s.blockNum + 1 = _
        rw [hi.blockNum, List.length_append, List.length_singleton, Nat.cast_succ]
      · show InStatus sizes crypto _ s.fotaStatus _
        rw [hblock.status]
        exact .downing (by rw [Ledger.stream_append]; exact hrec')
    · rw [hres] at hreq
      have hsame : { s with otaContext := some ctx } = s := by rw [← hctx]
      refine .answered (ledgeredReq_ok hreq) ?_ fun _ => hsame
      rw [hsame]
      exact hi.refused (by decide)
    · exact absurd (.head hblock hlt h164 hfit hno) hs
    · rw [hres] at hreq
      refine .stopped (ledgeredReq_error hreq) fun hu => ?_
      cases hblock.status.symm.trans hu
  have hblock' : ∀ bytes, ¬ s.TakesBlock r bytes := fun bytes hb => hblock ⟨bytes, hb⟩
  by_cases hcheck : s.TakesCheck r
  · obtain ⟨ctx, hctx, hrec⟩ := hi.receiving hcheck.status
    have hv : Verifies crypto l.stream := by
      by_contra hv
      exact hs (.check hcheck hv)
    have hreq := atNFWUPDReq_check env sizes crypto hcheck hctx
    rw [otaDeltaCheckSync_open crypto hrec.keyed.isOpen, verdict_receiving hrec, hv,
      AtFota.answerCheck, AtFota.answer, if_pos rfl] at hreq
    refine .answered (ledgeredReq_ok hreq) ?_ (absurd rfl)
    rw [Ledger.after_check hcheck.cmd]
    exact ⟨hi.numbers, hi.blockNum, .downed ⟨hrec.accepted.recvSize, hrec.accepted.head,
      hrec.accepted.hmac⟩ hv (.inl rfl)⟩
  by_cases hupdate : s.TakesUpdate r
  · obtain ⟨e, s', hreq, -⟩ := atNFWUPDReq_update env sizes crypto hupdate
    refine .stopped (ledgeredReq_error hreq) fun _ => ?_
    have hstatus := hi.status
    rw [hupdate.status] at hstatus
    generalize s.otaContext = c at hstatus
    cases hstatus with
    | downed h hv hc =>
      rcases hc with hc | hc
      · exact ⟨hc, hv⟩
      · exact absurd (.update hupdate hc) hs
  rcases atNFWUPDReq_refuse env sizes crypto herase hblock' hcheck
    hupdate with ⟨rsp, hrsp, hreq⟩ | ⟨e, hreq⟩
  · exact .answered (ledgeredReq_ok hreq) (hi.refused hrsp) fun _ => rfl
  · refine .stopped (ledgeredReq_error hreq) fun hu => ?_
    have hstatus := hi.status
    rw [hu] at hstatus
    cases hstatus

/-- A request that spoils the session breaks the law. -/
theorem Spoils.not_lawful (hi : SessionInv sizes crypto s l) (h : Spoils sizes crypto (s, l) r) :
    ¬ LawfulReq env sizes crypto (s, l) r := by
  intro hlaw
  cases h with
  | @head bytes takes incomplete completes fits rejected =>
    obtain ⟨ctx, hctx, hrec⟩ := hi.receiving takes.status
    have hlen := takes.length_le
    have hreq := atNFWUPDReq_block env sizes crypto takes hctx
    rw [hrec.reject env s.board hlen incomplete completes fits rejected] at hreq
    have hsame := (hlaw.refused _ (ledgeredReq_ok hreq)).recvSize
    rw [hctx] at hsame
    have hsize : headSize = ctx.recvSize := Option.some.inj hsame
    have hrecv := hrec.accepted.recvSize
    rw [← hsize, toNat_headSize] at hrecv
    have hlt : l.stream.length < 164 := incomplete
    omega
  | check takes fails =>
    obtain ⟨ctx, hctx, hrec⟩ := hi.receiving takes.status
    have hreq := atNFWUPDReq_check env sizes crypto takes hctx
    have hbad : verdict crypto (some (crypto.hmac (some HMAC_KEY) (fed l.stream)))
        (headOf l.stream) ≠ .xyOk := fails
    rw [otaDeltaCheckSync_open crypto hrec.keyed.isOpen, verdict_receiving hrec,
      AtFota.answerCheck, AtFota.answer, if_neg hbad] at hreq
    have hsame := (hlaw.refused _ (ledgeredReq_ok hreq)).hmacContext
    rw [hctx] at hsame
    have hcomputed := congrArg HmacContext.computed (Option.some.inj hsame)
    rw [hrec.keyed.isOpen.computed] at hcomputed
    cases hcomputed
  | update takes unchecked =>
    obtain ⟨e, s', hreq, hs'⟩ := atNFWUPDReq_update env sizes crypto takes
    have hlast := (hlaw.updates _ _ (ledgeredReq_error hreq) hs').1
    rw [unchecked] at hlast
    cases hlast

/-- **One request** is lawful exactly if it does not spoil the session. -/
theorem SessionInv.lawful_iff (env : Env) (hi : SessionInv sizes crypto s l) (r : AtReq) :
    ¬ Spoils sizes crypto (s, l) r ↔ LawfulReq env sizes crypto (s, l) r := by
  refine ⟨fun hs => ?_, fun hlaw hs => hs.not_lawful hi hlaw⟩
  cases hi.ends env hs with
  | @answered rsp s' h hi' hrefused =>
    have hrsp : ∀ {rsp' t'}, ledgeredReq env sizes crypto r (s, l) = .ok rsp' t' →
        rsp' = rsp ∧ t' = (s', l.after r rsp) := by
      intro rsp' t' h'
      rw [h] at h'
      cases h'
      exact ⟨rfl, rfl⟩
    refine ⟨fun t' h' => ?_, fun t' h' r' => ?_, fun rsp' t' h' => ?_, fun e t' h' => ?_⟩
    · obtain ⟨rfl, rfl⟩ := hrsp h'
      rw [hrefused (by decide)]
      exact ⟨rfl, rfl, rfl, rfl⟩
    · obtain ⟨rfl, rfl⟩ := hrsp h'
      rw [hrefused (by decide)]
    · obtain ⟨rfl, rfl⟩ := hrsp h'
      exact hi'.reflects
    · rw [h] at h'
      cases h'
  | stopped h hu =>
    refine ⟨fun t' h' => ?_, fun t' h' => ?_, fun rsp' t' h' => ?_, fun e t' h' => ?_⟩ <;>
      rw [h] at h' <;> cases h'
    exact hu

end

/-! ### Runs -/

/-- **When a session is lawful**: in every run of requests, exactly as long as none spoils it. -/
theorem session_lawful_iff (env : Env) (sizes : ImageSizes) (crypto : Crypto) (b : Board)
    (requests : List AtReq) :
    Along (ledgeredReq env sizes crypto) (LawfulReq env sizes crypto) requests
        (.init b, ⟨[], none⟩) ↔
      Along (ledgeredReq env sizes crypto) (fun t r => ¬ Spoils sizes crypto t r) requests
        (.init b, ⟨[], none⟩) := by
  refine (along_iff_of_invariant (fun t : AtFota × Ledger => SessionInv sizes crypto t.1 t.2)
    (fun t r hi => hi.lawful_iff env r) ?_ (sessionInv_init b)).symm
  intro t r rsp t' hi hs h
  cases hi.ends env hs with
  | answered h' hi' _ =>
    have hend := h.symm.trans h'
    cases hend
    exact hi'
  | stopped h' _ => cases h.symm.trans h'

/-! ### A header that is rejected -/

/-- Command 0. -/
def eraseReq : AtReq := ⟨.cmdReq, some 0, none⟩

/-- Command 1 with a header of zeros. -/
def zeroHeadReq : AtReq := ⟨.cmdReq, some 1, some ⟨0, 164, List.replicate 328 48, [48, 48]⟩⟩

/-- The text of zeros. -/
theorem hexstr2bytes_zeros : ∀ n : Nat,
    Coap.hexstr2bytes (List.replicate (2 * n) 48) = some (List.replicate n 0)
  | 0 => rfl
  | n + 1 => by
      rw [Nat.mul_succ, List.replicate_succ, List.replicate_succ, Coap.hexstr2bytes,
        hexstr2bytes_zeros n]
      rfl

theorem chkSum_zeros (n : Nat) : chkSum (List.replicate n 0) = 0 := by
  have hfold : ∀ n : Nat, (List.replicate n (0 : UInt8)).foldl
      (fun val b => val ^^^ b.toUInt32) (0 : UInt32) = 0 := by
    intro n
    induction n with
    | zero => rfl
    | succ n ih => exact ih
  rw [chkSum, hfold n]
  rfl

theorem takesBlock_zeroHeadReq {s : AtFota} (hstatus : s.fotaStatus = .atFotaDowning)
    (hnum : s.blockNum = 0) : s.TakesBlock zeroHeadReq zeroHead := by
  refine ⟨⟨rfl, rfl⟩, hstatus, _, rfl, by decide, ?_⟩
  have hhex : Coap.hexstr2bytes (List.replicate 328 48) = some zeroHead := hexstr2bytes_zeros 164
  have hcrc : Coap.hexstr2bytes (([48, 48] ++ [0, 0] : List UInt8).take 2) = some [0] := by decide
  have hsum : chkSum zeroHead = 0 := chkSum_zeros 164
  have hlen : (List.replicate 328 (48 : UInt8)).length = 328 := List.length_replicate
  rw [hnum, checkBlock, if_neg (by decide), if_neg (by rw [hlen]; decide)]
  simp only [hhex, hcrc, hsum, bind, Option.bind_some, ne_eq, not_true_eq_false, if_false]

/-- A header of zeros is refused, and `recv_size` goes on. -/
theorem not_session_lawful :
    ¬ Along (ledgeredReq quietEnv noImage trustingCrypto) (LawfulReq quietEnv noImage trustingCrypto)
      [eraseReq, zeroHeadReq] (.init blankBoard, ⟨[], none⟩) := by
  rintro ⟨-, h⟩
  have herase : eraseReq.Is 0 := ⟨rfl, rfl⟩
  obtain ⟨hlaw, -⟩ := h _ _ (ledgeredReq_ok (atNFWUPDReq_erase _ _ _ herase _))
  have hbad : ¬ HeadOk blankFlash noImage.base (headOf zeroHead) := fun hok =>
    absurd hok.magic (by decide)
  have htakes := takesBlock_zeroHeadReq (s := { AtFota.init blankBoard with
    fotaStatus := .atFotaDowning, blockNum := 0, otaContext := some (otaUpdateInit noImage) })
    rfl rfl
  rw [Ledger.after_erase herase] at hlaw
  refine Spoils.not_lawful ⟨rfl, rfl, .downing receiving_init⟩ ?_ hlaw
  have hlen : (([] : List UInt8) ++ zeroHead).length = 164 := length_zeroHead
  exact .head htakes (by decide) (hlen.ge) (hlen.le.trans (by decide)) hbad

end XY1100
