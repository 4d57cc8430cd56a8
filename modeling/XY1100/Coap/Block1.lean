import Mathlib.Data.Nat.Bitwise
import XY1100.Coap.MessageHandler
import XY1100.Coap.Options
import XY1100.Coap.Payload

/-!
# Coap — Block1 uploads

An upload is a send with block-wise transfer on, whose blocks the server acknowledges.  The first
request carries the block that `g_block` is left at; the next blocks are sent by the message
handler.  They read `g_payload`, whose copy is freed when the first request is sent, so that no
upload has a second block (`serve_freed`), and the block number a server's smaller block size
leaves behind is where the next upload starts.  Hence an upload covers its payload exactly if it
is a single block (`uploads_cover_iff`).
-/

namespace XY1100.Coap

/-! ### Block sizes -/

theorem toNat_blockSize (szx : UInt8) :
    (blockSize szx).toNat = 2 ^ ((szx.toUInt32 + 4).toNat % 32) := by
  have hlt : (szx.toUInt32 + 4).toNat % 32 < 32 := Nat.mod_lt _ (by decide)
  have hpow : 2 ^ ((szx.toUInt32 + 4).toNat % 32) < 2 ^ 32 := Nat.pow_lt_pow_right (by decide) hlt
  rw [blockSize, UInt32.toNat_shiftLeft, Nat.shiftLeft_eq, UInt32.toNat_one, Nat.one_mul,
    Nat.mod_eq_of_lt hpow]

/-- The first byte of a block. -/
theorem shiftLeft_block (num : UInt32) (szx : UInt8) :
    num <<< (szx.toUInt32 + 4) = num * blockSize szx := by
  apply UInt32.toNat_inj.mp
  rw [UInt32.toNat_shiftLeft, UInt32.toNat_mul, toNat_blockSize, Nat.shiftLeft_eq]

theorem shiftRight_block {bytes : UInt32} {szx : UInt8} (h : bytes % blockSize szx = 0) :
    (bytes >>> (szx.toUInt32 + 4)) * blockSize szx = bytes := by
  have hmod : bytes.toNat % (blockSize szx).toNat = 0 := by
    rw [← UInt32.toNat_mod, h, UInt32.toNat_zero]
  apply UInt32.toNat_inj.mp
  rw [UInt32.toNat_mul, UInt32.toNat_shiftRight, Nat.shiftRight_eq_div_pow, ← toNat_blockSize,
    Nat.div_mul_cancel (Nat.dvd_of_mod_eq_zero hmod), Nat.mod_eq_of_lt bytes.toNat_lt]

/-- A server that asks for another size, for the block last sent, does not change how many bytes
count as sent. -/
theorem renegotiate_bytes (b : CoapBlock) (g : Globals) (hnum : b.num = g.block.num) :
    ((renegotiate b g).2.block.num + 1) * blockSize (renegotiate b g).2.block.szx =
        (g.block.num + 1) * blockSize g.block.szx ∧
      ((renegotiate b g).1 + 1) * blockSize (renegotiate b g).2.block.szx =
        (g.block.num + 1) * blockSize g.block.szx := by
  unfold renegotiate
  dsimp only
  split
  · rename_i h
    have hbytes := shiftRight_block h.2
    rw [shiftLeft_block] at hbytes
    simp only [UInt32.sub_add_cancel, shiftLeft_block, hbytes, and_self]
  · simp only [hnum, and_self]

theorem renegotiate_szx {b : CoapBlock} {g : Globals} (hb : b.szx < 8) (hg : g.block.szx < 8) :
    (renegotiate b g).2.block.szx < 8 := by
  unfold renegotiate
  dsimp only
  split
  · exact hb
  · exact hg

/-! ### Uploads -/

/-- An acknowledgement of the block last sent: a successful response with its number, and with
any size exponent up to 6. -/
structure Ack where
  type : UInt8
  code : UInt8
  tid : UInt16
  m : Bool
  szx : UInt8
  observe : Bool
  notRst : type ≠ COAP_MESSAGE_RST
  success : responseClass code = 2
  szx_le : szx ≤ 6

/-- What is received, in the state the client is in then. -/
def Ack.received (a : Ack) (g : Globals) : Received :=
  ⟨a.type, a.code, a.tid, g.token, a.observe, none, some ⟨g.block.num, a.m, a.szx⟩⟩

/-- A payload to upload, with a method whose blocks go into Block1 options.  The server has an
acknowledgement ready for every block: no block but the last is empty. -/
structure Upload where
  type : List Char
  method : List Char
  mem : List UInt8
  len : UInt32
  acks : List Ack
  type_ne : xyCoapTypeGet type ≠ 4
  method_ne : xyCoapMethodGet method ≠ 8
  notGet : xyCoapMethodGet method ≠ COAP_REQUEST_GET
  notDelete : xyCoapMethodGet method ≠ COAP_REQUEST_DELETE
  readable : len.toNat ≤ mem.length
  int : len.toNat < 2 ^ 31
  memory : mem.length < 2 ^ 32
  enough : len.toNat < acks.length

def Upload.bytes (up : Upload) : List UInt8 := up.mem.take up.len.toNat

/-- The server acknowledges, as long as there is a next block. -/
def serve : List Ack → EStateM CoapFault Globals (List Request)
  | [], g => .ok [] g
  | a :: acks, g =>
    match xyCoapMessageHandler (a.received g) g with
    | .error e g => .error e g
    | .ok none g => .ok [] g
    | .ok (some r) g =>
      match serve acks g with
      | .error e g => .error e g
      | .ok rs g => .ok (r :: rs) g

/-- The requests of an upload. -/
def Upload.run (up : Upload) : EStateM CoapFault Globals (List Request) := fun g =>
  match xyCoapPktSend up.type up.method (some up.mem) up.len g with
  | .error e g => .error e g
  | .ok none g => .ok [] g
  | .ok (some r) g =>
    match serve up.acks g with
    | .error e g => .error e g
    | .ok rs g => .ok (r :: rs) g

/-! ### The first block -/

def firstBlock (g : Globals) (length : UInt32) : CoapBlock :=
  { g.block with m := blockSize g.block.szx < length }

/-- The options of the first request of an upload. -/
def firstOptions (g : Globals) (length : UInt32) : List CoapOpt :=
  sortOptlist (g.optlist ++
    [⟨LIBCOAP_COAP_OPTION_BLOCK1, coapEncodeVarSafe (firstBlock g length).value⟩])

/-- The bytes of a block of a payload. -/
def blockOf (data : List UInt8) (b : CoapBlock) : List UInt8 :=
  (data.drop (b.num * blockSize b.szx).toNat).take (blockSize b.szx).toNat

theorem toNat_min (a b : UInt32) : (min a b).toNat = min a.toNat b.toNat := by
  change (if a ≤ b then a else b).toNat = _
  split
  · rename_i h
    exact (min_eq_left (UInt32.le_iff_toNat_le.mp h)).symm
  · rename_i h
    exact (min_eq_right (Nat.le_of_lt (Nat.not_le.mp h))).symm

theorem coapAddBlock_eq {data : List UInt8} {p : CoapString} (b : CoapBlock)
    (hlen : data.length < 2 ^ 32) (hp : p.length = UInt32.ofNat data.length)
    (hs : data ≠ [] → p.s = some data) : coapAddBlock p b.num b.szx = .ok (blockOf data b) := by
  have hnat : p.length.toNat = data.length := by
    rw [hp, UInt32.toNat_ofNat_of_lt' hlen]
  unfold coapAddBlock blockOf
  dsimp only
  rw [shiftLeft_block]
  split
  · rename_i hle
    have hle' : data.length ≤ (b.num * blockSize b.szx).toNat := by
      rw [← hnat]
      exact hle
    rw [List.drop_eq_nil_of_le hle', List.take_nil]
  · rename_i hlt
    have hlt' : (b.num * blockSize b.szx).toNat < data.length := by
      rw [← hnat]
      exact Nat.not_le.mp hlt
    have hne : data ≠ [] := List.ne_nil_of_length_pos (by omega)
    have hsub : (p.length - b.num * blockSize b.szx).toNat =
        data.length - (b.num * blockSize b.szx).toNat := by
      rw [UInt32.toNat_sub_of_le _ _ (UInt32.le_iff_toNat_le.mpr (by omega)), hnat]
    have hmin : (min (p.length - b.num * blockSize b.szx) (blockSize b.szx)).toNat =
        min (data.length - (b.num * blockSize b.szx).toNat) (blockSize b.szx).toNat := by
      rw [← hsub]
      exact toNat_min _ _
    rw [CoapString.bytes, hs hne]
    simp only [Except.map, hnat, List.take_length, hmin]
    rw [← List.length_drop, min_comm, ← List.take_eq_take_min]

/-- The first request of an upload, of a payload whose copy has these bytes. -/
def firstRequest (g : Globals) (data : List UInt8) : Request :=
  let length := UInt32.ofNat data.length
  ⟨g.msgtype, g.method, g.txMid + 1, g.token, firstOptions g length ++ addedSize1 g length,
    blockOf data (firstBlock g length)⟩

/-- After the first request the copy is freed. -/
structure FirstSent (g : Globals) (data : List UInt8) (g' : Globals) : Prop where
  length : g'.payload.length = UInt32.ofNat data.length
  freed : g'.payload.length ≠ 0 → g'.payload.s = none
  block : g'.block = firstBlock g (UInt32.ofNat data.length)
  optlist : g'.optlist = firstOptions g (UInt32.ofNat data.length)

theorem freePayload_freed (g : Globals) :
    (freePayload g).payload.length = g.payload.length ∧
      ((freePayload g).payload.length ≠ 0 → (freePayload g).payload.s = none) ∧
      (freePayload g).block = g.block := by
  unfold freePayload
  split
  · rename_i h
    exact ⟨rfl, fun hne => absurd h hne, rfl⟩
  · exact ⟨rfl, fun _ => rfl, rfl⟩

theorem prepareRequest_block {g : Globals} (copied : Option (List UInt8))
    (hflags : g.flagsBlock = true) (hget : g.method ≠ COAP_REQUEST_GET)
    (hdelete : g.method ≠ COAP_REQUEST_DELETE) :
    prepareRequest g copied =
      { setPayload g copied with
        block := firstBlock g (UInt32.ofNat (copied.getD []).length)
        optlist := firstOptions g (UInt32.ofNat (copied.getD []).length) } := by
  have hlength : (setPayload g copied).payload.length = UInt32.ofNat (copied.getD []).length := by
    cases copied <;> rfl
  have hset : xyCoapBlocksizeSet (setPayload g copied) =
      { setPayload g copied with
        block := firstBlock g (UInt32.ofNat (copied.getD []).length)
        optlist := g.optlist ++ [⟨LIBCOAP_COAP_OPTION_BLOCK1, coapEncodeVarSafe
          (firstBlock g (UInt32.ofNat (copied.getD []).length)).value⟩] } := by
    unfold xyCoapBlocksizeSet
    cases copied <;> simp [setPayload, hget, hdelete, firstBlock]
  unfold prepareRequest
  dsimp only
  obtain ⟨hflag, -, -⟩ := setPayload_frame g copied
  rw [if_pos (hflag.trans hflags), hset]
  rfl

theorem sendCopied_block {g : Globals} {copied : Option (List UInt8)}
    (hflags : g.flagsBlock = true) (hget : g.method ≠ COAP_REQUEST_GET)
    (hdelete : g.method ≠ COAP_REQUEST_DELETE) (hlen : (copied.getD []).length < 2 ^ 32) :
    ∃ g', sendCopied g copied = .ok (some (firstRequest g (copied.getD []))) g' ∧
      FirstSent g (copied.getD []) g' := by
  have hprepared := prepareRequest_block copied hflags hget hdelete
  have hlength : (setPayload g copied).payload.length = UInt32.ofNat (copied.getD []).length := by
    cases copied <;> rfl
  have hs : copied.getD [] ≠ [] → (setPayload g copied).payload.s = some (copied.getD []) := by
    cases copied with
    | none => exact fun h => absurd rfl h
    | some data => exact fun _ => rfl
  have hadd := coapAddBlock_eq (firstBlock g (UInt32.ofNat (copied.getD []).length)) hlen hlength hs
  have hflag : (setPayload g copied).flagsBlock = true := (setPayload_frame g copied).1.trans hflags
  have hfields : (setPayload g copied).msgtype = g.msgtype ∧
      (setPayload g copied).method = g.method ∧ (setPayload g copied).txMid = g.txMid ∧
      (setPayload g copied).token = g.token := by
    cases copied <;> exact ⟨rfl, rfl, rfl, rfl⟩
  have hrequest : xyCoapNewRequest (prepareRequest g copied) (prepareRequest g copied).optlist
      (prepareRequest g copied).payload = .ok (firstRequest g (copied.getD [])) := by
    rw [hprepared]
    unfold xyCoapNewRequest firstRequest addedSize1
    dsimp only
    rw [hlength, hfields.1, hfields.2.1, hfields.2.2.1, hfields.2.2.2]
    by_cases h0 : UInt32.ofNat (copied.getD []).length = 0
    · have hnil : copied.getD [] = [] := by
        apply List.eq_nil_of_length_eq_zero
        rw [← UInt32.toNat_ofNat_of_lt' hlen, h0, UInt32.toNat_zero]
      rw [if_pos h0, if_neg fun h => h.2 h0, hnil, List.append_nil, blockOf, List.drop_nil,
        List.take_nil]
      rfl
    · rw [if_neg h0, if_neg (not_not.mpr hflag), if_pos ⟨hflags, h0⟩, hadd]
      rfl
  unfold sendCopied
  dsimp only
  rw [hrequest, hprepared]
  obtain ⟨hfreed, hs', hblock⟩ := freePayload_freed
    { setPayload g copied with
      block := firstBlock g (UInt32.ofNat (copied.getD []).length)
      optlist := firstOptions g (UInt32.ofNat (copied.getD []).length)
      txMid := (setPayload g copied).txMid + 1 }
  exact ⟨_, rfl, hfreed.trans hlength, hs', hblock, (freePayload_frame _).2⟩

/-! ### After the first block -/

/-- What an answered acknowledgement leaves as it was. -/
structure Answered (g g' : Globals) : Prop where
  payload : g'.payload = g.payload
  optlist : g'.optlist = g.optlist
  szx : g.block.szx < 8 → g'.block.szx < 8

theorem handler_ack (a : Ack) (g : Globals) : xyCoapMessageHandler (a.received g) g =
    handleBlock1 a.tid ⟨g.block.num, a.m, a.szx⟩ g := by
  unfold xyCoapMessageHandler Ack.received
  simp only [ne_eq, not_true, if_false, a.notRst, a.success, if_true]

theorem answered_renegotiate (a : Ack) (g : Globals) :
    Answered g (renegotiate ⟨g.block.num, a.m, a.szx⟩ g).2 := by
  obtain ⟨hpayload, hlist, -⟩ := renegotiate_frame ⟨g.block.num, a.m, a.szx⟩ g
  have hszx : a.szx < 8 := by
    have h : a.szx.toNat ≤ 6 := a.szx_le
    change a.szx.toNat < 8
    omega
  exact ⟨hpayload, hlist, renegotiate_szx hszx⟩

/-- The upload is ready where the block reaches the end of the payload. -/
theorem handler_ready (a : Ack) {g : Globals}
    (hle : g.payload.length ≤ (g.block.num + 1) * blockSize g.block.szx) :
    ∃ g', xyCoapMessageHandler (a.received g) g = .ok none g' ∧ Answered g g' := by
  have hanswered := answered_renegotiate a g
  obtain ⟨hbytes, -⟩ := renegotiate_bytes ⟨g.block.num, a.m, a.szx⟩ g rfl
  rw [handler_ack]
  unfold handleBlock1
  generalize renegotiate ⟨g.block.num, a.m, a.szx⟩ g = renegotiated at hanswered hbytes ⊢
  obtain ⟨num, g₁⟩ := renegotiated
  dsimp only at hanswered hbytes ⊢
  split
  · exact ⟨_, rfl, hanswered⟩
  · rw [hanswered.payload, hbytes, if_pos hle]
    exact ⟨_, rfl, rfl, hanswered.optlist, hanswered.szx⟩

/-- With the copy freed, the client has no next block: either the upload is ready, or the block is
read from freed memory. -/
theorem handler_freed (a : Ack) {g : Globals}
    (hfreed : g.payload.length ≠ 0 → g.payload.s = none) :
    (∃ e g', xyCoapMessageHandler (a.received g) g = .error e g') ∨
      ∃ g', xyCoapMessageHandler (a.received g) g = .ok none g' ∧ Answered g g' := by
  by_cases hle : g.payload.length ≤ (g.block.num + 1) * blockSize g.block.szx
  · exact .inr (handler_ready a hle)
  have hanswered := answered_renegotiate a g
  obtain ⟨hbytes, hnext⟩ := renegotiate_bytes ⟨g.block.num, a.m, a.szx⟩ g rfl
  have hne : g.payload.length ≠ 0 := by
    intro h0
    rw [h0] at hle
    exact hle (UInt32.le_iff_toNat_le.mpr (Nat.zero_le _))
  rw [handler_ack]
  unfold handleBlock1
  generalize renegotiate ⟨g.block.num, a.m, a.szx⟩ g = renegotiated at hanswered hbytes hnext ⊢
  obtain ⟨num, g₁⟩ := renegotiated
  dsimp only at hanswered hbytes hnext ⊢
  split
  · exact .inr ⟨_, rfl, hanswered⟩
  · left
    have hread : coapAddBlock g₁.payload (nextBlock { g₁ with lastBlock1Tid := a.tid } num).num
        (nextBlock { g₁ with lastBlock1Tid := a.tid } num).szx = .error .useAfterFree := by
      unfold coapAddBlock nextBlock
      dsimp only
      rw [shiftLeft_block, hnext, hanswered.payload, if_neg hle, CoapString.bytes, hfreed hne]
      rfl
    rw [hanswered.payload, hbytes, if_neg hle, ← hanswered.payload, hread]
    exact ⟨_, _, rfl⟩

/-- No second block: an upload is its first request, or the read of freed memory. -/
theorem serve_freed (a : Ack) (acks : List Ack) {g : Globals}
    (hfreed : g.payload.length ≠ 0 → g.payload.s = none) :
    (∃ e g', serve (a :: acks) g = .error e g') ∨
      ∃ g', serve (a :: acks) g = .ok [] g' ∧ Answered g g' := by
  unfold serve
  rcases handler_freed a hfreed with ⟨e, g', h⟩ | ⟨g', h, hanswered⟩
  · rw [h]
    exact .inl ⟨e, g', rfl⟩
  · rw [h]
    exact .inr ⟨g', rfl, hanswered⟩

/-! ### The more-bit -/

/-- `COAP_OPT_BLOCK_MORE`. -/
def coapOptBlockMore (o : CoapOpt) : Bool :=
  match o.data.getLast? with
  | some b => b &&& 8 ≠ 0
  | none => false

/-- The more-bit of the block a PDU carries, which a receiver reads from the first Block1 option. -/
def moreBit (pdu : Pdu) : Option Bool :=
  (pdu.options.find? (·.number = LIBCOAP_COAP_OPTION_BLOCK1)).map coapOptBlockMore

theorem getLast_coapEncodeVarSafe {val : UInt32} {b : UInt8}
    (h : (coapEncodeVarSafe val).getLast? = some b) : b = val.toUInt8 := by
  unfold coapEncodeVarSafe at h
  split at h
  · cases h
  split at h
  · cases h
    rfl
  split at h
  · cases h
    rfl
  split at h <;> cases h <;> rfl

theorem testBit_value {b : CoapBlock} (hm : b.m = false) (hszx : b.szx < 8) :
    b.value.toNat.testBit 3 = false := by
  have hlt : b.szx.toNat < 2 ^ 3 := hszx
  have hszx' : b.szx.toNat.testBit 3 = false := Nat.testBit_lt_two_pow hlt
  unfold CoapBlock.value
  rw [hm, UInt32.toNat_or, UInt32.toNat_or, UInt32.toNat_shiftLeft, Nat.testBit_or,
    Nat.testBit_or, Nat.testBit_mod_two_pow, UInt8.toNat_toUInt32, hszx']
  simp [Nat.testBit_shiftLeft]

/-- The more-bit of an option is that of the block. -/
theorem coapOptBlockMore_value {number : UInt16} {b : CoapBlock} (hm : b.m = false)
    (hszx : b.szx < 8) : coapOptBlockMore ⟨number, coapEncodeVarSafe b.value⟩ = false := by
  unfold coapOptBlockMore
  split
  · rename_i byte hbyte
    rw [getLast_coapEncodeVarSafe hbyte]
    have hzero : b.value.toUInt8 &&& 8 = 0 := by
      apply UInt8.toNat_inj.mp
      have hbit : (b.value.toNat % 256).testBit 3 = false := by
        rw [show 256 = 2 ^ 8 from rfl, Nat.testBit_mod_two_pow, testBit_value hm hszx]
        rfl
      rw [UInt8.toNat_and, UInt32.toNat_toUInt8]
      have h := Nat.and_two_pow (b.value.toNat % 256) 3
      rw [hbit] at h
      exact h
    simp [hzero]
  · rfl

/-! ### One upload -/

/-- What the requests of an upload should be: slices of the payload one after the other that cover
it, with the more-bit on all but the last. -/
structure CoversExactly (cfg : Cfg) (payload : List UInt8) (rs : List Request) : Prop where
  slices : (rs.map fun r => (r.pdu cfg).payload).flatten = payload
  more : ∀ i (h : i < rs.length), moreBit ((rs.get ⟨i, h⟩).pdu cfg) =
    some (decide (i + 1 < rs.length))

/-- An upload covers its payload. -/
def Upload.Covers (up : Upload) (cfg : Cfg) (g : Globals) : Prop :=
  ∃ rs g', up.run g = .ok rs g' ∧ CoversExactly cfg up.bytes rs

/-- The PDU the first block is added to. -/
def Upload.firstPdu (up : Upload) (cfg : Cfg) (g : Globals) : Pdu :=
  headerPdu cfg (startRequest g).token (firstOptions g up.len ++ addedSize1 g up.len)

/-- A payload of one block, that is copied as it is and sent from its start, with room for it and
for a Block1 option. -/
structure Upload.SingleBlock (up : Upload) (cfg : Cfg) (g : Globals) : Prop where
  clean : percent ∉ up.bytes
  size : up.bytes.length ≤ (blockSize g.block.szx).toNat
  start : up.bytes = [] ∨ g.block.num * blockSize g.block.szx = 0
  room : (up.firstPdu cfg g).HasRoom up.bytes
  option : ∃ o ∈ (up.firstPdu cfg g).options, o.number = LIBCOAP_COAP_OPTION_BLOCK1

/-- What the runs keep: the size exponent has three bits, and the Block1 options earlier uploads
left in the list have no more-bit. -/
structure Settled (g : Globals) : Prop where
  szx : g.block.szx < 8
  more : ∀ o ∈ g.optlist, o.number = LIBCOAP_COAP_OPTION_BLOCK1 → coapOptBlockMore o = false

theorem Upload.length_bytes (up : Upload) : up.bytes.length = up.len.toNat := by
  have := up.readable
  rw [Upload.bytes, List.length_take]
  omega

/-- The state an upload is sent from. -/
def Upload.started (up : Upload) (g : Globals) : Globals :=
  { startRequest g with
    method := xyCoapMethodGet up.method, msgtype := xyCoapTypeGet up.type }

theorem started_frame (up : Upload) (g : Globals) :
    (up.started g).flagsBlock = g.flagsBlock ∧ (up.started g).optlist = g.optlist ∧
      (up.started g).block = g.block ∧ (up.started g).token = (startRequest g).token := by
  unfold Upload.started startRequest
  dsimp only
  split <;> split <;> exact ⟨rfl, rfl, rfl, rfl⟩

/-- A send is a send of its copy. -/
theorem Upload.send_eq (up : Upload) (g : Globals) :
    xyCoapPktSend up.type up.method (some up.mem) up.len g =
      match xyPayloadCopy up.mem up.len with
      | .error e => .error e (up.started g)
      | .ok copied => sendCopied (up.started g) copied := by
  unfold xyCoapPktSend
  dsimp only
  rw [if_neg up.method_ne, if_neg up.type_ne]
  rfl

/-- The first request of an upload, from the state before it. -/
def Upload.first (up : Upload) (g : Globals) (data : List UInt8) : Request :=
  firstRequest (up.started g) data

/-- An upload whose copy has these bytes sends one request and then returns, or reads freed
memory. -/
theorem Upload.run_spec (up : Upload) {g : Globals} {copied : Option (List UInt8)}
    (hflags : g.flagsBlock = true) (hcopy : xyPayloadCopy up.mem up.len = .ok copied) :
    ((∃ e g', up.run g = .error e g') ∨
      ∃ g', up.run g = .ok [up.first g (copied.getD [])] g' ∧
        g'.optlist = firstOptions g (UInt32.ofNat (copied.getD []).length) ∧
        (g.block.szx < 8 → g'.block.szx < 8)) ∧
    (UInt32.ofNat (copied.getD []).length ≤ (g.block.num + 1) * blockSize g.block.szx →
      ∃ g', up.run g = .ok [up.first g (copied.getD [])] g') := by
  obtain ⟨hflag, hlist, hblock, -⟩ := started_frame up g
  have hlen : (copied.getD []).length < 2 ^ 32 :=
    lt_of_le_of_lt (length_copied up.memory hcopy) up.len.toNat_lt
  obtain ⟨g₁, hsend, hlength, hfreed, hsent, hoptions⟩ :=
    sendCopied_block (hflag.trans hflags) up.notGet up.notDelete hlen
  have hfirst : firstOptions (up.started g) (UInt32.ofNat (copied.getD []).length) =
      firstOptions g (UInt32.ofNat (copied.getD []).length) := by
    rw [firstOptions, firstOptions, firstBlock, firstBlock, hlist, hblock]
  rw [hfirst] at hoptions
  have hpacket : xyCoapPktSend up.type up.method (some up.mem) up.len g =
      .ok (some (up.first g (copied.getD []))) g₁ := by
    rw [up.send_eq, hcopy]
    exact hsend
  obtain ⟨a, acks, hacks⟩ := List.exists_cons_of_length_pos
    (lt_of_le_of_lt (Nat.zero_le _) up.enough)
  have hszx : g₁.block.szx = g.block.szx := by
    rw [hsent, firstBlock, hblock]
  unfold Upload.run
  rw [hpacket]
  dsimp only
  rw [hacks]
  constructor
  · rcases serve_freed a acks hfreed with ⟨e, g', h⟩ | ⟨g', h, hanswered⟩
    · rw [h]
      exact .inl ⟨e, g', rfl⟩
    · rw [h]
      refine .inr ⟨g', rfl, hanswered.optlist.trans hoptions, fun h => hanswered.szx ?_⟩
      rwa [hszx]
  · intro hle
    have hnum : g₁.block.num = g.block.num := by
      rw [hsent, firstBlock, hblock]
    obtain ⟨g', h, -⟩ := handler_ready a (g := g₁) (by rwa [hlength, hnum, hszx])
    refine ⟨g', ?_⟩
    unfold serve
    rw [h]

/-! ### Exactly one block -/

theorem Request.length_payload_le (cfg : Cfg) (r : Request) :
    (r.pdu cfg).payload.length ≤ r.data.length := by
  rw [r.pdu_payload]
  split
  · exact le_rfl
  · exact Nat.zero_le _

theorem coversExactly_single {cfg : Cfg} {payload : List UInt8} {r : Request} :
    CoversExactly cfg payload [r] ↔
      (r.pdu cfg).payload = payload ∧ moreBit (r.pdu cfg) = some false := by
  constructor
  · rintro ⟨hslices, hmore⟩
    exact ⟨by simpa using hslices, by simpa using hmore 0 Nat.zero_lt_one⟩
  · rintro ⟨hpayload, hmore⟩
    refine ⟨by simpa using hpayload, fun i h => ?_⟩
    obtain rfl : i = 0 := by simpa using h
    simpa using hmore

theorem addData_options (pdu : Pdu) (data : List UInt8) :
    (pdu.addData data).options = pdu.options := by
  unfold Pdu.addData
  split
  · rfl
  · split <;> rfl

theorem mem_addToken_options {pdu : Pdu} {token : List UInt8} :
    (pdu.addToken token).options = pdu.options := by
  unfold Pdu.addToken
  split <;> rfl

/-- A PDU has no options but those added. -/
theorem mem_foldl_addOption {o : CoapOpt} (options : List CoapOpt) {pdu : Pdu}
    (h : o ∈ (options.foldl Pdu.addOption pdu).options) : o ∈ pdu.options ∨ o ∈ options := by
  induction options generalizing pdu with
  | nil => exact .inl h
  | cons opt options ih =>
    rcases ih h with h | h
    · unfold Pdu.addOption at h
      dsimp only at h
      split at h
      · exact .inl h
      · rcases List.mem_append.mp h with h | h
        · exact .inl h
        · exact .inr (List.mem_cons.mpr (.inl (List.mem_singleton.mp h)))
    · exact .inr (List.mem_cons_of_mem _ h)

theorem mem_headerPdu {cfg : Cfg} {token : List UInt8} {options : List CoapOpt} {o : CoapOpt}
    (h : o ∈ (headerPdu cfg token options).options) : o ∈ options := by
  rcases mem_foldl_addOption options h with h | h
  · rw [mem_addToken_options] at h
    cases h
  · exact h

/-- The Block1 options of a single block have no more-bit. -/
theorem Settled.firstOptions {g : Globals} (hg : Settled g) {length : UInt32}
    (hle : length ≤ blockSize g.block.szx) :
    ∀ o ∈ firstOptions g length, o.number = LIBCOAP_COAP_OPTION_BLOCK1 →
      coapOptBlockMore o = false := by
  intro o ho hnumber
  rcases List.mem_append.mp ((sortOptlist_perm _).mem_iff.mp ho) with h | h
  · exact hg.more o h hnumber
  · rw [List.mem_singleton.mp h]
    refine coapOptBlockMore_value (b := firstBlock g length) ?_ hg.szx
    have hlt : ¬ blockSize g.block.szx < length := Nat.not_lt.mpr hle
    simp [firstBlock, hlt]

theorem length_blockOf (data : List UInt8) (b : CoapBlock) : (blockOf data b).length =
    min (blockSize b.szx).toNat (data.length - (b.num * blockSize b.szx).toNat) := by
  rw [blockOf, List.length_take, List.length_drop]

/-- The first request of an upload whose payload is copied as it is. -/
theorem Upload.first_pdu (up : Upload) (cfg : Cfg) (g : Globals) :
    (up.first g up.bytes).pdu cfg =
      (up.firstPdu cfg g).addData (blockOf up.bytes (firstBlock g up.len)) := by
  obtain ⟨hflag, hlist, hblock, htoken⟩ := started_frame up g
  have hlength : UInt32.ofNat up.bytes.length = up.len := by
    rw [up.length_bytes, UInt32.ofNat_toNat]
  unfold Upload.first firstRequest Request.pdu Upload.firstPdu
  dsimp only
  rw [hlength, htoken, firstOptions, firstOptions, firstBlock, firstBlock, hlist, hblock,
    addedSize1, addedSize1, hflag]

theorem Upload.firstPdu_data (up : Upload) (cfg : Cfg) (g : Globals) :
    (up.firstPdu cfg g).data = none :=
  headerPdu_data cfg _ _

/-- An upload that covers its payload had room for a Block1 option, copied the payload as it is,
and sent it as a single block from the start. -/
theorem Upload.singleBlock_of_covers (up : Upload) {cfg : Cfg} {g : Globals}
    (hflags : g.flagsBlock = true) (h : up.Covers cfg g) : up.SingleBlock cfg g := by
  obtain ⟨rs, g', hrun, hcovers⟩ := h
  rcases hcopy : xyPayloadCopy up.mem up.len with e | copied
  · rw [Upload.run, up.send_eq, hcopy] at hrun
    cases hrun
  have hrs : rs = [up.first g (copied.getD [])] := by
    rcases (up.run_spec hflags hcopy).1 with ⟨e, g₁, h⟩ | ⟨g₁, h, -⟩
    · rw [hrun] at h
      cases h
    · rw [hrun] at h
      cases h
      rfl
  subst hrs
  obtain ⟨hpayload, hmore⟩ := coversExactly_single.mp hcovers
  have hclean : percent ∉ up.bytes := by
    intro hp
    have hshort := length_copied_percent up.memory hp hcopy
    have hle := Request.length_payload_le cfg (up.first g (copied.getD []))
    rw [hpayload, up.length_bytes, Upload.first, firstRequest, length_blockOf] at hle
    omega
  have hbytes : copied.getD [] = up.bytes := by
    rw [xyPayloadCopy_clean up.readable up.int hclean] at hcopy
    cases hcopy
    rfl
  rw [hbytes, up.first_pdu cfg g, moreBit, addData_options, Option.map_eq_some_iff] at hmore
  rw [hbytes, up.first_pdu cfg g, addData_payload _ (up.firstPdu_data cfg g)] at hpayload
  have hlength : up.bytes ≠ [] → blockOf up.bytes (firstBlock g up.len) = up.bytes ∧
      (up.firstPdu cfg g).HasRoom up.bytes := by
    intro hne
    by_cases hroom : (up.firstPdu cfg g).HasRoom (blockOf up.bytes (firstBlock g up.len))
    · rw [if_pos hroom] at hpayload
      exact ⟨hpayload, hpayload ▸ hroom⟩
    · rw [if_neg hroom] at hpayload
      exact absurd hpayload.symm hne
  have hblock : up.bytes ≠ [] → up.bytes.length =
      min (blockSize g.block.szx).toNat
        (up.bytes.length - (g.block.num * blockSize g.block.szx).toNat) := by
    intro hne
    conv_lhs => rw [← (hlength hne).1]
    exact length_blockOf _ _
  refine ⟨hclean, ?_, ?_, ?_, ?_⟩
  · by_cases hne : up.bytes = []
    · rw [hne]
      exact Nat.zero_le _
    · have := hblock hne
      omega
  · refine or_iff_not_imp_left.mpr fun hne => ?_
    have := hblock hne
    have hpos := List.length_pos_of_ne_nil hne
    apply UInt32.toNat_inj.mp
    rw [UInt32.toNat_zero]
    omega
  · by_cases hne : up.bytes = []
    · exact .inl hne
    · exact (hlength hne).2
  · obtain ⟨o, hfind, -⟩ := hmore
    exact ⟨o, List.mem_of_find?_eq_some hfind, by simpa using List.find?_some hfind⟩

theorem Upload.covers_of_singleBlock (up : Upload) {cfg : Cfg} {g : Globals}
    (hflags : g.flagsBlock = true) (hg : Settled g) (h : up.SingleBlock cfg g) :
    up.Covers cfg g := by
  have hcopy : xyPayloadCopy up.mem up.len = .ok (some up.bytes) :=
    xyPayloadCopy_clean up.readable up.int h.clean
  have hlen : UInt32.ofNat up.bytes.length = up.len := by
    rw [up.length_bytes, UInt32.ofNat_toNat]
  have hle : up.len ≤ blockSize g.block.szx := by
    have := h.size
    rw [up.length_bytes] at this
    exact this
  have hready : up.len ≤ (g.block.num + 1) * blockSize g.block.szx := by
    rcases h.start with hnil | hstart
    · have hzero : up.len = 0 := by
        rw [← hlen, hnil]
        rfl
      rw [hzero]
      exact Nat.zero_le _
    · rwa [UInt32.add_mul, hstart, UInt32.zero_add, UInt32.one_mul]
  have hblock : blockOf up.bytes (firstBlock g up.len) = up.bytes := by
    unfold blockOf firstBlock
    rcases h.start with hnil | hstart
    · rw [hnil, List.drop_nil, List.take_nil]
    · rw [hstart, UInt32.toNat_zero, List.drop_zero, List.take_of_length_le h.size]
  obtain ⟨g', hrun⟩ := (up.run_spec hflags hcopy).2 (hlen.symm ▸ hready)
  refine ⟨_, g', hrun, coversExactly_single.mpr ?_⟩
  change ((up.first g up.bytes).pdu cfg).payload = up.bytes ∧
    moreBit ((up.first g up.bytes).pdu cfg) = some false
  rw [up.first_pdu cfg g, addData_payload _ (up.firstPdu_data cfg g), hblock, if_pos h.room,
    moreBit, addData_options, Option.map_eq_some_iff]
  refine ⟨rfl, ?_⟩
  obtain ⟨o, hmem, hnumber⟩ := h.option
  obtain ⟨o', hfind⟩ := Option.isSome_iff_exists.mp
    (List.find?_isSome (p := (·.number = LIBCOAP_COAP_OPTION_BLOCK1)).mpr ⟨o, hmem, by simpa⟩)
  have hnumber' : o'.number = LIBCOAP_COAP_OPTION_BLOCK1 := by simpa using List.find?_some hfind
  refine ⟨o', hfind, ?_⟩
  rcases List.mem_append.mp (mem_headerPdu (List.mem_of_find?_eq_some hfind)) with hmem' | hmem'
  · exact hg.firstOptions hle o' hmem' hnumber'
  · have := addedSize1_not_isBlock o' hmem'
    simp [isBlock, hnumber'] at this

theorem Upload.covers_iff (up : Upload) {cfg : Cfg} {g : Globals} (hflags : g.flagsBlock = true)
    (hg : Settled g) : up.Covers cfg g ↔ up.SingleBlock cfg g :=
  ⟨up.singleBlock_of_covers hflags, up.covers_of_singleBlock hflags hg⟩

/-! ### Runs of uploads -/

inductive BlockEvent
  | head (msgid : UInt16) (token : List UInt8)
  | config (options : List (Int × List UInt8))
  | upload (up : Upload)

/-- What an event does, with the requests it sends. -/
def execBlock (cfg : Cfg) : BlockEvent → EStateM CoapFault Globals (List Request)
  | .head msgid token, g => .ok [] (xyConfigCoapHead g msgid token)
  | .config options, g => .ok [] (atCOAPOPTIONReq cfg g options)
  | .upload up, g => up.run g

/-- An upload with block-wise transfer on is sent as it should be. -/
def UploadCovers (cfg : Cfg) (g : Globals) : BlockEvent → Prop
  | .upload up => g.flagsBlock = true → up.Covers cfg g
  | _ => True

/-- An upload with block-wise transfer on is a single block. -/
def UploadsSingle (cfg : Cfg) (g : Globals) : BlockEvent → Prop
  | .upload up => g.flagsBlock = true → up.SingleBlock cfg g
  | _ => True

theorem xyConfigCoapOption_szx (cfg : Cfg) {g : Globals} (h : g.block.szx < 8) (opt : Int)
    (value : List UInt8) : (xyConfigCoapOption cfg g opt value).block.szx < 8 := by
  unfold xyConfigCoapOption
  split
  · exact (by decide : (5 : UInt8) < 8)
  · split <;> exact h

theorem settled_config {cfg : Cfg} {g : Globals} (hg : Settled g)
    (options : List (Int × List UInt8)) : Settled (atCOAPOPTIONReq cfg g options) := by
  constructor
  · have hfold : ∀ (options : List (Int × List UInt8)) (g : Globals), g.block.szx < 8 →
        (options.foldl (fun g o => xyConfigCoapOption cfg g o.1 o.2) g).block.szx < 8 := by
      intro options
      induction options with
      | nil => exact fun _ h => h
      | cons o options ih => exact fun g h => ih _ (xyConfigCoapOption_szx cfg h o.1 o.2)
    exact hfold options _ hg.szx
  · intro o ho hnumber
    rw [atCOAPOPTIONReq_optlist] at ho
    have hwanted := wanted_not_block cfg options o ho
    simp [isBlock, hnumber] at hwanted

/-- A send frees the copy, and keeps the block size. -/
theorem sendCopied_frees {g g' : Globals} {copied : Option (List UInt8)} {r : Option Request}
    (h : sendCopied g copied = .ok r g') :
    g'.block.szx = g.block.szx ∧ (g'.payload.length ≠ 0 → g'.payload.s = none) := by
  unfold sendCopied at h
  dsimp only at h
  split at h
  · cases h
  · cases h
    obtain ⟨hlength, hfreed, hblock⟩ := freePayload_freed
      { prepareRequest g copied with txMid := (prepareRequest g copied).txMid + 1 }
    refine ⟨(congrArg CoapBlock.szx hblock).trans ?_, hfreed⟩
    unfold prepareRequest xyCoapBlocksizeSet setPayload
    dsimp only
    split <;> split <;> first | rfl | (split <;> rfl)

theorem settled_upload {cfg : Cfg} {g g' : Globals} {up : Upload} {rs : List Request}
    (hg : Settled g) (hsingle : g.flagsBlock = true → up.SingleBlock cfg g)
    (h : up.run g = .ok rs g') : Settled g' := by
  rcases hcopy : xyPayloadCopy up.mem up.len with e | copied
  · rw [Upload.run, up.send_eq, hcopy] at h
    cases h
  by_cases hflags : g.flagsBlock = true
  · have hclean : copied = some up.bytes := by
      rw [xyPayloadCopy_clean up.readable up.int (hsingle hflags).clean] at hcopy
      cases hcopy
      rfl
    subst hclean
    rcases (up.run_spec hflags hcopy).1 with ⟨e, g₁, hrun⟩ | ⟨g₁, hrun, hlist, hszx⟩
    · rw [h] at hrun
      cases hrun
    · rw [h] at hrun
      cases hrun
      refine ⟨hszx hg.szx, ?_⟩
      rw [hlist]
      refine hg.firstOptions (UInt32.le_iff_toNat_le.mpr ?_)
      rw [Option.getD_some, UInt32.toNat_ofNat_of_lt'
        (lt_of_le_of_lt up.length_bytes.le up.len.toNat_lt)]
      exact (hsingle hflags).size
  · have hsend := up.send_eq g
    rw [hcopy] at hsend
    dsimp only at hsend
    obtain ⟨-, -, hblock, -⟩ := started_frame up g
    rcases hcopied : sendCopied (up.started g) copied with ⟨r, g₁⟩ | ⟨e, g₁⟩
    · rw [hcopied] at hsend
      obtain ⟨hszx, hfreed⟩ := sendCopied_frees hcopied
      obtain ⟨request, rfl, -⟩ := sendCopied_spec hcopied
      obtain ⟨-, ⟨value, hlist⟩, -⟩ := xyCoapPktSend_spec hsend
      rw [insertedBlock, if_neg fun h => hflags h.1, List.append_nil] at hlist
      obtain ⟨a, acks, hacks⟩ := List.exists_cons_of_length_pos
        (lt_of_le_of_lt (Nat.zero_le _) up.enough)
      rw [Upload.run, hsend] at h
      dsimp only at h
      rw [hacks] at h
      rcases serve_freed a acks hfreed with ⟨e, g₂, hserve⟩ | ⟨g₂, hserve, hanswered⟩
      · rw [hserve] at h
        cases h
      · rw [hserve] at h
        cases h
        refine ⟨hanswered.szx ?_, fun o ho => hg.more o ?_⟩
        · rw [hszx, hblock]
          exact hg.szx
        · rw [hanswered.optlist] at ho
          exact hlist.mem_iff.mp ho
    · rw [hcopied] at hsend
      rw [Upload.run, hsend] at h
      cases h

theorem settled_exec {cfg : Cfg} {g g' : Globals} {e : BlockEvent} {rs : List Request}
    (hg : Settled g) (hok : UploadsSingle cfg g e) (h : execBlock cfg e g = .ok rs g') :
    Settled g' := by
  cases e with
  | head msgid token =>
    cases h
    exact ⟨hg.szx, hg.more⟩
  | config options =>
    cases h
    exact settled_config hg options
  | upload up => exact settled_upload hg hok h

theorem uploadsSingle_iff {cfg : Cfg} {g : Globals} (hg : Settled g) (e : BlockEvent) :
    UploadsSingle cfg g e ↔ UploadCovers cfg g e := by
  cases e with
  | upload up =>
    constructor
    · exact fun h hflags => (up.covers_iff hflags hg).mpr (h hflags)
    · exact fun h hflags => (up.covers_iff hflags hg).mp (h hflags)
  | head => exact Iff.rfl
  | config => exact Iff.rfl

/-- **Uploads cover their payloads** in a run from the boot on, exactly when each of them is a
single block: the copy of the payload is freed with the first request, and the block number is
not reset between uploads. -/
theorem uploads_cover_iff (cfg : Cfg) (txMid : UInt16) (events : List BlockEvent) :
    Support.Along (execBlock cfg) (UploadsSingle cfg) events { txMid := txMid } ↔
      Support.Along (execBlock cfg) (UploadCovers cfg) events { txMid := txMid } :=
  Support.along_iff_of_invariant Settled (fun _ e hg => uploadsSingle_iff hg e)
    (fun _ _ _ _ hg hok h => settled_exec hg hok h)
    ⟨(by decide : (6 : UInt8) < 8), fun _ h => by cases h⟩

/-- The acknowledgement of a message id, with the default size of 512 bytes. -/
def plainAck (tid : UInt16) : Ack := ⟨2, 0x5F, tid, true, 5, false, by decide, by decide, by decide⟩

/-- A payload of one byte more than a block. -/
def twoBlocks : Upload where
  type := ['c', 'o', 'n']
  method := ['p', 'u', 't']
  mem := List.replicate 513 65
  len := 513
  acks := (List.range 514).map fun i => plainAck (UInt16.ofNat i)
  type_ne := by decide
  method_ne := by decide
  notGet := by decide
  notDelete := by decide
  readable := by rw [List.length_replicate]; decide
  int := by decide
  memory := by rw [List.length_replicate]; decide
  enough := by rw [List.length_map, List.length_range]; decide

/-- The second block of an upload is read from freed memory. -/
theorem not_uploads_cover : ¬ ∀ (cfg : Cfg) (txMid : UInt16) (events : List BlockEvent),
    Support.Along (execBlock cfg) (UploadCovers cfg) events { txMid := txMid } := by
  intro h
  let cfg : Cfg := ⟨fun _ => [], fun _ => [], 1152⟩
  have hcovers := ((h cfg 6 [.config [(27, [])], .upload twoBlocks]).2 [] _ rfl).1 rfl
  have hsize := (twoBlocks.singleBlock_of_covers rfl hcovers).size
  rw [twoBlocks.length_bytes] at hsize
  exact absurd hsize (by decide)

end XY1100.Coap
