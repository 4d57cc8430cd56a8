import XY1100.Coap.Iterator

/-!
# Coap — a request on its way to the peer

A request is built (`Wire`), its header encoded, the datagram sent, and parsed by a peer that runs
the same library (`Parse`, `Iterator`).

* `Pdu.Sound`: what every PDU that was built satisfies, whatever was left out of it.
* `datagram_eq`: the datagram of a PDU is the bytes of its message.
* `newRequest_datagram`: the datagram of a request, and the memory it is built in.
* `request_arrives`: the peer accepts the datagram of a request, and finds in it what was put in.
* `requestPdu_whole`: nothing is missing from a request that fits.
* `recoded_iff`: a message that is read and built again is the same datagram if the numbers of its
  options stay below `2 ^ 16`, and only then.
-/

namespace XY1100.Coap
open Support (Buf positions gaps lastPosition)

/-! ### PDUs that were built -/

/-- `coap_session_set_mtu` with lwIP. -/
def coapSessionSetMtu (mtu : Nat) : Nat :=
  if COAP_MAX_MESSAGE_SIZE_TCP16 + 4 < mtu then COAP_MAX_MESSAGE_SIZE_TCP16 + 4 else mtu

/-- `coap_session_max_pdu_size`, over UDP without TLS. -/
def coapSessionMaxPduSize (mtu : Nat) : Nat := if 4 < mtu then mtu - 4 else 0

/-- What holds of a PDU that was built. -/
structure Pdu.Sound (pdu : Pdu) : Prop where
  fits : pdu.maxSize ≠ 0 → pdu.usedSize ≤ pdu.maxSize
  token : pdu.token.length ≤ 8
  data : pdu.data ≠ some []
  /-- The deltas do not wrap. -/
  deltas : ((optionDeltas 0 pdu.options).map Prod.fst).sum = pdu.maxDelta.toNat
  last : pdu.maxDelta = lastPosition 0 (numbered pdu.options)

theorem addToken_sound (size : Nat) (token : List UInt8) :
    (Pdu.addToken { maxSize := size } token).Sound := by
  unfold Pdu.addToken
  split_ifs with h
  · exact ⟨fun _ => Nat.zero_le _, by simp, by simp, rfl, rfl⟩
  · obtain ⟨hlong, hfits⟩ := not_or.mp h
    obtain ⟨-, hfits⟩ := not_or.mp hfits
    exact ⟨fun hne => (not_not.mp hfits).resolve_left hne, by simp only; omega, by simp, rfl, rfl⟩

theorem addOption_sound {pdu : Pdu} (h : pdu.Sound) (opt : CoapOpt) :
    (pdu.addOption opt).Sound := by
  unfold Pdu.addOption
  dsimp only
  split_ifs with hbad
  · exact ⟨h.fits, h.token, by simp, h.deltas, h.last⟩
  · obtain ⟨horder, hfits⟩ := not_or.mp hbad
    refine ⟨fun hne => (not_not.mp hfits).resolve_left hne, h.token, by simp, ?_, ?_⟩
    · simp only
      rw [optionDeltas_append, List.map_append, List.sum_append, h.deltas, ← h.last]
      have hle := UInt16.le_iff_toNat_le.mp (UInt16.not_lt.mp horder)
      simp only [List.map_cons, List.map_nil, List.sum_cons, List.sum_nil, Nat.add_zero]
      rw [UInt16.toNat_sub_of_le _ _ (UInt16.not_lt.mp horder)]
      omega
    · simp [numbered, Support.lastPosition_append]

theorem addOptions_sound {pdu : Pdu} (h : pdu.Sound) (options : List CoapOpt) :
    (options.foldl Pdu.addOption pdu).Sound := by
  induction options generalizing pdu with
  | nil => exact h
  | cons opt options ih => exact ih (addOption_sound h opt)

theorem addData_sound {pdu : Pdu} (h : pdu.Sound) (data : List UInt8) :
    (pdu.addData data).Sound := by
  unfold Pdu.addData
  split_ifs with hnil hfits
  · exact h
  · refine ⟨fun hne => hfits.resolve_left hne, h.token, ?_, h.deltas, h.last⟩
    simpa using hnil
  · exact ⟨h.fits, h.token, by simp, h.deltas, h.last⟩

theorem requestPdu_sound (cfg : Cfg) (r : Request) : (r.pdu cfg).Sound :=
  addData_sound (addOptions_sound (addToken_sound _ _) _) _

/-! ### The datagram -/

/-- The message of a PDU that was built. -/
def messageOf (pdu : CoapPdu) (abs : Pdu) : Message :=
  ⟨pdu.type, pdu.code, pdu.tid, abs.token, optionDeltas 0 abs.options, abs.data⟩

/-- The numbers a receiver finds are those the options were added with. -/
theorem numbers_messageOf (pdu : CoapPdu) (abs : Pdu) :
    (messageOf pdu abs).numbers = numbered abs.options := by
  have h : (optionDeltas 0 abs.options).map (fun o => (UInt16.ofNat o.1, o.2)) =
      gaps 0 (numbered abs.options) := by
    simp [optionDeltas, Function.comp_def]
  rw [Message.numbers, messageOf, h]
  refine Support.positions_gaps (fun a b => ?_) 0 _
  rw [UInt16.add_comm, UInt16.sub_add_cancel]

theorem length_le_flatMap {os : List (Nat × List UInt8)} {o : Nat × List UInt8} (h : o ∈ os) :
    o.2.length ≤ (os.flatMap optionBytes).length := by
  obtain ⟨l, r, rfl⟩ := List.append_of_mem h
  rw [List.flatMap_append, List.flatMap_cons, List.length_append, List.length_append, optionBytes,
    List.length_append]
  omega

/-- The message of a PDU that was built is one a datagram can say. -/
theorem messageOf_ok {pdu : CoapPdu} {abs : Pdu} (h : Refines pdu abs) (hs : abs.Sound)
    (hmax : abs.maxSize ≠ 0) (hsize : abs.maxSize ≤ COAP_MAX_MESSAGE_SIZE_TCP16)
    (htype : pdu.type < 4) (hcode : pdu.code ≠ 0) : (messageOf pdu abs).Ok := by
  refine ⟨htype, hs.token, fun o ho => ?_, hs.data, fun h0 => absurd h0 hcode⟩
  have hlen := congrArg List.length h.bytes
  have hfits := hs.fits hmax
  have hle := length_le_flatMap ho
  have hused := h.usedSize
  simp only [COAP_MAX_MESSAGE_SIZE_TCP16] at hsize
  rw [Support.Buf.length_read, Pdu.bytes, List.length_append, List.length_append] at hlen
  simp only [messageOf] at ho hle
  refine ⟨?_, by omega⟩
  obtain ⟨d, -, rfl⟩ := List.mem_map.mp ho
  have := d.1.toNat_lt
  simp only
  omega

/-- The first byte of a header. -/
theorem encodeFirstByte {type tkl : UInt8} (htype : type < 4) (htkl : tkl.toNat ≤ 8) :
    COAP_DEFAULT_VERSION <<< 6 ||| type <<< 4 ||| tkl =
      UInt8.ofNat (64 + 16 * type.toNat + tkl.toNat) := by
  have h : ∀ t < 4, ∀ k ≤ 8, COAP_DEFAULT_VERSION <<< 6 ||| UInt8.ofNat t <<< 4 ||| UInt8.ofNat k =
      UInt8.ofNat (64 + 16 * t + k) := by decide
  have := h type.toNat (UInt8.lt_iff_toNat_lt.mp htype) tkl.toNat htkl
  rwa [UInt8.ofNat_toNat, UInt8.ofNat_toNat] at this

/-- The datagram of a PDU is the bytes of its message. -/
theorem datagram_eq {pdu : CoapPdu} {abs : Pdu} (h : Refines pdu abs) (hs : abs.Sound)
    (htoken : pdu.token = 4) (hspace : pdu.maxHdrSize = 4) (htype : pdu.type < 4) :
    datagram (coapPduEncodeHeader pdu .udp).1 = (messageOf pdu abs).bytes := by
  have htkl : pdu.tokenLength.toNat ≤ 8 := by
    rw [h.tokenLength]
    exact hs.token
  simp only [coapPduEncodeHeader, putHeader, List.length_cons, List.length_nil, hspace,
    datagram, htoken]
  rw [if_neg (by omega)]
  simp only
  have hbody := h.bytes
  rw [htoken] at hbody
  rw [Support.Buf.read_add]
  have hhead (bs : List UInt8) (hl : bs.length = 4) : (pdu.mem.write 0 bs).read 0 4 = bs := by
    rw [← hl]
    exact Support.Buf.read_write ..
  have hrest (bs : List UInt8) (hl : bs.length = 4) :
      (pdu.mem.write 0 bs).read 4 pdu.usedSize = abs.bytes := by
    rw [← hbody]
    exact Support.Buf.read_congr fun i _ => Support.Buf.write_outside (by omega)
  rw [hhead _ rfl, hrest _ rfl, encodeFirstByte htype htkl, h.tokenLength, Message.bytes,
    Message.header, Message.tail, messageOf, Pdu.bytes, List.append_assoc]
  have hhi : (pdu.tid >>> 8).toUInt8 = UInt8.ofNat (pdu.tid.toNat / 256) := by
    apply UInt8.toNat_inj.mp
    rw [UInt16.toNat_toUInt8, UInt16.toNat_shiftRight, UInt8.toNat_ofNat',
      show (8 : UInt16).toNat % 16 = 8 from rfl, Nat.shiftRight_eq_div_pow]
  have hlo : pdu.tid.toUInt8 = UInt8.ofNat pdu.tid.toNat := by
    apply UInt8.toNat_inj.mp
    rw [UInt16.toNat_toUInt8, UInt8.toNat_ofNat']
  rw [hhi, hlo]

/-! ### What arrives -/

/-- `coap_get_data`. -/
def coapGetData (pdu : CoapPdu) : Option (List UInt8) :=
  pdu.data.map fun data => pdu.mem.read data (pdu.usedSize - (data - pdu.token))

/-- The payload of a received message is where `data` points. -/
theorem HoldsMessage.getData {pdu : CoapPdu} {msg : Message} (h : HoldsMessage pdu msg) :
    coapGetData pdu = msg.payload := by
  have hused := h.usedSize
  have htail := h.tail
  rw [coapGetData, h.data]
  cases hp : msg.payload with
  | none => rfl
  | some payload =>
    have hlen :
        msg.tail.length = (msg.options.flatMap optionBytes).length + (1 + payload.length) := by
      rw [Message.tail, hp, List.length_append, payloadBytes, List.length_cons]
      omega
    rw [hlen, Support.Buf.read_add, Support.Buf.read_add, Message.tail, hp] at htail
    obtain ⟨-, hrest⟩ := List.append_inj htail (by simp)
    rw [payloadBytes, ← List.singleton_append] at hrest
    obtain ⟨-, hpay⟩ := List.append_inj hrest (by simp)
    simp only [Option.map_some, Option.some.injEq]
    rw [show pdu.usedSize - (pdu.token + pdu.usedSize - payload.length - pdu.token) =
        payload.length by omega,
      show pdu.token + pdu.usedSize - payload.length = pdu.token + msg.token.length +
        (msg.options.flatMap optionBytes).length + 1 by omega]
    exact hpay

/-- What a peer finds in a message it received. -/
structure Finds (pdu : CoapPdu) (type code : UInt8) (tid : UInt16) (token : List UInt8)
    (options : List (UInt16 × List UInt8)) (payload : Option (List UInt8)) : Prop where
  type : pdu.type = type
  code : pdu.code = code
  tid : pdu.tid = tid
  token : pdu.mem.read pdu.token pdu.tokenLength.toNat = token
  options : deliveries pdu.mem (pdu.usedSize + 1) (coapOptionIteratorInit pdu none) = options
  payload : coapGetData pdu = payload

theorem HoldsMessage.finds {pdu : CoapPdu} {msg : Message} (hok : msg.Ok)
    (h : HoldsMessage pdu msg) (hsize : pdu.usedSize < 65536) :
    Finds pdu msg.type msg.code msg.tid msg.token msg.numbers msg.payload where
  type := h.type
  code := h.code
  tid := h.tid
  token := by rw [h.tokenLength]; exact h.token
  options := by
    rw [deliveries_message hok h hsize none]
    exact List.filter_true _
  payload := h.getData

/-- The peer accepts the datagram of a PDU that was built, and finds what was put in. -/
theorem built_arrives {pdu : CoapPdu} {abs : Pdu} (h : Refines pdu abs) (hs : abs.Sound)
    (hmax : abs.maxSize ≠ 0) (hsize : abs.maxSize ≤ COAP_MAX_MESSAGE_SIZE_TCP16)
    (htoken : pdu.token = 4) (hspace : pdu.maxHdrSize = 4) (htype : pdu.type < 4)
    (hcode : pdu.code ≠ 0) {peer : Buf} {len : UInt16}
    (hpeer : peer.read 0 len.toNat = datagram (coapPduEncodeHeader pdu .udp).1) :
    (coapRecv peer len).2 = true ∧
      Finds (coapRecv peer len).1 pdu.type pdu.code pdu.tid abs.token (numbered abs.options)
        abs.data := by
  have hok := messageOf_ok h hs hmax hsize htype hcode
  rw [datagram_eq h hs htoken hspace htype] at hpeer
  obtain ⟨haccepted, hholds⟩ := coapRecv_message hok hpeer
  have hlen := (read_message hpeer).1
  have hused := hholds.usedSize
  have hlt := len.toNat_lt
  have hfinds := hholds.finds hok (by omega)
  rw [numbers_messageOf] at hfinds
  exact ⟨haccepted, hfinds⟩

/-! ### Requests that fit -/

/-- The bytes a request takes from its token on. -/
def Request.body (r : Request) : List UInt8 :=
  r.token ++ (optionDeltas 0 r.options).flatMap optionBytes ++
    payloadBytes (if r.data = [] then none else some r.data)

/-- Sorted options that fit are all added. -/
theorem addOptions_all {options : List CoapOpt} {pdu : Pdu} (hdata : pdu.data = none)
    (hsorted : options.Pairwise fun a b => a.number ≤ b.number)
    (hfirst : ∀ o ∈ options, pdu.maxDelta ≤ o.number)
    (hfits : pdu.Fits (pdu.usedSize +
      ((optionDeltas pdu.maxDelta options).flatMap optionBytes).length)) :
    options.foldl Pdu.addOption pdu =
      { pdu with
        options := pdu.options ++ options,
        maxDelta := lastPosition pdu.maxDelta (numbered options),
        usedSize := pdu.usedSize +
          ((optionDeltas pdu.maxDelta options).flatMap optionBytes).length } := by
  induction options generalizing pdu with
  | nil => simp [optionDeltas, numbered, lastPosition]
  | cons opt options ih =>
    obtain ⟨hle, hsorted⟩ := List.pairwise_cons.mp hsorted
    have hnot : ¬ opt.number < pdu.maxDelta := UInt16.not_lt.mpr (hfirst opt List.mem_cons_self)
    have hlen := length_optionBytes (opt.number - pdu.maxDelta) opt.data
    have hdeltas : optionDeltas pdu.maxDelta (opt :: options) =
        ((opt.number - pdu.maxDelta).toNat, opt.data) :: optionDeltas opt.number options := rfl
    rw [hdeltas, List.flatMap_cons, List.length_append, hlen] at hfits ⊢
    have hroom : pdu.Fits (pdu.usedSize +
        coapOptEncodeSize (opt.number - pdu.maxDelta) opt.data.length) :=
      hfits.imp id fun hle' => by omega
    have hadd : pdu.addOption opt =
        { pdu with
          options := pdu.options ++ [opt], maxDelta := opt.number,
          usedSize := pdu.usedSize +
            coapOptEncodeSize (opt.number - pdu.maxDelta) opt.data.length } := by
      unfold Pdu.addOption
      dsimp only
      rw [if_neg (not_or.mpr ⟨hnot, not_not_intro hroom⟩)]
      simp [hdata]
    have hrest := @ih { pdu with
        options := pdu.options ++ [opt], maxDelta := opt.number,
        usedSize := pdu.usedSize +
          coapOptEncodeSize (opt.number - pdu.maxDelta) opt.data.length } hdata hsorted hle
      (hfits.imp id fun hle' => by simp only; omega)
    rw [List.foldl_cons, hadd, hrest]
    simp only [List.append_assoc, List.singleton_append, Nat.add_assoc]
    rfl

/-- Nothing is left out of a request that fits. -/
theorem requestPdu_whole {cfg : Cfg} {r : Request} (htoken : r.token.length ≤ 8)
    (hsorted : r.options.Pairwise fun a b => a.number ≤ b.number)
    (hfits : r.body.length ≤ cfg.maxPduSize) :
    (r.pdu cfg).token = r.token ∧ (r.pdu cfg).options = r.options ∧
      (r.pdu cfg).data = if r.data = [] then none else some r.data := by
  rw [Request.body, List.length_append, List.length_append] at hfits
  have hadd : Pdu.addToken { maxSize := cfg.maxPduSize } r.token =
      { maxSize := cfg.maxPduSize, token := r.token, usedSize := r.token.length } := by
    unfold Pdu.addToken
    rw [if_neg]
    rintro (h | h | h)
    · omega
    · exact h rfl
    · exact h (.inr (by simp only; omega))
  have hheader := @addOptions_all r.options
    { maxSize := cfg.maxPduSize, token := r.token, usedSize := r.token.length } rfl hsorted
    (fun o _ => UInt16.zero_le) (.inr (by simp only; omega))
  rw [Request.pdu, headerPdu, hadd, hheader]
  simp only [List.nil_append, Pdu.addData]
  by_cases hnil : r.data = []
  · simp [hnil]
  · have hlen : (payloadBytes (if r.data = [] then none else some r.data)).length =
        r.data.length + 1 := by simp [hnil, payloadBytes]
    rw [if_neg hnil, if_pos (.inr (by simp only; omega)), if_neg hnil]
    exact ⟨rfl, rfl, rfl⟩

/-! ### Requests on their way -/

/-- The PDU of a request, in its place in the `pbuf`. -/
theorem coapNewRequest_place {cfg : Cfg} {r : Request} {pbuf : Buf} {alloc : Nat} {pdu : CoapPdu}
    (h : coapNewRequest cfg.maxPduSize r pbuf alloc = some pdu) :
    pdu.token = 4 ∧ pdu.maxHdrSize = 4 ∧ pdu.type = r.msgtype ∧ pdu.code = r.code ∧
      pdu.tid = r.tid ∧
      (cfg.maxPduSize ≠ 0 → ∀ i, i < 4 ∨ 4 + cfg.maxPduSize ≤ i → pdu.mem i = pbuf i) := by
  obtain ⟨-, fresh, hinit, hframe⟩ := coapNewRequest_refines h
  unfold coapPduInit at hinit
  split_ifs at hinit
  obtain rfl := Option.some.inj hinit
  exact ⟨hframe.token, hframe.maxHdrSize, hframe.type, hframe.code, hframe.tid, hframe.outside⟩

theorem coapNewRequest_isSome {cfg : Cfg} (h : cfg.maxPduSize ≤ COAP_MAX_MESSAGE_SIZE_TCP16)
    (r : Request) (pbuf : Buf) (alloc : Nat) :
    ∃ pdu, coapNewRequest cfg.maxPduSize r pbuf alloc = some pdu := by
  unfold coapNewRequest coapPduInit
  rw [if_neg (by omega)]
  exact ⟨_, rfl⟩

/-- The size of a session's PDUs. -/
theorem maxPduSize_bounds {mtu : Nat} (h : 4 < mtu) :
    coapSessionMaxPduSize (coapSessionSetMtu mtu) ≠ 0 ∧
      coapSessionMaxPduSize (coapSessionSetMtu mtu) ≤ COAP_MAX_MESSAGE_SIZE_TCP16 := by
  have hmtu : 4 < coapSessionSetMtu mtu ∧ coapSessionSetMtu mtu ≤ 65808 := by
    have hmax : COAP_MAX_MESSAGE_SIZE_TCP16 = 65804 := rfl
    unfold coapSessionSetMtu
    split <;> omega
  rw [coapSessionMaxPduSize, if_pos hmtu.1, COAP_MAX_MESSAGE_SIZE_TCP16]
  omega

theorem addOption_maxSize (pdu : Pdu) (opt : CoapOpt) :
    (pdu.addOption opt).maxSize = pdu.maxSize := by
  unfold Pdu.addOption
  dsimp only
  split <;> rfl

theorem requestPdu_maxSize (cfg : Cfg) (r : Request) : (r.pdu cfg).maxSize = cfg.maxPduSize := by
  have hfold (options : List CoapOpt) (pdu : Pdu) :
      (options.foldl Pdu.addOption pdu).maxSize = pdu.maxSize := by
    induction options generalizing pdu with
    | nil => rfl
    | cons opt options ih => rw [List.foldl_cons, ih, addOption_maxSize]
  have htoken : (Pdu.addToken { maxSize := cfg.maxPduSize } r.token).maxSize = cfg.maxPduSize := by
    unfold Pdu.addToken
    split <;> rfl
  unfold Request.pdu Pdu.addData
  split_ifs <;> simp only [headerPdu, hfold, htoken]

/-- The peer accepts the datagram of a request, and finds what is in its PDU. -/
theorem request_arrives {cfg : Cfg} {r : Request} {pbuf peer : Buf} {alloc : Nat} {pdu : CoapPdu}
    {len : UInt16} (hzero : cfg.maxPduSize ≠ 0)
    (hmax : cfg.maxPduSize ≤ COAP_MAX_MESSAGE_SIZE_TCP16) (htype : r.msgtype < 4)
    (hcode : r.code ≠ 0) (hpdu : coapNewRequest cfg.maxPduSize r pbuf alloc = some pdu)
    (hpeer : peer.read 0 len.toNat = datagram (coapPduEncodeHeader pdu .udp).1) :
    (coapRecv peer len).2 = true ∧
      Finds (coapRecv peer len).1 r.msgtype r.code r.tid (r.pdu cfg).token
        (numbered (r.pdu cfg).options) (r.pdu cfg).data := by
  obtain ⟨htoken, hspace, ht, hc, hi, -⟩ := coapNewRequest_place hpdu
  have hsize := requestPdu_maxSize cfg r
  have h := built_arrives (coapNewRequest_refines hpdu).1 (requestPdu_sound cfg r)
    (by rw [hsize]; exact hzero) (by rw [hsize]; exact hmax) htoken hspace (by rw [ht]; exact htype)
    (by rw [hc]; exact hcode) hpeer
  rwa [ht, hc, hi] at h

/-- **A request in memory.**  The datagram of a request is its header, token, options and payload,
as far as they fit the PDU, and nothing is written outside the `pbuf`. -/
theorem newRequest_datagram {cfg : Cfg} {r : Request} {pbuf : Buf} {alloc : Nat} {pdu : CoapPdu}
    (hpdu : coapNewRequest cfg.maxPduSize r pbuf alloc = some pdu) :
    let sent := (coapPduEncodeHeader pdu .udp).1
    datagram sent =
        [COAP_DEFAULT_VERSION <<< 6 ||| r.msgtype <<< 4 ||| UInt8.ofNat (r.pdu cfg).token.length,
          r.code, (r.tid >>> 8).toUInt8, r.tid.toUInt8] ++ (r.pdu cfg).bytes ∧
      (cfg.maxPduSize ≠ 0 → (datagram sent).length ≤ 4 + cfg.maxPduSize ∧
        ∀ i, 4 + cfg.maxPduSize ≤ i → sent.mem i = pbuf i) := by
  obtain ⟨htoken, hspace, htype, hcode, htid, houtside⟩ := coapNewRequest_place hpdu
  have href := (coapNewRequest_refines hpdu).1
  have hsound := requestPdu_sound cfg r
  have hmax := requestPdu_maxSize cfg r
  have hused := href.usedSize
  have hbytes := href.bytes
  rw [htoken] at hbytes
  have hlen : pdu.tokenLength = UInt8.ofNat (r.pdu cfg).token.length := by
    rw [← href.tokenLength, UInt8.ofNat_toNat]
  simp only [coapPduEncodeHeader, putHeader, List.length_cons, List.length_nil, hspace, datagram,
    htoken]
  rw [if_neg (by omega)]
  simp only [htype, hcode, htid, hlen, Nat.sub_self]
  generalize hheader : [COAP_DEFAULT_VERSION <<< 6 ||| r.msgtype <<< 4 |||
    UInt8.ofNat (r.pdu cfg).token.length, r.code, (r.tid >>> 8).toUInt8, r.tid.toUInt8] = header
  have hfour : header.length = 4 := by rw [← hheader]; rfl
  refine ⟨?_, fun hne => ⟨?_, fun i hi => ?_⟩⟩
  · rw [Support.Buf.read_add, ← hbytes]
    refine congrArg₂ (· ++ ·) ?_ (Support.Buf.read_congr fun i _ =>
      Support.Buf.write_outside (by omega))
    have hread := Support.Buf.read_write pdu.mem 0 header
    rwa [hfour] at hread
  · have hfits := hsound.fits (by rw [hmax]; exact hne)
    rw [Support.Buf.length_read]
    omega
  · rw [Support.Buf.write_outside (by omega), houtside hne i (.inr hi)]

theorem newRequest_datagram_getA : ∃ pdu,
    coapNewRequest 1148 ⟨0, 1, 0x1234, [], [⟨11, [0x61]⟩], []⟩ (fun _ => 0) 0 = some pdu ∧
      (datagram (coapPduEncodeHeader pdu .udp).1).length ≤ 1152 ∧
      ∀ i, 1152 ≤ i → (coapPduEncodeHeader pdu .udp).1.mem i = 0 := by
  let cfg : Cfg := ⟨fun _ => [], fun _ => [], 1148⟩
  obtain ⟨pdu, hpdu⟩ := @coapNewRequest_isSome cfg (by decide)
    ⟨0, 1, 0x1234, [], [⟨11, [0x61]⟩], []⟩ (fun _ => 0) 0
  exact ⟨pdu, hpdu, (@newRequest_datagram cfg _ _ _ _ hpdu).2 (by decide)⟩

/-! ### Read and built again -/

/-- The request made of what a handler reads off a received PDU. -/
def readBack (pdu : CoapPdu) : Request where
  msgtype := pdu.type
  code := pdu.code
  tid := pdu.tid
  token := pdu.mem.read pdu.token pdu.tokenLength.toNat
  options := (deliveries pdu.mem (pdu.usedSize + 1) (coapOptionIteratorInit pdu none)).map
    fun o => ⟨o.1, o.2⟩
  data := (coapGetData pdu).getD []

/-- Numbers that do not wrap are sorted. -/
theorem positions_sorted {base : UInt16} {ds : List (Nat × List UInt8)}
    (h : base.toNat + (ds.map Prod.fst).sum < 65536) :
    (∀ o ∈ positions base (ds.map fun d => (UInt16.ofNat d.1, d.2)), base ≤ o.1) ∧
      (positions base (ds.map fun d => (UInt16.ofNat d.1, d.2))).Pairwise fun a b => a.1 ≤ b.1 := by
  induction ds generalizing base with
  | nil => simp
  | cons d ds ih =>
    simp only [List.map_cons, List.sum_cons] at h
    have hnext : (base + UInt16.ofNat d.1).toNat = base.toNat + d.1 := by
      rw [UInt16.toNat_add, UInt16.toNat_ofNat']
      omega
    have hle : base ≤ base + UInt16.ofNat d.1 := by
      rw [UInt16.le_iff_toNat_le, hnext]
      omega
    obtain ⟨hge, hsorted⟩ := @ih (base + UInt16.ofNat d.1) (by rw [hnext]; omega)
    simp only [List.map_cons, Support.positions_cons, List.mem_cons, forall_eq_or_imp,
      List.pairwise_cons]
    exact ⟨⟨hle, fun o ho => UInt16.le_trans hle (hge o ho)⟩, hge, hsorted⟩

/-- The deltas between numbers that do not wrap are those of the message. -/
theorem optionDeltas_numbers {msg : Message} (h : (msg.options.map Prod.fst).sum < 65536) :
    optionDeltas 0 (msg.numbers.map fun o => ⟨o.1, o.2⟩) = msg.options := by
  have hnumbered : numbered (msg.numbers.map fun o => ⟨o.1, o.2⟩) = msg.numbers := by
    simp [numbered, Function.comp_def]
  have hcancel (a b : UInt16) : a + b - a = b := by
    rw [UInt16.add_comm, UInt16.add_sub_cancel]
  rw [optionDeltas, hnumbered, Message.numbers, Support.gaps_positions hcancel, List.map_map]
  refine (List.map_congr_left fun o ho => ?_).trans (List.map_id _)
  have hle := List.single_le_sum (fun _ _ => Nat.zero_le _) o.1 (List.mem_map.mpr ⟨o, ho, rfl⟩)
  simp only [Function.comp_apply, UInt16.toNat_ofNat', id_eq]
  rw [Nat.mod_eq_of_lt (by omega)]

/-- The request has what the message has. -/
structure ReadsBack (r : Request) (msg : Message) : Prop where
  type : r.msgtype = msg.type
  code : r.code = msg.code
  tid : r.tid = msg.tid
  token : r.token = msg.token
  options : r.options = msg.numbers.map fun o => ⟨o.1, o.2⟩
  data : (if r.data = [] then none else some r.data) = msg.payload

theorem HoldsMessage.readsBack {pdu : CoapPdu} {msg : Message} (hok : msg.Ok)
    (h : HoldsMessage pdu msg) (hsize : pdu.usedSize < 65536) : ReadsBack (readBack pdu) msg where
  type := (h.finds hok hsize).type
  code := (h.finds hok hsize).code
  tid := (h.finds hok hsize).tid
  token := (h.finds hok hsize).token
  options := by rw [readBack, (h.finds hok hsize).options]
  data := by
    rw [readBack, (h.finds hok hsize).payload]
    have hne := hok.payload
    cases hp : msg.payload with
    | none => rfl
    | some payload =>
      rw [hp] at hne
      exact if_neg fun h => hne (congrArg some h)

/-- A request takes the bytes of the message behind its header where the numbers do not wrap. -/
theorem ReadsBack.body {r : Request} {msg : Message} (h : ReadsBack r msg)
    (hsum : (msg.options.map Prod.fst).sum < 65536) : r.body = msg.token ++ msg.tail := by
  rw [Request.body, h.token, h.options, optionDeltas_numbers hsum, h.data, List.append_assoc]
  rfl

theorem ReadsBack.sorted {r : Request} {msg : Message} (h : ReadsBack r msg)
    (hsum : (msg.options.map Prod.fst).sum < 65536) :
    r.options.Pairwise fun a b => a.number ≤ b.number := by
  rw [h.options, List.pairwise_map]
  exact (@positions_sorted 0 _ (by simpa using hsum)).2

/-- **Reading and building again.**  A datagram that is accepted, read with the library's functions
and built again with them is the same datagram exactly if the numbers of its options do not wrap. -/
theorem recoded_iff {mem : Buf} {len : UInt16} (haccepted : (coapRecv mem len).2 = true)
    {cfg : Cfg} (hroom : len.toNat ≤ 4 + cfg.maxPduSize) (hzero : cfg.maxPduSize ≠ 0)
    (hmax : cfg.maxPduSize ≤ COAP_MAX_MESSAGE_SIZE_TCP16) {pbuf : Buf} {alloc : Nat} {pdu : CoapPdu}
    (hpdu : coapNewRequest cfg.maxPduSize (readBack (coapRecv mem len).1) pbuf alloc = some pdu) :
    ∃ msg : Message, msg.Ok ∧ mem.read 0 len.toNat = msg.bytes ∧
      (datagram (coapPduEncodeHeader pdu .udp).1 = mem.read 0 len.toNat ↔
        (msg.options.map Prod.fst).sum < 2 ^ 16) := by
  obtain ⟨msg, hok, hbytes⟩ := coapRecv_sound haccepted
  refine ⟨msg, hok, hbytes, ?_⟩
  have hholds := (coapRecv_message hok hbytes).2
  have hlen := (read_message hbytes).1
  have hused := hholds.usedSize
  have hlt := len.toNat_lt
  have hback := hholds.readsBack hok (by omega)
  generalize readBack (coapRecv mem len).1 = r at hpdu hback
  obtain ⟨htoken, hspace, htype, hcode, htid, -⟩ := coapNewRequest_place hpdu
  have href := (coapNewRequest_refines hpdu).1
  have hsound := requestPdu_sound cfg r
  have hsize := requestPdu_maxSize cfg r
  have htypelt : pdu.type < 4 := by
    rw [htype, hback.type]
    exact hok.type
  rw [datagram_eq href hsound htoken hspace htypelt, hbytes]
  constructor
  · intro hsame
    by_cases hempty : msg.code = 0
    · rw [(hok.empty hempty).2.1]
      decide
    · have hmsg := Message.bytes_injective (messageOf_ok href hsound (by rw [hsize]; exact hzero)
        (by rw [hsize]; exact hmax) htypelt (by rw [hcode, hback.code]; exact hempty)) hok hsame
      have hdeltas := hsound.deltas
      have hoptions : optionDeltas 0 (r.pdu cfg).options = msg.options :=
        congrArg Message.options hmsg
      rw [hoptions] at hdeltas
      rw [hdeltas]
      exact (r.pdu cfg).maxDelta.toNat_lt
  · intro hsum
    have hbody : r.body.length ≤ cfg.maxPduSize := by
      rw [hback.body hsum, List.length_append]
      omega
    obtain ⟨ht, ho, hd⟩ :=
      requestPdu_whole (by rw [hback.token]; exact hok.token) (hback.sorted hsum) hbody
    rw [messageOf, ht, ho, hd, htype, hcode, htid, hback.type, hback.code, hback.tid, hback.token,
      hback.options, optionDeltas_numbers hsum, hback.data]

theorem recoded_iff_getA : ∃ (pdu : CoapPdu) (msg : Message),
    coapNewRequest 1148 (readBack (coapRecv (Buf.write (fun _ => 0) 0 getA) 6).1) (fun _ => 0) 0 =
        some pdu ∧
      (datagram (coapPduEncodeHeader pdu .udp).1 = Buf.read (Buf.write (fun _ => 0) 0 getA) 0 6 ↔
        (msg.options.map Prod.fst).sum < 2 ^ 16) := by
  let cfg : Cfg := ⟨fun _ => [], fun _ => [], 1148⟩
  obtain ⟨pdu, hpdu⟩ := @coapNewRequest_isSome cfg (by decide)
    (readBack (coapRecv (Buf.write (fun _ => 0) 0 getA) 6).1) (fun _ => 0) 0
  obtain ⟨msg, -, -, hiff⟩ := @recoded_iff (Buf.write (fun _ => 0) 0 getA) 6 (by decide +kernel)
    cfg (by decide) (by decide) (by decide) _ _ _ hpdu
  exact ⟨pdu, msg, hpdu, hiff⟩

end XY1100.Coap
