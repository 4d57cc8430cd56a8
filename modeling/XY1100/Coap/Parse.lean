import XY1100.Coap.Wire

/-!
# Coap — parsing a datagram

`coap_pdu_parse` of `pdu.c` with lwIP: the datagram lies in a `pbuf`, and `coap_pdu_from_pbuf`
lets `token` point behind its header.  `Message` is what a datagram says, `Message.bytes` the
format of RFC 7252.

* `coapRecv_message`: the datagram of a message is accepted, and the PDU holds the message.
* `coapRecv_sound`: what is accepted is the datagram of a message.
* `Message.bytes_injective`: a datagram says one message.
* `coapRecv_accepts_iff`: the three together.
-/

namespace XY1100.Coap
open Support (Buf Delimited readWhile)

/-! ### The code -/

/-- `coap_pdu_from_pbuf`, for a contiguous `pbuf` of `totLen` bytes from address `0`. -/
def coapPduFromPbuf (mem : Buf) (totLen : Nat) : CoapPdu :=
  -- `alloc_size` is a `size_t`
  let allocSize := (totLen + 2 ^ 32 - COAP_PDU_MAX_UDP_HEADER_SIZE) % 2 ^ 32
  coapPduClear
    { maxHdrSize := COAP_PDU_MAX_UDP_HEADER_SIZE, allocSize := allocSize,
      token := COAP_PDU_MAX_UDP_HEADER_SIZE, mem := mem }
    allocSize

/-- `coap_pdu_parse_header_size`, for the first byte of the data. -/
def coapPduParseHeaderSize (proto : CoapProto) (data : UInt8) : Nat :=
  match proto with
  | .tcp | .tls =>
    let len := data >>> 4
    if len < 13 then 2 else if len = 13 then 3 else if len = 14 then 4 else 6
  | .udp | .dtls => 4
  | .none => 0

/-- `coap_pdu_parse_header`. -/
def coapPduParseHeader (pdu : CoapPdu) (proto : CoapProto) : CoapPdu × Bool :=
  let hdr (i : Nat) : UInt8 := pdu.mem (pdu.token - pdu.hdrSize + i)
  let checked (pdu : CoapPdu) : CoapPdu × Bool :=
    if pdu.allocSize < pdu.tokenLength.toNat then
      ({ pdu with tokenLength := UInt8.ofNat pdu.allocSize }, false)
    else (pdu, true)
  match proto with
  | .udp | .dtls =>
    if hdr 0 >>> 6 ≠ COAP_DEFAULT_VERSION then (pdu, false)
    else
      checked { pdu with
        type := (hdr 0 >>> 4) &&& 0x03, tokenLength := hdr 0 &&& 0x0f, code := hdr 1,
        tid := (hdr 2).toUInt16 <<< 8 ||| (hdr 3).toUInt16 }
  | .tcp | .tls =>
    checked { pdu with
      type := 0, tokenLength := hdr 0 &&& 0x0f, code := hdr (pdu.hdrSize - 1), tid := 0 }
  | .none => (pdu, false)

/-- `next_option_safe`: where the next option starts, and the bytes left. -/
def nextOptionSafe (m : Buf) (opt length : Nat) : Option (Nat × Nat) :=
  match coapOptParse m opt length with
  | none => none
  | some (_, optsize) => some (opt + optsize, length - optsize)

/-- The loop of `coap_pdu_parse_opt` over the options, `none` where it returns `0`. -/
def skipOptions (m : Buf) : Nat → Nat → Nat → Option (Nat × Nat)
  | n, opt, length =>
    if 0 < length ∧ m opt ≠ COAP_PAYLOAD_START then
      match n, nextOptionSafe m opt length with
      | n + 1, some (opt, length) => skipOptions m n opt length
      | _, _ => none
    else some (opt, length)

/-- `coap_pdu_parse_opt`. -/
def coapPduParseOpt (pdu : CoapPdu) : CoapPdu × Bool :=
  if pdu.code = 0 ∧ (pdu.usedSize ≠ 0 ∨ pdu.tokenLength ≠ 0) then (pdu, false)
  else if pdu.usedSize < pdu.tokenLength.toNat ∨ 8 < pdu.tokenLength then (pdu, false)
  else if pdu.code = 0 then ({ pdu with usedSize := 0, data := none }, true)
  else
    let length := pdu.usedSize - pdu.tokenLength.toNat
    match skipOptions pdu.mem length (pdu.token + pdu.tokenLength.toNat) length with
    | none => (pdu, false)
    | some (opt, length) =>
      if 0 < length then
        if length - 1 = 0 then (pdu, false) else ({ pdu with data := some (opt + 1) }, true)
      else ({ pdu with data := none }, true)

/-- `coap_pdu_parse` with lwIP, of `length` bytes from `data`. -/
def coapPduParse (proto : CoapProto) (data length : Nat) (pdu : CoapPdu) : CoapPdu × Bool :=
  if length = 0 then (pdu, false)
  else
    let hdrSize := coapPduParseHeaderSize proto (pdu.mem data)
    if hdrSize = 0 ∨ length < hdrSize then (pdu, false)
    else if pdu.maxHdrSize < hdrSize then (pdu, false)
    else match coapPduResize pdu (length - hdrSize) with
      | none => (pdu, false)
      | some pdu =>
        let (pdu, ok) :=
          coapPduParseHeader { pdu with hdrSize := hdrSize, usedSize := length - hdrSize } proto
        if ok then coapPduParseOpt pdu else (pdu, false)

/-- What `coap_recv` parses: the datagram that lies in a `pbuf`, whose `len` is a `u16_t`. -/
def coapRecv (mem : Buf) (len : UInt16) : CoapPdu × Bool :=
  coapPduParse .udp 0 len.toNat (coapPduFromPbuf mem len.toNat)

/-! ### Messages -/

/-- What a datagram says.  The options are values behind deltas. -/
structure Message where
  type : UInt8
  code : UInt8
  tid : UInt16
  token : List UInt8
  options : List (Nat × List UInt8)
  payload : Option (List UInt8)
  deriving DecidableEq

/-- The messages a datagram can say.  An empty message has nothing behind its header. -/
structure Message.Ok (msg : Message) : Prop where
  type : msg.type < 4
  token : msg.token.length ≤ 8
  options : ∀ o ∈ msg.options, OptionOk o
  payload : msg.payload ≠ some []
  empty : msg.code = 0 → msg.token = [] ∧ msg.options = [] ∧ msg.payload = none

/-- The header of a message over UDP. -/
def Message.header (msg : Message) : List UInt8 :=
  [UInt8.ofNat (64 + 16 * msg.type.toNat + msg.token.length), msg.code,
    UInt8.ofNat (msg.tid.toNat / 256), UInt8.ofNat msg.tid.toNat]

/-- The bytes behind the token. -/
def Message.tail (msg : Message) : List UInt8 :=
  msg.options.flatMap optionBytes ++ payloadBytes msg.payload

/-- The bytes of a message. -/
def Message.bytes (msg : Message) : List UInt8 := msg.header ++ (msg.token ++ msg.tail)

/-- A parsed PDU holds a message: its fields, and the bytes they point to. -/
structure HoldsMessage (pdu : CoapPdu) (msg : Message) : Prop where
  type : pdu.type = msg.type
  code : pdu.code = msg.code
  tid : pdu.tid = msg.tid
  tokenLength : pdu.tokenLength.toNat = msg.token.length
  token : pdu.mem.read pdu.token msg.token.length = msg.token
  usedSize : pdu.usedSize = msg.token.length + msg.tail.length
  tail : pdu.mem.read (pdu.token + msg.token.length) msg.tail.length = msg.tail
  data : pdu.data = msg.payload.map fun payload => pdu.token + pdu.usedSize - payload.length

/-! ### The options of a message -/

/-- No option starts with the marker. -/
theorem readOption_marker (s : List UInt8) : readOption (COAP_PAYLOAD_START :: s) = none := by
  have h : (COAP_PAYLOAD_START : UInt8).toNat / 16 = 15 := rfl
  simp [readOption, readNumber, h]

theorem readOption_payload (payload : Option (List UInt8)) :
    readOption (payloadBytes payload) = none := by
  cases payload with
  | none => rfl
  | some payload => exact readOption_marker payload

/-- The end of the loop: nothing is left, or a marker is next. -/
def AtEnd (s : List UInt8) : Prop := s = [] ∨ s.head? = some COAP_PAYLOAD_START

instance (s : List UInt8) : Decidable (AtEnd s) := inferInstanceAs (Decidable (_ ∨ _))

theorem atEnd_payload (payload : Option (List UInt8)) : AtEnd (payloadBytes payload) := by
  cases payload with
  | none => exact .inl rfl
  | some payload => exact .inr rfl

/-- The loop over the options reads them until one cannot be read, and fails where that is not
the end. -/
theorem skipOptions_eq {m : Buf} {n opt length : Nat} (hn : length ≤ n) :
    skipOptions m n opt length =
      if AtEnd (readWhile readOption n (m.read opt length)).2 then
        some (opt + (length - (readWhile readOption n (m.read opt length)).2.length),
          (readWhile readOption n (m.read opt length)).2.length)
      else none := by
  induction n generalizing opt length with
  | zero =>
    obtain rfl := Nat.le_zero.mp hn
    simp [skipOptions, readWhile, AtEnd]
  | succ n ih =>
    unfold skipOptions
    cases length with
    | zero => simp [readWhile, delimited_option.read_nil, AtEnd]
    | succ k =>
      have hs : m.read opt (k + 1) = m opt :: m.read (opt + 1) k := by
        rw [Nat.add_comm k 1, Support.Buf.read_add]
        simp [Support.Buf.read]
      by_cases hmark : m opt = COAP_PAYLOAD_START
      · rw [if_neg (fun h => h.2 hmark)]
        have hread : readOption (m.read opt (k + 1)) = none := by
          rw [hs, hmark]
          exact readOption_marker _
        simp only [readWhile, hread]
        rw [if_pos (.inr (by rw [hs, hmark]; rfl))]
        simp
      · rw [if_pos ⟨Nat.succ_pos k, hmark⟩, nextOptionSafe, coapOptParse_eq]
        cases hread : readOption (m.read opt (k + 1)) with
        | none =>
          simp only [readWhile, hread, Option.map_none]
          rw [if_neg (by simpa [AtEnd, hs] using hmark)]
        | some p =>
          obtain ⟨o, t⟩ := p
          have hlt := delimited_option.length_lt hread
          rw [Support.Buf.length_read] at hlt
          have ht := Support.Buf.read_of_append ((delimited_option.read_iff _ _ _).mp hread).2
          have hcut := congrArg List.length
            (Support.readWhile_spec delimited_option (n := n) (s := t) (by omega)).2.1
          rw [List.length_append] at hcut
          simp only [readWhile, hread, Option.map_some]
          rw [show k + 1 - (k + 1 - t.length) = t.length by omega, ih (by omega), ht]
          split_ifs
          · simp only [Option.some.injEq, Prod.mk.injEq, and_true]
            omega
          · rfl

/-- The bytes behind the token are cut into options and a payload in one way. -/
theorem readWhile_tail {s : List UInt8} {options : List (Nat × List UInt8)}
    {payload : Option (List UInt8)} (hok : ∀ o ∈ options, OptionOk o)
    (hs : s = options.flatMap optionBytes ++ payloadBytes payload) :
    readWhile readOption s.length s = (options, payloadBytes payload) :=
  (Support.readWhile_iff delimited_option).mpr ⟨hok, hs, readOption_payload payload⟩

/-- The options and the payload of a message are accepted, and the payload is pointed to. -/
theorem parseOpt_ok {pdu : CoapPdu} {options : List (Nat × List UInt8)}
    {payload : Option (List UInt8)} (hcode : pdu.code ≠ 0)
    (htoken : pdu.tokenLength.toNat ≤ pdu.usedSize) (h8 : pdu.tokenLength.toNat ≤ 8)
    (hok : ∀ o ∈ options, OptionOk o) (hpayload : payload ≠ some [])
    (hs : pdu.mem.read (pdu.token + pdu.tokenLength.toNat)
      (pdu.usedSize - pdu.tokenLength.toNat) =
        options.flatMap optionBytes ++ payloadBytes payload) :
    coapPduParseOpt pdu =
      ({ pdu with data := payload.map fun p => pdu.token + pdu.usedSize - p.length }, true) := by
  have hread := readWhile_tail hok hs
  rw [Support.Buf.length_read] at hread
  have hlen := congrArg List.length hs
  rw [Support.Buf.length_read, List.length_append] at hlen
  have h8' : ¬ 8 < pdu.tokenLength := by
    rw [UInt8.lt_iff_toNat_lt, show (8 : UInt8).toNat = 8 from rfl]
    omega
  unfold coapPduParseOpt
  rw [if_neg (fun h => hcode h.1), if_neg (by
    rintro (h | h)
    · omega
    · exact h8' h), if_neg hcode]
  simp only [skipOptions_eq (le_refl _), hread, if_pos (atEnd_payload payload)]
  cases payload with
  | none => simp [payloadBytes]
  | some p =>
    have hp : p ≠ [] := fun h => hpayload (by rw [h])
    have hpos := List.length_pos_iff.mpr hp
    have hl : (payloadBytes (some p)).length = p.length + 1 := rfl
    rw [hl] at hlen
    rw [if_pos (by omega), if_neg (by omega)]
    simp only [Option.map_some, Prod.mk.injEq, CoapPdu.mk.injEq, Option.some.injEq, and_true,
      true_and, hl]
    omega

/-- What is accepted behind the token are options and a payload. -/
theorem parseOpt_sound {pdu : CoapPdu} (hcode : pdu.code ≠ 0)
    (h : (coapPduParseOpt pdu).2 = true) :
    pdu.tokenLength.toNat ≤ pdu.usedSize ∧ pdu.tokenLength.toNat ≤ 8 ∧
      ∃ (options : List (Nat × List UInt8)) (payload : Option (List UInt8)),
        (∀ o ∈ options, OptionOk o) ∧ payload ≠ some [] ∧
        pdu.mem.read (pdu.token + pdu.tokenLength.toNat)
          (pdu.usedSize - pdu.tokenLength.toNat) =
            options.flatMap optionBytes ++ payloadBytes payload := by
  unfold coapPduParseOpt at h
  rw [if_neg (fun h => hcode h.1)] at h
  by_cases htoken : pdu.usedSize < pdu.tokenLength.toNat ∨ 8 < pdu.tokenLength
  · rw [if_pos htoken] at h
    cases h
  rw [if_neg htoken, if_neg hcode] at h
  obtain ⟨hle, h8⟩ := not_or.mp htoken
  rw [UInt8.lt_iff_toNat_lt, show (8 : UInt8).toNat = 8 from rfl] at h8
  refine ⟨by omega, by omega, ?_⟩
  generalize hs : pdu.mem.read (pdu.token + pdu.tokenLength.toNat)
    (pdu.usedSize - pdu.tokenLength.toNat) = s at *
  simp only [skipOptions_eq (le_refl _), hs] at h
  have hlen : s.length = pdu.usedSize - pdu.tokenLength.toNat := by
    rw [← hs, Support.Buf.length_read]
  rw [← hlen] at h
  obtain ⟨hok, hcut, -⟩ := Support.readWhile_spec delimited_option (le_refl s.length)
  generalize readWhile readOption s.length s = r at h hok hcut
  obtain ⟨options, rest⟩ := r
  simp only at h hok hcut
  cases rest with
  | nil => exact ⟨options, none, hok, by simp, by simpa [payloadBytes] using hcut⟩
  | cons b rest =>
    by_cases hend : AtEnd (b :: rest)
    · obtain rfl : b = COAP_PAYLOAD_START := by simpa [AtEnd] using hend
      rw [if_pos hend] at h
      refine ⟨options, some rest, hok, ?_, hcut⟩
      intro hnil
      obtain rfl := Option.some.inj hnil
      simp at h
    · rw [if_neg hend] at h
      cases h

/-! ### The header -/

/-- The two halves of the first byte of a header: version and type, and the token's length. -/
theorem firstByte_parts {b : UInt8} (h : b >>> 6 = COAP_DEFAULT_VERSION) :
    ((b >>> 4) &&& 0x03).toNat < 4 ∧
      b = UInt8.ofNat (64 + 16 * ((b >>> 4) &&& 0x03).toNat + (b &&& 0x0f).toNat) := by
  have hb := b.toNat_lt
  have hver := congrArg UInt8.toNat h
  rw [UInt8.toNat_shiftRight, show (6 : UInt8).toNat % 8 = 6 from rfl, Nat.shiftRight_eq_div_pow,
    show COAP_DEFAULT_VERSION.toNat = 1 from rfl] at hver
  have htype : ((b >>> 4) &&& 0x03).toNat = b.toNat / 16 % 4 := by
    rw [UInt8.toNat_and, UInt8.toNat_shiftRight, show (4 : UInt8).toNat % 8 = 4 from rfl,
      show (0x03 : UInt8).toNat = 2 ^ 2 - 1 from rfl, Nat.and_two_pow_sub_one_eq_mod,
      Nat.shiftRight_eq_div_pow]
  rw [htype, toNat_loNibble]
  refine ⟨by omega, ?_⟩
  apply UInt8.toNat_inj.mp
  rw [UInt8.toNat_ofNat']
  omega

/-- The first byte of a header is taken apart again. -/
theorem firstByte_of_parts {type tkl : Nat} (htype : type < 4) (htkl : tkl < 16) :
    UInt8.ofNat (64 + 16 * type + tkl) >>> 6 = COAP_DEFAULT_VERSION ∧
      (UInt8.ofNat (64 + 16 * type + tkl) >>> 4) &&& 0x03 = UInt8.ofNat type ∧
      UInt8.ofNat (64 + 16 * type + tkl) &&& 0x0f = UInt8.ofNat tkl := by
  have h : ∀ t < 4, ∀ k < 16, UInt8.ofNat (64 + 16 * t + k) >>> 6 = COAP_DEFAULT_VERSION ∧
      (UInt8.ofNat (64 + 16 * t + k) >>> 4) &&& 0x03 = UInt8.ofNat t ∧
      UInt8.ofNat (64 + 16 * t + k) &&& 0x0f = UInt8.ofNat k := by decide
  exact h type htype tkl htkl

/-- A half word is its two bytes. -/
theorem halfWord_bytes (v : UInt16) :
    (UInt8.ofNat (v.toNat / 256)).toUInt16 <<< 8 ||| (UInt8.ofNat v.toNat).toUInt16 = v := by
  have hv := v.toNat_lt
  apply UInt16.toNat_inj.mp
  rw [UInt16.toNat_or, toNat_shiftByte, UInt8.toNat_toUInt16, UInt8.toNat_ofNat',
    UInt8.toNat_ofNat', show 256 * (v.toNat / 256 % 2 ^ 8) = (v.toNat / 256 % 2 ^ 8) <<< 8 by
      rw [Nat.shiftLeft_eq]; omega, ← Nat.shiftLeft_add_eq_or_of_lt (by omega), Nat.shiftLeft_eq]
  omega

theorem bytes_halfWord (a b : UInt8) :
    UInt8.ofNat ((a.toUInt16 <<< 8 ||| b.toUInt16).toNat / 256) = a ∧
      UInt8.ofNat (a.toUInt16 <<< 8 ||| b.toUInt16).toNat = b := by
  have ha := a.toNat_lt
  have hb := b.toNat_lt
  have h : (a.toUInt16 <<< 8 ||| b.toUInt16).toNat = 256 * a.toNat + b.toNat := by
    rw [UInt16.toNat_or, toNat_shiftByte, UInt8.toNat_toUInt16,
      show 256 * a.toNat = a.toNat <<< 8 by rw [Nat.shiftLeft_eq]; omega,
      ← Nat.shiftLeft_add_eq_or_of_lt (by omega)]
  rw [h]
  constructor
  · rw [show (256 * a.toNat + b.toNat) / 256 = a.toNat by omega, UInt8.ofNat_toNat]
  · apply UInt8.toNat_inj.mp
    rw [UInt8.toNat_ofNat']
    omega

/-! ### A received datagram -/

/-- The PDU the header is parsed into. -/
def received (mem : Buf) (len : Nat) : CoapPdu :=
  { maxHdrSize := 4, hdrSize := 4, allocSize := len - 4, usedSize := len - 4, maxSize := len - 4,
    token := 4, mem := mem }

/-- A datagram shorter than a header is rejected. -/
theorem coapRecv_short {mem : Buf} {len : UInt16} (h : len.toNat < 4) :
    (coapRecv mem len).2 = false := by
  have hsize (b : UInt8) : coapPduParseHeaderSize .udp b = 4 := rfl
  unfold coapRecv coapPduParse
  by_cases hzero : len.toNat = 0
  · rw [if_pos hzero]
  · simp only [if_neg hzero, hsize]
    rw [if_pos (Or.inr h)]

/-- Any other is parsed as a header and what is behind it. -/
theorem coapRecv_eq {mem : Buf} {len : UInt16} (h : ¬ len.toNat < 4) :
    coapRecv mem len =
      if (coapPduParseHeader (received mem len.toNat) .udp).2 then
        coapPduParseOpt (coapPduParseHeader (received mem len.toNat) .udp).1
      else ((coapPduParseHeader (received mem len.toNat) .udp).1, false) := by
  have hlen := len.toNat_lt
  have hmax : (len.toNat + 2 ^ 32 - COAP_PDU_MAX_UDP_HEADER_SIZE) % 2 ^ 32 = len.toNat - 4 := by
    simp only [COAP_PDU_MAX_UDP_HEADER_SIZE]
    omega
  have hfrom : coapPduFromPbuf mem len.toNat =
      { received mem len.toNat with hdrSize := 0, usedSize := 0 } := by
    simp only [coapPduFromPbuf, hmax, coapPduClear, received, Nat.min_self]
    rfl
  have hpdu : coapPduResize { received mem len.toNat with hdrSize := 0, usedSize := 0 }
      (len.toNat - 4) = some { received mem len.toNat with hdrSize := 0, usedSize := 0 } := by
    exact if_neg fun hgrow => Nat.lt_irrefl _ hgrow.1
  have hsize (b : UInt8) : coapPduParseHeaderSize .udp b = 4 := rfl
  have hspace : ¬ (received mem len.toNat).maxHdrSize < 4 := Nat.lt_irrefl 4
  unfold coapRecv coapPduParse
  rw [if_neg (by omega), hfrom]
  simp only [hsize]
  rw [if_neg (not_or.mpr ⟨by decide, h⟩), if_neg hspace, hpdu]
  rfl

/-- The header of a received datagram, parsed. -/
theorem parseHeader_udp (mem : Buf) (len : Nat) :
    coapPduParseHeader (received mem len) .udp =
      if mem 0 >>> 6 ≠ COAP_DEFAULT_VERSION then (received mem len, false)
      else
        let pdu := { received mem len with
          type := (mem 0 >>> 4) &&& 0x03, tokenLength := mem 0 &&& 0x0f, code := mem 1,
          tid := (mem 2).toUInt16 <<< 8 ||| (mem 3).toUInt16 }
        if len - 4 < (mem 0 &&& 0x0f).toNat then
          ({ pdu with tokenLength := UInt8.ofNat (len - 4) }, false)
        else (pdu, true) := rfl

theorem length_bytes (msg : Message) :
    msg.bytes.length = 4 + (msg.token.length + msg.tail.length) := by
  simp [Message.bytes, Message.header]
  omega

/-- What the memory holds where a message's datagram lies. -/
theorem read_message {mem : Buf} {len : Nat} {msg : Message} (h : mem.read 0 len = msg.bytes) :
    len = 4 + (msg.token.length + msg.tail.length) ∧
      mem 0 = UInt8.ofNat (64 + 16 * msg.type.toNat + msg.token.length) ∧ mem 1 = msg.code ∧
      mem 2 = UInt8.ofNat (msg.tid.toNat / 256) ∧ mem 3 = UInt8.ofNat msg.tid.toNat ∧
      mem.read 4 msg.token.length = msg.token ∧
      mem.read (4 + msg.token.length) msg.tail.length = msg.tail := by
  have hlen : len = 4 + (msg.token.length + msg.tail.length) := by
    rw [← length_bytes, ← h, Support.Buf.length_read]
  subst hlen
  rw [Support.Buf.read_add, Support.Buf.read_add, Message.bytes] at h
  obtain ⟨hheader, hbody⟩ := List.append_inj h (by simp [Message.header])
  obtain ⟨htoken, htail⟩ := List.append_inj hbody (by simp)
  have hread : mem.read 0 4 = [mem 0, mem 1, mem 2, mem 3] := rfl
  rw [hread, Message.header] at hheader
  simp only [List.cons.injEq, and_true] at hheader
  obtain ⟨h₀, h₁, h₂, h₃⟩ := hheader
  exact ⟨rfl, h₀, h₁, h₂, h₃, by simpa using htoken, by simpa using htail⟩

/-- The datagram of a message is accepted, and the PDU holds the message. -/
theorem coapRecv_message {mem : Buf} {len : UInt16} {msg : Message} (hok : msg.Ok)
    (h : mem.read 0 len.toNat = msg.bytes) :
    (coapRecv mem len).2 = true ∧ HoldsMessage (coapRecv mem len).1 msg := by
  obtain ⟨hlen, h₀, h₁, h₂, h₃, htoken, htail⟩ := read_message h
  have h8 := hok.token
  have htype : msg.type.toNat < 4 := UInt8.lt_iff_toNat_lt.mp hok.type
  obtain ⟨hver, ht, hk⟩ := firstByte_of_parts htype
    (show msg.token.length < 16 by omega)
  have hk' : (mem 0 &&& 0x0f).toNat = msg.token.length := by
    rw [h₀, hk, UInt8.toNat_ofNat']
    omega
  have htid : (mem 2).toUInt16 <<< 8 ||| (mem 3).toUInt16 = msg.tid := by
    rw [h₂, h₃, halfWord_bytes]
  have htype' : (mem 0 >>> 4) &&& 0x03 = msg.type := by rw [h₀, ht, UInt8.ofNat_toNat]
  generalize hpdu : ({ received mem len.toNat with
      type := msg.type, tokenLength := mem 0 &&& 0x0f, code := msg.code, tid := msg.tid } :
        CoapPdu) = pdu
  have hheader : coapPduParseHeader (received mem len.toNat) .udp = (pdu, true) := by
    rw [parseHeader_udp, if_neg (not_not_intro (by rw [h₀, hver])), htid, htype', h₁, ← hpdu]
    exact if_neg (by omega)
  rw [coapRecv_eq (by omega), hheader]
  simp only [if_true]
  by_cases hcode : msg.code = 0
  · obtain ⟨hnil, honil, hpnil⟩ := hok.empty hcode
    have htail0 : msg.tail.length = 0 := by simp [Message.tail, honil, hpnil, payloadBytes]
    have htok0 : msg.token.length = 0 := by rw [hnil]; rfl
    have hz : mem 0 &&& 0x0f = 0 := UInt8.toNat_inj.mp (by rw [hk', htok0]; rfl)
    have hused : len.toNat - 4 = 0 := by omega
    have hp : coapPduParseOpt pdu = ({ pdu with usedSize := 0, data := none }, true) := by
      subst hpdu
      simp only [coapPduParseOpt, received, hcode, hz, hused]
      rfl
    rw [hp]
    subst hpdu
    exact ⟨rfl, ⟨rfl, rfl, rfl, hk', by rw [htok0, hnil]; rfl, by simp only [htok0, htail0],
      by simpa [received] using htail, by rw [hpnil]; rfl⟩⟩
  · have hp := @parseOpt_ok pdu msg.options msg.payload
      (by subst hpdu; exact hcode) (by subst hpdu; simp only [received, hk']; omega)
      (by subst hpdu; simp only [hk']; omega) hok.options hok.payload (by
        subst hpdu
        simp only [received, hk']
        rw [show len.toNat - 4 - msg.token.length = msg.tail.length by omega, htail]
        rfl)
    rw [hp]
    subst hpdu
    refine ⟨rfl, ⟨rfl, rfl, rfl, hk', ?_, ?_, ?_, rfl⟩⟩
    · exact htoken
    · simp only [received]
      omega
    · exact htail

/-- What is accepted is the datagram of a message. -/
theorem coapRecv_sound {mem : Buf} {len : UInt16} (h : (coapRecv mem len).2 = true) :
    ∃ msg : Message, msg.Ok ∧ mem.read 0 len.toNat = msg.bytes := by
  by_cases hshort : len.toNat < 4
  · rw [coapRecv_short hshort] at h
    cases h
  rw [coapRecv_eq hshort, parseHeader_udp] at h
  by_cases hver : mem 0 >>> 6 = COAP_DEFAULT_VERSION
  · rw [if_neg (not_not_intro hver)] at h
    obtain ⟨htype, hfirst⟩ := firstByte_parts hver
    obtain ⟨htid₁, htid₂⟩ := bytes_halfWord (mem 2) (mem 3)
    have hhead : mem.read 0 4 = [mem 0, mem 1, mem 2, mem 3] := rfl
    by_cases htkl : len.toNat - 4 < (mem 0 &&& 0x0f).toNat
    · rw [if_pos htkl] at h
      cases h
    rw [if_neg htkl] at h
    simp only [if_true] at h
    generalize htok : mem.read 4 (mem 0 &&& 0x0f).toNat = token
    have htoklen : token.length = (mem 0 &&& 0x0f).toNat := by
      rw [← htok, Support.Buf.length_read]
    -- the bytes of a message with this header, token and tail
    have key (options : List (Nat × List UInt8)) (payload : Option (List UInt8))
        (htail : mem.read (4 + (mem 0 &&& 0x0f).toNat) (len.toNat - 4 - (mem 0 &&& 0x0f).toNat) =
          options.flatMap optionBytes ++ payloadBytes payload) :
        mem.read 0 len.toNat = Message.bytes ⟨(mem 0 >>> 4) &&& 0x03, mem 1,
          (mem 2).toUInt16 <<< 8 ||| (mem 3).toUInt16, token, options, payload⟩ := by
      have hsplit : len.toNat = 4 + ((mem 0 &&& 0x0f).toNat +
          (len.toNat - 4 - (mem 0 &&& 0x0f).toNat)) := by omega
      rw [hsplit, Support.Buf.read_add, Support.Buf.read_add, Message.bytes, Message.header,
        Message.tail]
      simp only [Nat.zero_add, htok, htail, hhead, htoklen, htid₁, htid₂, ← hfirst]
    by_cases hcode : mem 1 = 0
    · unfold coapPduParseOpt at h
      by_cases hempty : len.toNat - 4 ≠ 0 ∨ mem 0 &&& 0x0f ≠ 0
      · rw [if_pos ⟨hcode, hempty⟩] at h
        cases h
      · obtain ⟨hused, hzero⟩ := not_or.mp hempty
        rw [not_not] at hused hzero
        have hz : (mem 0 &&& 0x0f).toNat = 0 := by rw [hzero]; rfl
        refine ⟨_, ?_, key [] none ?_⟩
        · have hnil : token = [] := List.length_eq_zero_iff.mp (by rw [htoklen, hz])
          exact ⟨UInt8.lt_iff_toNat_lt.mpr htype, by rw [hnil]; simp, by simp, by simp,
            fun _ => ⟨hnil, rfl, rfl⟩⟩
        · rw [hz, hused]
          rfl
    · obtain ⟨hle, h8, options, payload, hok, hpayload, htail⟩ := parseOpt_sound hcode h
      refine ⟨_, ?_, key options payload htail⟩
      exact ⟨UInt8.lt_iff_toNat_lt.mpr htype, by rw [htoklen]; exact h8, hok, hpayload,
        fun h => absurd h hcode⟩
  · rw [if_pos hver] at h
    cases h

/-! ### One message -/

/-- The bytes of a half word determine it. -/
theorem halfWord_inj {v w : UInt16}
    (hhi : UInt8.ofNat (v.toNat / 256) = UInt8.ofNat (w.toNat / 256))
    (hlo : UInt8.ofNat v.toNat = UInt8.ofNat w.toNat) : v = w := by
  rw [← halfWord_bytes v, ← halfWord_bytes w, hhi, hlo]

/-- Two messages with one header have the same fields in it. -/
theorem header_inj {a b : Message} (ha : a.Ok) (hb : b.Ok) (h : a.header = b.header) :
    a.type = b.type ∧ a.code = b.code ∧ a.tid = b.tid ∧ a.token.length = b.token.length := by
  have hta := UInt8.lt_iff_toNat_lt.mp ha.type
  have htb := UInt8.lt_iff_toNat_lt.mp hb.type
  have hka := ha.token
  have hkb := hb.token
  simp only [Message.header, List.cons.injEq, and_true] at h
  obtain ⟨hfirst, hcode, hhi, hlo⟩ := h
  have hnat := congrArg UInt8.toNat hfirst
  rw [UInt8.toNat_ofNat', UInt8.toNat_ofNat', show (4 : UInt8).toNat = 4 from rfl] at *
  exact ⟨UInt8.toNat_inj.mp (by omega), hcode, halfWord_inj hhi hlo, by omega⟩

/-- A datagram says one message. -/
theorem Message.bytes_injective {a b : Message} (ha : a.Ok) (hb : b.Ok) (h : a.bytes = b.bytes) :
    a = b := by
  obtain ⟨hheader, hbody⟩ := List.append_inj h rfl
  obtain ⟨htype, hcode, htid, hlen⟩ := header_inj ha hb hheader
  obtain ⟨htoken, htail⟩ := List.append_inj hbody hlen
  have hreada := readWhile_tail ha.options (show a.tail = _ from rfl)
  rw [htail, readWhile_tail hb.options (show b.tail = _ from rfl), Prod.mk.injEq] at hreada
  obtain ⟨hoptions, hmarked⟩ := hreada
  have hpayload : a.payload = b.payload := by
    cases hpa : a.payload <;> cases hpb : b.payload <;>
      simp_all [payloadBytes]
  obtain ⟨_, _, _, _, _, _⟩ := a
  obtain ⟨_, _, _, _, _, _⟩ := b
  simp only [Message.mk.injEq]
  exact ⟨htype, hcode, htid, htoken, hoptions.symm, hpayload⟩

/-- **The parser accepts messages.**  A datagram is accepted exactly if it is the bytes of a
message; it is of one only, and the PDU holds it. -/
theorem coapRecv_accepts_iff (mem : Buf) (len : UInt16) :
    (coapRecv mem len).2 = true ↔ ∃! msg : Message,
      msg.Ok ∧ mem.read 0 len.toNat = msg.bytes ∧ HoldsMessage (coapRecv mem len).1 msg := by
  constructor
  · intro h
    obtain ⟨msg, hok, hbytes⟩ := coapRecv_sound h
    refine ⟨msg, ⟨hok, hbytes, (coapRecv_message hok hbytes).2⟩, ?_⟩
    rintro other ⟨hok', hbytes', -⟩
    exact Message.bytes_injective hok' hok (hbytes'.symm.trans hbytes)
  · rintro ⟨msg, ⟨hok, hbytes, -⟩, -⟩
    exact (coapRecv_message hok hbytes).1

end XY1100.Coap
