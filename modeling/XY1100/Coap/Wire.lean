import XY1100.Coap.OptionCodec
import XY1100.Coap.Request
import XY1100.Support.Deltas

/-!
# Coap — PDUs as bytes

`pdu.c` builds a message in the memory of a `pbuf`: the token, the options and the payload from
`token` on, and the header in the bytes in front of it.  `CoapPdu` is the `coap_pdu_t` with that
memory, `coapAddToken`, `coapAddOption`, `coapAddData` and `coapPduEncodeHeader` the functions
that fill it.

* `Refines`: the bytes of a `CoapPdu` are the token, the options and the payload of a `Pdu`.
* `addToken_refines`, `addOption_refines`, `addData_refines`: each function refines the one of
  `Pdu` of its name, also where it leaves something out.
* `coapNewRequest_refines`: so does the PDU of a whole request.
* `Frame`: what each of them leaves as it is; nothing is written outside the memory of the PDU.
-/

namespace XY1100.Coap
open Support (Buf gaps lastPosition)

/-! ### The PDU -/

/-- The transport of a session, `coap_proto_t`. -/
inductive CoapProto
  | none | udp | dtls | tcp | tls
  deriving DecidableEq

/-- A `coap_pdu_t` with the memory it points into; `token` and `data` are addresses. -/
structure CoapPdu where
  type : UInt8 := 0
  code : UInt8 := 0
  maxHdrSize : Nat
  hdrSize : Nat := 0
  tokenLength : UInt8 := 0
  tid : UInt16 := 0
  maxDelta : UInt16 := 0
  allocSize : Nat
  usedSize : Nat := 0
  maxSize : Nat := 0
  token : Nat
  data : Option Nat := none
  mem : Buf

def COAP_PDU_MAX_UDP_HEADER_SIZE : Nat := 4
def COAP_PAYLOAD_START : UInt8 := 0xff
def COAP_DEFAULT_VERSION : UInt8 := 1
def COAP_MAX_MESSAGE_SIZE_TCP16 : Nat := 65804

/-- `coap_pdu_clear`. -/
def coapPduClear (pdu : CoapPdu) (size : Nat) : CoapPdu :=
  { pdu with
    allocSize := min pdu.allocSize size, type := 0, code := 0, hdrSize := 0, tokenLength := 0,
    tid := 0, maxDelta := 0, maxSize := size, usedSize := 0, data := none }

/-- `coap_pdu_init` with lwIP: `pbuf` is the fresh memory, `allocSize` what the fresh `coap_pdu_t`
happens to hold. -/
def coapPduInit (type code : UInt8) (tid : UInt16) (size : Nat) (pbuf : Buf) (allocSize : Nat) :
    Option CoapPdu :=
  if COAP_MAX_MESSAGE_SIZE_TCP16 + 4 < size then none
  else
    let pdu : CoapPdu :=
      { maxHdrSize := COAP_PDU_MAX_UDP_HEADER_SIZE, allocSize := allocSize,
        token := COAP_PDU_MAX_UDP_HEADER_SIZE, mem := pbuf }
    some { coapPduClear pdu size with tid := tid, type := type, code := code }

/-- `coap_pdu_resize` with lwIP, `none` for a return of `0`. -/
def coapPduResize (pdu : CoapPdu) (newSize : Nat) : Option CoapPdu :=
  if pdu.allocSize < newSize ∧ pdu.maxSize ≠ 0 ∧ pdu.maxSize < newSize then none
  else some { pdu with allocSize := newSize }

/-- The loop of `coap_pdu_check_resize` that doubles the size. -/
def doubled (size : Nat) : Nat → Nat → Nat
  | 0, newSize => newSize
  | fuel + 1, newSize => if newSize < size then doubled size fuel (newSize * 2) else newSize

/-- `coap_pdu_check_resize`. -/
def coapPduCheckResize (pdu : CoapPdu) (size : Nat) : Option CoapPdu :=
  if pdu.allocSize < size then
    let newSize := doubled size size (max 256 (pdu.allocSize * 2))
    if pdu.maxSize ≠ 0 ∧ pdu.maxSize < newSize then
      if pdu.maxSize < size then none else coapPduResize pdu pdu.maxSize
    else coapPduResize pdu newSize
  else some pdu

/-- `coap_add_token`: the PDU after it, and whether it returns `1`. -/
def coapAddToken (pdu : CoapPdu) (data : List UInt8) : CoapPdu × Bool :=
  if 8 < data.length then (pdu, false)
  else if pdu.usedSize ≠ 0 then (pdu, false)
  else match coapPduCheckResize pdu data.length with
    | none => (pdu, false)
    | some pdu =>
      ({ pdu with
          tokenLength := UInt8.ofNat data.length, mem := pdu.mem.write pdu.token data,
          maxDelta := 0, usedSize := data.length, data := none }, true)

/-- `coap_add_option`: the PDU after it, and the size it returns. -/
def coapAddOption (pdu : CoapPdu) (type : UInt16) (data : List UInt8) : CoapPdu × Nat :=
  let pdu := { pdu with data := none }
  if type < pdu.maxDelta then (pdu, 0)
  else
    let delta := type - pdu.maxDelta
    match coapPduCheckResize pdu (pdu.usedSize + coapOptEncodeSize delta data.length) with
    | none => (pdu, 0)
    | some pdu =>
      match coapOptEncode (pdu.allocSize - pdu.usedSize) delta data with
      | none => (pdu, 0)
      | some opt =>
        ({ pdu with
            mem := pdu.mem.write (pdu.token + pdu.usedSize) opt, maxDelta := type,
            usedSize := pdu.usedSize + opt.length }, opt.length)

/-- `coap_add_data`, with `coap_add_data_after`. -/
def coapAddData (pdu : CoapPdu) (data : List UInt8) : CoapPdu × Bool :=
  if data.length = 0 then (pdu, true)
  else
    let pdu := { pdu with data := none }
    match coapPduResize pdu (pdu.usedSize + data.length + 1) with
    | none => (pdu, false)
    | some pdu =>
      ({ pdu with
          mem := pdu.mem.write (pdu.token + pdu.usedSize) (COAP_PAYLOAD_START :: data),
          data := some (pdu.token + pdu.usedSize + 1),
          usedSize := pdu.usedSize + 1 + data.length }, true)

/-- The store of a header in front of the token, if there is space for it. -/
def putHeader (pdu : CoapPdu) (header : List UInt8) : CoapPdu × Nat :=
  if pdu.maxHdrSize < header.length then (pdu, 0)
  else
    ({ pdu with
        mem := pdu.mem.write (pdu.token - header.length) header, hdrSize := header.length },
      header.length)

/-- `coap_pdu_encode_header`. -/
def coapPduEncodeHeader (pdu : CoapPdu) (proto : CoapProto) : CoapPdu × Nat :=
  match proto with
  | .udp | .dtls =>
    putHeader pdu
      [COAP_DEFAULT_VERSION <<< 6 ||| pdu.type <<< 4 ||| pdu.tokenLength, pdu.code,
        (pdu.tid >>> 8).toUInt8, pdu.tid.toUInt8]
  | .tcp | .tls =>
    if pdu.usedSize < pdu.tokenLength.toNat then (pdu, 0)
    else
      let len := pdu.usedSize - pdu.tokenLength.toNat
      if len ≤ 12 then putHeader pdu [UInt8.ofNat len <<< 4 ||| pdu.tokenLength, pdu.code]
      else if len ≤ 268 then
        putHeader pdu [(13 : UInt8) <<< 4 ||| pdu.tokenLength, UInt8.ofNat (len - 13), pdu.code]
      else if len ≤ COAP_MAX_MESSAGE_SIZE_TCP16 then
        putHeader pdu
          [(14 : UInt8) <<< 4 ||| pdu.tokenLength, UInt8.ofNat ((len - 269) >>> 8),
            UInt8.ofNat (len - 269),
            pdu.code]
      else
        putHeader pdu
          [(15 : UInt8) <<< 4 ||| pdu.tokenLength, UInt8.ofNat ((len - 65805) >>> 24),
            UInt8.ofNat ((len - 65805) >>> 16), UInt8.ofNat ((len - 65805) >>> 8),
            UInt8.ofNat (len - 65805), pdu.code]
  | .none => (pdu, pdu.hdrSize)

/-- The bytes a session sends: the header and what is used behind it. -/
def datagram (pdu : CoapPdu) : List UInt8 :=
  pdu.mem.read (pdu.token - pdu.hdrSize) (pdu.hdrSize + pdu.usedSize)

/-! ### What the bytes stand for -/

/-- The options as values at numbers. -/
def numbered (options : List CoapOpt) : List (UInt16 × List UInt8) :=
  options.map fun o => (o.number, o.data)

/-- The options as values behind the deltas between their numbers. -/
def optionDeltas (base : UInt16) (options : List CoapOpt) : List (Nat × List UInt8) :=
  (gaps base (numbered options)).map fun d => (d.1.toNat, d.2)

/-- The marker and the payload. -/
def payloadBytes : Option (List UInt8) → List UInt8
  | none => []
  | some payload => COAP_PAYLOAD_START :: payload

/-- The bytes from the token on. -/
def Pdu.bytes (pdu : Pdu) : List UInt8 :=
  pdu.token ++ (optionDeltas 0 pdu.options).flatMap optionBytes ++ payloadBytes pdu.data

/-- The bytes of a PDU are those of `abs`, and its bookkeeping agrees. -/
structure Refines (pdu : CoapPdu) (abs : Pdu) : Prop where
  maxSize : pdu.maxSize = abs.maxSize
  alloc : pdu.maxSize ≠ 0 → pdu.allocSize ≤ pdu.maxSize
  tokenLength : pdu.tokenLength.toNat = abs.token.length
  maxDelta : pdu.maxDelta = abs.maxDelta
  usedSize : pdu.usedSize = abs.usedSize
  bytes : pdu.mem.read pdu.token pdu.usedSize = abs.bytes
  data : pdu.data = abs.data.map fun data => pdu.token + pdu.usedSize - data.length
  lastNumber : abs.maxDelta = lastPosition 0 (numbered abs.options)

theorem optionDeltas_append (base : UInt16) (options : List CoapOpt) (opt : CoapOpt) :
    optionDeltas base (options ++ [opt]) = optionDeltas base options ++
      [((opt.number - lastPosition base (numbered options)).toNat, opt.data)] := by
  simp [optionDeltas, numbered, Support.gaps_append]

theorem doubled_ge {size : Nat} : ∀ {fuel newSize : Nat}, size ≤ fuel + newSize → 0 < newSize →
    size ≤ doubled size fuel newSize := by
  intro fuel
  induction fuel with
  | zero => intro newSize h _; simpa [doubled] using h
  | succ fuel ih =>
    intro newSize h hpos
    rw [doubled]
    split_ifs with hlt
    · exact ih (by omega) (by omega)
    · omega

/-- A resize succeeds for the sizes that are allowed, and changes the allocated size only. -/
theorem checkResize_cases {pdu : CoapPdu} (size : Nat)
    (halloc : pdu.maxSize ≠ 0 → pdu.allocSize ≤ pdu.maxSize) :
    (pdu.maxSize ≠ 0 ∧ pdu.maxSize < size ∧ coapPduCheckResize pdu size = none) ∨
      ((pdu.maxSize = 0 ∨ size ≤ pdu.maxSize) ∧
        ∃ alloc, size ≤ alloc ∧ (pdu.maxSize ≠ 0 → alloc ≤ pdu.maxSize) ∧
          coapPduCheckResize pdu size = some { pdu with allocSize := alloc }) := by
  have hge := @doubled_ge size size (max 256 (pdu.allocSize * 2)) (by omega) (by omega)
  unfold coapPduCheckResize coapPduResize
  by_cases hlt : pdu.allocSize < size
  · simp only [if_pos hlt]
    generalize doubled size size (max 256 (pdu.allocSize * 2)) = newSize at hge
    by_cases hcap : pdu.maxSize ≠ 0 ∧ pdu.maxSize < newSize
    · rw [if_pos hcap]
      by_cases hsmall : pdu.maxSize < size
      · exact .inl ⟨hcap.1, hsmall, by rw [if_pos hsmall]⟩
      · refine .inr ⟨.inr (by omega), pdu.maxSize, by omega, fun _ => le_refl _, ?_⟩
        rw [if_neg hsmall, if_neg (by omega)]
    · rw [if_neg hcap, if_neg (by omega)]
      exact .inr ⟨by omega, newSize, hge, by omega, rfl⟩
  · rw [if_neg hlt]
    exact .inr ⟨by omega, pdu.allocSize, by omega, halloc, rfl⟩

/-! ### Filling a PDU -/

/-- What the functions that fill a PDU leave: the header's fields, and the memory outside the PDU's
own. -/
structure Frame (pdu pdu' : CoapPdu) : Prop where
  type : pdu'.type = pdu.type
  code : pdu'.code = pdu.code
  tid : pdu'.tid = pdu.tid
  maxHdrSize : pdu'.maxHdrSize = pdu.maxHdrSize
  token : pdu'.token = pdu.token
  maxSize : pdu'.maxSize = pdu.maxSize
  outside : pdu.maxSize ≠ 0 → ∀ i, i < pdu.token ∨ pdu.token + pdu.maxSize ≤ i →
    pdu'.mem i = pdu.mem i

theorem Frame.refl (pdu : CoapPdu) : Frame pdu pdu :=
  ⟨rfl, rfl, rfl, rfl, rfl, rfl, fun _ _ _ => rfl⟩

theorem Frame.trans {pdu pdu' pdu'' : CoapPdu} (h₁ : Frame pdu pdu') (h₂ : Frame pdu' pdu'') :
    Frame pdu pdu'' where
  type := h₂.type.trans h₁.type
  code := h₂.code.trans h₁.code
  tid := h₂.tid.trans h₁.tid
  maxHdrSize := h₂.maxHdrSize.trans h₁.maxHdrSize
  token := h₂.token.trans h₁.token
  maxSize := h₂.maxSize.trans h₁.maxSize
  outside hmax i hi :=
    (h₂.outside (by rwa [h₁.maxSize]) i (by rwa [h₁.token, h₁.maxSize])).trans
      (h₁.outside hmax i hi)

theorem Refines.fits_iff {pdu : CoapPdu} {abs : Pdu} (h : Refines pdu abs) (size : Nat) :
    abs.Fits size ↔ pdu.maxSize = 0 ∨ size ≤ pdu.maxSize := by
  rw [Pdu.Fits, h.maxSize]

/-- A fresh PDU is the empty one. -/
theorem coapPduInit_refines {type code : UInt8} {tid : UInt16} {size alloc : Nat} {pbuf : Buf}
    {pdu : CoapPdu} (h : coapPduInit type code tid size pbuf alloc = some pdu) :
    Refines pdu { maxSize := size } := by
  unfold coapPduInit at h
  split_ifs at h
  obtain rfl := Option.some.inj h
  exact ⟨rfl, fun _ => Nat.min_le_right _ _, rfl, rfl, rfl, rfl, rfl, rfl⟩

/-- `coap_add_token` puts the token in front, where there is room for it. -/
theorem addToken_refines {pdu : CoapPdu} {size : Nat} (token : List UInt8)
    (h : Refines pdu { maxSize := size }) :
    Refines (coapAddToken pdu token).1 (Pdu.addToken { maxSize := size } token) ∧
      Frame pdu (coapAddToken pdu token).1 := by
  have hused : pdu.usedSize = 0 := h.usedSize
  have hmax : pdu.maxSize = size := h.maxSize
  unfold coapAddToken Pdu.addToken
  by_cases hlong : 8 < token.length
  · rw [if_pos hlong, if_pos (.inl hlong)]
    exact ⟨h, .refl pdu⟩
  rw [if_neg hlong, if_neg (not_not_intro hused)]
  obtain ⟨hne, hlt, hr⟩ | ⟨hfits, alloc, hge, hle, hr⟩ := checkResize_cases token.length h.alloc
  · rw [hr, if_pos (.inr (.inr (by rw [h.fits_iff]; omega)))]
    exact ⟨h, .refl pdu⟩
  · rw [hr, if_neg (by
      rintro (h' | h' | h')
      · exact hlong h'
      · exact h' rfl
      · exact h' ((h.fits_iff _).mpr hfits))]
    refine ⟨⟨h.maxSize, hle, ?_, rfl, rfl, ?_, rfl, rfl⟩,
      ⟨rfl, rfl, rfl, rfl, rfl, rfl, fun hne i hi => ?_⟩⟩
    · simp only [UInt8.toNat_ofNat']
      omega
    · simp only [Support.Buf.read_write]
      simp [Pdu.bytes, optionDeltas, numbered, payloadBytes]
    · refine Support.Buf.write_outside ?_
      have := hfits.resolve_left hne
      simp only
      omega

/-- `coap_add_option` puts the option behind what is there, where there is room for it. -/
theorem addOption_refines {pdu : CoapPdu} {abs : Pdu} (opt : CoapOpt) (h : Refines pdu abs)
    (hdata : abs.data = none) :
    Refines (coapAddOption pdu opt.number opt.data).1 (abs.addOption opt) ∧
      Frame pdu (coapAddOption pdu opt.number opt.data).1 := by
  obtain ⟨type, code, maxHdrSize, hdrSize, tokenLength, tid, maxDelta, allocSize, usedSize,
    maxSize, token, data, mem⟩ := pdu
  obtain ⟨maxSize', maxDelta', usedSize', token', options, data'⟩ := abs
  obtain rfl : data' = none := hdata
  obtain rfl : maxSize = maxSize' := h.maxSize
  obtain rfl : maxDelta = maxDelta' := h.maxDelta
  obtain rfl : usedSize = usedSize' := h.usedSize
  have hlast : maxDelta = lastPosition 0 (numbered options) := h.lastNumber
  have hbytes : mem.read token usedSize = _ := h.bytes
  generalize hcleared : (⟨type, code, maxHdrSize, hdrSize, tokenLength, tid, maxDelta, allocSize,
    usedSize, maxSize, token, none, mem⟩ : CoapPdu) = cleared
  have hkeep : Refines cleared ⟨maxSize, maxDelta, usedSize, token', options, none⟩ := by
    subst hcleared
    exact ⟨rfl, h.alloc, h.tokenLength, rfl, rfl, h.bytes, rfl, h.lastNumber⟩
  have hframe : Frame ⟨type, code, maxHdrSize, hdrSize, tokenLength, tid, maxDelta, allocSize,
      usedSize, maxSize, token, data, mem⟩ cleared := by
    subst hcleared
    exact ⟨rfl, rfl, rfl, rfl, rfl, rfl, fun _ _ _ => rfl⟩
  simp only [coapAddOption, Pdu.addOption, hcleared]
  by_cases horder : opt.number < maxDelta
  · rw [if_pos (by subst hcleared; exact horder), if_pos (.inl horder)]
    exact ⟨hkeep, hframe⟩
  rw [if_neg (by subst hcleared; exact horder)]
  have hlen := length_optionBytes (opt.number - maxDelta) opt.data
  generalize hsize : coapOptEncodeSize (opt.number - maxDelta) opt.data.length = size at hlen
  obtain ⟨hne, hlt, hr⟩ | ⟨hroom, alloc, hge, hle, hr⟩ :=
    checkResize_cases (usedSize + size) hkeep.alloc
  · rw [hr, if_pos (.inr fun hroom => by
      subst hcleared
      exact absurd hroom (not_or.mpr ⟨hne, Nat.not_le.mpr hlt⟩))]
    exact ⟨hkeep, hframe⟩
  · subst hcleared
    rw [hr, if_neg (by
      rintro (h' | h')
      · exact horder h'
      · exact h' hroom)]
    simp only [coapOptEncode_eq, hsize]
    rw [if_pos (by omega)]
    refine ⟨⟨rfl, hle, h.tokenLength, rfl, ?_, ?_, rfl, ?_⟩,
      ⟨rfl, rfl, rfl, rfl, rfl, rfl, fun hne i hi => ?_⟩⟩
    · simp only [hlen]
    · simp only [Support.Buf.read_write_append, hbytes, Pdu.bytes, payloadBytes, List.append_nil,
        optionDeltas_append, List.flatMap_append, List.flatMap_singleton, ← hlast,
        List.append_assoc]
    · simp [numbered, Support.lastPosition_append]
    · refine Support.Buf.write_outside ?_
      have := hroom.resolve_left hne
      simp only at this hi
      omega

/-- `coap_add_data` puts the marker and the payload behind the options, where there is room. -/
theorem addData_refines {pdu : CoapPdu} {abs : Pdu} (data : List UInt8) (h : Refines pdu abs)
    (hdata : abs.data = none) :
    Refines (coapAddData pdu data).1 (abs.addData data) ∧ Frame pdu (coapAddData pdu data).1 := by
  have hused := h.usedSize
  have halloc := h.alloc
  unfold coapAddData Pdu.addData
  by_cases hnil : data = []
  · subst hnil
    exact ⟨h, .refl pdu⟩
  rw [if_neg hnil, if_neg (by simpa using hnil)]
  simp only [coapPduResize, hused, h.fits_iff]
  by_cases hroom : pdu.maxSize = 0 ∨ abs.usedSize + data.length + 1 ≤ pdu.maxSize
  · rw [if_neg (by omega), if_pos hroom]
    refine ⟨⟨h.maxSize, fun hne => hroom.resolve_left hne, h.tokenLength, h.maxDelta, ?_, ?_, ?_,
      h.lastNumber⟩, ⟨rfl, rfl, rfl, rfl, rfl, rfl, fun hne i hi => ?_⟩⟩
    · simp only
      omega
    · have hbytes := h.bytes
      rw [hused] at hbytes
      simp only
      rw [show abs.usedSize + 1 + data.length = abs.usedSize + (COAP_PAYLOAD_START :: data).length by
        rw [List.length_cons]; omega, Support.Buf.read_write_append, hbytes]
      simp [Pdu.bytes, hdata, payloadBytes]
    · simp only [Option.map_some, Option.some.injEq]
      omega
    · refine Support.Buf.write_outside ?_
      have := hroom.resolve_left hne
      simp only [List.length_cons]
      omega
  · rw [if_pos (by omega), if_neg hroom]
    refine ⟨⟨h.maxSize, h.alloc, h.tokenLength, h.maxDelta, rfl, ?_, rfl, h.lastNumber⟩,
      ⟨rfl, rfl, rfl, rfl, rfl, rfl, fun _ _ _ => rfl⟩⟩
    simpa only [Pdu.bytes, hdata, hused] using h.bytes

/-! ### A whole request -/

/-- The PDU of a request: `coap_new_pdu` and the functions `xy_coap_new_request` fills it with. -/
def coapNewRequest (maxPduSize : Nat) (r : Request) (pbuf : Buf) (allocSize : Nat) :
    Option CoapPdu :=
  match coapPduInit 0 0 0 maxPduSize pbuf allocSize with
  | none => none
  | some pdu =>
    let pdu := { pdu with type := r.msgtype, tid := r.tid, code := r.code }
    let pdu := (coapAddToken pdu r.token).1
    let pdu := r.options.foldl (fun pdu o => (coapAddOption pdu o.number o.data).1) pdu
    some (coapAddData pdu r.data).1

theorem addOptions_refines (options : List CoapOpt) {pdu : CoapPdu} {abs : Pdu}
    (h : Refines pdu abs) (hdata : abs.data = none) :
    Refines (options.foldl (fun pdu o => (coapAddOption pdu o.number o.data).1) pdu)
        (options.foldl Pdu.addOption abs) ∧
      Frame pdu (options.foldl (fun pdu o => (coapAddOption pdu o.number o.data).1) pdu) := by
  induction options generalizing pdu abs with
  | nil => exact ⟨h, .refl pdu⟩
  | cons opt options ih =>
    obtain ⟨h₁, hframe₁⟩ := addOption_refines opt h hdata
    obtain ⟨h₂, hframe₂⟩ := ih h₁ (addOption_data abs opt)
    exact ⟨h₂, hframe₁.trans hframe₂⟩

/-- The bytes of a request's PDU are those of the `Pdu` of the request. -/
theorem coapNewRequest_refines {cfg : Cfg} {r : Request} {pbuf : Buf} {allocSize : Nat}
    {pdu : CoapPdu} (h : coapNewRequest cfg.maxPduSize r pbuf allocSize = some pdu) :
    Refines pdu (r.pdu cfg) ∧
      ∃ fresh, coapPduInit 0 0 0 cfg.maxPduSize pbuf allocSize = some fresh ∧
        Frame { fresh with type := r.msgtype, tid := r.tid, code := r.code } pdu := by
  unfold coapNewRequest at h
  cases hinit : coapPduInit 0 0 0 cfg.maxPduSize pbuf allocSize with
  | none => simp [hinit] at h
  | some fresh =>
    rw [hinit] at h
    obtain rfl := Option.some.inj h
    have hfresh := coapPduInit_refines hinit
    have hnamed : Refines { fresh with type := r.msgtype, tid := r.tid, code := r.code }
        { maxSize := cfg.maxPduSize } :=
      ⟨hfresh.maxSize, hfresh.alloc, hfresh.tokenLength, hfresh.maxDelta, hfresh.usedSize,
        hfresh.bytes, hfresh.data, hfresh.lastNumber⟩
    obtain ⟨h₁, hframe₁⟩ := addToken_refines r.token hnamed
    obtain ⟨h₂, hframe₂⟩ := addOptions_refines r.options h₁ (addToken_data r.token rfl)
    obtain ⟨h₃, hframe₃⟩ := addData_refines r.data h₂ (headerPdu_data cfg r.token r.options)
    exact ⟨h₃, fresh, rfl, (hframe₁.trans hframe₂).trans hframe₃⟩

end XY1100.Coap
