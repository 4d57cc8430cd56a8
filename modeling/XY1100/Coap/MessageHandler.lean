import XY1100.Coap.Request

/-!
# Coap — responses

`xy_coap_message_handler`: what it reads of a response, and the request for the next block it
sends.  That request is built from `g_payload`, whose copy `xy_coap_pkt_send` has freed.

The output of the data and the timers are left out.
-/

namespace XY1100.Coap

/-- What the handler reads of a response; `m` of a block is the bit `COAP_OPT_BLOCK_MORE` reads. -/
structure Received where
  type : UInt8
  code : UInt8
  tid : UInt16
  token : List UInt8
  observe : Bool
  block2 : Option CoapBlock
  block1 : Option CoapBlock
  deriving DecidableEq

def COAP_MESSAGE_RST : UInt8 := 3

/-- `COAP_RESPONSE_CLASS`. -/
def responseClass (code : UInt8) : UInt8 := code >>> 5

/-- The entries of the option list with one of these numbers. -/
def Globals.optionsOf (g : Globals) (numbers : List UInt16) : List CoapOpt :=
  g.optlist.filter (·.number ∈ numbers)

/-- A request with these options and this data, as a result of the handler. -/
def sendNext (g : Globals) (options : List CoapOpt) (data : Except CoapFault (List UInt8)) :
    EStateM.Result CoapFault Globals (Option Request) :=
  match data with
  | .error e => .error e g
  | .ok data =>
    .ok (some ⟨g.msgtype, g.method, g.txMid + 1, g.token, options, data⟩)
      { g with txMid := g.txMid + 1 }

/-- The answer to a Block2 option. -/
def handleBlock2 (b : CoapBlock) : EStateM CoapFault Globals (Option Request) := fun g =>
  if b.m then
    let options := g.optionsOf [LIBCOAP_COAP_OPTION_URI_HOST, LIBCOAP_COAP_OPTION_URI_PORT,
      LIBCOAP_COAP_OPTION_URI_PATH, LIBCOAP_COAP_OPTION_URI_QUERY]
    let next : CoapBlock := ⟨b.num + 1, false, b.szx⟩
    sendNext g (options ++ [⟨LIBCOAP_COAP_OPTION_BLOCK2, coapEncodeVarSafe next.value⟩])
      (if g.payload.length = 0 then .ok [] else g.payload.bytes)
  else .ok none { g with flagsBlock := if g.method = COAP_REQUEST_GET then false else g.flagsBlock }

/-- The number of the acknowledged block, in blocks of the size the server asks for where the bytes
sent are a multiple of it. -/
def renegotiate (b : CoapBlock) (g : Globals) : UInt32 × Globals :=
  let bytesSent := (g.block.num + 1) <<< (g.block.szx.toUInt32 + 4)
  if b.szx ≠ g.block.szx ∧ bytesSent % blockSize b.szx = 0 then
    let num := (bytesSent >>> (b.szx.toUInt32 + 4)) - 1
    (num, { g with block := { g.block with num := num, szx := b.szx } })
  else (b.num, g)

/-- The next block, after block `num`. -/
def nextBlock (g : Globals) (num : UInt32) : CoapBlock :=
  { g.block with
    num := num + 1
    m := (num + 1 + 1) * blockSize g.block.szx < g.payload.length }

/-- The answer to a Block1 option. -/
def handleBlock1 (tid : UInt16) (b : CoapBlock) : EStateM CoapFault Globals (Option Request) :=
  fun g =>
    let (num, g) := renegotiate b g
    if g.lastBlock1Tid = tid then .ok none g
    else
      let g := { g with lastBlock1Tid := tid }
      if g.payload.length ≤ (g.block.num + 1) * blockSize g.block.szx then
        .ok none { g with ready := true }
      else
        let options := g.optionsOf [LIBCOAP_COAP_OPTION_URI_HOST, LIBCOAP_COAP_OPTION_URI_PORT,
          LIBCOAP_COAP_OPTION_URI_PATH, LIBCOAP_COAP_OPTION_CONTENT_FORMAT,
          LIBCOAP_COAP_OPTION_URI_QUERY]
        let g := { g with block := nextBlock g num }
        sendNext g
          (options ++ [⟨LIBCOAP_COAP_OPTION_BLOCK1, coapEncodeVarSafe g.block.value⟩,
            ⟨LIBCOAP_COAP_OPTION_SIZE1, coapEncodeVarSafe g.payload.length⟩])
          (coapAddBlock g.payload g.block.num g.block.szx)

/-- `xy_coap_message_handler`: the request it sends, if it sends one. -/
def xyCoapMessageHandler (received : Received) : EStateM CoapFault Globals (Option Request) :=
  fun g =>
    if received.token ≠ g.token then .ok none g
    else if received.type = COAP_MESSAGE_RST then .ok none g
    else if responseClass received.code = 2 then
      match received.block2, received.block1 with
      | some b, _ => handleBlock2 b g
      | none, some b => handleBlock1 received.tid b g
      | none, none => .ok none { g with ready := !received.observe }
    else .ok none { g with ready := !received.observe }

/-! ### What a response changes -/

/-- The last block of the answer to a `GET`. -/
def endsBlocks (g : Globals) (received : Received) : Bool :=
  received.token = g.token ∧ received.type ≠ COAP_MESSAGE_RST ∧ responseClass received.code = 2 ∧
    g.method = COAP_REQUEST_GET ∧ received.block2.any (!·.m)

theorem renegotiate_frame (b : CoapBlock) (g : Globals) :
    (renegotiate b g).2.payload = g.payload ∧ (renegotiate b g).2.optlist = g.optlist ∧
      (renegotiate b g).2.flagsBlock = g.flagsBlock := by
  unfold renegotiate
  dsimp only
  split <;> exact ⟨rfl, rfl, rfl⟩

theorem sendNext_frame {g g' : Globals} {options : List CoapOpt}
    {data : Except CoapFault (List UInt8)} {r : Option Request}
    (h : sendNext g options data = .ok r g') :
    g'.optlist = g.optlist ∧ g'.flagsBlock = g.flagsBlock := by
  unfold sendNext at h
  split at h
  · cases h
  · cases h
    exact ⟨rfl, rfl⟩

theorem handleBlock2_frame {b : CoapBlock} {g g' : Globals} {r : Option Request}
    (h : handleBlock2 b g = .ok r g') : g'.optlist = g.optlist ∧
      g'.flagsBlock = (g.flagsBlock && !(g.method = COAP_REQUEST_GET && !b.m)) := by
  unfold handleBlock2 at h
  cases hm : b.m
  · rw [hm, if_neg Bool.false_ne_true] at h
    cases h
    refine ⟨rfl, ?_⟩
    by_cases hget : g.method = COAP_REQUEST_GET <;> simp [hget]
  · rw [hm, if_pos rfl] at h
    simpa using sendNext_frame h

theorem handleBlock1_frame {tid : UInt16} {b : CoapBlock} {g g' : Globals} {r : Option Request}
    (h : handleBlock1 tid b g = .ok r g') :
    g'.optlist = g.optlist ∧ g'.flagsBlock = g.flagsBlock := by
  obtain ⟨-, hlist, hflag⟩ := renegotiate_frame b g
  unfold handleBlock1 at h
  dsimp only at h
  split at h
  · cases h
    exact ⟨hlist, hflag⟩
  split at h
  · cases h
    exact ⟨hlist, hflag⟩
  · obtain ⟨hlist', hflag'⟩ := sendNext_frame h
    exact ⟨hlist'.trans hlist, hflag'.trans hflag⟩

/-- No response changes the option list, and only the last block of a `GET` clears the flag. -/
theorem xyCoapMessageHandler_frame {received : Received} {g g' : Globals} {r : Option Request}
    (h : xyCoapMessageHandler received g = .ok r g') : g'.optlist = g.optlist ∧
      g'.flagsBlock = (g.flagsBlock && !endsBlocks g received) := by
  unfold xyCoapMessageHandler at h
  unfold endsBlocks
  by_cases htoken : received.token = g.token
  · rw [if_neg (not_not.mpr htoken)] at h
    by_cases hrst : received.type = COAP_MESSAGE_RST
    · rw [if_pos hrst] at h
      cases h
      simp [hrst]
    rw [if_neg hrst] at h
    by_cases hclass : responseClass received.code = 2
    · rw [if_pos hclass] at h
      rcases hblock2 : received.block2 with _ | b
      · rcases hblock1 : received.block1 with _ | b
        · rw [hblock2, hblock1] at h
          cases h
          simp
        · rw [hblock2, hblock1] at h
          simpa using handleBlock1_frame h
      · rw [hblock2] at h
        simpa [htoken, hrst, hclass] using handleBlock2_frame h
    · rw [if_neg hclass] at h
      cases h
      simp [hclass]
  · rw [if_pos htoken] at h
    cases h
    simp [htoken]

end XY1100.Coap
