import XY1100.Coap.Pdu
import XY1100.Coap.Segment

/-!
# Coap — configuring options and sending requests

The globals of `xy_coap_api.c`, `xy_config_coap_option` and `xy_coap_pkt_send`.  A request is what
the code hands to libcoap (`Request`), and `Request.pdu` what libcoap makes of it.

The payload of a request lives in `g_payload`, and is freed at the end of `xy_coap_pkt_send`; the
length stays.
-/

namespace XY1100.Coap

/-! ### Globals -/

structure CoapBlock where
  num : UInt32
  m : Bool
  szx : UInt8
  deriving DecidableEq

/-- A `coap_string_t`: the length, and the bytes while they are allocated. -/
structure CoapString where
  length : UInt32
  s : Option (List UInt8)
  deriving DecidableEq

/-- The globals of `xy_coap_api.c`, and `tx_mid` of the session.  `g_flags` has one bit. -/
structure Globals where
  flagsBlock : Bool := false
  optlist : List CoapOpt := []
  token : List UInt8 := []
  msgid : UInt16 := 0
  msgidRandomFlag : Bool := true
  tokenRandomFlag : Bool := true
  payload : CoapString := ⟨0, none⟩
  msgtype : UInt8 := 0
  method : UInt8 := 1
  block : CoapBlock := ⟨0, false, 6⟩
  lastBlock1Tid : UInt16 := 0
  ready : Bool := false
  txMid : UInt16

/-- The parts of libcoap that are parameters: how a path and a query are split, and the largest
PDU of the session. -/
structure Cfg where
  coapSplitPath : List UInt8 → List (List UInt8)
  coapSplitQuery : List UInt8 → List (List UInt8)
  maxPduSize : Nat

/-! ### Configuring options -/

def isdigit (c : UInt8) : Bool := 48 ≤ c ∧ c ≤ 57

/-- `isspace` in the C locale. -/
def isspace (c : UInt8) : Bool := c = 32 ∨ (9 ≤ c ∧ c ≤ 13)

/-- The value of the digits a string starts with. -/
def atoiDigits : List UInt8 → Int → Int
  | c :: s, acc => if isdigit c then atoiDigits s (10 * acc + (c - 48).toNat) else acc
  | [], acc => acc

/-- `atoi`, which stays within an `int`. -/
def atoi (arg : List UInt8) : Int :=
  let s := arg.dropWhile isspace
  let v := match s with
    | 43 :: s => atoiDigits s 0
    | 45 :: s => - atoiDigits s 0
    | s => atoiDigits s 0
  max (-2147483648) (min 2147483647 v)

/-- The value of a digit string in an option, for a string that starts with a digit. -/
def digitOption (number : UInt16) (arg : List UInt8) : List CoapOpt :=
  match arg with
  | c :: _ => if isdigit c then [⟨number, coapEncodeVarSafe (UInt32.ofInt (atoi arg))⟩] else []
  | [] => []

/-- The media types of `xy_content_type_set`, as bytes. -/
def contentTypes : List (UInt16 × List UInt8) :=
  [(0, "plain".toUTF8.toList), (0, "text/plain".toUTF8.toList), (40, "link".toUTF8.toList),
    (40, "link-format".toUTF8.toList), (40, "application/link-format".toUTF8.toList),
    (41, "xml".toUTF8.toList), (41, "application/xml".toUTF8.toList),
    (42, "binary".toUTF8.toList), (42, "octet-stream".toUTF8.toList),
    (42, "application/octet-stream".toUTF8.toList), (47, "exi".toUTF8.toList),
    (47, "application/exi".toUTF8.toList), (50, "json".toUTF8.toList),
    (50, "application/json".toUTF8.toList), (60, "cbor".toUTF8.toList),
    (60, "application/cbor".toUTF8.toList)]

/-- `xy_content_type_set`: a number, or the first media type the value is a prefix of. -/
def xyContentTypeSet (arg : List UInt8) (key : UInt16) : List CoapOpt :=
  let encoded (value : UInt16) := [⟨key, coapEncodeVarSafe value.toUInt32⟩]
  match arg with
  | c :: _ =>
    if isdigit c then encoded (UInt16.ofInt (atoi arg))
    else match contentTypes.find? fun t => arg.isPrefixOf t.2 with
      | some t => encoded t.1
      | none => []
  | [] => encoded 0

/-- The chunks of `xy_coap_proxy_uri_set`. -/
def xyCoapProxyUriSet (arg : List UInt8) : List CoapOpt :=
  if 270 < arg.length then
    ⟨LIBCOAP_COAP_OPTION_PROXY_URI, arg.take 270⟩ :: xyCoapProxyUriSet (arg.drop 270)
  else [⟨LIBCOAP_COAP_OPTION_PROXY_URI, arg⟩]
termination_by arg.length
decreasing_by simp; omega

/-- The entries `xy_config_coap_option` inserts for an option, `none` where it refuses the value. -/
def optionEntries (cfg : Cfg) (opt : Int) (optValue : List UInt8) : Option (List CoapOpt) :=
  let len := optValue.length
  match opt with
  | 3 => if len < 1 ∨ 255 < len then none else some [⟨LIBCOAP_COAP_OPTION_URI_HOST, optValue⟩]
  | 6 =>
    if atoi optValue ≠ 1 ∧ atoi optValue ≠ 0 then none
    else some (digitOption LIBCOAP_COAP_OPTION_OBSERVE optValue)
  | 7 =>
    if 0xFFFF < atoi optValue then none
    else some (digitOption LIBCOAP_COAP_OPTION_URI_PORT optValue)
  | 11 =>
    if 255 < len then none
    else if len = 0 then some []
    else some ((cfg.coapSplitPath optValue).map (⟨LIBCOAP_COAP_OPTION_URI_PATH, ·⟩))
  | 12 => some (xyContentTypeSet optValue LIBCOAP_COAP_OPTION_CONTENT_FORMAT)
  | 15 =>
    if 255 < len then none
    else if len = 0 then some []
    else some ((cfg.coapSplitQuery optValue).map (⟨LIBCOAP_COAP_OPTION_URI_QUERY, ·⟩))
  | 35 => if len < 1 ∨ 1034 < len then none else some (xyCoapProxyUriSet optValue)
  | 60 => some (digitOption LIBCOAP_COAP_OPTION_SIZE1 optValue)
  | _ => some []

/-- `xy_coap_blocksize(0, 512)`. -/
def xyCoapBlocksize (g : Globals) : Globals :=
  { g with block := { g.block with num := 0, szx := 5 }, flagsBlock := true }

/-- `xy_config_coap_option`. -/
def xyConfigCoapOption (cfg : Cfg) (g : Globals) (opt : Int) (optValue : List UInt8) : Globals :=
  if opt = 27 then xyCoapBlocksize g
  else match optionEntries cfg opt optValue with
    | none => g
    | some entries => { g with optlist := g.optlist ++ entries }

/-- `at_COAPOPTION_req`, once its parameters are parsed and a client exists. -/
def atCOAPOPTIONReq (cfg : Cfg) (g : Globals) (options : List (Int × List UInt8)) : Globals :=
  options.foldl (fun g o => xyConfigCoapOption cfg g o.1 o.2) { g with optlist := [] }

/-! ### Requests -/

/-- What is handed to libcoap for a request: the header, the options in the order they are added
in, and the data. -/
structure Request where
  msgtype : UInt8
  code : UInt8
  tid : UInt16
  token : List UInt8
  options : List CoapOpt
  data : List UInt8
  deriving DecidableEq

/-- The PDU with a token and options, before any data. -/
def headerPdu (cfg : Cfg) (token : List UInt8) (options : List CoapOpt) : Pdu :=
  let pdu : Pdu := { maxSize := cfg.maxPduSize }
  options.foldl Pdu.addOption (pdu.addToken token)

/-- The PDU libcoap makes of a request. -/
def Request.pdu (cfg : Cfg) (r : Request) : Pdu :=
  (headerPdu cfg r.token r.options).addData r.data

theorem headerPdu_data (cfg : Cfg) (token : List UInt8) (options : List CoapOpt) :
    (headerPdu cfg token options).data = none :=
  foldl_addOption_data options (addToken_data token rfl)

theorem Request.pdu_payload (cfg : Cfg) (r : Request) : (r.pdu cfg).payload =
    if (headerPdu cfg r.token r.options).HasRoom r.data then r.data else [] :=
  addData_payload r.data (headerPdu_data cfg r.token r.options)

/-- The value of a block option. -/
def CoapBlock.value (b : CoapBlock) : UInt32 :=
  (b.num <<< 4) ||| (if b.m then 8 else 0) ||| b.szx.toUInt32

/-- `1 << (szx + 4)`. -/
def blockSize (szx : UInt8) : UInt32 := 1 <<< (szx.toUInt32 + 4)

/-- The bytes of a string, where they are still allocated. -/
def CoapString.bytes (p : CoapString) : Except CoapFault (List UInt8) :=
  match p.s with
  | some s => .ok (s.take p.length.toNat)
  | none => .error .useAfterFree

/-- `coap_add_block`: the bytes it adds to a PDU. -/
def coapAddBlock (p : CoapString) (blockNum : UInt32) (blockSzx : UInt8) :
    Except CoapFault (List UInt8) :=
  let start := blockNum <<< (blockSzx.toUInt32 + 4)
  if p.length ≤ start then .ok []
  else p.bytes.map fun s =>
    (s.drop start.toNat).take (min (p.length - start) (blockSize blockSzx)).toNat

def COAP_REQUEST_GET : UInt8 := 1
def COAP_REQUEST_DELETE : UInt8 := 4

/-- `xy_coap_blocksize_set`. -/
def xyCoapBlocksizeSet (g : Globals) : Globals :=
  if g.method ≠ COAP_REQUEST_DELETE then
    let opt :=
      if g.method = COAP_REQUEST_GET then LIBCOAP_COAP_OPTION_BLOCK2
      else LIBCOAP_COAP_OPTION_BLOCK1
    let m := opt = LIBCOAP_COAP_OPTION_BLOCK1 ∧ blockSize g.block.szx < g.payload.length
    let block := { g.block with m := m }
    { g with block := block, optlist := g.optlist ++ [⟨opt, coapEncodeVarSafe block.value⟩] }
  else g

/-- `xy_coap_new_request`. -/
def xyCoapNewRequest (g : Globals) (optlist : List CoapOpt) (payload : CoapString) :
    Except CoapFault Request := do
  let tid := g.txMid + 1
  let request (options : List CoapOpt) (data : List UInt8) : Request :=
    ⟨g.msgtype, g.method, tid, g.token, options, data⟩
  if payload.length = 0 then return request optlist []
  else if ¬ g.flagsBlock then return request optlist (← payload.bytes)
  else
    return request (optlist ++ [⟨LIBCOAP_COAP_OPTION_SIZE1, coapEncodeVarSafe payload.length⟩])
      (← coapAddBlock payload g.block.num g.block.szx)

/-- `strcasecmp(a, b) == 0`. -/
def strcasecmp (a b : List Char) : Bool := a.map Char.toLower = b.map Char.toLower

/-- `xy_coap_method_get`: `8` for no method. -/
def xyCoapMethodGet (arg : List Char) : UInt8 :=
  let methods : List (List Char) :=
    [['g', 'e', 't'], ['p', 'o', 's', 't'], ['p', 'u', 't'], ['d', 'e', 'l', 'e', 't', 'e'],
      ['f', 'e', 't', 'c', 'h'], ['p', 'a', 't', 'c', 'h'], ['i', 'p', 'a', 't', 'c', 'h']]
  UInt8.ofNat (methods.findIdx (strcasecmp arg ·) + 1)

/-- `xy_coap_type_get`: `4` for no type. -/
def xyCoapTypeGet (arg : List Char) : UInt8 :=
  let types : List (List Char) :=
    [['c', 'o', 'n'], ['n', 'o', 'n'], ['a', 'c', 'k'], ['r', 's', 't']]
  UInt8.ofNat (types.findIdx (strcasecmp arg ·))

/-- `sprintf` with `%x`. -/
def hexToken (n : UInt16) : List UInt8 :=
  (Nat.toDigits 16 n.toNat).map fun c => UInt8.ofNat c.toNat

/-- The header `xy_coap_pkt_send` starts with. -/
def startRequest (g : Globals) : Globals :=
  let g := if g.msgidRandomFlag then g else { g with txMid := g.msgid - 1 }
  if g.tokenRandomFlag then { g with token := hexToken g.txMid } else g

/-- `g_payload` after the copy: a failed copy leaves the pointer. -/
def setPayload (g : Globals) (copied : Option (List UInt8)) : Globals :=
  match copied with
  | some bytes => { g with payload := ⟨UInt32.ofNat bytes.length, some bytes⟩ }
  | none => { g with payload := { g.payload with length := 0 } }

/-- `coap_free` of the copy at the end of a send: the length stays. -/
def freePayload (g : Globals) : Globals :=
  if g.payload.length = 0 then g else { g with payload := { g.payload with s := none } }

/-- The state a request is built in: the block option inserted if it is asked for, and the list
sorted. -/
def prepareRequest (g : Globals) (copied : Option (List UInt8)) : Globals :=
  let g := setPayload g copied
  let g := if g.flagsBlock then xyCoapBlocksizeSet g else g
  { g with optlist := sortOptlist g.optlist }

/-- The part of `xy_coap_pkt_send` after the copy. -/
def sendCopied (g : Globals) (copied : Option (List UInt8)) :
    EStateM.Result CoapFault Globals (Option Request) :=
  let g := prepareRequest g copied
  match xyCoapNewRequest g g.optlist g.payload with
  | .error e => .error e g
  -- the copy is freed here, whatever blocks are still to be sent
  | .ok r => .ok (some r) (freePayload { g with txMid := g.txMid + 1 })

/-- The copy of the payload, if there is one. -/
def copyPayload (payload : Option (List UInt8)) (payloadLen : UInt32) :
    Except CoapFault (Option (List UInt8)) :=
  match payload with
  | none => .ok none
  | some text => xyPayloadCopy text payloadLen

/-- `xy_coap_pkt_send`, without the wait for the answer: the request it sends, `none` where it
returns `-1`. -/
def xyCoapPktSend (type method : List Char) (payload : Option (List UInt8)) (payloadLen : UInt32) :
    EStateM CoapFault Globals (Option Request) := fun g =>
  let g := { startRequest g with method := xyCoapMethodGet method }
  if g.method = 8 then .ok none g
  else
    let g := { g with msgtype := xyCoapTypeGet type }
    if g.msgtype = 4 then .ok none g
    else match copyPayload payload payloadLen with
      | .error e => .error e g
      | .ok copied => sendCopied g copied

end XY1100.Coap
