import Mathlib.Tactic

/-!
# Coap — options and PDUs

The parts of libcoap a request is built with: option lists (`option.c`), the variable-length
integers of option values (`encode.c`), and the PDU options and data are added to (`pdu.c`).  An
option or a payload that does not fit `max_size` is left out.
-/

namespace XY1100.Coap

/-! ### Options -/

def LIBCOAP_COAP_OPTION_URI_HOST : UInt16 := 3
def LIBCOAP_COAP_OPTION_OBSERVE : UInt16 := 6
def LIBCOAP_COAP_OPTION_URI_PORT : UInt16 := 7
def LIBCOAP_COAP_OPTION_URI_PATH : UInt16 := 11
def LIBCOAP_COAP_OPTION_CONTENT_FORMAT : UInt16 := 12
def LIBCOAP_COAP_OPTION_URI_QUERY : UInt16 := 15
def LIBCOAP_COAP_OPTION_BLOCK2 : UInt16 := 23
def LIBCOAP_COAP_OPTION_BLOCK1 : UInt16 := 27
def LIBCOAP_COAP_OPTION_PROXY_URI : UInt16 := 35
def LIBCOAP_COAP_OPTION_SIZE1 : UInt16 := 60

/-- An entry of a `coap_optlist_t`. -/
structure CoapOpt where
  number : UInt16
  data : List UInt8
  deriving DecidableEq

/-- `coap_encode_var_safe`: the big-endian bytes of a value, none for zero. -/
def coapEncodeVarSafe (val : UInt32) : List UInt8 :=
  if val = 0 then []
  else if val.toNat < 2 ^ 8 then [val.toUInt8]
  else if val.toNat < 2 ^ 16 then [(val >>> 8).toUInt8, val.toUInt8]
  else if val.toNat < 2 ^ 24 then [(val >>> 16).toUInt8, (val >>> 8).toUInt8, val.toUInt8]
  else [(val >>> 24).toUInt8, (val >>> 16).toUInt8, (val >>> 8).toUInt8, val.toUInt8]

/-- The order `coap_add_optlist_pdu` sorts by; the sort is stable. -/
def sortOptlist (options : List CoapOpt) : List CoapOpt :=
  options.insertionSort fun a b => a.number ≤ b.number

theorem sortOptlist_perm (options : List CoapOpt) : (sortOptlist options).Perm options :=
  List.perm_insertionSort _ _

/-! ### PDUs -/

structure Pdu where
  maxSize : Nat
  maxDelta : UInt16 := 0
  usedSize : Nat := 0
  token : List UInt8 := []
  options : List CoapOpt := []
  data : Option (List UInt8) := none

/-- `coap_pdu_check_resize` and `coap_pdu_resize`: a PDU of this size is allowed. -/
def Pdu.Fits (pdu : Pdu) (size : Nat) : Prop := pdu.maxSize = 0 ∨ size ≤ pdu.maxSize

instance (pdu : Pdu) (size : Nat) : Decidable (pdu.Fits size) :=
  inferInstanceAs (Decidable (_ ∨ _))

/-- `coap_add_token`. -/
def Pdu.addToken (pdu : Pdu) (token : List UInt8) : Pdu :=
  if 8 < token.length ∨ pdu.usedSize ≠ 0 ∨ ¬ pdu.Fits token.length then pdu
  else { pdu with token := token, maxDelta := 0, usedSize := token.length, data := none }

/-- `coap_opt_encode_size`. -/
def coapOptEncodeSize (delta : UInt16) (length : Nat) : Nat :=
  1 + (if delta < 13 then 0 else if delta < 269 then 1 else 2) +
    (if length < 13 then 0 else if length < 269 then 1 else 2) + length

/-- `coap_add_option`. -/
def Pdu.addOption (pdu : Pdu) (opt : CoapOpt) : Pdu :=
  let size := pdu.usedSize + coapOptEncodeSize (opt.number - pdu.maxDelta) opt.data.length
  if opt.number < pdu.maxDelta ∨ ¬ pdu.Fits size then { pdu with data := none }
  else { pdu with options := pdu.options ++ [opt], maxDelta := opt.number, usedSize := size,
                  data := none }

/-- `coap_add_data`. -/
def Pdu.addData (pdu : Pdu) (data : List UInt8) : Pdu :=
  if data = [] then pdu
  else if pdu.Fits (pdu.usedSize + data.length + 1) then
    { pdu with usedSize := pdu.usedSize + data.length + 1, data := some data }
  else { pdu with data := none }

/-- What a PDU carries as its payload. -/
def Pdu.payload (pdu : Pdu) : List UInt8 := pdu.data.getD []

/-- The payload fits the PDU behind what is there. -/
def Pdu.HasRoom (pdu : Pdu) (data : List UInt8) : Prop :=
  data = [] ∨ pdu.Fits (pdu.usedSize + data.length + 1)

instance (pdu : Pdu) (data : List UInt8) : Decidable (pdu.HasRoom data) :=
  inferInstanceAs (Decidable (_ ∨ _))

theorem addToken_data {pdu : Pdu} (token : List UInt8) (h : pdu.data = none) :
    (pdu.addToken token).data = none := by
  unfold Pdu.addToken
  split
  · exact h
  · rfl

theorem addOption_data (pdu : Pdu) (opt : CoapOpt) : (pdu.addOption opt).data = none := by
  unfold Pdu.addOption
  dsimp only
  split <;> rfl

theorem foldl_addOption_data (options : List CoapOpt) {pdu : Pdu} (h : pdu.data = none) :
    (options.foldl Pdu.addOption pdu).data = none := by
  induction options generalizing pdu with
  | nil => exact h
  | cons opt options ih => exact ih (addOption_data pdu opt)

/-- Data without room is dropped. -/
theorem addData_payload {pdu : Pdu} (data : List UInt8) (h : pdu.data = none) :
    (pdu.addData data).payload = if pdu.HasRoom data then data else [] := by
  unfold Pdu.addData Pdu.HasRoom
  by_cases hdata : data = []
  · subst hdata
    simp [Pdu.payload, h]
  · by_cases hfits : pdu.Fits (pdu.usedSize + data.length + 1)
    · simp [Pdu.payload, hdata, hfits]
    · simp [Pdu.payload, hdata, hfits]

end XY1100.Coap
