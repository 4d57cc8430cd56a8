import Mathlib.Data.FinEnum
import XY1100.Dm.Base64
import XY1100.Support.BigEndian
import XY1100.Support.Decimal

/-!
# Lwm2m — values and their text

The data of LwM2M (`data.c`): values, the text form of a value, and the decoders that read numbers
and booleans from what was received (`utils.c`).

* `intToText_exact`: the text of an integer in a buffer of any length.
* `textToInt_exact`: the texts that are read as an integer, and as which.
* `objectLink_text_iff`: when the text of an object link has its colon.
* `base64Encode_encodes`: opaque data is written in base 64.
-/

namespace XY1100.Lwm2m
open Support

/-! ### Data -/

/-- A `lwm2m_data_type_t`. -/
inductive DataType
  | undefined | object | objectInstance | multipleResource | string | opaqueBytes | integer | float
  | boolean | objectLink
  deriving DecidableEq

/-- The value of a resource.  A `double` is its bits. -/
inductive LeafValue
  | undefined
  | string (buffer : List UInt8)
  | opaqueBytes (buffer : List UInt8)
  | integer (value : Int64)
  | float (value : UInt64)
  | boolean (value : Bool)
  | objectLink (objectId objectInstanceId : UInt16)
  deriving DecidableEq

/-- The types with children. -/
inductive Composite
  | object | objectInstance | multipleResource
  deriving DecidableEq

/-- A `lwm2m_data_t`. -/
inductive Lwm2mData
  | leaf (id : UInt16) (value : LeafValue)
  | composite (type : Composite) (id : UInt16) (children : List Lwm2mData)

def LeafValue.type : LeafValue → DataType
  | .undefined => .undefined
  | .string _ => .string
  | .opaqueBytes _ => .opaqueBytes
  | .integer _ => .integer
  | .float _ => .float
  | .boolean _ => .boolean
  | .objectLink _ _ => .objectLink

def Composite.type : Composite → DataType
  | .object => .object
  | .objectInstance => .objectInstance
  | .multipleResource => .multipleResource

/-! ### Integers as text -/

/-- The outcome of `utils_intToText`: `0`, a byte in front of the buffer, or a text at the start of
the buffer. -/
inductive Written
  | refused
  | overrun
  | text (result : Nat) (string : List UInt8)
  deriving DecidableEq

/-- The loop of `utils_intToText`, with the bytes left in front of the digits. -/
def digitsLoop : Nat → Int64 → List UInt8 → Int64 × Nat × List UInt8
  | 0, data, digits => (data, 0, digits)
  | left + 1, data, digits =>
    let digits := (48 + data % 10).toUInt64.toUInt8 :: digits
    if 0 < data / 10 then digitsLoop left (data / 10) digits else (data / 10, left, digits)

/-- The buffer when the text at its end has been moved to its start. -/
def movedToStart (string text : List UInt8) : List UInt8 :=
  text ++ (string.take (string.length - text.length) ++ text).drop text.length

/-- `utils_intToText`, where a negation wraps. -/
def utilsIntToText (data : Int64) (string : List UInt8) : Written :=
  if string = [] then .overrun
  else
    let minus := data < 0
    let (data, left, digits) := digitsLoop string.length (if minus then 0 - data else data) []
    if 0 < data then .refused
    else if minus then
      -- `index` is `left - 1`
      if left = 1 then .refused
      else if left = 0 then .overrun
      else .text (digits.length + 1) (movedToStart string (45 :: digits))
    else .text digits.length (movedToStart string digits)

/-- The loop of `utils_textToInt`. -/
def textToIntLoop : List UInt8 → UInt64 → Option UInt64
  | [], result => some result
  | b :: buffer, result =>
    if 48 ≤ b ∧ b ≤ 57 then
      if 0xFFFFFFFFFFFFFFFF / 10 < result then none
      else textToIntLoop buffer (result * 10 + (b - 48).toUInt64)
    else none

/-- `utils_textToInt`. -/
def utilsTextToInt (buffer : List UInt8) : Option Int64 :=
  match buffer with
  | [] => none
  | b :: rest =>
    let minus := b = 45
    match textToIntLoop (if minus then rest else b :: rest) 0 with
    | none => none
    | some result =>
      if 0x7FFFFFFFFFFFFFFF < result then none
      else some (if minus then (0 - result).toInt64 else result.toInt64)

/-! ### Base 64 -/

/-- `b64Alphabet`. -/
def b64Alphabet : List Char :=
  ['A', 'B', 'C', 'D', 'E', 'F', 'G', 'H', 'I', 'J', 'K', 'L', 'M', 'N', 'O', 'P', 'Q', 'R', 'S',
    'T', 'U', 'V', 'W', 'X', 'Y', 'Z', 'a', 'b', 'c', 'd', 'e', 'f', 'g', 'h', 'i', 'j', 'k', 'l',
    'm', 'n', 'o', 'p', 'q', 'r', 's', 't', 'u', 'v', 'w', 'x', 'y', 'z', '0', '1', '2', '3', '4',
    '5', '6', '7', '8', '9', '+', '/']

/-- `b64Alphabet[i]`. -/
def b64Char (i : UInt8) : Char := b64Alphabet.getD i.toNat (Char.ofNat 0)

/-- `prv_encodeBlock`. -/
def prvEncodeBlock (a b c : UInt8) : List Char :=
  [b64Char (a >>> 2), b64Char (((a &&& 0x03) <<< 4) ||| (b >>> 4)),
    b64Char (((b &&& 0x0F) <<< 2) ||| (c >>> 6)), b64Char (c &&& 0x3F)]

/-- `utils_base64GetSize`. -/
def utilsBase64GetSize (dataLen : Nat) : Nat := 4 * (dataLen / 3) + if dataLen % 3 ≠ 0 then 4 else 0

/-- The loop of `utils_base64Encode`. -/
def base64Loop : List UInt8 → List Char
  | [] => []
  | [a] => [b64Char (a >>> 2), b64Char ((a &&& 0x03) <<< 4), '=', '=']
  | [a, b] =>
    [b64Char (a >>> 2), b64Char (((a &&& 0x03) <<< 4) ||| (b >>> 4)), b64Char ((b &&& 0x0F) <<< 2),
      '=']
  | a :: b :: c :: data => prvEncodeBlock a b c ++ base64Loop data

/-- `utils_base64Encode`, `none` where the text does not fit. -/
def utilsBase64Encode (data : List UInt8) (bufferLen : Nat) : Option (List Char) :=
  if bufferLen < utilsBase64GetSize data.length then none else some (base64Loop data)

/-! ### Values as text -/

def PRV_STR_LENGTH : Nat := 32

/-- The text of an object link, built in eleven bytes of the stack.  The colon is stored behind five
digits, however many there are. -/
def objectLinkText (stack : Nat → UInt8) (objectId objectInstanceId : UInt16) :
    Option (List UInt8) :=
  let stringBuffer := (List.range 11).map stack
  match utilsIntToText objectId.toUInt64.toInt64 (stringBuffer.take 5) with
  | .text length string =>
    let stringBuffer := (string ++ stringBuffer.drop 5).set 5 58
    let res := length + 1
    match utilsIntToText objectInstanceId.toUInt64.toInt64 ((stringBuffer.drop res).take 5) with
    | .text length string =>
      some ((stringBuffer.take res ++ string ++ stringBuffer.drop (res + 5)).take (res + length))
    | _ => none
  | _ => none

/-- `prv_textSerialize`, `none` for `-1`; `stack` is what its arrays hold at first, `floatToText` is
`utils_floatToText` in a buffer of `2 * PRV_STR_LENGTH` bytes. -/
def prvTextSerialize (floatToText : UInt64 → Option (List UInt8)) (stack : Nat → UInt8) :
    LeafValue → Option (List UInt8)
  | .undefined => none
  | .string buffer => some buffer
  | .integer value =>
    match utilsIntToText value ((List.range PRV_STR_LENGTH).map stack) with
    | .text res intString => some (intString.take res)
    | _ => none
  | .float value => floatToText value
  | .boolean value => some [if value then 49 else 48]
  | .objectLink objectId objectInstanceId => objectLinkText stack objectId objectInstanceId
  | .opaqueBytes buffer =>
    (utilsBase64Encode buffer (utilsBase64GetSize buffer.length)).map
      (List.map fun c => UInt8.ofNat c.toNat)

/-! ### Decoding values -/

/-- `lwm2m_data_decode_int`. -/
def dataDecodeInt : LeafValue → Option Int
  | .integer value => some value.toInt
  | .string buffer => (utilsTextToInt buffer).map Int64.toInt
  | .opaqueBytes buffer =>
    if buffer.length = 1 ∨ buffer.length = 2 ∨ buffer.length = 4 ∨ buffer.length = 8 then
      some (BigEndian.toInt buffer)
    else none
  | _ => none

/-- `lwm2m_data_decode_bool`. -/
def dataDecodeBool : LeafValue → Option Bool
  | .boolean value => some value
  | .string [48] => some false
  | .string [49] => some true
  | .opaqueBytes [0] => some false
  | .opaqueBytes [1] => some true
  | _ => none

/-! ### Integers that are written -/

theorem toInt_div_ten (data : Int64) : (data / 10).toInt = data.toInt.tdiv 10 := by
  rw [Int64.toInt_div_of_ne_right _ _ (by decide), show (10 : Int64).toInt = 10 from rfl]

theorem toInt_mod_ten (data : Int64) : (data % 10).toInt = data.toInt.tmod 10 := by
  rw [Int64.toInt_mod, show (10 : Int64).toInt = 10 from rfl]

/-- The digit of a number that is not negative. -/
theorem lastDigit {data : Int64} {n : Nat} (h : data.toInt = n) :
    (48 + data % 10).toUInt64.toUInt8 = Decimal.ofDigit (n % 10) := by
  have hmod : (data % 10).toInt = ((n % 10 : Nat) : Int) := by
    rw [toInt_mod_ten, h]
    norm_cast
  have hsum : 48 + data % 10 = Int64.ofNat (48 + n % 10) := by
    apply Int64.toInt_inj.mp
    rw [Int64.toInt_add, hmod, Int64.toInt_ofNat_of_lt (by omega),
      show (48 : Int64).toInt = 48 from rfl, Int.bmod_eq_of_le_mul_two (by omega) (by omega)]
    push_cast
    rfl
  rw [hsum, show (Int64.ofNat (48 + n % 10)).toUInt64 = UInt64.ofNat (48 + n % 10) from rfl]
  apply UInt8.toNat_inj.mp
  rw [UInt64.toNat_toUInt8, UInt64.toNat_ofNat', Decimal.ofDigit, UInt8.toNat_ofNat']
  omega

/-- The loop writes the numeral of a number, where it fits. -/
theorem digitsLoop_fits {k : Nat} {data : Int64} {n : Nat} (digits : List UInt8)
    (h : data.toInt = n) (hfits : (Decimal.numeral n).length ≤ k) :
    digitsLoop k data digits =
      (0, k - (Decimal.numeral n).length, Decimal.numeral n ++ digits) := by
  induction k generalizing data n digits with
  | zero => exact absurd (Decimal.length_numeral_pos n) (by omega)
  | succ k ih =>
    have hdiv : (data / 10).toInt = ((n / 10 : Nat) : Int) := by
      rw [toInt_div_ten, h]
      norm_cast
    have hpos : 0 < data / 10 ↔ 10 ≤ n := by
      rw [Int64.lt_iff_toInt_lt, hdiv, show (0 : Int64).toInt = 0 from rfl]
      omega
    rw [digitsLoop, lastDigit h]
    rcases Nat.lt_or_ge n 10 with hn | hn
    · have hzero : data / 10 = 0 := Int64.toInt_inj.mp (by rw [hdiv, Nat.div_eq_of_lt hn]; rfl)
      rw [if_neg (by rw [hpos]; omega), hzero, Decimal.numeral_lt hn, Nat.mod_eq_of_lt hn]
      rfl
    · rw [Decimal.numeral_le hn, List.length_append, List.length_singleton] at hfits ⊢
      rw [if_pos (hpos.mpr hn), ih _ hdiv (by omega), List.append_assoc, List.singleton_append]
      congr 2
      omega

/-- Where it does not fit, something is left of it. -/
theorem digitsLoop_overflows {k : Nat} {data : Int64} {n : Nat} (digits : List UInt8)
    (h : data.toInt = n) (hk : 0 < k) (hlong : k < (Decimal.numeral n).length) :
    0 < (digitsLoop k data digits).1 := by
  induction k generalizing data n digits with
  | zero => exact absurd hk (by omega)
  | succ k ih =>
    have hn : 10 ≤ n := by
      by_contra hn
      rw [Decimal.numeral_lt (by omega), List.length_singleton] at hlong
      omega
    have hdiv : (data / 10).toInt = ((n / 10 : Nat) : Int) := by
      rw [toInt_div_ten, h]
      norm_cast
    have hpos : 0 < data / 10 := by
      rw [Int64.lt_iff_toInt_lt, hdiv, show (0 : Int64).toInt = 0 from rfl]
      omega
    rw [Decimal.numeral_le hn, List.length_append, List.length_singleton] at hlong
    rw [digitsLoop, if_pos hpos]
    rcases Nat.eq_zero_or_pos k with rfl | hk
    · rw [digitsLoop]
      exact hpos
    · exact ih _ hdiv hk (by omega)

/-- **The text of an integer.**  Its numeral is written where it fits, and behind a minus only where
two bytes are left; where no byte is left for the minus, it is written in front of the buffer. -/
theorem intToText_exact {data : Int64} (hmin : data ≠ Int64.minValue) {string : List UInt8}
    (hne : string ≠ []) :
    utilsIntToText data string =
      let digits := Decimal.numeral data.toInt.natAbs
      if string.length < digits.length then .refused
      else if 0 ≤ data then .text digits.length (movedToStart string digits)
      else if digits.length = string.length then .overrun
      else if digits.length + 1 = string.length then .refused
      else .text (digits.length + 1) (movedToStart string (45 :: digits)) := by
  have hlen : 0 < string.length := List.length_pos_iff.mpr hne
  have hlo := data.le_toInt
  have hhi := data.toInt_lt
  have hmin' : data.toInt ≠ -2 ^ 63 := fun h => hmin (Int64.toInt_inj.mp (by rw [h]; rfl))
  have habs : (if data < 0 then 0 - data else data).toInt = (data.toInt.natAbs : Int) := by
    by_cases hneg : data < 0
    · have hneg' : data.toInt < 0 := by
        rwa [Int64.lt_iff_toInt_lt] at hneg
      rw [if_pos hneg, Int64.toInt_sub, show (0 : Int64).toInt = 0 from rfl,
        Int.bmod_eq_of_le_mul_two (by omega) (by omega)]
      omega
    · have hneg' : ¬data.toInt < 0 := by
        rwa [Int64.lt_iff_toInt_lt] at hneg
      rw [if_neg hneg]
      omega
  have hsign : 0 ≤ data ↔ ¬data < 0 := by
    rw [Int64.lt_iff_toInt_lt, Int64.le_iff_toInt_le, not_lt]
  unfold utilsIntToText
  rw [if_neg hne]
  dsimp only
  by_cases hlong : string.length < (Decimal.numeral data.toInt.natAbs).length
  · rw [if_pos hlong, if_pos (digitsLoop_overflows [] habs hlen hlong)]
  · rw [if_neg hlong, digitsLoop_fits [] habs (by omega), List.append_nil]
    dsimp only
    rw [if_neg (by decide)]
    by_cases hneg : data < 0
    · rw [if_pos hneg, if_neg (fun h => hsign.mp h hneg)]
      split_ifs <;> first | rfl | omega
    · rw [if_neg hneg, if_pos (hsign.mpr hneg)]

/-- Three digits that fill the buffer. -/
theorem intToText_exact_full : utilsIntToText (-123) [0, 0, 0] = .overrun := by
  have hdigits : Decimal.numeral (-123 : Int64).toInt.natAbs = [49, 50, 51] := by
    rw [show (-123 : Int64).toInt.natAbs = 123 from rfl, Decimal.numeral_le (by decide),
      Decimal.numeral_le (by decide), Decimal.numeral_lt (by decide)]
    rfl
  rw [intToText_exact (by decide) (by decide), hdigits]
  rfl

/-- The text that is written stands at the start of the buffer. -/
theorem take_movedToStart (string text : List UInt8) :
    (movedToStart string text).take text.length = text := by
  rw [movedToStart, List.take_left]

/-! ### Texts that are read -/

/-- A digit is added to what has been read. -/
theorem textToIntLoop_digit {b : UInt8} (hb : Decimal.IsDigit b) (buffer : List UInt8) {v : Nat}
    (hv : 10 * v + Decimal.digit b < 2 ^ 64 + 4) :
    textToIntLoop (b :: buffer) (UInt64.ofNat v) =
      textToIntLoop buffer (UInt64.ofNat (10 * v + Decimal.digit b)) := by
  have hlt := Decimal.digit_lt hb
  have hbounds := Decimal.isDigit_iff.mp hb
  have hsub : (b - 48).toUInt64 = UInt64.ofNat (Decimal.digit b) := by
    apply UInt64.toNat_inj.mp
    rw [UInt8.toNat_toUInt64, UInt8.toNat_sub_of_le _ _ hb.1, UInt64.toNat_ofNat', Decimal.digit,
      show (48 : UInt8).toNat = 48 from rfl]
    omega
  have hle : ¬(0xFFFFFFFFFFFFFFFF / 10 : UInt64) < UInt64.ofNat v := by
    rw [UInt64.lt_iff_toNat_lt, UInt64.toNat_ofNat',
      show (0xFFFFFFFFFFFFFFFF / 10 : UInt64).toNat = 0xFFFFFFFFFFFFFFFF / 10 from rfl]
    omega
  have hsum : UInt64.ofNat v * 10 + UInt64.ofNat (Decimal.digit b) =
      UInt64.ofNat (10 * v + Decimal.digit b) := by
    apply UInt64.toNat_inj.mp
    rw [UInt64.toNat_add, UInt64.toNat_mul, UInt64.toNat_ofNat', UInt64.toNat_ofNat',
      UInt64.toNat_ofNat', show (10 : UInt64).toNat = 10 from rfl]
    omega
  rw [textToIntLoop]
  simp only [if_pos (show 48 ≤ b ∧ b ≤ 57 from hb)]
  rw [if_neg hle, hsub, hsum]

/-- Digits are read up to where a number no longer fits, and by four further. -/
theorem textToIntLoop_append {digits : List UInt8} (hdigits : ∀ b ∈ digits, Decimal.IsDigit b)
    (rest : List UInt8) {v : Nat} (hv : Decimal.continueFrom v digits < 2 ^ 64 + 4) :
    textToIntLoop (digits ++ rest) (UInt64.ofNat v) =
      textToIntLoop rest (UInt64.ofNat (Decimal.continueFrom v digits)) := by
  induction digits generalizing v with
  | nil => rfl
  | cons b digits ih =>
    rw [Decimal.continueFrom_cons] at hv ⊢
    have hle := Decimal.le_continueFrom (10 * v + Decimal.digit b) digits
    rw [List.cons_append, textToIntLoop_digit (hdigits b List.mem_cons_self) _ (by omega),
      ih (fun c hc => hdigits c (List.mem_cons_of_mem b hc)) hv]

/-- A number that no longer fits, and leaves the remainder where the check does not see it. -/
def Slips (v : Nat) : Prop := 2 ^ 64 ≤ v ∧ v < 2 ^ 64 + 4

/-- The texts of which no number slips through the check. -/
theorem textToIntLoop_reads {v : Nat} (hv : v < 2 ^ 64) {buffer : List UInt8}
    (hslip : ∀ p, p <+: buffer → (∀ b ∈ p, Decimal.IsDigit b) →
      ¬Slips (Decimal.continueFrom v p)) :
    textToIntLoop buffer (UInt64.ofNat v) =
      if (∀ b ∈ buffer, Decimal.IsDigit b) ∧ Decimal.continueFrom v buffer < 2 ^ 64 then
        some (UInt64.ofNat (Decimal.continueFrom v buffer))
      else none := by
  induction buffer generalizing v with
  | nil =>
    rw [Decimal.continueFrom_nil, if_pos ⟨nofun, hv⟩]
    rfl
  | cons b buffer ih =>
    by_cases hb : Decimal.IsDigit b
    · have hfirst := hslip [b] ⟨buffer, rfl⟩ (List.forall_mem_singleton.mpr hb)
      rw [Decimal.continueFrom_cons, Decimal.continueFrom_nil, Slips] at hfirst
      rw [Decimal.continueFrom_cons]
      have hle := Decimal.le_continueFrom (10 * v + Decimal.digit b) buffer
      have hlt := Decimal.digit_lt hb
      rcases Nat.lt_or_ge (10 * v + Decimal.digit b) (2 ^ 64) with hsmall | hlarge
      · rw [textToIntLoop_digit hb _ (by omega), ih hsmall fun p hp hdigits => ?_]
        · simp only [List.forall_mem_cons, hb, true_and]
        · have h := hslip (b :: p) (List.cons_prefix_cons.mpr ⟨rfl, hp⟩)
            (List.forall_mem_cons.mpr ⟨hb, hdigits⟩)
          rwa [Decimal.continueFrom_cons] at h
      · -- the check of the source stops here
        have hstop : (0xFFFFFFFFFFFFFFFF / 10 : UInt64) < UInt64.ofNat v := by
          rw [UInt64.lt_iff_toNat_lt, UInt64.toNat_ofNat',
            show (0xFFFFFFFFFFFFFFFF / 10 : UInt64).toNat = 0xFFFFFFFFFFFFFFFF / 10 from rfl]
          omega
        rw [if_neg (by omega), textToIntLoop]
        simp only [if_pos (show 48 ≤ b ∧ b ≤ 57 from hb), if_pos hstop]
    · rw [if_neg (fun h => hb (h.1 b List.mem_cons_self)), textToIntLoop]
      simp only [if_neg (show ¬(48 ≤ b ∧ b ≤ 57) from hb)]

/-- The sign of a text. -/
def sign (buffer : List UInt8) : List UInt8 := if buffer.head? = some 45 then [45] else []

/-- A text behind its sign. -/
def unsigned (buffer : List UInt8) : List UInt8 := buffer.drop (sign buffer).length

theorem textToInt_eq {buffer : List UInt8} (h : buffer ≠ []) :
    utilsTextToInt buffer =
      (textToIntLoop (unsigned buffer) 0).bind fun result =>
        if 0x7FFFFFFFFFFFFFFF < result then none
        else some (if sign buffer = [] then result.toInt64 else (0 - result).toInt64) := by
  obtain ⟨b, rest, rfl⟩ := List.exists_cons_of_ne_nil h
  have hsign : sign (b :: rest) = if b = 45 then [45] else [] := by
    rw [sign, List.head?_cons]
    simp only [Option.some_inj]
  rw [utilsTextToInt, unsigned, hsign]
  by_cases hb : b = 45
  · simp only [if_pos hb, List.length_singleton, List.drop_succ_cons, List.drop_zero]
    cases textToIntLoop rest 0 <;> rfl
  · simp only [if_neg hb, List.length_nil, List.drop_zero]
    cases textToIntLoop (b :: rest) 0 <;> rfl

/-- The integer that is read. -/
theorem toInt64_read {v : Nat} (hv : v < 2 ^ 63) (c : Prop) [Decidable c] :
    (if c then (UInt64.ofNat v).toInt64 else (0 - UInt64.ofNat v).toInt64).toInt =
      if c then (v : Int) else -v := by
  split_ifs
  · exact Int64.toInt_ofNat_of_lt hv
  · rw [UInt64.toInt64_sub, Int64.toInt_sub, UInt64.toInt64_ofNat', Int64.toInt_ofNat_of_lt hv,
      show (0 : UInt64).toInt64.toInt = 0 from rfl,
      Int.bmod_eq_of_le_mul_two (by omega) (by omega), Int.zero_sub]

theorem large_iff {v : Nat} (hv : v < 2 ^ 64) :
    0x7FFFFFFFFFFFFFFF < UInt64.ofNat v ↔ 2 ^ 63 ≤ v := by
  rw [UInt64.lt_iff_toNat_lt, UInt64.toNat_ofNat',
    show (0x7FFFFFFFFFFFFFFF : UInt64).toNat = 2 ^ 63 - 1 from rfl]
  omega

/-- A text in which no number slips through the check is read as the integer it stands for. -/
theorem textToInt_reads {buffer : List UInt8} (hne : buffer ≠ [])
    (hslip : ∀ p, p <+: unsigned buffer → (∀ b ∈ p, Decimal.IsDigit b) →
      ¬Slips (Decimal.value p)) :
    (utilsTextToInt buffer).map Int64.toInt =
      if (∀ b ∈ unsigned buffer, Decimal.IsDigit b) ∧ Decimal.value (unsigned buffer) < 2 ^ 63 then
        some (if sign buffer = [] then (Decimal.value (unsigned buffer) : Int)
          else -Decimal.value (unsigned buffer))
      else none := by
  have hreads : textToIntLoop (unsigned buffer) 0 =
      if (∀ b ∈ unsigned buffer, Decimal.IsDigit b) ∧
          Decimal.value (unsigned buffer) < 2 ^ 64 then
        some (UInt64.ofNat (Decimal.value (unsigned buffer)))
      else none := textToIntLoop_reads (by decide) hslip
  rw [textToInt_eq hne, hreads]
  by_cases hfits : (∀ b ∈ unsigned buffer, Decimal.IsDigit b) ∧
      Decimal.value (unsigned buffer) < 2 ^ 64
  · rw [if_pos hfits, Option.bind_some]
    rcases Nat.lt_or_ge (Decimal.value (unsigned buffer)) (2 ^ 63) with hv | hv
    · rw [if_neg (fun h => absurd ((large_iff hfits.2).mp h) (Nat.not_le.mpr hv)), Option.map_some,
        toInt64_read hv, if_pos (⟨hfits.1, hv⟩ : _ ∧ _)]
    · rw [if_pos ((large_iff hfits.2).mpr hv), if_neg (fun h => absurd h.2 (Nat.not_lt.mpr hv))]
      rfl
  · rw [if_neg hfits, if_neg (fun h => hfits ⟨h.1, Nat.lt_trans h.2 (by decide)⟩)]
    rfl

/-- Behind a number that slips through the check the loop stands where its remainder leads. -/
theorem textToIntLoop_slips {p : List UInt8} (hdigits : ∀ b ∈ p, Decimal.IsDigit b)
    (hslip : Slips (Decimal.value p)) (rest : List UInt8) :
    textToIntLoop (p ++ rest) 0 =
      textToIntLoop (Decimal.ofDigit (Decimal.value p - 2 ^ 64) :: rest) 0 := by
  obtain ⟨hlow, hhigh⟩ := hslip
  have hsum : UInt64.ofNat (Decimal.value p) =
      UInt64.ofNat (10 * 0 + (Decimal.value p - 2 ^ 64)) := by
    apply UInt64.toNat_inj.mp
    rw [UInt64.toNat_ofNat', UInt64.toNat_ofNat']
    omega
  have hleft := textToIntLoop_append hdigits rest (v := 0) hhigh
  have hright := textToIntLoop_digit
    (Decimal.ofDigit_isDigit (show Decimal.value p - 2 ^ 64 < 10 by omega)) rest
    (v := 0) (by rw [Decimal.digit_ofDigit (by omega)]; omega)
  rw [Decimal.digit_ofDigit (by omega), ← hsum] at hright
  exact hleft.trans hright.symm

/-- A text that starts with a digit has no sign of its own. -/
theorem sign_digit (buffer rest : List UInt8) {d : Nat} (hd : d < 10) :
    sign (sign buffer ++ Decimal.ofDigit d :: rest) = sign buffer := by
  have hdigit := (Decimal.isDigit_iff.mp (Decimal.ofDigit_isDigit hd)).1
  have hminus : Decimal.ofDigit d ≠ 45 := by
    intro h
    rw [h] at hdigit
    exact absurd hdigit (by decide)
  by_cases h : buffer.head? = some 45 <;> simp [sign, h, hminus]

/-- **The texts that are read.**  Where no number slips through the check, these are those of the
integers but the least; a text that starts with a number that slips is read as if its remainder
stood there. -/
theorem textToInt_exact (buffer : List UInt8) :
    ((∀ p, p <+: unsigned buffer → (∀ b ∈ p, Decimal.IsDigit b) → ¬Slips (Decimal.value p)) →
        (utilsTextToInt buffer).map Int64.toInt =
          if buffer ≠ [] ∧ (∀ b ∈ unsigned buffer, Decimal.IsDigit b) ∧
              Decimal.value (unsigned buffer) < 2 ^ 63 then
            some (if sign buffer = [] then (Decimal.value (unsigned buffer) : Int)
              else -Decimal.value (unsigned buffer))
          else none) ∧
      ∀ p rest, unsigned buffer = p ++ rest → (∀ b ∈ p, Decimal.IsDigit b) →
        Slips (Decimal.value p) →
        utilsTextToInt buffer =
          utilsTextToInt (sign buffer ++ Decimal.ofDigit (Decimal.value p - 2 ^ 64) :: rest) := by
  rcases eq_or_ne buffer [] with rfl | hne
  · refine ⟨fun _ => by simp [utilsTextToInt], fun p rest hsplit _ hslip => ?_⟩
    obtain ⟨rfl, -⟩ := List.append_eq_nil_iff.mp hsplit.symm
    exact absurd hslip.1 (by decide)
  refine ⟨fun hslip => ?_, fun p rest hsplit hdigits hslip => ?_⟩
  · rw [textToInt_reads hne hslip]
    simp only [hne, ne_eq, not_false_eq_true, true_and]
  · have hsign := sign_digit buffer rest
      (show Decimal.value p - 2 ^ 64 < 10 by have := hslip.2; omega)
    have hunsigned : unsigned (sign buffer ++ Decimal.ofDigit (Decimal.value p - 2 ^ 64) :: rest) =
        Decimal.ofDigit (Decimal.value p - 2 ^ 64) :: rest := by
      rw [unsigned, hsign, List.drop_left]
    rw [textToInt_eq hne, textToInt_eq (by simp), hsign, hunsigned, hsplit,
      textToIntLoop_slips hdigits hslip]

/-! ### Integers as text, and back -/

/-- The text of an integer. -/
def intText (data : Int64) : List UInt8 :=
  (if data < 0 then [45] else []) ++ Decimal.numeral data.toInt.natAbs

theorem intToText_fits {data : Int64} (hmin : data ≠ Int64.minValue) {string : List UInt8}
    (hlen : (Decimal.numeral data.toInt.natAbs).length + 2 ≤ string.length) :
    ∃ s, utilsIntToText data string = .text (intText data).length s ∧
      s.take (intText data).length = intText data := by
  have hne : string ≠ [] := by
    rintro rfl
    exact absurd hlen (by simp)
  have hsign : 0 ≤ data ↔ ¬data < 0 := by
    rw [Int64.lt_iff_toInt_lt, Int64.le_iff_toInt_le, not_lt]
  rw [intToText_exact hmin hne]
  dsimp only
  rw [if_neg (by omega)]
  by_cases hneg : data < 0
  · rw [if_neg (fun h => hsign.mp h hneg), if_neg (by omega), if_neg (by omega), intText,
      if_pos hneg]
    exact ⟨_, rfl, take_movedToStart string (45 :: _)⟩
  · rw [if_pos (hsign.mpr hneg), intText, if_neg hneg]
    exact ⟨_, rfl, take_movedToStart string _⟩

theorem length_numeral_int (data : Int64) : (Decimal.numeral data.toInt.natAbs).length ≤ 19 := by
  have hlo := data.le_toInt
  have hhi := data.toInt_lt
  rw [Decimal.length_numeral_le (by decide)]
  omega

theorem numeral_head_ne_minus (n : Nat) : (Decimal.numeral n).head? ≠ some 45 := by
  intro h
  have hmem := List.mem_of_mem_head? h
  exact absurd (Decimal.numeral_digits n 45 hmem) (by decide)

/-- The text of an integer is read as the integer. -/
theorem textToInt_intText {data : Int64} (hmin : data ≠ Int64.minValue) :
    (utilsTextToInt (intText data)).map Int64.toInt = some data.toInt := by
  have hlo := data.le_toInt
  have hhi := data.toInt_lt
  have hmin' : data.toInt ≠ -2 ^ 63 := fun h => hmin (Int64.toInt_inj.mp (by rw [h]; rfl))
  have hneg : data < 0 ↔ data.toInt < 0 := by
    rw [Int64.lt_iff_toInt_lt]
    rfl
  have hsign : sign (intText data) = if data < 0 then [45] else [] := by
    rw [sign, intText]
    by_cases h : data < 0
    · simp [h]
    · simp [h, numeral_head_ne_minus]
  have hunsigned : unsigned (intText data) = Decimal.numeral data.toInt.natAbs := by
    rw [unsigned, hsign, intText, List.drop_left]
  have hread := (textToInt_exact (intText data)).1 (fun p hp _ hslip => by
    have hle := Decimal.value_le_of_prefix (hunsigned ▸ hp)
    rw [Decimal.value_numeral] at hle
    have := hslip.1
    omega)
  have hne : intText data ≠ [] := by
    have hpos := Decimal.length_numeral_pos data.toInt.natAbs
    rw [intText, Ne, List.append_eq_nil_iff, not_and]
    rintro - hnil
    rw [hnil] at hpos
    exact absurd hpos (by decide)
  rw [hread, hunsigned, Decimal.value_numeral,
    if_pos ⟨hne, Decimal.numeral_digits _, by omega⟩, hsign]
  congr 1
  by_cases h : data < 0
  · have hlt := hneg.mp h
    rw [if_pos h, if_neg (by decide)]
    omega
  · have hnlt : ¬data.toInt < 0 := fun hlt => h (hneg.mpr hlt)
    rw [if_neg h, if_pos rfl]
    omega

/-! ### Opaque data as text -/

set_option maxRecDepth 4000 in
/-- The pieces of a byte, with masks of their own. -/
theorem byte_pieces (b : UInt8) :
    b >>> 2 = (b >>> 2) &&& 0x3F ∧ (b &&& 0x03) <<< 4 = (b <<< 4) &&& 0x30 ∧
      b >>> 4 = (b >>> 4) &&& 0x0F ∧ (b &&& 0x0F) <<< 2 = (b <<< 2) &&& 0x3C ∧
      b >>> 6 = (b >>> 6) &&& 0x03 := by
  have hall : ∀ n < 256, UInt8.ofNat n >>> 2 = (UInt8.ofNat n >>> 2) &&& 0x3F ∧
      (UInt8.ofNat n &&& 0x03) <<< 4 = (UInt8.ofNat n <<< 4) &&& 0x30 ∧
      UInt8.ofNat n >>> 4 = (UInt8.ofNat n >>> 4) &&& 0x0F ∧
      (UInt8.ofNat n &&& 0x0F) <<< 2 = (UInt8.ofNat n <<< 2) &&& 0x3C ∧
      UInt8.ofNat n >>> 6 = (UInt8.ofNat n >>> 6) &&& 0x03 := by decide
  exact forall_byte (P := fun b => b >>> 2 = (b >>> 2) &&& 0x3F ∧
    (b &&& 0x03) <<< 4 = (b <<< 4) &&& 0x30 ∧ b >>> 4 = (b >>> 4) &&& 0x0F ∧
    (b &&& 0x0F) <<< 2 = (b <<< 2) &&& 0x3C ∧ b >>> 6 = (b >>> 6) &&& 0x03) hall b

/-- The two encoders store the same characters. -/
theorem base64Loop_eq : ∀ data : List UInt8, base64Loop data = Dm.base64Loop data
  | [] => rfl
  | [a] => by
    obtain ⟨h₀, h₁, -⟩ := byte_pieces a
    rw [base64Loop, Dm.base64Loop, ← h₀, ← h₁]
    rfl
  | [a, b] => by
    obtain ⟨h₀, h₁, -⟩ := byte_pieces a
    obtain ⟨-, -, h₂, h₃, -⟩ := byte_pieces b
    rw [base64Loop, Dm.base64Loop, ← h₀, ← h₁, ← h₂, ← h₃]
    rfl
  | a :: b :: c :: data => by
    obtain ⟨h₀, h₁, -⟩ := byte_pieces a
    obtain ⟨-, -, h₂, h₃, -⟩ := byte_pieces b
    obtain ⟨-, -, -, -, h₄⟩ := byte_pieces c
    rw [base64Loop, Dm.base64Loop, prvEncodeBlock, base64Loop_eq data, ← h₀, ← h₁, ← h₂, ← h₃, ← h₄]
    rfl

/-- The buffer for the text is that of the encoding. -/
theorem base64Encode_encodes (data : List UInt8) :
    ∃ text, utilsBase64Encode data (utilsBase64GetSize data.length) = some text ∧
      Base64.Encodes text data ∧ text.length = utilsBase64GetSize data.length := by
  have hencodes := Dm.base64Loop_encodes data
  rw [← base64Loop_eq] at hencodes
  refine ⟨base64Loop data, by rw [utilsBase64Encode, if_neg (Nat.lt_irrefl _)], hencodes, ?_⟩
  rw [hencodes.length, utilsBase64GetSize]
  split_ifs <;> omega

/-! ### Object links as text -/

theorem toInt_id (id : UInt16) : id.toUInt64.toInt64.toInt = id.toNat := by
  have hid := id.toNat_lt
  have hword : id.toUInt64 = UInt64.ofNat id.toNat := by
    apply UInt64.toNat_inj.mp
    rw [UInt16.toNat_toUInt64, UInt64.toNat_ofNat']
    omega
  rw [hword, UInt64.toInt64_ofNat', Int64.toInt_ofNat_of_lt (by omega)]

/-- The numeral of an id. -/
def idText (id : UInt16) : List UInt8 := Decimal.numeral id.toNat

theorem length_idText_le (id : UInt16) : (idText id).length ≤ 5 := by
  have hid := id.toNat_lt
  rw [idText, Decimal.length_numeral_le (by decide)]
  omega

/-- An id fits five bytes, without a NUL. -/
theorem intToText_id (id : UInt16) {string : List UInt8} (hlen : 5 ≤ string.length) :
    utilsIntToText id.toUInt64.toInt64 string =
      .text (idText id).length (movedToStart string (idText id)) := by
  have hid := id.toNat_lt
  have hfits := length_idText_le id
  have hint := toInt_id id
  have hnat : id.toUInt64.toInt64.toInt.natAbs = id.toNat := by omega
  have hmin : id.toUInt64.toInt64 ≠ Int64.minValue := by
    intro h
    rw [h, Int64.toInt_minValue] at hint
    omega
  have hnonneg : 0 ≤ id.toUInt64.toInt64 := by
    rw [Int64.le_iff_toInt_le, hint]
    exact Int.natCast_nonneg _
  have hne : string ≠ [] := by
    rintro rfl
    exact absurd hlen (by simp)
  rw [intToText_exact hmin hne, hnat]
  dsimp only
  rw [if_neg (by rw [← idText]; omega), if_pos hnonneg]
  rfl

theorem length_movedToStart {string text : List UInt8} (h : text.length ≤ string.length) :
    (movedToStart string text).length = string.length := by
  rw [movedToStart, List.length_append, List.length_drop, List.length_append, List.length_take]
  omega

/-- The bytes behind the text that was moved. -/
theorem getElem?_movedToStart {string text : List UInt8} {i : Nat} (h : text.length ≤ i) :
    (movedToStart string text)[i]? = (string.take (string.length - text.length) ++ text)[i]? := by
  rw [movedToStart, List.getElem?_append_right h, List.getElem?_drop]
  congr 1
  omega

/-- What the eleven bytes hold once the colon is stored. -/
def linkBuffer (stack : Nat → UInt8) (objectId : UInt16) : List UInt8 :=
  (movedToStart (((List.range 11).map stack).take 5) (idText objectId) ++
    ((List.range 11).map stack).drop 5).set 5 58

theorem length_movedToStart_id (stack : Nat → UInt8) (objectId : UInt16) :
    (movedToStart (((List.range 11).map stack).take 5) (idText objectId)).length = 5 := by
  have hlen : (((List.range 11).map stack).take 5).length = 5 := by simp
  exact (length_movedToStart (hlen.symm ▸ length_idText_le objectId)).trans hlen

/-- The byte behind an id of an object link: a colon behind five digits, else what the id that was
moved, or the stack, has left there. -/
theorem separator (stack : Nat → UInt8) (objectId : UInt16) :
    (linkBuffer stack objectId)[(idText objectId).length]? = some 58 ↔
      10000 ≤ objectId.toNat ∨ objectId.toNat < 100 ∧ stack (idText objectId).length = 58 := by
  have hpos := Decimal.length_numeral_pos objectId.toNat
  rw [← idText] at hpos
  have hle := length_idText_le objectId
  have hfour : (idText objectId).length ≤ 4 ↔ objectId.toNat < 10000 :=
    Decimal.length_numeral_le (by decide)
  have htwo : (idText objectId).length ≤ 2 ↔ objectId.toNat < 100 :=
    Decimal.length_numeral_le (by decide)
  have hlen : (((List.range 11).map stack).take 5).length = 5 := by simp
  have hmoved := length_movedToStart_id stack objectId
  rw [linkBuffer]
  by_cases hfive : (idText objectId).length = 5
  · -- the colon stands where it is stored
    rw [hfive, List.getElem?_set_self (by simp [hmoved])]
    exact iff_of_true rfl (.inl (by omega))
  rw [List.getElem?_set_ne (by omega), List.getElem?_append_left (by omega),
    getElem?_movedToStart (Nat.le_refl _), hlen]
  by_cases hshort : (idText objectId).length ≤ 2
  · have hstack : ((((List.range 11).map stack).take 5).take (5 - (idText objectId).length))[
        (idText objectId).length]? = some (stack (idText objectId).length) := by
      rw [List.getElem?_take_of_lt (by omega), List.getElem?_take_of_lt (by omega),
        List.getElem?_map, List.getElem?_range (by omega)]
      rfl
    rw [List.getElem?_append_left (by rw [List.length_take, hlen]; omega), hstack, Option.some_inj]
    constructor
    · exact fun h => .inr ⟨htwo.mp hshort, h⟩
    · rintro (h | h)
      · omega
      · exact h.2
  · -- a digit that was moved is left behind
    refine iff_of_false (fun h => ?_) (by omega)
    rw [List.getElem?_append_right (by rw [List.length_take, hlen]; omega)] at h
    exact absurd (Decimal.numeral_digits _ 58 (List.mem_of_getElem? h)) (by decide)

theorem length_linkBuffer (stack : Nat → UInt8) (objectId : UInt16) :
    (linkBuffer stack objectId).length = 11 := by
  rw [linkBuffer, List.length_set, List.length_append, length_movedToStart_id]
  simp

/-- The id stands in front of the byte that is to be the colon. -/
theorem take_linkBuffer (stack : Nat → UInt8) (objectId : UInt16) :
    (linkBuffer stack objectId).take (idText objectId).length = idText objectId := by
  have hle := length_idText_le objectId
  have hmoved := length_movedToStart_id stack objectId
  rw [linkBuffer, List.take_set_of_le hle, List.take_append_of_le_length (by omega)]
  exact take_movedToStart _ _

/-- The text of an object link is that of its ids, and what stands between them in the buffer. -/
theorem objectLinkText_eq (stack : Nat → UInt8) (objectId objectInstanceId : UInt16) :
    objectLinkText stack objectId objectInstanceId =
      some ((linkBuffer stack objectId).take ((idText objectId).length + 1) ++
        idText objectInstanceId) := by
  have hle := length_idText_le objectId
  have hbuflen := length_linkBuffer stack objectId
  have hlen : (((List.range 11).map stack).take 5).length = 5 := by simp
  have hwindow : (((linkBuffer stack objectId).drop ((idText objectId).length + 1)).take 5).length =
      5 := by
    rw [List.length_take, List.length_drop]
    omega
  have hres : ((linkBuffer stack objectId).take ((idText objectId).length + 1)).length =
      (idText objectId).length + 1 := by
    rw [List.length_take]
    omega
  unfold objectLinkText
  dsimp only
  rw [intToText_id objectId (by omega)]
  dsimp only
  rw [← linkBuffer, intToText_id objectInstanceId (by omega)]
  dsimp only
  rw [movedToStart, List.append_assoc, List.append_assoc, List.take_append, hres,
    Nat.add_sub_cancel_left, List.take_left, List.take_of_length_le (by omega)]

/-- **The text of an object link.**  It has its colon exactly where the object's id has five digits,
or one or two and the stack held a colon behind them. -/
theorem objectLink_text_iff (stack : Nat → UInt8) (objectId objectInstanceId : UInt16) :
    objectLinkText stack objectId objectInstanceId =
        some (idText objectId ++ 58 :: idText objectInstanceId) ↔
      10000 ≤ objectId.toNat ∨ objectId.toNat < 100 ∧ stack (idText objectId).length = 58 := by
  rw [← separator, objectLinkText_eq]
  have hbuflen := length_linkBuffer stack objectId
  have hle := length_idText_le objectId
  obtain ⟨b, hb⟩ : ∃ b, (linkBuffer stack objectId)[(idText objectId).length]? = some b :=
    ⟨_, List.getElem?_eq_getElem (by omega)⟩
  rw [List.take_add_one, hb, take_linkBuffer]
  simp

end XY1100.Lwm2m
