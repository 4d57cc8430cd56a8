import XY1100.Coap.Pdu
import XY1100.Support.Bytes
import XY1100.Support.Records

/-!
# Coap — options on the wire

`coap_opt_setheader`, `coap_opt_encode` and `coap_opt_parse` of `option.c`, and the accessors that
read an encoded option again (`coap_opt_delta`, `coap_opt_length`, `coap_opt_value`,
`coap_opt_size`).

An option starts with a byte of two nibbles, one for its delta and one for its length; a number
from 13 on is continued in one or two bytes (`nibble`, `extension`).  `optionBytes` is the format
itself, over natural numbers.

* `delimited_option`: `readOption` reads what `optionBytes` writes, and nothing else.
* `coapOptEncode_eq`: the encoder writes `optionBytes`, where there is room.
* `coapOptParse_eq`: the parser is `readOption` on the bytes it is given, with the delta reduced
  modulo `2 ^ 16`; the parser rejects a first extension byte of `0xff` only, so the numbers from
  65536 to 65548 wrap.
-/

namespace XY1100.Coap
open Support (Buf Delimited)

/-! ### The format -/

/-- The nibble of a number. -/
def nibble (n : Nat) : Nat := if n < 13 then n else if n < 269 then 13 else 14

/-- The bytes a number is continued in. -/
def extension (n : Nat) : List UInt8 :=
  if n < 13 then []
  else if n < 269 then [UInt8.ofNat (n - 13)]
  else [UInt8.ofNat ((n - 269) / 256), UInt8.ofNat (n - 269)]

/-- The bytes of an option's header. -/
def optionHeader (delta length : Nat) : List UInt8 :=
  UInt8.ofNat (16 * nibble delta + nibble length) :: (extension delta ++ extension length)

/-- The bytes of an option, by its delta and its value. -/
def optionBytes (o : Nat × List UInt8) : List UInt8 := optionHeader o.1 o.2.length ++ o.2

/-- What the parser takes: the two bytes of a delta do not start with `0xff`. -/
def OptionOk (o : Nat × List UInt8) : Prop := o.1 < 65549 ∧ o.2.length < 65805

instance (o : Nat × List UInt8) : Decidable (OptionOk o) := inferInstanceAs (Decidable (_ ∧ _))

/-- Read the number that starts with a nibble. -/
def readNumber (n : Nat) (s : List UInt8) : Option (Nat × List UInt8) :=
  if n < 13 then some (n, s)
  else if n = 13 then
    match s with
    | a :: s => some (a.toNat + 13, s)
    | [] => none
  else if n = 14 then
    match s with
    | a :: b :: s => some (256 * a.toNat + b.toNat + 269, s)
    | _ => none
  else none

/-- Read an option: its delta, its value, and the bytes after it. -/
def readOption (s : List UInt8) : Option ((Nat × List UInt8) × List UInt8) :=
  match s with
  | [] => none
  | b :: s =>
    match readNumber (b.toNat / 16) s with
    | none => none
    | some (delta, s) =>
      if 65549 ≤ delta then none
      else match readNumber (b.toNat % 16) s with
        | none => none
        | some (length, s) =>
          if s.length < length then none else some ((delta, s.take length), s.drop length)

theorem nibble_lt (n : Nat) : nibble n < 15 := by
  unfold nibble
  split_ifs <;> omega

theorem length_extension (n : Nat) :
    (extension n).length = if n < 13 then 0 else if n < 269 then 1 else 2 := by
  unfold extension
  split_ifs <;> rfl

/-- A number is read back from its nibble and its extension. -/
theorem readNumber_extension {n : Nat} (h : n < 65805) (s : List UInt8) :
    readNumber (nibble n) (extension n ++ s) = some (n, s) := by
  unfold nibble extension readNumber
  by_cases h₁ : n < 13
  · simp [h₁]
  · by_cases h₂ : n < 269
    · have : (UInt8.ofNat (n - 13)).toNat = n - 13 := by
        rw [UInt8.toNat_ofNat']; omega
      simp [h₁, h₂]
      omega
    · simp [h₁, h₂]
      omega

/-- Only a number's own nibble and extension are read as it. -/
theorem readNumber_eq_some {n k : Nat} {s t : List UInt8} (h : readNumber n s = some (k, t)) :
    k < 65805 ∧ n = nibble k ∧ s = extension k ++ t := by
  unfold readNumber at h
  split_ifs at h with h₁ h₂ h₃
  · simp only [Option.some.injEq, Prod.mk.injEq] at h
    obtain ⟨rfl, rfl⟩ := h
    exact ⟨by omega, by simp [nibble, h₁], by simp [extension, h₁]⟩
  · cases s with
    | nil => simp at h
    | cons a s =>
      simp only [Option.some.injEq, Prod.mk.injEq] at h
      obtain ⟨rfl, rfl⟩ := h
      have ha := a.toNat_lt
      have hk : ¬ a.toNat + 13 < 13 := by omega
      have hk' : a.toNat + 13 < 269 := by omega
      exact ⟨by omega, by simp [nibble, hk, hk', h₂], by simp [extension, hk, hk']⟩
  · match s, h with
    | a :: b :: s, h =>
      simp only [Option.some.injEq, Prod.mk.injEq] at h
      obtain ⟨rfl, rfl⟩ := h
      have ha := a.toNat_lt
      have hb := b.toNat_lt
      have hk : ¬ 256 * a.toNat + b.toNat + 269 < 13 := by omega
      have hk' : ¬ 256 * a.toNat + b.toNat + 269 < 269 := by omega
      have hhi : UInt8.ofNat ((256 * a.toNat + b.toNat) / 256) = a := by
        rw [show (256 * a.toNat + b.toNat) / 256 = a.toNat by omega, UInt8.ofNat_toNat]
      have hlo : UInt8.ofNat (256 * a.toNat + b.toNat) = b := by
        apply UInt8.toNat_inj.mp
        rw [UInt8.toNat_ofNat']
        omega
      exact ⟨by omega, by simp [nibble, hk, hk', h₃], by simp [extension, hk, hk', hhi, hlo]⟩

theorem toNat_headByte (delta length : Nat) :
    (UInt8.ofNat (16 * nibble delta + nibble length)).toNat =
      16 * nibble delta + nibble length := by
  have h₁ := nibble_lt delta
  have h₂ := nibble_lt length
  rw [UInt8.toNat_ofNat']
  omega

/-- Options delimit themselves. -/
theorem delimited_option : Delimited OptionOk optionBytes readOption where
  read_iff s o t := by
    obtain ⟨delta, value⟩ := o
    constructor
    · intro h
      unfold readOption at h
      match s, h with
      | b :: s, h =>
        simp only at h
        split at h
        · simp at h
        · rename_i delta' s₁ hdelta
          split_ifs at h with hlarge
          split at h
          · simp at h
          · rename_i length s₂ hlength
            split_ifs at h with hshort
            simp only [Option.some.injEq, Prod.mk.injEq] at h
            obtain ⟨⟨rfl, rfl⟩, rfl⟩ := h
            obtain ⟨-, hn₁, rfl⟩ := readNumber_eq_some hdelta
            obtain ⟨hlen, hn₂, rfl⟩ := readNumber_eq_some hlength
            have hvalue : (s₂.take length).length = length := by
              rw [List.length_take]; omega
            have hb : UInt8.ofNat (16 * nibble delta' + nibble length) = b := by
              rw [← hn₁, ← hn₂, Nat.div_add_mod, UInt8.ofNat_toNat]
            refine ⟨⟨by simp only; omega, by simp only [hvalue]; omega⟩, ?_⟩
            simp [optionBytes, optionHeader, hvalue, hb]
    · rintro ⟨⟨hdelta, hlength⟩, rfl⟩
      simp only at hdelta hlength
      have hd := nibble_lt delta
      have hl := nibble_lt value.length
      simp only [optionBytes, optionHeader, List.cons_append, List.append_assoc, readOption,
        toNat_headByte]
      rw [show (16 * nibble delta + nibble value.length) / 16 = nibble delta by omega,
        show (16 * nibble delta + nibble value.length) % 16 = nibble value.length by omega,
        readNumber_extension (by omega)]
      simp only
      rw [if_neg (by omega), readNumber_extension hlength]
      simp
  ne_nil o _ := by simp [optionBytes, optionHeader]

/-! ### Encoding -/

/-- `coap_opt_setheader`: the bytes it writes, `none` where there is no space for them. -/
def coapOptSetheader (maxlen : Nat) (delta : UInt16) (length : Nat) : Option (List UInt8) :=
  if maxlen = 0 then none
  else
    -- `opt[0]`, and the bytes of the delta behind it
    let written : Option (UInt8 × List UInt8) :=
      if delta < 13 then some ((delta <<< 4).toUInt8, [])
      else if delta < 269 then
        if maxlen < 2 then none else some (0xd0, [(delta - 13).toUInt8])
      else if maxlen < 3 then none
      else some (0xe0, [((delta - 269) >>> 8).toUInt8, (delta - 269).toUInt8])
    match written with
    | none => none
    | some (opt0, skipped) =>
      if length < 13 then some ((opt0 ||| (UInt8.ofNat length &&& 0x0f)) :: skipped)
      else if length < 269 then
        if maxlen < skipped.length + 2 then none
        else some ((opt0 ||| 0x0d) :: (skipped ++ [UInt8.ofNat (length - 13)]))
      else if maxlen < skipped.length + 3 then none
      else some ((opt0 ||| 0x0e) ::
        (skipped ++ [UInt8.ofNat ((length - 269) >>> 8), UInt8.ofNat (length - 269)]))

/-- `coap_opt_encode`: the bytes it writes, `none` for a return of `0`. -/
def coapOptEncode (maxlen : Nat) (delta : UInt16) (val : List UInt8) : Option (List UInt8) :=
  match coapOptSetheader maxlen delta val.length with
  | none => none
  | some header => if maxlen - header.length < val.length then none else some (header ++ val)

theorem length_optionHeader (delta : UInt16) (length : Nat) :
    (optionHeader delta.toNat length).length + length = coapOptEncodeSize delta length := by
  have h₁ : (delta < 13) = (delta.toNat < 13) := rfl
  have h₂ : (delta < 269) = (delta.toNat < 269) := rfl
  simp only [optionHeader, List.length_cons, List.length_append, length_extension,
    coapOptEncodeSize, h₁, h₂]
  omega

theorem length_optionBytes (delta : UInt16) (val : List UInt8) :
    (optionBytes (delta.toNat, val)).length = coapOptEncodeSize delta val.length := by
  rw [optionBytes, List.length_append, length_optionHeader]

/-- The two halves of a header byte. -/
theorem orNibbles {d l : Nat} (hd : d < 16) (hl : l < 16) :
    UInt8.ofNat (16 * d) ||| UInt8.ofNat l = UInt8.ofNat (16 * d + l) := by
  apply UInt8.toNat_inj.mp
  rw [UInt8.toNat_or, UInt8.toNat_ofNat', UInt8.toNat_ofNat', UInt8.toNat_ofNat',
    Nat.mod_eq_of_lt (by omega : 16 * d < 2 ^ 8), Nat.mod_eq_of_lt (by omega : l < 2 ^ 8),
    Nat.mod_eq_of_lt (by omega : 16 * d + l < 2 ^ 8), show 16 * d = d <<< 4 by
      rw [Nat.shiftLeft_eq]; omega, ← Nat.shiftLeft_add_eq_or_of_lt hl]

/-- The first byte of a header, as the three cases of the delta write its upper half. -/
theorem written_eq (maxlen : Nat) (delta : UInt16) :
    (if delta < 13 then some ((delta <<< 4).toUInt8, [])
      else if delta < 269 then
        if maxlen < 2 then none else some (0xd0, [(delta - 13).toUInt8])
      else if maxlen < 3 then none
      else some (0xe0, [((delta - 269) >>> 8).toUInt8, (delta - 269).toUInt8]) :
        Option (UInt8 × List UInt8)) =
    if (extension delta.toNat).length ≤ maxlen - 1 then
      some (UInt8.ofNat (16 * nibble delta.toNat), extension delta.toNat) else none := by
  have hlt := delta.toNat_lt
  have h₁ : (delta < 13) = (delta.toNat < 13) := rfl
  have h₂ : (delta < 269) = (delta.toNat < 269) := rfl
  simp only [h₁, h₂, nibble, extension]
  by_cases hs : delta.toNat < 13
  · have hb : (delta <<< 4).toUInt8 = UInt8.ofNat (16 * delta.toNat) := by
      apply UInt8.toNat_inj.mp
      rw [UInt16.toNat_toUInt8, UInt16.toNat_shiftLeft, UInt8.toNat_ofNat',
        show (4 : UInt16).toNat % 16 = 4 from rfl, Nat.shiftLeft_eq]
      omega
    simp [hs, hb]
  · by_cases hm : delta.toNat < 269
    · have hb : (delta - 13).toUInt8 = UInt8.ofNat (delta.toNat - 13) := by
        apply UInt8.toNat_inj.mp
        rw [UInt16.toNat_toUInt8, UInt16.toNat_sub_of_le _ _ (by
          rw [UInt16.le_iff_toNat_le, show (13 : UInt16).toNat = 13 from rfl]; omega),
          UInt8.toNat_ofNat']
        rfl
      by_cases hmax : maxlen < 2
      · simp [hs, hm, hmax, show ¬ 1 ≤ maxlen - 1 by omega]
      · simp [hs, hm, hmax, hb, show 1 ≤ maxlen - 1 by omega]
    · have hsub : (delta - 269).toNat = delta.toNat - 269 :=
        UInt16.toNat_sub_of_le _ _ (by
          rw [UInt16.le_iff_toNat_le, show (269 : UInt16).toNat = 269 from rfl]; omega)
      have hhi : ((delta - 269) >>> 8).toUInt8 = UInt8.ofNat ((delta.toNat - 269) / 256) := by
        apply UInt8.toNat_inj.mp
        rw [UInt16.toNat_toUInt8, UInt16.toNat_shiftRight, hsub, UInt8.toNat_ofNat',
          show (8 : UInt16).toNat % 16 = 8 from rfl, Nat.shiftRight_eq_div_pow]
      have hlo : (delta - 269).toUInt8 = UInt8.ofNat (delta.toNat - 269) := by
        apply UInt8.toNat_inj.mp
        rw [UInt16.toNat_toUInt8, hsub, UInt8.toNat_ofNat']
      by_cases hmax : maxlen < 3
      · simp [hs, hm, hmax, show ¬ 2 ≤ maxlen - 1 by omega]
      · simp [hs, hm, hmax, hhi, hlo, show 2 ≤ maxlen - 1 by omega]

/-- The header is written where there is room for it. -/
theorem coapOptSetheader_eq (maxlen : Nat) (delta : UInt16) (length : Nat) :
    coapOptSetheader maxlen delta length =
      if (optionHeader delta.toNat length).length ≤ maxlen then
        some (optionHeader delta.toNat length) else none := by
  have hn := nibble_lt delta.toNat
  have hhead {l : Nat} (hl : l < 16) :
      UInt8.ofNat (16 * nibble delta.toNat) ||| UInt8.ofNat l =
        UInt8.ofNat (16 * nibble delta.toNat + l) := orNibbles (by omega) hl
  unfold coapOptSetheader
  simp only [written_eq]
  simp only [optionHeader, List.length_cons, List.length_append, length_extension length]
  by_cases hzero : maxlen = 0
  · simp [hzero]
  rw [if_neg hzero]
  by_cases hroom : (extension delta.toNat).length ≤ maxlen - 1
  · rw [if_pos hroom]
    simp only
    by_cases hs : length < 13
    · have hb : UInt8.ofNat length &&& 0x0f = UInt8.ofNat length := by
        apply UInt8.toNat_inj.mp
        rw [UInt8.toNat_and, UInt8.toNat_ofNat', show (0x0f : UInt8).toNat = 2 ^ 4 - 1 from rfl,
          Nat.and_two_pow_sub_one_eq_mod]
        omega
      rw [if_pos hs, if_pos (by rw [if_pos hs]; omega), hb, hhead (by omega)]
      simp [nibble, extension, hs]
    · rw [if_neg hs]
      by_cases hm : length < 269
      · rw [if_pos hm]
        simp only [hs, hm, if_true, if_false]
        by_cases hmax : maxlen < (extension delta.toNat).length + 2
        · rw [if_pos hmax, if_neg (by omega)]
        · rw [if_neg hmax, if_pos (by omega), show (0x0d : UInt8) = UInt8.ofNat 13 from rfl,
            hhead (by omega)]
          simp [nibble, extension, hs, hm]
      · rw [if_neg hm]
        simp only [hs, hm, if_false]
        by_cases hmax : maxlen < (extension delta.toNat).length + 3
        · rw [if_pos hmax, if_neg (by omega)]
        · rw [if_neg hmax, if_pos (by omega), show (0x0e : UInt8) = UInt8.ofNat 14 from rfl,
            hhead (by omega)]
          simp [nibble, extension, hs, hm, Nat.shiftRight_eq_div_pow]
  · rw [if_neg hroom, if_neg (by omega)]

/-- The encoder writes the option's bytes where there is room for them. -/
theorem coapOptEncode_eq (maxlen : Nat) (delta : UInt16) (val : List UInt8) :
    coapOptEncode maxlen delta val =
      if coapOptEncodeSize delta val.length ≤ maxlen then some (optionBytes (delta.toNat, val))
      else none := by
  have hsize := length_optionHeader delta val.length
  unfold coapOptEncode
  rw [coapOptSetheader_eq]
  by_cases hroom : (optionHeader delta.toNat val.length).length ≤ maxlen
  · rw [if_pos hroom]
    simp only
    by_cases hfits : coapOptEncodeSize delta val.length ≤ maxlen
    · rw [if_neg (by omega), if_pos hfits]
      rfl
    · rw [if_pos (by omega), if_neg hfits]
  · rw [if_neg hroom, if_neg (by omega)]

/-! ### Parsing -/

/-- A `libcoap_coap_option_t`; `value` is an address. -/
structure CoapOption where
  delta : UInt16
  length : Nat
  value : Nat
  deriving DecidableEq

/-- `ADVANCE_OPT_CHECK(opt, length, 1)`. -/
def advanceOptCheck (opt length : Nat) : Option (Nat × Nat) :=
  if length < 1 then none
  else if length - 1 < 1 then none
  else some (opt + 1, length - 1)

/-- The first switch of `coap_opt_parse`: the delta, and where the parser stands then. -/
def parseDelta (m : Buf) (opt length : Nat) (delta : UInt8) : Option (UInt16 × Nat × Nat) :=
  if delta = 15 then none
  else if delta = 14 then
    match advanceOptCheck opt length with
    | none => none
    | some (opt, length) =>
      let delta : UInt16 := ((m opt).toUInt16 <<< 8) + 269
      if delta < 269 then none
      else match advanceOptCheck opt length with
        | none => none
        | some (opt, length) => some (delta + (m opt).toUInt16, opt, length)
  else if delta = 13 then
    match advanceOptCheck opt length with
    | none => none
    | some (opt, length) => some (delta.toUInt16 + (m opt).toUInt16, opt, length)
  else some (delta.toUInt16, opt, length)

/-- The second switch of `coap_opt_parse`: the length, which is a `size_t`. -/
def parseLength (m : Buf) (opt length : Nat) (len : UInt8) : Option (Nat × Nat × Nat) :=
  if len = 15 then none
  else if len = 14 then
    match advanceOptCheck opt length with
    | none => none
    | some (opt, length) =>
      let len := (m opt).toNat * 256 + 269
      match advanceOptCheck opt length with
      | none => none
      | some (opt, length) => some (len + (m opt).toNat, opt, length)
  else if len = 13 then
    match advanceOptCheck opt length with
    | none => none
    | some (opt, length) => some (len.toNat + (m opt).toNat, opt, length)
  else some (len.toNat, opt, length)

/-- `coap_opt_parse`: the option at `opt` and its size, `none` for a return of `0`. -/
def coapOptParse (m : Buf) (opt length : Nat) : Option (CoapOption × Nat) :=
  if length < 1 then none
  else match parseDelta m opt length ((m opt &&& 0xf0) >>> 4) with
    | none => none
    | some (delta, p, rest) =>
      match parseLength m p rest (m opt &&& 0x0f) with
      | none => none
      | some (len, p, rest) =>
        -- `ADVANCE_OPT`
        if rest < 1 then none
        else if rest - 1 < len then none
        else some (⟨delta, len, p + 1⟩, p + 1 + len - opt)

/-- `coap_opt_size`, for an option that is known to be well formed. -/
def coapOptSize (m : Buf) (opt : Nat) : Nat :=
  match coapOptParse m opt 0xffffffff with
  | none => 0
  | some (_, size) => size

theorem advanceOptCheck_eq (opt length : Nat) :
    advanceOptCheck opt length = if 2 ≤ length then some (opt + 1, length - 1) else none := by
  unfold advanceOptCheck
  split_ifs <;> first | rfl | omega

/-- Where the parser stands after a number read off the bytes behind the current one. -/
def stand (opt length : Nat) (t : List UInt8) : Nat × Nat :=
  (opt + (length - 1 - t.length), t.length + 1)

theorem read_after {m : Buf} {opt length : Nat} (h : 2 ≤ length) :
    m.read (opt + 1) (length - 1) = m (opt + 1) :: m.read (opt + 2) (length - 2) := by
  obtain ⟨k, rfl⟩ : ∃ k, length = k + 2 := ⟨length - 2, by omega⟩
  rw [show k + 2 - 1 = 1 + k by omega, Buf.read_add]
  simp [Buf.read, show opt + 1 + 1 = opt + 2 by omega]

theorem toNat_shiftByte (a : UInt8) : (a.toUInt16 <<< 8).toNat = 256 * a.toNat := by
  have := a.toNat_lt
  rw [UInt16.toNat_shiftLeft, UInt8.toNat_toUInt16, show (8 : UInt16).toNat % 16 = 8 from rfl,
    Nat.shiftLeft_eq]
  omega

theorem toNat_hiNibble (b : UInt8) : ((b &&& 0xf0) >>> 4).toNat = b.toNat / 16 := by
  have hb := b.toNat_lt
  rw [UInt8.toNat_shiftRight, UInt8.toNat_and, show (4 : UInt8).toNat % 8 = 4 from rfl,
    Nat.shiftRight_and_distrib, show (0xf0 : UInt8).toNat >>> 4 = 2 ^ 4 - 1 from rfl,
    Nat.and_two_pow_sub_one_eq_mod, Nat.shiftRight_eq_div_pow]
  omega

theorem toNat_loNibble (b : UInt8) : (b &&& 0x0f).toNat = b.toNat % 16 := by
  rw [UInt8.toNat_and, show (0x0f : UInt8).toNat = 2 ^ 4 - 1 from rfl,
    Nat.and_two_pow_sub_one_eq_mod]

/-- The length is the number on the bytes behind the current one. -/
theorem parseLength_eq {m : Buf} {opt length : Nat} (len : UInt8) (h : 1 ≤ length)
    (hn : len.toNat < 16) :
    parseLength m opt length len =
      (readNumber len.toNat (m.read (opt + 1) (length - 1))).map fun p =>
        (p.1, stand opt length p.2) := by
  have h15 : (len = 15) = (len.toNat = 15) := propext UInt8.toNat_inj.symm
  have h14 : (len = 14) = (len.toNat = 14) := propext UInt8.toNat_inj.symm
  have h13 : (len = 13) = (len.toNat = 13) := propext UInt8.toNat_inj.symm
  simp only [parseLength, h15, h14, h13, advanceOptCheck_eq, readNumber, stand]
  by_cases hs : len.toNat < 13
  · rw [if_neg (by omega), if_neg (by omega), if_neg (by omega), if_pos hs]
    simp
    omega
  rw [if_neg hs]
  by_cases he13 : len.toNat = 13
  · rw [if_neg (by omega), if_neg (by omega), if_pos he13, if_pos he13]
    by_cases hl : 2 ≤ length
    · rw [if_pos hl, read_after hl]
      simp [he13]
      omega
    · rw [if_neg hl, show length - 1 = 0 by omega]
      rfl
  rw [if_neg he13, if_neg he13]
  by_cases he14 : len.toNat = 14
  · rw [if_neg (by omega), if_pos he14, if_pos he14]
    by_cases hl : 2 ≤ length
    · rw [if_pos hl, read_after hl]
      simp only
      by_cases hl' : 2 ≤ length - 1
      · rw [if_pos hl', show length - 2 = length - 1 - 1 by omega,
          show opt + 2 = opt + 1 + 1 by omega, read_after hl']
        simp
        omega
      · rw [if_neg hl', show length - 2 = 0 by omega]
        rfl
    · rw [if_neg hl, show length - 1 = 0 by omega]
      rfl
  rw [if_neg he14, if_neg he14, if_pos (by omega)]
  rfl

/-- A delta of one byte. -/
theorem delta_one {delta : UInt8} (h : delta.toNat = 13) (a : UInt8) :
    delta.toUInt16 + a.toUInt16 = UInt16.ofNat (a.toNat + 13) := by
  have ha := a.toNat_lt
  apply UInt16.toNat_inj.mp
  rw [UInt16.toNat_add, UInt8.toNat_toUInt16, UInt8.toNat_toUInt16, UInt16.toNat_ofNat', h]
  omega

theorem toNat_deltaHigh (a : UInt8) :
    (a.toUInt16 <<< 8 + 269).toNat = (256 * a.toNat + 269) % 65536 := by
  rw [UInt16.toNat_add, toNat_shiftByte]
  rfl

/-- The first byte of a delta of two is seen to overflow before the second is read. -/
theorem deltaHigh_lt_iff (a : UInt8) :
    a.toUInt16 <<< 8 + 269 < 269 ↔ 65549 ≤ 256 * a.toNat + 269 := by
  have ha := a.toNat_lt
  rw [UInt16.lt_iff_toNat_lt, toNat_deltaHigh, show (269 : UInt16).toNat = 269 from rfl]
  omega

/-- A delta of two bytes. -/
theorem delta_two (a b : UInt8) :
    a.toUInt16 <<< 8 + 269 + b.toUInt16 = UInt16.ofNat (256 * a.toNat + b.toNat + 269) := by
  apply UInt16.toNat_inj.mp
  rw [UInt16.toNat_add, toNat_deltaHigh, UInt8.toNat_toUInt16, UInt16.toNat_ofNat']
  omega

/-- The delta is that number modulo `2 ^ 16`, if its bytes do not start with `0xff`. -/
theorem parseDelta_eq {m : Buf} {opt length : Nat} (delta : UInt8) (h : 1 ≤ length)
    (hn : delta.toNat < 16) :
    parseDelta m opt length delta =
      (readNumber delta.toNat (m.read (opt + 1) (length - 1))).bind fun p =>
        if 65549 ≤ p.1 then none else some (UInt16.ofNat p.1, stand opt length p.2) := by
  have h15 : (delta = 15) = (delta.toNat = 15) := propext UInt8.toNat_inj.symm
  have h14 : (delta = 14) = (delta.toNat = 14) := propext UInt8.toNat_inj.symm
  have h13 : (delta = 13) = (delta.toNat = 13) := propext UInt8.toNat_inj.symm
  simp only [parseDelta, h15, h14, h13, advanceOptCheck_eq, readNumber, stand]
  by_cases hs : delta.toNat < 13
  · rw [if_neg (by omega), if_neg (by omega), if_neg (by omega), if_pos hs]
    have hd : delta.toUInt16 = UInt16.ofNat delta.toNat := by simp
    rw [Option.bind_some, if_neg (by omega), hd]
    simp
    omega
  rw [if_neg hs]
  by_cases he13 : delta.toNat = 13
  · rw [if_neg (by omega), if_neg (by omega), if_pos he13, if_pos he13]
    by_cases hl : 2 ≤ length
    · have ha := (m (opt + 1)).toNat_lt
      rw [if_pos hl, read_after hl]
      simp [delta_one he13, show ¬ 65549 ≤ (m (opt + 1)).toNat + 13 by omega]
      omega
    · rw [if_neg hl, show length - 1 = 0 by omega]
      rfl
  rw [if_neg he13, if_neg he13]
  by_cases he14 : delta.toNat = 14
  · rw [if_neg (by omega), if_pos he14, if_pos he14]
    by_cases hl : 2 ≤ length
    · have hb := (m (opt + 2)).toNat_lt
      rw [if_pos hl, read_after hl]
      simp only [deltaHigh_lt_iff]
      by_cases hl' : 2 ≤ length - 1
      · rw [if_pos hl', show length - 2 = length - 1 - 1 by omega,
          show opt + 2 = opt + 1 + 1 by omega, read_after hl']
        rw [show opt + 1 + 1 = opt + 2 by omega]
        by_cases hmax : 65549 ≤ 256 * (m (opt + 1)).toNat + 269
        · rw [if_pos hmax]
          simp [show 65549 ≤ 256 * (m (opt + 1)).toNat + (m (opt + 2)).toNat + 269 by omega]
        · rw [if_neg hmax]
          simp [delta_two,
            show ¬ 65549 ≤ 256 * (m (opt + 1)).toNat + (m (opt + 2)).toNat + 269 by omega]
          omega
      · rw [if_neg hl', show length - 2 = 0 by omega]
        simp
    · rw [if_neg hl, show length - 1 = 0 by omega]
      rfl
  rw [if_neg he14, if_neg he14, if_pos (by omega)]
  rfl

/-- The parser reads an option off the bytes it is given. -/
theorem coapOptParse_eq (m : Buf) (opt length : Nat) :
    coapOptParse m opt length = (readOption (m.read opt length)).map fun p =>
      (⟨UInt16.ofNat p.1.1, p.1.2.length, opt + (length - p.2.length - p.1.2.length)⟩,
        length - p.2.length) := by
  cases length with
  | zero => rfl
  | succ k =>
    have hb := (m opt).toNat_lt
    have hread : m.read opt (k + 1) = m opt :: m.read (opt + 1) k := by
      rw [Nat.add_comm k 1, Buf.read_add]
      simp [Buf.read]
    rw [coapOptParse, if_neg (by omega), parseDelta_eq _ (by omega) (by rw [toNat_hiNibble]; omega),
      hread, readOption, toNat_hiNibble, Nat.add_sub_cancel]
    cases hdelta : readNumber ((m opt).toNat / 16) (m.read (opt + 1) k) with
    | none => rfl
    | some p =>
      obtain ⟨delta, s⟩ := p
      obtain ⟨-, -, hs⟩ := readNumber_eq_some hdelta
      have hle : s.length ≤ k := by
        rw [← Buf.length_read m (opt + 1) k, hs, List.length_append]; omega
      -- the parser stands in front of the bytes that are left
      have hrest : m.read (opt + (k - s.length) + 1) (s.length + 1 - 1) = s := by
        rw [Nat.add_sub_cancel, show opt + (k - s.length) + 1 = opt + 1 + (k - s.length) by omega]
        exact Buf.read_of_append hs
      simp only [Option.bind_some, stand, Nat.add_sub_cancel]
      split_ifs with hlarge
      · rfl
      simp only
      rw [parseLength_eq _ (by omega) (by rw [toNat_loNibble]; omega), hrest, toNat_loNibble]
      cases hlength : readNumber ((m opt).toNat % 16) s with
      | none => rfl
      | some q =>
        obtain ⟨len, t⟩ := q
        obtain ⟨-, -, ht⟩ := readNumber_eq_some hlength
        have hle' : t.length ≤ s.length := by rw [ht, List.length_append]; omega
        simp only [Option.map_some, stand, Nat.add_sub_cancel]
        rw [if_neg (by omega)]
        split_ifs with hshort
        · rfl
        · simp only [Option.map_some, List.length_take, List.length_drop, Option.some.injEq,
            Prod.mk.injEq, CoapOption.mk.injEq, true_and]
          omega

/-! ### Reading a parsed option again -/

/-- `coap_opt_delta`. -/
def coapOptDelta (m : Buf) (opt : Nat) : UInt16 :=
  let n := (m opt &&& 0xf0) >>> 4
  if n = 15 then 0
  else if n = 14 then (((m (opt + 1)).toUInt16 <<< 8) + 269) + (m (opt + 2)).toUInt16
  else if n = 13 then n.toUInt16 + (m (opt + 1)).toUInt16
  else n.toUInt16

/-- The bytes of a header up to its length: the first `switch` of `coap_opt_length` and of
`coap_opt_value`, `none` for the illegal delta. -/
def deltaBytes (b : UInt8) : Option Nat :=
  if b &&& 0xf0 = 0xf0 then none
  else if b &&& 0xf0 = 0xe0 then some 3
  else if b &&& 0xf0 = 0xd0 then some 2
  else some 1

/-- `coap_opt_length`, which counts in 16 bits. -/
def coapOptLength (m : Buf) (opt : Nat) : UInt16 :=
  match deltaBytes (m opt) with
  | none => 0
  | some skip =>
    let p := opt + skip
    let length := m opt &&& 0x0f
    if length = 0x0f then 0
    else if length = 0x0e then (((m p).toUInt16 <<< 8) + 269) + (m (p + 1)).toUInt16
    else if length = 0x0d then length.toUInt16 + (m p).toUInt16
    else length.toUInt16

/-- `coap_opt_value`: the address of the value, `none` for `NULL`. -/
def coapOptValue (m : Buf) (opt : Nat) : Option Nat :=
  match deltaBytes (m opt) with
  | none => none
  | some skip =>
    let length := m opt &&& 0x0f
    if length = 0x0f then none
    else if length = 0x0e then some (opt + (skip + 2))
    else if length = 0x0d then some (opt + (skip + 1))
    else some (opt + skip)

set_option maxRecDepth 4000 in
theorem toNat_hiMask (b : UInt8) : (b &&& 0xf0).toNat = 16 * (b.toNat / 16) := by
  have hb := b.toNat_lt
  have h : b &&& 240 = (b >>> (4 : UInt8)) <<< (4 : UInt8) :=
    Support.forall_byte (P := fun b => b &&& (240 : UInt8) = (b >>> (4 : UInt8)) <<< (4 : UInt8))
      (by decide) b
  rw [h, UInt8.toNat_shiftLeft, UInt8.toNat_shiftRight, show (4 : UInt8).toNat % 8 = 4 from rfl,
    Nat.shiftRight_eq_div_pow, Nat.shiftLeft_eq]
  omega

theorem deltaBytes_eq (b : UInt8) :
    deltaBytes b =
      if (b &&& 0xf0) >>> 4 = 15 then none
      else if (b &&& 0xf0) >>> 4 = 14 then some 3
      else if (b &&& 0xf0) >>> 4 = 13 then some 2
      else some 1 := by
  have shifted {k k' : UInt8} (hk : k.toNat = 16 * k'.toNat) :
      b &&& 0xf0 = k ↔ (b &&& 0xf0) >>> 4 = k' := by
    rw [← UInt8.toNat_inj, ← UInt8.toNat_inj, toNat_hiMask, toNat_hiNibble, hk]
    omega
  simp only [deltaBytes, shifted (show (0xf0 : UInt8).toNat = 16 * (15 : UInt8).toNat from rfl),
    shifted (show (0xe0 : UInt8).toNat = 16 * (14 : UInt8).toNat from rfl),
    shifted (show (0xd0 : UInt8).toNat = 16 * (13 : UInt8).toNat from rfl)]

/-- The first switch of the parser reads the delta `coap_opt_delta` reads. -/
theorem parseDelta_some {m : Buf} {opt length p rest : Nat} {delta : UInt16}
    (h : parseDelta m opt length ((m opt &&& 0xf0) >>> 4) = some (delta, p, rest)) :
    delta = coapOptDelta m opt ∧ opt ≤ p ∧ deltaBytes (m opt) = some (p + 1 - opt) := by
  rw [deltaBytes_eq]
  simp only [parseDelta, advanceOptCheck_eq] at h
  simp only [coapOptDelta]
  by_cases h15 : (m opt &&& 0xf0) >>> 4 = 15
  · simp [h15] at h
  rw [if_neg h15] at h ⊢
  rw [if_neg h15]
  by_cases h14 : (m opt &&& 0xf0) >>> 4 = 14
  · rw [if_pos h14] at h ⊢
    rw [if_pos h14]
    by_cases hl : 2 ≤ length
    · by_cases hl' : 2 ≤ length - 1
      · simp only [if_pos hl, if_pos hl'] at h
        split_ifs at h
        simp only [Option.some.injEq, Prod.mk.injEq] at h
        obtain ⟨rfl, rfl, -⟩ := h
        exact ⟨rfl, by omega, by congr 1; omega⟩
      · simp [if_pos hl, if_neg hl'] at h
    · simp [if_neg hl] at h
  rw [if_neg h14] at h ⊢
  rw [if_neg h14]
  by_cases h13 : (m opt &&& 0xf0) >>> 4 = 13
  · rw [if_pos h13] at h ⊢
    rw [if_pos h13]
    by_cases hl : 2 ≤ length
    · simp only [if_pos hl, Option.some.injEq, Prod.mk.injEq] at h
      obtain ⟨rfl, rfl, -⟩ := h
      exact ⟨rfl, by omega, by congr 1; omega⟩
    · simp [if_neg hl] at h
  rw [if_neg h13] at h ⊢
  rw [if_neg h13]
  simp only [Option.some.injEq, Prod.mk.injEq] at h
  obtain ⟨rfl, rfl, -⟩ := h
  exact ⟨rfl, by omega, by congr 1; omega⟩

/-- The second switch reads the length `coap_opt_length` reads, before it is cut to 16 bits. -/
theorem parseLength_some {m : Buf} {opt skip length p rest len : Nat}
    (hskip : deltaBytes (m opt) = some (skip + 1))
    (h : parseLength m (opt + skip) length (m opt &&& 0x0f) = some (len, p, rest)) :
    UInt16.ofNat len = coapOptLength m opt ∧ coapOptValue m opt = some (p + 1) := by
  simp only [parseLength, advanceOptCheck_eq] at h
  simp only [coapOptLength, coapOptValue, hskip]
  by_cases h15 : m opt &&& 0x0f = 15
  · simp [h15] at h
  rw [if_neg h15] at h ⊢
  rw [if_neg h15]
  by_cases h14 : m opt &&& 0x0f = 14
  · rw [if_pos h14] at h ⊢
    rw [if_pos h14]
    by_cases hl : 2 ≤ length
    · by_cases hl' : 2 ≤ length - 1
      · simp only [if_pos hl, if_pos hl', Option.some.injEq, Prod.mk.injEq] at h
        obtain ⟨rfl, rfl, -⟩ := h
        refine ⟨?_, rfl⟩
        apply UInt16.toNat_inj.mp
        rw [UInt16.toNat_add, UInt16.toNat_add, toNat_shiftByte, UInt8.toNat_toUInt16,
          UInt16.toNat_ofNat', show (269 : UInt16).toNat = 269 from rfl,
          show opt + skip + 1 = opt + (skip + 1) by omega,
          show opt + (skip + 1) + 1 = opt + skip + 1 + 1 by omega]
        omega
      · simp [if_pos hl, if_neg hl'] at h
    · simp [if_neg hl] at h
  rw [if_neg h14] at h ⊢
  rw [if_neg h14]
  by_cases h13 : m opt &&& 0x0f = 13
  · rw [if_pos h13] at h ⊢
    rw [if_pos h13]
    by_cases hl : 2 ≤ length
    · simp only [if_pos hl, Option.some.injEq, Prod.mk.injEq] at h
      obtain ⟨rfl, rfl, -⟩ := h
      refine ⟨?_, rfl⟩
      apply UInt16.toNat_inj.mp
      rw [UInt16.toNat_add, UInt8.toNat_toUInt16, UInt8.toNat_toUInt16, UInt16.toNat_ofNat',
        show opt + skip + 1 = opt + (skip + 1) by omega]
    · simp [if_neg hl] at h
  rw [if_neg h13] at h ⊢
  rw [if_neg h13]
  simp only [Option.some.injEq, Prod.mk.injEq] at h
  obtain ⟨rfl, rfl, -⟩ := h
  exact ⟨by simp, rfl⟩

/-- What the accessors read off an option the parser took is what the parser found, with the
length cut to 16 bits. -/
theorem coapOpt_accessors {m : Buf} {opt length size : Nat} {o : CoapOption}
    (h : coapOptParse m opt length = some (o, size)) :
    coapOptDelta m opt = o.delta ∧ coapOptLength m opt = UInt16.ofNat o.length ∧
      coapOptValue m opt = some o.value := by
  unfold coapOptParse at h
  split_ifs at h with hlen
  cases hdelta : parseDelta m opt length ((m opt &&& 0xf0) >>> 4) with
  | none => simp [hdelta] at h
  | some d =>
    obtain ⟨delta, p, rest⟩ := d
    obtain ⟨hd, hle, hskip⟩ := parseDelta_some hdelta
    obtain ⟨skip, rfl⟩ := Nat.exists_eq_add_of_le hle
    rw [show opt + skip + 1 - opt = skip + 1 by omega] at hskip
    simp only [hdelta] at h
    cases hlength : parseLength m (opt + skip) rest (m opt &&& 0x0f) with
    | none => simp [hlength] at h
    | some l =>
      obtain ⟨len, p', rest'⟩ := l
      obtain ⟨hl, hv⟩ := parseLength_some hskip hlength
      simp only [hlength] at h
      split_ifs at h
      simp only [Option.some.injEq, Prod.mk.injEq] at h
      obtain ⟨rfl, -⟩ := h
      exact ⟨hd.symm, hl.symm, hv⟩

end XY1100.Coap
