import XY1100.Dm.Base64
import XY1100.Support.CString
import XY1100.Support.Decimal

/-!
# DM — the packet of a registration

`dm_make_packet` prints what is registered as JSON into `requestbuf`, encodes it into a buffer of its
own, clears `requestbuf` and builds an HTTP request in it whose body is the encoding.  `none` is an
access outside of a buffer.

* `packet_fits`: whatever is registered, the request fits with its NUL, and its body is the encoding
  of the JSON and has the length that the header says.
-/

namespace XY1100.Dm
open Support

/-- The bytes of a text. -/
def ascii (text : String) : List UInt8 := text.toList.map fun c => UInt8.ofNat c.toNat

/-- A text in an array of bytes, with its NUL. -/
structure Field (size : Nat) where
  text : List UInt8
  fits : text.length < size
  clean : 0 ∉ text

/-- What is registered, in the arrays it is read from. -/
structure Registrant where
  regver : UInt8
  meid : Field 16
  modulVer : Field 21
  versionExt : Field 28
  iccid : Field 21
  imsi : Field 16

/-- The loop over `modul_ver`: behind the first hyphen, hyphens become blanks. -/
def respell : Bool → List UInt8 → List UInt8
  | _, [] => []
  | flag, b :: modulVer =>
    if b = 45 ∧ flag = false then b :: respell true modulVer
    else (if b = 45 then 32 else b) :: respell flag modulVer

/-- `FormJson`, with the name of the model. -/
def formJson (model : String) (r : Registrant) : List UInt8 :=
  ascii "\x7b\"REGVER\":\"" ++ Decimal.numeral r.regver.toNat ++ ascii "\"," ++
  ascii "\"MEID\":\"" ++ r.meid.text ++ ascii "\"," ++
  ascii model ++ respell false r.modulVer.text ++ ascii "\"," ++
  ascii "\"SWVER\":\"" ++ r.versionExt.text ++ ascii "\"," ++
  ascii "\"SIM1ICCID\":\"" ++ r.iccid.text ++ ascii "\"," ++
  ascii "\"SIM1LTEIMSI\":\"" ++ r.imsi.text ++ ascii "\"\x7d"

/-- `FormJson` of `telecom_dm.c`. -/
def telecomFormJson (r : Registrant) : List UInt8 := formJson "\"MODEL\":\"" r

/-- `FormJson` of `unicom_dm.c`. -/
def unicomFormJson (r : Registrant) : List UInt8 := formJson "\"MODELSMS\":\"" r

/-- The size of `base64`. -/
def base64Size : Nat := 384

/-- The size of `requestbuf` in `dm_make_packet`. -/
def packetSize : Nat := 512

/-- The header of the request in front of a body. -/
def header (lines host : String) (length : Nat) : List UInt8 :=
  ascii "POST / HTTP/1.1\x0d\n" ++ ascii lines ++
  ascii "Content-type:application/encrypted-json\x0d\n" ++
  ascii "Content-length:" ++ Decimal.numeral length ++ ascii "\x0d\n" ++ ascii host

/-- `dm_make_packet`, with the JSON and the header of the operator. -/
def makePacket (json : List UInt8) (head : Nat → List UInt8) : Option (List UInt8) :=
  -- `sprintf` ends with a NUL
  if packetSize ≤ json.length then none
  else
    let base64 := base64Encode (cText json)
    if base64Size < base64.length then none
    else
      let body := cText (base64.map fun c => UInt8.ofNat c.toNat)
      let request := head body.length ++ body
      -- the loop stores the body, and `strlen` needs a NUL behind it
      if packetSize ≤ request.length then none else some request

/-- `dm_make_packet` of `telecom_dm.c`. -/
def telecomMakePacket (r : Registrant) : Option (List UInt8) :=
  makePacket (telecomFormJson r)
    (header "X-forwarded-for:117.61.5.70\x0d\n" "Host:zzhc.vnet.cn:9999\x0d\n\x0d\n")

/-- `dm_make_packet` of `unicom_dm.c`. -/
def unicomMakePacket (r : Registrant) : Option (List UInt8) :=
  makePacket (unicomFormJson r) (header "" "Host:114.255.193.236:9999\x0d\n\x0d\n")

/-! ### The JSON -/

theorem length_respell (flag : Bool) (modulVer : List UInt8) :
    (respell flag modulVer).length = modulVer.length := by
  induction modulVer generalizing flag with
  | nil => rfl
  | cons b modulVer ih =>
    rw [respell]
    split_ifs
    · rw [List.length_cons, List.length_cons, ih]
    · rw [List.length_cons, List.length_cons, ih]
    · rw [List.length_cons, List.length_cons, ih]

theorem respell_clean {modulVer : List UInt8} (h : 0 ∉ modulVer) (flag : Bool) :
    0 ∉ respell flag modulVer := by
  induction modulVer generalizing flag with
  | nil => exact h
  | cons b modulVer ih =>
    rw [List.mem_cons, not_or] at h
    rw [respell]
    split_ifs with h1 h2
    · rw [List.mem_cons, not_or]
      exact ⟨h.1, ih h.2 true⟩
    · rw [List.mem_cons, not_or]
      exact ⟨by decide, ih h.2 flag⟩
    · rw [List.mem_cons, not_or]
      exact ⟨h.1, ih h.2 flag⟩

theorem numeral_clean (n : Nat) : 0 ∉ Decimal.numeral n := fun h =>
  absurd (Decimal.numeral_digits n 0 h) (by decide)

/-- What the JSON takes, beside its texts. -/
theorem length_formJson (model : String) (r : Registrant) :
    (formJson model r).length =
      68 + (ascii model).length + (Decimal.numeral r.regver.toNat).length +
      r.meid.text.length + r.modulVer.text.length + r.versionExt.text.length +
      r.iccid.text.length + r.imsi.text.length := by
  have hregver : (ascii "\x7b\"REGVER\":\"").length = 11 := by decide
  have hquote : (ascii "\",").length = 2 := by decide
  have hmeid : (ascii "\"MEID\":\"").length = 8 := by decide
  have hswver : (ascii "\"SWVER\":\"").length = 9 := by decide
  have hiccid : (ascii "\"SIM1ICCID\":\"").length = 13 := by decide
  have himsi : (ascii "\"SIM1LTEIMSI\":\"").length = 15 := by decide
  have hend : (ascii "\"\x7d").length = 2 := by decide
  rw [formJson]
  simp only [List.length_append, hregver, hquote, hmeid, hswver, hiccid, himsi, hend,
    length_respell]
  omega

theorem formJson_clean {model : String} (hmodel : 0 ∉ ascii model) (r : Registrant) :
    0 ∉ formJson model r := by
  have hregver : 0 ∉ ascii "\x7b\"REGVER\":\"" := by decide
  have hquote : 0 ∉ ascii "\"," := by decide
  have hmeid : 0 ∉ ascii "\"MEID\":\"" := by decide
  have hswver : 0 ∉ ascii "\"SWVER\":\"" := by decide
  have hiccid : 0 ∉ ascii "\"SIM1ICCID\":\"" := by decide
  have himsi : 0 ∉ ascii "\"SIM1LTEIMSI\":\"" := by decide
  have hend : 0 ∉ ascii "\"\x7d" := by decide
  rw [formJson]
  simp only [List.mem_append, hregver, hquote, hmeid, hswver, hiccid, himsi, hend, hmodel,
    numeral_clean, respell_clean r.modulVer.clean, r.meid.clean, r.versionExt.clean,
    r.iccid.clean, r.imsi.clean, or_self, not_false_eq_true]

/-! ### The body -/

/-- The byte of a character. -/
def charByte (c : Char) : UInt8 := UInt8.ofNat c.toNat

theorem charByte_ne_zero {c : Char} (hlo : 0 < c.toNat) (hhi : c.toNat < 256) : charByte c ≠ 0 := by
  intro h
  have hz := congrArg UInt8.toNat h
  rw [charByte, UInt8.toNat_ofNat', show (0 : UInt8).toNat = 0 from rfl] at hz
  omega

/-- A digit of base 64 is a byte, and no NUL. -/
theorem base64_digit {c : Char} (h : (Base64.value c).isSome = true) :
    0 < c.toNat ∧ c.toNat < 256 := by
  unfold Base64.value at h
  split_ifs at h with h1 h2 h3 h4 h5
  · exact ⟨Nat.lt_of_lt_of_le (by decide) h1.1, Nat.lt_of_le_of_lt h1.2 (by decide)⟩
  · exact ⟨Nat.lt_of_lt_of_le (by decide) h2.1, Nat.lt_of_le_of_lt h2.2 (by decide)⟩
  · exact ⟨Nat.lt_of_lt_of_le (by decide) h3.1, Nat.lt_of_le_of_lt h3.2 (by decide)⟩
  · rw [h4]
    decide
  · rw [h5]
    decide
  · cases h

theorem encodes_clean {text : List Char} {bytes : List UInt8} (h : Base64.Encodes text bytes) :
    0 ∉ text.map charByte := by
  obtain ⟨digits, rfl, hdigits⟩ := h.padded
  rw [List.mem_map]
  rintro ⟨c, hc, hz⟩
  rw [List.mem_append, List.mem_replicate] at hc
  rcases hc with hc | ⟨-, rfl⟩
  · obtain ⟨hlo, hhi⟩ := base64_digit (hdigits c hc)
    exact charByte_ne_zero hlo hhi hz
  · exact absurd hz (by decide)

/-- A packet that fits. -/
theorem makePacket_fits {json : List UInt8} (hclean : 0 ∉ json) {head : Nat → List UInt8}
    (hjson : 4 * ((json.length + 2) / 3) < base64Size)
    (hroom : (head (4 * ((json.length + 2) / 3))).length + 4 * ((json.length + 2) / 3) <
      packetSize) :
    ∃ text, Base64.Encodes text json ∧
      makePacket json head = some (head text.length ++ text.map charByte) ∧
      (head text.length ++ text.map charByte).length < packetSize := by
  have hencodes := base64Loop_encodes json
  have hlen := hencodes.length
  have hbody : cText (((base64Loop json) ++ [Char.ofNat 0]).map fun c => UInt8.ofNat c.toNat) =
      (base64Loop json).map charByte := by
    rw [List.map_append]
    exact (cText_append_of_not_mem (encodes_clean hencodes)).trans (List.append_nil _)
  have hsmall : ¬packetSize ≤ json.length := by
    rw [base64Size] at hjson
    rw [packetSize]
    omega
  have hrequest : (head (base64Loop json).length ++ (base64Loop json).map charByte).length <
      packetSize := by
    rw [List.length_append, List.length_map, hlen]
    exact hroom
  refine ⟨base64Loop json, hencodes, ?_, hrequest⟩
  rw [makePacket, if_neg hsmall, cText_of_not_mem hclean, base64Encode]
  dsimp only
  rw [if_neg (by rw [List.length_append, List.length_singleton, hlen]; omega), hbody,
    List.length_map, if_neg (Nat.not_le.mpr hrequest)]

theorem length_header (lines host : String) (length : Nat) :
    (header lines host length).length = 75 + (ascii lines).length +
      (Decimal.numeral length).length + (ascii host).length := by
  have hpost : (ascii "POST / HTTP/1.1\x0d\n").length = 17 := by decide
  have htype : (ascii "Content-type:application/encrypted-json\x0d\n").length = 41 := by decide
  have hlength : (ascii "Content-length:").length = 15 := by decide
  have hend : (ascii "\x0d\n").length = 2 := by decide
  rw [header]
  simp only [List.length_append, hpost, htype, hlength, hend]
  omega

/-- The JSON of any registrant is short. -/
theorem length_formJson_le {model : String} (hmodel : (ascii model).length ≤ 12) (r : Registrant) :
    (formJson model r).length ≤ 180 := by
  have hregver : (Decimal.numeral r.regver.toNat).length ≤ 3 :=
    (Decimal.length_numeral_le (by decide)).mpr (Nat.lt_of_lt_of_le r.regver.toNat_lt (by decide))
  have hmeid := r.meid.fits
  have hmodul := r.modulVer.fits
  have hversion := r.versionExt.fits
  have hiccid := r.iccid.fits
  have himsi := r.imsi.fits
  rw [length_formJson]
  omega

/-- A packet whose JSON is short and whose header leaves room. -/
theorem makePacket_short {model lines host : String} (hmodel : 0 ∉ ascii model)
    (hlen : (ascii model).length ≤ 12) (hlines : (ascii lines).length + (ascii host).length ≤ 100)
    (r : Registrant) :
    ∃ text, Base64.Encodes text (formJson model r) ∧
      makePacket (formJson model r) (header lines host) =
        some (header lines host text.length ++ text.map charByte) ∧
      (header lines host text.length ++ text.map charByte).length < packetSize := by
  have hjson := length_formJson_le hlen r
  have hdigits : (Decimal.numeral (4 * (((formJson model r).length + 2) / 3))).length ≤ 3 :=
    (Decimal.length_numeral_le (by decide)).mpr (by omega)
  refine makePacket_fits (formJson_clean hmodel r) ?_ ?_
  · rw [base64Size]
    omega
  · rw [length_header, packetSize]
    omega

/-- **The packet fits.**  Whatever is registered, neither operator's packet leaves a buffer; its body
is the encoding of the JSON, and the header has its length. -/
theorem packet_fits (r : Registrant) :
    (∃ text, Base64.Encodes text (telecomFormJson r) ∧
      telecomMakePacket r = some (header "X-forwarded-for:117.61.5.70\x0d\n"
        "Host:zzhc.vnet.cn:9999\x0d\n\x0d\n" text.length ++ text.map charByte)) ∧
      ∃ text, Base64.Encodes text (unicomFormJson r) ∧
        unicomMakePacket r = some (header "" "Host:114.255.193.236:9999\x0d\n\x0d\n" text.length ++
          text.map charByte) := by
  obtain ⟨text, hencodes, hpacket, -⟩ := @makePacket_short "\"MODEL\":\""
    "X-forwarded-for:117.61.5.70\x0d\n" "Host:zzhc.vnet.cn:9999\x0d\n\x0d\n" (by decide) (by decide)
    (by decide) r
  obtain ⟨text', hencodes', hpacket', -⟩ := @makePacket_short "\"MODELSMS\":\"" ""
    "Host:114.255.193.236:9999\x0d\n\x0d\n" (by decide) (by decide) (by decide) r
  exact ⟨⟨text, hencodes, hpacket⟩, text', hencodes', hpacket'⟩

end XY1100.Dm
