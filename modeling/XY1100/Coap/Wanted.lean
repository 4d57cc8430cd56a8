import XY1100.Coap.Request
import XY1100.Support.Decimal
import XY1100.Support.Pieces

/-!
# Coap — what a configuration asks for

The options a configuration asks for, from the numbers and the texts it gives (`wanted`).  Texts
are of bounded length, and numbers those a text starts with, each in as few bytes as it needs.

* `optionEntries_wanted`: `xy_config_coap_option` inserts what is asked for, and nothing for what
  it refuses or has no case for.
* `wanted_not_block`: option 27 apart, no configuration asks for a block option.
-/

namespace XY1100.Coap
open Support

/-! ### Options of a number and a text -/

/-- The number a text starts with, or the largest `int` where that is less. -/
def leadingNumber (value : List UInt8) : Option Nat :=
  let digits := value.takeWhile (fun b => Decimal.IsDigit b)
  if digits = [] then none else some (min 0x7FFFFFFF (Decimal.value digits))

/-- A number in as few bytes as it needs, the most significant first. -/
def shortestBytes (n : Nat) : List UInt8 := (Nat.digits 256 n).reverse.map UInt8.ofNat

/-- An option that carries a number up to a bound. -/
def numberOption (number : UInt16) (bound : Nat) (value : List UInt8) : List CoapOpt :=
  ((leadingNumber value).filter (· ≤ bound)).toList.map (⟨number, shortestBytes ·⟩)

/-- An option that carries the parts of a text, which is at most `bound` bytes and not empty. -/
def textOption (number : UInt16) (bound : Nat) (parts : List UInt8 → List (List UInt8))
    (value : List UInt8) : List CoapOpt :=
  if value ≠ [] ∧ value.length ≤ bound then (parts value).map (⟨number, ·⟩) else []

/-- A content format is a number of 16 bits, or that of the first media type a text starts. -/
def contentFormat (value : List UInt8) : Option Nat :=
  match leadingNumber value with
  | some n => some (n % 2 ^ 16)
  | none => (contentTypes.find? (value <+: ·.2)).map (·.1.toNat)

/-- The options for a number and a text.  `AT+COAPOPTION` has no other: `If-Match`, `ETag`,
`If-None-Match`, `Location-Path`, `Max-Age`, `Accept` and numbers it does not know are dropped. -/
def wantedOption (cfg : Cfg) (opt : Int) (value : List UInt8) : List CoapOpt :=
  match opt with
  | 3 => textOption LIBCOAP_COAP_OPTION_URI_HOST 255 ([·]) value
  | 6 => numberOption LIBCOAP_COAP_OPTION_OBSERVE 1 value
  | 7 => numberOption LIBCOAP_COAP_OPTION_URI_PORT 0xFFFF value
  | 11 => textOption LIBCOAP_COAP_OPTION_URI_PATH 255 cfg.coapSplitPath value
  | 12 => (contentFormat value).toList.map
      (⟨LIBCOAP_COAP_OPTION_CONTENT_FORMAT, shortestBytes ·⟩)
  | 15 => textOption LIBCOAP_COAP_OPTION_URI_QUERY 255 cfg.coapSplitQuery value
  | 35 => textOption LIBCOAP_COAP_OPTION_PROXY_URI 1034 (pieces 270) value
  | 60 => numberOption LIBCOAP_COAP_OPTION_SIZE1 0x7FFFFFFF value
  | _ => []

/-- The options of a configuration; option 27 asks for block-wise transfer instead. -/
def wanted (cfg : Cfg) (options : List (Int × List UInt8)) : List CoapOpt :=
  options.flatMap fun o => wantedOption cfg o.1 o.2

def isBlock (o : CoapOpt) : Bool :=
  o.number = LIBCOAP_COAP_OPTION_BLOCK1 ∨ o.number = LIBCOAP_COAP_OPTION_BLOCK2

theorem numberOption_number {number : UInt16} {bound : Nat} {value : List UInt8} {o : CoapOpt}
    (h : o ∈ numberOption number bound value) : o.number = number := by
  obtain ⟨n, -, rfl⟩ := List.mem_map.mp h
  rfl

theorem textOption_number {number : UInt16} {bound : Nat} {parts : List UInt8 → List (List UInt8)}
    {value : List UInt8} {o : CoapOpt} (h : o ∈ textOption number bound parts value) :
    o.number = number := by
  unfold textOption at h
  split at h
  · obtain ⟨part, -, rfl⟩ := List.mem_map.mp h
    rfl
  · cases h

/-- The numbers of the options a configuration can ask for. -/
def configurable : List UInt16 :=
  [LIBCOAP_COAP_OPTION_URI_HOST, LIBCOAP_COAP_OPTION_OBSERVE, LIBCOAP_COAP_OPTION_URI_PORT,
    LIBCOAP_COAP_OPTION_URI_PATH, LIBCOAP_COAP_OPTION_CONTENT_FORMAT,
    LIBCOAP_COAP_OPTION_URI_QUERY, LIBCOAP_COAP_OPTION_PROXY_URI, LIBCOAP_COAP_OPTION_SIZE1]

theorem wantedOption_number {cfg : Cfg} {opt : Int} {value : List UInt8} {o : CoapOpt}
    (h : o ∈ wantedOption cfg opt value) : o.number ∈ configurable := by
  have hnumber : ∀ {n : UInt16}, o.number = n → n ∈ configurable → o.number ∈ configurable :=
    fun ho hn => ho ▸ hn
  unfold wantedOption at h
  split at h
  · exact hnumber (textOption_number h) (by decide)
  · exact hnumber (numberOption_number h) (by decide)
  · exact hnumber (numberOption_number h) (by decide)
  · exact hnumber (textOption_number h) (by decide)
  · obtain ⟨n, -, hn⟩ := List.mem_map.mp h
    exact hnumber (n := LIBCOAP_COAP_OPTION_CONTENT_FORMAT) (congrArg CoapOpt.number hn).symm
      (by decide)
  · exact hnumber (textOption_number h) (by decide)
  · exact hnumber (textOption_number h) (by decide)
  · exact hnumber (numberOption_number h) (by decide)
  · cases h

theorem wanted_number {cfg : Cfg} {options : List (Int × List UInt8)} {o : CoapOpt}
    (h : o ∈ wanted cfg options) : o.number ∈ configurable := by
  obtain ⟨⟨opt, value⟩, -, h⟩ := List.mem_flatMap.mp h
  exact wantedOption_number h

theorem wanted_not_block (cfg : Cfg) (options : List (Int × List UInt8)) :
    ∀ o ∈ wanted cfg options, isBlock o = false := by
  have hnone : ∀ n ∈ configurable,
      n ≠ LIBCOAP_COAP_OPTION_BLOCK1 ∧ n ≠ LIBCOAP_COAP_OPTION_BLOCK2 :=
    List.forall_iff_forall_mem.mp (by decide)
  intro o ho
  simpa [isBlock] using hnone o.number (wanted_number ho)

/-! ### Values -/

theorem digits_256 {n : Nat} (hn : n ≠ 0) :
    Nat.digits 256 n = n % 256 :: Nat.digits 256 (n / 256) :=
  Nat.digits_def' (by decide) (Nat.pos_of_ne_zero hn)

theorem shortestBytes_zero : shortestBytes 0 = [] := by
  rw [shortestBytes, Nat.digits_zero]
  rfl

/-- The least significant byte is the last. -/
theorem shortestBytes_eq {n : Nat} (hn : n ≠ 0) :
    shortestBytes n = shortestBytes (n / 256) ++ [UInt8.ofNat n] := by
  have hbyte : UInt8.ofNat (n % 256) = UInt8.ofNat n := UInt8.ofNat_mod_size
  rw [shortestBytes, digits_256 hn, List.reverse_cons, List.map_append, List.map_singleton,
    hbyte, shortestBytes]

theorem shortestBytes_lt {n : Nat} (hn : n ≠ 0) (h : n < 256) :
    shortestBytes n = [UInt8.ofNat n] := by
  rw [shortestBytes_eq hn, Nat.div_eq_of_lt h, shortestBytes_zero, List.nil_append]

theorem toUInt8_shiftRight (v : UInt32) {k : UInt32} (hk : k.toNat < 32) :
    (v >>> k).toUInt8 = UInt8.ofNat (v.toNat / 2 ^ k.toNat) := by
  rw [← UInt8.toNat_inj, UInt32.toNat_toUInt8, UInt32.toNat_shiftRight, Nat.mod_eq_of_lt hk,
    Nat.shiftRight_eq_div_pow, UInt8.toNat_ofNat']

theorem coapEncodeVarSafe_eq (v : UInt32) : coapEncodeVarSafe v = shortestBytes v.toNat := by
  have hlow : v.toUInt8 = UInt8.ofNat v.toNat := by
    rw [← UInt8.toNat_inj, UInt32.toNat_toUInt8, UInt8.toNat_ofNat']
  have h8 := toUInt8_shiftRight v (show (8 : UInt32).toNat < 32 by decide)
  have h16 := toUInt8_shiftRight v (show (16 : UInt32).toNat < 32 by decide)
  have h24 := toUInt8_shiftRight v (show (24 : UInt32).toNat < 32 by decide)
  have hlt : v.toNat < 2 ^ 32 := v.toNat_lt
  have hdiv : v.toNat / 256 / 256 = v.toNat / 2 ^ 16 := by omega
  have hdiv' : v.toNat / 2 ^ 16 / 256 = v.toNat / 2 ^ 24 := by omega
  unfold coapEncodeVarSafe
  rw [hlow, h8, h16, h24]
  simp only [show (8 : UInt32).toNat = 8 from rfl, show (16 : UInt32).toNat = 16 from rfl,
    show (24 : UInt32).toNat = 24 from rfl]
  split
  · rename_i h0
    rw [h0, UInt32.toNat_zero, shortestBytes_zero]
  · rename_i h0
    have hne : v.toNat ≠ 0 := fun h => h0 (UInt32.toNat_inj.mp h)
    split
    · rw [shortestBytes_lt hne (by omega)]
    split
    · rw [shortestBytes_eq hne, shortestBytes_lt (by omega) (by omega)]
      rfl
    split
    · rw [shortestBytes_eq hne, shortestBytes_eq (by omega), hdiv,
        shortestBytes_lt (by omega) (by omega)]
      rfl
    · rw [shortestBytes_eq hne, shortestBytes_eq (by omega), hdiv, shortestBytes_eq (by omega),
        hdiv', shortestBytes_lt (by omega) (by omega)]
      rfl

/-- `atoi` reads the digits a text starts with. -/
theorem atoiDigits_eq (s : List UInt8) (acc : Nat) : atoiDigits s acc =
    (Decimal.continueFrom acc (s.takeWhile (fun b => Decimal.IsDigit b)) : Nat) := by
  induction s generalizing acc with
  | nil => rfl
  | cons c s ih =>
    by_cases hc : Decimal.IsDigit c
    · have hdigit : (10 * (acc : Int) + (c - 48).toNat) = (10 * acc + Decimal.digit c : Nat) := by
        have := Decimal.isDigit_iff.mp hc
        rw [Decimal.digit, UInt8.toNat_sub_of_le _ _ hc.1]
        push_cast
        rfl
      rw [atoiDigits, if_pos (by simpa [isdigit, Decimal.IsDigit] using hc), hdigit, ih,
        List.takeWhile_cons_of_pos (by simpa using hc), Decimal.continueFrom_cons]
    · rw [atoiDigits, if_neg (by simpa [isdigit, Decimal.IsDigit] using hc),
        List.takeWhile_cons_of_neg (by simpa using hc)]
      rfl

/-- `atoi` of a text that starts with a digit. -/
theorem atoi_digit {c : UInt8} {s : List UInt8} (hc : isdigit c = true) :
    ∃ n, leadingNumber (c :: s) = some n ∧ n ≤ 0x7FFFFFFF ∧ atoi (c :: s) = n := by
  have hdigit : Decimal.IsDigit c := by simpa [isdigit, Decimal.IsDigit] using hc
  have hbound := Decimal.isDigit_iff.mp hdigit
  have hspace : isspace c = false := by
    simp only [isspace, decide_eq_false_iff_not, ← UInt8.toNat_inj, UInt8.le_iff_toNat_le]
    change ¬ (c.toNat = 32 ∨ 9 ≤ c.toNat ∧ c.toNat ≤ 13)
    omega
  have hplus : c ≠ 43 := fun h => by subst h; exact absurd hdigit (by decide)
  have hminus : c ≠ 45 := fun h => by subst h; exact absurd hdigit (by decide)
  let digits := (c :: s).takeWhile (fun b => Decimal.IsDigit b)
  have hdigits : digits = c :: s.takeWhile (fun b => Decimal.IsDigit b) :=
    List.takeWhile_cons_of_pos (by simpa using hdigit)
  refine ⟨min 0x7FFFFFFF (Decimal.value digits), ?_, Nat.min_le_left _ _, ?_⟩
  · have hne : digits ≠ [] := hdigits ▸ List.cons_ne_nil _ _
    exact if_neg hne
  · have hvalue : atoiDigits (c :: s) 0 = (Decimal.value digits : Nat) :=
      atoiDigits_eq (c :: s) 0
    rw [atoi, List.dropWhile_cons_of_neg (by simp [hspace])]
    simp only [hplus, hminus, List.cons.injEq, false_and, imp_self, implies_true, hvalue]
    omega

theorem leadingNumber_not_digit {c : UInt8} {s : List UInt8} (hc : isdigit c = false) :
    leadingNumber (c :: s) = none := by
  have hdigit : ¬ Decimal.IsDigit c := by
    intro h
    rw [isdigit, decide_eq_false_iff_not] at hc
    exact hc h
  rw [leadingNumber, List.takeWhile_cons_of_neg (by simpa using hdigit), if_pos rfl]

/-- A number that is not refused is inserted. -/
theorem digitOption_eq {P : Prop} [Decidable P] (number : UInt16) {bound : Nat}
    {value : List UInt8} (hP : ∀ n : Nat, n ≤ 0x7FFFFFFF → atoi value = n → (P ↔ bound < n)) :
    (if P then none else some (digitOption number value)).getD [] =
      numberOption number bound value := by
  have hempty : ∀ {entries : List CoapOpt}, entries = [] →
      (if P then none else some entries).getD [] = [] := by
    rintro _ rfl
    split <;> rfl
  unfold numberOption
  cases value with
  | nil => exact hempty rfl
  | cons c s =>
    by_cases hc : isdigit c = true
    · obtain ⟨n, hlead, hle, hatoi⟩ := atoi_digit (s := s) hc
      have htoNat : (UInt32.ofInt n).toNat = n := by
        have hmod : ((n : Int) % 2 ^ 32).toNat = n := by omega
        have hsize : n < UInt32.size := lt_of_le_of_lt hle (by decide)
        rw [UInt32.ofInt, hmod, UInt32.toNat_ofNat_of_lt' hsize]
      rw [digitOption, if_pos hc, hlead, hatoi, coapEncodeVarSafe_eq, htoNat]
      by_cases hbound : bound < n
      · rw [if_pos ((hP n hle hatoi).mpr hbound),
          Option.filter_some_neg (by simpa using hbound)]
        rfl
      · rw [if_neg fun h => hbound ((hP n hle hatoi).mp h),
          Option.filter_some_pos (by simpa using hbound)]
        rfl
    · rw [leadingNumber_not_digit (Bool.eq_false_iff.mpr hc)]
      exact hempty (if_neg hc)

theorem xyContentTypeSet_eq (value : List UInt8) (key : UInt16) :
    xyContentTypeSet value key = (contentFormat value).toList.map (⟨key, shortestBytes ·⟩) := by
  unfold xyContentTypeSet
  dsimp only
  split
  · rename_i c s
    by_cases hc : isdigit c = true
    · obtain ⟨n, hlead, hle, hatoi⟩ := atoi_digit (s := s) hc
      have htoNat : (UInt16.ofInt n).toNat = n % 2 ^ 16 := by
        have hmod : ((n : Int) % 2 ^ 16).toNat = n % 2 ^ 16 := by omega
        rw [UInt16.ofInt, hmod, UInt16.toNat_ofNat', Nat.mod_mod]
      rw [if_pos hc, contentFormat, hlead, hatoi, coapEncodeVarSafe_eq, UInt16.toNat_toUInt32,
        htoNat]
      rfl
    · rw [if_neg hc, contentFormat, leadingNumber_not_digit (Bool.eq_false_iff.mpr hc)]
      have hstarts : (fun t : UInt16 × List UInt8 => decide ((c :: s) <+: t.2)) =
          fun t => (c :: s).isPrefixOf t.2 := by
        funext t
        rw [Bool.eq_iff_iff, decide_eq_true_eq, List.isPrefixOf_iff_prefix]
      dsimp only
      rw [hstarts]
      split
      · rename_i t hfind
        rw [hfind, coapEncodeVarSafe_eq, UInt16.toNat_toUInt32]
        rfl
      · rename_i hfind
        rw [hfind]
        rfl
  · rw [coapEncodeVarSafe_eq]
    rfl

theorem xyCoapProxyUriSet_eq {value : List UInt8} (hne : value ≠ []) :
    xyCoapProxyUriSet value = (pieces 270 value).map (⟨LIBCOAP_COAP_OPTION_PROXY_URI, ·⟩) := by
  induction value using xyCoapProxyUriSet.induct with
  | case1 value hlong ih =>
    have hrest : value.drop 270 ≠ [] := by
      rw [← List.length_pos_iff, List.length_drop]
      omega
    rw [xyCoapProxyUriSet, if_pos hlong, ih hrest, pieces_cons (by decide) hne, List.map_cons]
  | case2 value hshort =>
    rw [xyCoapProxyUriSet, if_neg hshort, pieces_of_le (by decide) hne (by omega)]
    rfl

/-- The bounds of the texts. -/
theorem textOption_eq (number : UInt16) (bound : Nat) (parts : List UInt8 → List (List UInt8))
    (value : List UInt8) :
    textOption number bound parts value = if value.length < 1 ∨ bound < value.length then []
      else (parts value).map (⟨number, ·⟩) := by
  have hlength : value ≠ [] ↔ ¬ value.length < 1 := by
    rw [← List.length_pos_iff]
    omega
  unfold textOption
  by_cases hbounds : value.length < 1 ∨ bound < value.length
  · rw [if_pos hbounds, if_neg fun h => by have := hlength.mp h.1; omega]
  · rw [if_neg hbounds, if_pos ⟨hlength.mpr (by omega), by omega⟩]

/-- A path or a query, of which an empty text has no parts. -/
theorem splitOption_eq (number : UInt16) (parts : List UInt8 → List (List UInt8))
    (value : List UInt8) :
    (if 255 < value.length then none else if value.length = 0 then some [] else
      some ((parts value).map (CoapOpt.mk number ·))).getD [] =
        textOption number 255 parts value := by
  rw [textOption_eq]
  by_cases hlong : 255 < value.length
  · rw [if_pos hlong, if_pos (.inr hlong)]
    rfl
  by_cases hempty : value.length = 0
  · rw [if_neg hlong, if_pos hempty, if_pos (.inl (by omega))]
    rfl
  · rw [if_neg hlong, if_neg hempty, if_neg (by omega)]
    rfl

theorem wantedOption_of_other {opt : Int} (h₃ : opt ≠ 3) (h₆ : opt ≠ 6) (h₇ : opt ≠ 7)
    (h₁₁ : opt ≠ 11) (h₁₂ : opt ≠ 12) (h₁₅ : opt ≠ 15) (h₃₅ : opt ≠ 35) (h₆₀ : opt ≠ 60) (cfg : Cfg)
    (value : List UInt8) : wantedOption cfg opt value = [] := by
  unfold wantedOption
  split
  all_goals first | contradiction | rfl

/-- **What is inserted is what is asked for.** -/
theorem optionEntries_wanted (cfg : Cfg) (opt : Int) (value : List UInt8) :
    (optionEntries cfg opt value).getD [] = wantedOption cfg opt value := by
  unfold optionEntries
  dsimp only
  split
  · show _ = textOption LIBCOAP_COAP_OPTION_URI_HOST 255 ([·]) value
    rw [textOption_eq]
    split <;> rfl
  · refine digitOption_eq _ fun n _ hn => ?_
    omega
  · refine digitOption_eq _ fun n _ hn => ?_
    omega
  · exact splitOption_eq _ _ _
  · exact xyContentTypeSet_eq _ _
  · exact splitOption_eq _ _ _
  · show _ = textOption LIBCOAP_COAP_OPTION_PROXY_URI 1034 (pieces 270) value
    rw [textOption_eq]
    split
    · rfl
    · rename_i hlength
      have hne : value ≠ [] := fun h => hlength (.inl (by rw [h]; decide))
      exact xyCoapProxyUriSet_eq hne
  · have hint : (if False then none else some (digitOption LIBCOAP_COAP_OPTION_SIZE1 value)).getD
        [] = numberOption LIBCOAP_COAP_OPTION_SIZE1 0x7FFFFFFF value :=
      digitOption_eq _ fun n hn _ => iff_of_false not_false (by omega)
    rwa [if_neg not_false] at hint
  · next h₃ h₆ h₇ h₁₁ h₁₂ h₁₅ h₃₅ h₆₀ =>
      exact (wantedOption_of_other h₃ h₆ h₇ h₁₁ h₁₂ h₁₅ h₃₅ h₆₀ cfg value).symm

end XY1100.Coap
