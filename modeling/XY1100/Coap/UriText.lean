import Mathlib.Data.List.TakeWhile
import XY1100.Coap.UriOptions

/-!
# Coap — the text of a path and of a query

`coap_get_uri_path` and `coap_get_query` print the options of a received message as a text: they
count its bytes, allocate it, and write the values percent-encoded, with a separator in front of
each but the first.

* `path_returns`: the text of a path, set as a path again, gives the options it was printed from,
  but for those of dots.
* `query_text`: the text of a query; where the first value is empty, it is shorter than what was
  counted, and the last bytes are not written.
* `query_returns`: the text of a query, set as a query again, gives its options, each cut at its `&`.
-/

namespace XY1100.Coap
open Support (Buf)
open Utils (IsHex)

/-! ### The code -/

def isUnescapedInPath (c : UInt8) : Bool :=
  (65 ≤ c ∧ c ≤ 90) ∨ (97 ≤ c ∧ c ≤ 122) ∨ (48 ≤ c ∧ c ≤ 57) ∨
    -- the marks, `&` among them
    c ∈ [45, 46, 95, 126, 33, 36, 39, 40, 41, 42, 43, 44, 59, 61, 58, 64, 38]

def isUnescapedInQuery (c : UInt8) : Bool := isUnescapedInPath c ∨ c = 47 ∨ c = 63

/-- The digits `0123456789ABCDEF`. -/
def hexDigits : List UInt8 := [48, 49, 50, 51, 52, 53, 54, 55, 56, 57, 65, 66, 67, 68, 69, 70]

def hex (n : UInt8) : UInt8 := hexDigits.getD n.toNat 0

/-- A byte of the text, percent-encoded where it must be. -/
def escape (unescaped : UInt8 → Bool) (c : UInt8) : List UInt8 :=
  if unescaped c then [c] else [percent, hex (c >>> 4), hex (c &&& 0x0F)]

/-- The values the loop over the options of a number goes through. -/
def optionValues (request : CoapPdu) (number : UInt16) : List (List UInt8) :=
  let f := (coapOptionFilterSet coapOptionFilterClear number).1
  (deliveries request.mem (request.usedSize + 1)
    (coapOptionIteratorInit request (some f))).map Prod.snd

/-- The first loop: the bytes of the values, and one more for each. -/
def countLoop (unescaped : UInt8 → Bool) (values : List (List UInt8)) : Nat :=
  values.foldl (fun length seg =>
    seg.foldl (fun length c => if unescaped c then length + 1 else length + 3) length + 1) 0

/-- The second loop, from the address `s` on and behind `n` values: `more` says whether a separator
is written. -/
def printLoop (unescaped : UInt8 → Bool) (sep : UInt8) (more : Nat → Nat → Bool) :
    List (List UInt8) → Nat → Buf → Nat → Buf
  | [], _, m, _ => m
  | seg :: segs, n, m, s =>
    let text := (if more s n then [sep] else []) ++ seg.flatMap (escape unescaped)
    printLoop unescaped sep more segs (n + 1) (m.write s text) (s + text.length)

/-- A `coap_string_t`, with the memory of its bytes. -/
structure UriString where
  length : Nat
  s : Buf

/-- `coap_new_string`, in memory that holds `heap`. -/
def coapNewString (heap : Buf) (size : Nat) : Buf := heap.write size [0]

/-- `coap_get_uri_path`, where the allocation succeeds. -/
def coapGetUriPath (heap : Buf) (request : CoapPdu) : UriString :=
  let values := optionValues request LIBCOAP_COAP_OPTION_URI_PATH
  let length := countLoop isUnescapedInPath values
  let length := if 0 < length then length - 1 else length
  ⟨length, printLoop isUnescapedInPath 47 (fun _ n => n ≠ 0) values 0 (coapNewString heap length) 0⟩

/-- `coap_get_query`, where the allocation succeeds. -/
def coapGetQuery (heap : Buf) (request : CoapPdu) : Option UriString :=
  let values := optionValues request LIBCOAP_COAP_OPTION_URI_QUERY
  let length := countLoop isUnescapedInQuery values
  let length := if 0 < length then length - 1 else length
  if 0 < length then
    some ⟨length,
      printLoop isUnescapedInQuery 38 (fun s _ => s ≠ 0) values 0 (coapNewString heap length) 0⟩
  else none

/-! ### The encoding -/

section
variable {unescaped : UInt8 → Bool}

set_option maxRecDepth 4000 in
theorem hex_digits (c : UInt8) :
    hexValue (hex (c >>> 4)) = some (c.toNat / 16) ∧
      hexValue (hex (c &&& 0x0F)) = some (c.toNat % 16) := by
  have hall : ∀ n < 256, hexValue (hex (UInt8.ofNat n >>> 4)) = some ((UInt8.ofNat n).toNat / 16) ∧
      hexValue (hex (UInt8.ofNat n &&& 0x0F)) = some ((UInt8.ofNat n).toNat % 16) := by decide
  exact Support.forall_byte
    (P := fun c => hexValue (hex (c >>> 4)) = some (c.toNat / 16) ∧
      hexValue (hex (c &&& 0x0F)) = some (c.toNat % 16)) hall c

/-- An encoded byte is decoded. -/
theorem percentDecode_escape_append (hu : unescaped percent = false) (c : UInt8) (s : List UInt8) :
    percentDecode (escape unescaped c ++ s) = (percentDecode s).map (c :: ·) := by
  unfold escape
  split_ifs with hc
  · exact percentDecode_plain (by rintro rfl; simp [hu] at hc) s
  · obtain ⟨hhi, hlo⟩ := hex_digits c
    simp only [List.cons_append, List.nil_append]
    rw [percentDecode_escape, hhi, hlo]
    have hbyte : UInt8.ofNat (16 * (c.toNat / 16) + c.toNat % 16) = c := by
      rw [Nat.div_add_mod, UInt8.ofNat_toNat]
    simp only [bind, Option.bind_some, hbyte, pure]
    cases percentDecode s <;> rfl

/-- An encoded value is decoded. -/
theorem percentDecode_escaped (hu : unescaped percent = false) (v : List UInt8) :
    percentDecode (v.flatMap (escape unescaped)) = some v := by
  induction v with
  | nil => rfl
  | cons c v ih => rw [List.flatMap_cons, percentDecode_escape_append hu, ih, Option.map_some]

/-- The bytes of an encoded byte. -/
theorem mem_escape {c a : UInt8} (h : a ∈ escape unescaped c) :
    a = c ∧ unescaped a = true ∨ a = percent ∨ IsHex a := by
  have digit {c v} (hv : hexValue c = some v) : IsHex c := by
    by_contra hno
    rw [(hexValue_eq_none_iff c).mpr hno] at hv
    cases hv
  unfold escape at h
  split_ifs at h with hc
  · rw [List.mem_singleton] at h
    exact .inl ⟨h, h ▸ hc⟩
  · simp only [List.mem_cons, List.not_mem_nil, or_false] at h
    rcases h with rfl | rfl | rfl
    · exact .inr (.inl rfl)
    · exact .inr (.inr (digit (hex_digits c).1))
    · exact .inr (.inr (digit (hex_digits c).2))

/-- A byte that is encoded is not in the text of a value. -/
theorem not_mem_escaped {a : UInt8} (ha : unescaped a = false) (hp : a ≠ percent) (hx : ¬ IsHex a)
    (v : List UInt8) : a ∉ v.flatMap (escape unescaped) := by
  intro h
  obtain ⟨c, -, hc⟩ := List.mem_flatMap.mp h
  rcases mem_escape hc with ⟨-, hu⟩ | rfl | hx'
  · rw [ha] at hu
    cases hu
  · exact hp rfl
  · exact hx hx'

end

/-! ### The loops -/

theorem intercalate_eq (sep : UInt8) (x : List UInt8) (xs : List (List UInt8)) :
    [sep].intercalate (x :: xs) = x ++ xs.flatMap (sep :: ·) := by
  induction xs generalizing x with
  | nil => simp
  | cons y ys ih => rw [List.intercalate_cons_cons, ih, List.flatMap_cons]; simp

section
variable (unescaped : UInt8 → Bool) (sep : UInt8)

/-- The text of values: each encoded, with separators between them. -/
def valuesText (values : List (List UInt8)) : List UInt8 :=
  [sep].intercalate (values.map (·.flatMap (escape unescaped)))

/-- What is counted for the values is the length of their text, and one more. -/
theorem countLoop_eq (values : List (List UInt8)) :
    countLoop unescaped values =
      if values = [] then 0 else (valuesText unescaped sep values).length + 1 := by
  have hseg (seg : List UInt8) (k : Nat) :
      seg.foldl (fun length c => if unescaped c then length + 1 else length + 3) k =
        k + (seg.flatMap (escape unescaped)).length := by
    induction seg generalizing k with
    | nil => rfl
    | cons c seg ih =>
      rw [List.foldl_cons, ih, List.flatMap_cons, List.length_append, escape]
      split_ifs <;> simp only [List.length_cons, List.length_nil] <;> omega
  have hall (values : List (List UInt8)) (k : Nat) :
      values.foldl (fun length seg =>
          seg.foldl (fun length c => if unescaped c then length + 1 else length + 3) length + 1) k =
        k + ((values.map (·.flatMap (escape unescaped))).flatMap (sep :: ·)).length := by
    induction values generalizing k with
    | nil => rfl
    | cons seg values ih =>
      rw [List.foldl_cons, ih, hseg, List.map_cons, List.flatMap_cons, List.length_append,
        List.length_cons]
      omega
  rw [countLoop, hall]
  cases values with
  | nil => rfl
  | cons v values =>
    rw [if_neg (List.cons_ne_nil _ _), valuesText, List.map_cons, intercalate_eq,
      List.flatMap_cons, List.length_append, List.length_append, List.length_cons]
    omega

/-- What the second loop writes. -/
def printed (more : Nat → Nat → Bool) : List (List UInt8) → Nat → Nat → List UInt8
  | [], _, _ => []
  | seg :: segs, n, s =>
    let text := (if more s n then [sep] else []) ++ seg.flatMap (escape unescaped)
    text ++ printed more segs (n + 1) (s + text.length)

theorem printLoop_eq (more : Nat → Nat → Bool) (values : List (List UInt8)) (n : Nat) (m : Buf)
    (s : Nat) :
    printLoop unescaped sep more values n m s =
      m.write s (printed unescaped sep more values n s) := by
  induction values generalizing n m s with
  | nil =>
    funext i
    exact (Buf.write_outside (by simp only [printed, List.length_nil]; omega)).symm
  | cons seg values ih =>
    rw [printLoop, ih, ← Buf.write_append]
    rfl

/-- Behind a first value the separators of a path are written. -/
theorem printed_path (values : List (List UInt8)) (n s : Nat) :
    printed unescaped sep (fun _ n => n ≠ 0) values (n + 1) s =
      (values.map (·.flatMap (escape unescaped))).flatMap (sep :: ·) := by
  induction values generalizing n s with
  | nil => rfl
  | cons seg values ih =>
    rw [printed, ih, List.map_cons, List.flatMap_cons]
    rfl

/-- The second loop prints a path. -/
theorem printed_path_zero (values : List (List UInt8)) :
    printed unescaped sep (fun _ n => n ≠ 0) values 0 0 = valuesText unescaped sep values := by
  cases values with
  | nil => rfl
  | cons seg values =>
    rw [printed, printed_path, valuesText, List.map_cons, intercalate_eq]
    rfl

/-- Behind a byte the separators of a query are written. -/
theorem printed_query (values : List (List UInt8)) (n : Nat) {s : Nat} (hs : 0 < s) :
    printed unescaped sep (fun s _ => s ≠ 0) values n s =
      (values.map (·.flatMap (escape unescaped))).flatMap (sep :: ·) := by
  induction values generalizing n s with
  | nil => rfl
  | cons seg values ih =>
    have hmore : decide (s ≠ 0) = true := decide_eq_true (Nat.pos_iff_ne_zero.mp hs)
    rw [printed]
    simp only [hmore, if_true]
    rw [ih (n + 1) (by omega), List.map_cons, List.flatMap_cons]
    rfl

/-- The second loop prints a query without the empty values in front. -/
theorem printed_query_zero (values : List (List UInt8)) (n : Nat) :
    printed unescaped sep (fun s _ => s ≠ 0) values n 0 =
      valuesText unescaped sep (values.dropWhile (·.isEmpty)) := by
  induction values generalizing n with
  | nil => rfl
  | cons seg values ih =>
    rw [printed]
    cases seg with
    | nil =>
      rw [List.dropWhile_cons_of_pos (by rfl)]
      exact ih (n + 1)
    | cons c seg =>
      have hpos : 0 < ((c :: seg).flatMap (escape unescaped)).length := by
        rw [List.flatMap_cons, List.length_append, escape]
        split_ifs <;> simp
      simp only [ne_eq, not_true, decide_false, Bool.false_eq_true, if_false, List.nil_append,
        Nat.zero_add]
      rw [printed_query _ _ _ _ hpos, List.dropWhile_cons_of_neg (by simp), valuesText, List.map_cons,
        intercalate_eq]

end

/-! ### The texts -/

section
variable {unescaped : UInt8 → Bool} {sep : UInt8}

theorem escaped_eq_nil (v : List UInt8) : v.flatMap (escape unescaped) = [] ↔ v = [] := by
  cases v with
  | nil => simp
  | cons c v =>
    rw [List.flatMap_cons, escape]
    split_ifs <;> simp

theorem valuesText_eq_nil (values : List (List UInt8)) :
    valuesText unescaped sep values = [] ↔ values = [] ∨ values = [[]] := by
  cases values with
  | nil => simp [valuesText, List.intercalate_nil]
  | cons v values =>
    rw [valuesText, List.map_cons, intercalate_eq, List.append_eq_nil_iff, escaped_eq_nil]
    cases values <;> simp

/-- The values of a text are found in it again. -/
theorem segments_valuesText {ends : UInt8 → Bool} (hends : ends sep = false)
    (hbytes : ∀ c, ends c = true → unescaped c = false ∧ c ≠ percent ∧ ¬ IsHex c)
    {values : List (List UInt8)} (hnil : values ≠ [])
    (hsep : ∀ v ∈ values, sep ∉ v.flatMap (escape unescaped)) :
    segments ends sep (valuesText unescaped sep values) =
      values.map (·.flatMap (escape unescaped)) := by
  have hvalue (c : UInt8) (v : List UInt8) (hc : c ∈ v.flatMap (escape unescaped)) :
      ends c = false := by
    by_contra hend
    obtain ⟨hu, hp, hx⟩ := hbytes c (by simpa using hend)
    exact not_mem_escaped hu hp hx v hc
  have hall : ∀ c ∈ valuesText unescaped sep values, (!ends c) = true := by
    obtain ⟨v, vs, rfl⟩ := List.exists_cons_of_ne_nil hnil
    intro c hc
    rw [valuesText, List.map_cons, intercalate_eq] at hc
    rcases List.mem_append.mp hc with hc | hc
    · simp [hvalue c v hc]
    · obtain ⟨w, hw, hc⟩ := List.mem_flatMap.mp hc
      obtain ⟨v', -, rfl⟩ := List.mem_map.mp hw
      rcases List.mem_cons.mp hc with rfl | hc
      · simp [hends]
      · simp [hvalue c v' hc]
  rw [segments, List.takeWhile_eq_self_iff.mpr hall, valuesText,
    List.splitOn_intercalate sep ?_ (by simpa using hnil)]
  intro l hl
  obtain ⟨v, hv, rfl⟩ := List.mem_map.mp hl
  exact hsep v hv

/-- What is decoded in the values of a text are the values. -/
theorem filterMap_escaped (hu : unescaped percent = false) (values : List (List UInt8)) :
    (values.map (·.flatMap (escape unescaped))).filterMap percentDecode = values := by
  rw [List.filterMap_map]
  have hsome : percentDecode ∘ (·.flatMap (escape unescaped)) = some :=
    funext fun v => percentDecode_escaped hu v
  rw [hsome, List.filterMap_some]

/-- The encoding keeps the values of dots, and makes no others. -/
theorem isDots_escaped (hu : unescaped percent = false) (hdot : unescaped 46 = true)
    (v : List UInt8) : isDots (v.flatMap (escape unescaped)) = isDots v := by
  have hdecode := percentDecode_escaped hu v
  have hkeep : escape unescaped 46 = [46] := by rw [escape, if_pos hdot]
  rw [isDots, isDots, Bool.eq_iff_iff, decide_eq_true_eq, decide_eq_true_eq]
  constructor
  · rintro (h | h) <;> rw [h] at hdecode
    · exact .inl (Option.some.inj hdecode).symm
    · exact .inr (Option.some.inj hdecode).symm
  · rintro (rfl | rfl)
    · exact .inl (by rw [List.flatMap_singleton, hkeep])
    · exact .inr (by rw [List.flatMap_cons, List.flatMap_singleton, hkeep]; rfl)

end

/-- The segments of the text of a path. -/
theorem pathSegments_valuesText {values : List (List UInt8)} (hnil : values ≠ []) :
    pathSegments (valuesText isUnescapedInPath 47 values) = values.filter (! isDots ·) := by
  have hbytes (c : UInt8) (hc : endsPath c = true) :
      isUnescapedInPath c = false ∧ c ≠ percent ∧ ¬ IsHex c := by
    rcases of_decide_eq_true hc with rfl | rfl <;> decide
  rw [pathSegments, segments_valuesText (by decide) hbytes hnil fun v _ =>
    not_mem_escaped (by decide) (by decide) (by decide) v, List.filter_map]
  have hdots : (fun s => !isDots s) ∘ (·.flatMap (escape isUnescapedInPath)) = (! isDots ·) :=
    funext fun v => congrArg not (isDots_escaped (by decide) (by decide) v)
  rw [hdots, filterMap_escaped (by decide)]

theorem not_mem_splitOn {a : UInt8} {s p : List UInt8} (h : p ∈ s.splitOn a) : a ∉ p := by
  induction s generalizing p with
  | nil =>
    rw [List.splitOn_nil, List.mem_singleton] at h
    simp [h]
  | cons x s ih =>
    rw [List.splitOn_cons_eq_if_modifyHead] at h
    split_ifs at h with hx
    · rcases List.mem_cons.mp h with rfl | h
      · exact List.not_mem_nil
      · exact ih h
    · obtain ⟨q, qs, hs⟩ := List.exists_cons_of_ne_nil (List.splitOn_ne_nil a s)
      rw [hs, List.modifyHead_cons] at h
      rcases List.mem_cons.mp h with rfl | h
      · have hq := ih (hs ▸ List.mem_cons_self)
        simp only [beq_iff_eq] at hx
        simp [Ne.symm hx, hq]
      · exact ih (hs ▸ List.mem_cons_of_mem q h)

section
variable {unescaped : UInt8 → Bool} {sep : UInt8}

/-- A separator that is not encoded cuts the text of a value. -/
theorem escaped_splitOn (hsep : unescaped sep = true) (v : List UInt8) :
    valuesText unescaped sep (v.splitOn sep) = v.flatMap (escape unescaped) := by
  induction v with
  | nil => rfl
  | cons c v ih =>
    obtain ⟨p, ps, hs⟩ := List.exists_cons_of_ne_nil (List.splitOn_ne_nil sep v)
    rw [List.splitOn_cons_eq_if_modifyHead, List.flatMap_cons, ← ih, hs]
    split_ifs with hc
    · obtain rfl := eq_of_beq hc
      rw [escape, if_pos hsep, valuesText, List.map_cons, List.map_cons, List.flatMap_nil,
        List.intercalate_cons_cons, valuesText, List.map_cons]
      rfl
    · rw [List.modifyHead_cons, valuesText, valuesText, List.map_cons, List.map_cons,
        intercalate_eq, intercalate_eq, List.flatMap_cons, List.append_assoc]

/-- The text of values is that of their pieces. -/
theorem valuesText_splitOn (hsep : unescaped sep = true) (values : List (List UInt8)) :
    valuesText unescaped sep (values.flatMap (·.splitOn sep)) = valuesText unescaped sep values := by
  have htail (values : List (List UInt8)) :
      ((values.flatMap (·.splitOn sep)).map (·.flatMap (escape unescaped))).flatMap (sep :: ·) =
        (values.map (·.flatMap (escape unescaped))).flatMap (sep :: ·) := by
    induction values with
    | nil => rfl
    | cons v values ih =>
      obtain ⟨p, ps, hs⟩ := List.exists_cons_of_ne_nil (List.splitOn_ne_nil sep v)
      have hv := escaped_splitOn hsep v
      rw [hs, valuesText, List.map_cons, intercalate_eq] at hv
      rw [List.flatMap_cons, hs, List.map_append, List.flatMap_append, ih, List.map_cons,
        List.map_cons, List.flatMap_cons, List.flatMap_cons, ← hv, List.cons_append]
  cases values with
  | nil => rfl
  | cons v values =>
    obtain ⟨p, ps, hs⟩ := List.exists_cons_of_ne_nil (List.splitOn_ne_nil sep v)
    have hv := escaped_splitOn hsep v
    rw [hs, valuesText, List.map_cons, intercalate_eq] at hv
    rw [List.flatMap_cons, hs, List.cons_append, valuesText, List.map_cons, intercalate_eq,
      List.map_append, List.flatMap_append, htail, ← List.append_assoc, hv, valuesText,
      List.map_cons, intercalate_eq]

end

/-- The elements of the text of a query: a query does not encode its separator. -/
theorem querySegments_valuesText {values : List (List UInt8)} (hnil : values ≠ []) :
    querySegments (valuesText isUnescapedInQuery 38 values) = values.flatMap (·.splitOn 38) := by
  have hbytes (c : UInt8) (hc : decide (c = 35) = true) :
      isUnescapedInQuery c = false ∧ c ≠ percent ∧ ¬ IsHex c := by
    rw [of_decide_eq_true hc]
    decide
  have hsep (p : List UInt8) (hp : p ∈ values.flatMap (·.splitOn 38)) :
      38 ∉ p.flatMap (escape isUnescapedInQuery) := by
    obtain ⟨v, -, hpv⟩ := List.mem_flatMap.mp hp
    intro h
    obtain ⟨c, hc, h⟩ := List.mem_flatMap.mp h
    rcases mem_escape h with ⟨rfl, -⟩ | h | h
    · exact not_mem_splitOn hpv hc
    · exact absurd h (by decide)
    · exact absurd h (by decide)
  have hpieces : values.flatMap (·.splitOn 38) ≠ [] := by
    obtain ⟨v, vs, rfl⟩ := List.exists_cons_of_ne_nil hnil
    rw [List.flatMap_cons]
    exact List.append_ne_nil_of_left_ne_nil (List.splitOn_ne_nil 38 v) _
  rw [← valuesText_splitOn (by decide), querySegments,
    segments_valuesText (by decide) hbytes hpieces hsep, filterMap_escaped (by decide)]

/-- What is counted, less the byte for the last value, is the length of the text. -/
theorem counted_eq (unescaped : UInt8 → Bool) (sep : UInt8) (values : List (List UInt8)) :
    (if 0 < countLoop unescaped values then countLoop unescaped values - 1
      else countLoop unescaped values) = (valuesText unescaped sep values).length := by
  rw [countLoop_eq unescaped sep]
  by_cases hnil : values = []
  · subst hnil
    rfl
  · rw [if_neg hnil, if_pos (Nat.succ_pos _), Nat.add_sub_cancel]

section
variable {unescaped : UInt8 → Bool} {sep : UInt8}

theorem valuesText_nil_cons {values : List (List UInt8)} (hnil : values ≠ []) :
    valuesText unescaped sep ([] :: values) = sep :: valuesText unescaped sep values := by
  obtain ⟨v, vs, rfl⟩ := List.exists_cons_of_ne_nil hnil
  simp only [valuesText, List.map_cons, List.flatMap_nil, List.intercalate_cons_cons]
  rfl

/-- The empty values in front only make a text longer. -/
theorem length_dropped_le (values : List (List UInt8)) :
    (valuesText unescaped sep (values.dropWhile (·.isEmpty))).length ≤
      (valuesText unescaped sep values).length := by
  induction values with
  | nil => exact Nat.le_refl _
  | cons v values ih =>
    cases v with
    | nil =>
      rw [List.dropWhile_cons_of_pos (by rfl)]
      by_cases hnil : values = []
      · subst hnil
        exact Nat.le_refl _
      · rw [valuesText_nil_cons hnil, List.length_cons]
        exact ih.trans (Nat.le_succ _)
    | cons c v => rw [List.dropWhile_cons_of_neg (by simp)]

/-- One of several values that is empty and in front makes it longer. -/
theorem length_dropped_lt {values : List (List UInt8)} (hnil : values ≠ []) :
    (valuesText unescaped sep (([] :: values).dropWhile (·.isEmpty))).length <
      (valuesText unescaped sep ([] :: values)).length := by
  rw [List.dropWhile_cons_of_pos (by rfl), valuesText_nil_cons hnil, List.length_cons]
  exact Nat.lt_succ_of_le (length_dropped_le values)

end

/-- Where the first of several values is not empty, no value is left out. -/
theorem dropWhile_first {unescaped : UInt8 → Bool} {sep : UInt8} {values : List (List UInt8)}
    (hfirst : values.head? = some [] → values.length = 1)
    (hnil : valuesText unescaped sep values ≠ []) : values.dropWhile (·.isEmpty) = values := by
  match values with
  | [] => rfl
  | [] :: rest =>
    have hone := hfirst rfl
    rw [List.length_cons, Nat.succ_inj, List.length_eq_zero_iff] at hone
    subst hone
    exact absurd rfl hnil
  | (c :: v) :: rest => exact List.dropWhile_cons_of_neg (by simp)

/-! ### Received messages -/

/-- The values of a number in a received message. -/
def Message.values (msg : Message) (number : UInt16) : List (List UInt8) :=
  (msg.numbers.filter fun o => o.1 = number).map Prod.snd

/-- The loops over the options of a received message go through the values of the number. -/
theorem optionValues_message {pdu : CoapPdu} {msg : Message} (hok : msg.Ok)
    (h : HoldsMessage pdu msg) (hsize : pdu.usedSize < 65536) (number : UInt16) :
    optionValues pdu number = msg.values number := by
  unfold optionValues Message.values
  simp only
  rw [deliveries_message hok h hsize]
  congr 1
  refine List.filter_congr fun o _ => ?_
  rw [letsThrough, Bool.eq_iff_iff, checkFilter_get, decide_eq_true_eq]

/-- What a new string holds after a text is written from its start on. -/
theorem read_newString (heap : Buf) {bs : List UInt8} {size : Nat} (hle : bs.length ≤ size) :
    ((coapNewString heap size).write 0 bs).read 0 size =
      bs ++ heap.read bs.length (size - bs.length) := by
  conv_lhs => rw [show size = bs.length + (size - bs.length) by omega]
  rw [Buf.read_add, Buf.read_write, Nat.zero_add]
  congr 1
  refine Buf.read_congr fun i hi => ?_
  rw [Buf.write_outside (.inr (by omega)), coapNewString, Buf.write_outside (.inl (by omega))]

/-- A new string shows what the heap held behind what is written into it. -/
theorem exists_read_newString_ne {bs text : List UInt8} (hlt : bs.length < text.length) :
    ∃ heap, ((coapNewString heap text.length).write 0 bs).read 0 text.length ≠ text := by
  by_contra hall
  push Not at hall
  have hread (heap : Buf) := (read_newString heap (Nat.le_of_lt hlt)).symm.trans (hall heap)
  -- two heaps that differ in the byte behind what is written
  have hsame := List.append_cancel_left ((hread fun _ => 0).trans (hread fun _ => 1).symm)
  have hbyte := congrArg (·[0]?) hsame
  rw [Buf.getElem?_read (by omega), Buf.getElem?_read (by omega)] at hbyte
  exact absurd (Option.some.inj hbyte) (by decide)

/-- A text is at most three times as long as its values and their number. -/
theorem length_valuesText_le (unescaped : UInt8 → Bool) (sep : UInt8) (values : List (List UInt8)) :
    (valuesText unescaped sep values).length ≤ 3 * (values.map (·.length + 1)).sum := by
  have hvalue (v : List UInt8) : (v.flatMap (escape unescaped)).length ≤ 3 * v.length := by
    induction v with
    | nil => exact Nat.le_refl _
    | cons c v ih =>
      have hc : (escape unescaped c).length ≤ 3 := by
        rw [escape]
        split_ifs <;> simp
      rw [List.flatMap_cons, List.length_append, List.length_cons]
      omega
  have htail (values : List (List UInt8)) :
      ((values.map (·.flatMap (escape unescaped))).flatMap (sep :: ·)).length ≤
        3 * (values.map (·.length + 1)).sum := by
    induction values with
    | nil => exact Nat.le_refl _
    | cons v values ih =>
      have := hvalue v
      rw [List.map_cons, List.map_cons, List.flatMap_cons, List.length_append, List.sum_cons,
        List.length_cons]
      omega
  cases values with
  | nil => exact Nat.zero_le _
  | cons v values =>
    have := hvalue v
    have := htail values
    rw [valuesText, List.map_cons, List.map_cons, intercalate_eq, List.length_append, List.sum_cons]
    omega

/-- The values of a number are no more than the bytes of the options. -/
theorem sum_values_le (msg : Message) (number : UInt16) :
    ((msg.values number).map (·.length + 1)).sum ≤ msg.tail.length := by
  have hoptions (options : List (Nat × List UInt8)) :
      ((options.map Prod.snd).map (·.length + 1)).sum ≤ (options.flatMap optionBytes).length := by
    induction options with
    | nil => exact Nat.le_refl _
    | cons o options ih =>
      have hsize : o.2.length + 1 ≤ (optionBytes o).length := by
        rw [optionBytes, List.length_append, optionHeader, List.length_cons]
        omega
      rw [List.map_cons, List.map_cons, List.sum_cons, List.flatMap_cons, List.length_append]
      omega
  have hsnd : msg.numbers.map Prod.snd = msg.options.map Prod.snd := by
    rw [Message.numbers, Support.map_snd_positions, List.map_map]
    rfl
  have hsub : (msg.values number).Sublist (msg.options.map Prod.snd) := by
    rw [← hsnd]
    exact List.filter_sublist.map _
  calc ((msg.values number).map (·.length + 1)).sum
      ≤ ((msg.options.map Prod.snd).map (·.length + 1)).sum :=
        (hsub.map _).sum_le_sum fun _ _ => Nat.zero_le _
    _ ≤ (msg.options.flatMap optionBytes).length := hoptions _
    _ ≤ msg.tail.length := by
      rw [Message.tail, List.length_append]
      omega

/-- What is read of an accepted datagram. -/
theorem accepted_values {mem : Buf} {len : UInt16} (h : (coapRecv mem len).2 = true) :
    ∃ msg : Message, msg.Ok ∧ mem.read 0 len.toNat = msg.bytes ∧
      (∀ number, optionValues (coapRecv mem len).1 number = msg.values number) ∧
      ∀ unescaped sep number, (valuesText unescaped sep (msg.values number)).length < 2 ^ 32 := by
  obtain ⟨msg, hok, hbytes⟩ := coapRecv_sound h
  have hholds := (coapRecv_message hok hbytes).2
  have hsize : (coapRecv mem len).1.usedSize < 65536 := by
    have := len.toNat_lt
    rw [hholds.usedSize]
    have := (read_message hbytes).1
    omega
  refine ⟨msg, hok, hbytes, optionValues_message hok hholds hsize, fun unescaped sep number => ?_⟩
  have htext := length_valuesText_le unescaped sep (msg.values number)
  have hsum := sum_values_le msg number
  have hused := hholds.usedSize
  omega

theorem coapGetUriPath_eq (heap : Buf) (pdu : CoapPdu) :
    coapGetUriPath heap pdu =
      let text := valuesText isUnescapedInPath 47 (optionValues pdu LIBCOAP_COAP_OPTION_URI_PATH)
      ⟨text.length, (coapNewString heap text.length).write 0 text⟩ := by
  unfold coapGetUriPath
  simp only [counted_eq isUnescapedInPath 47, printLoop_eq, printed_path_zero]

/-- **A path returns.**  The text of the path of an accepted message is the text of its values,
and `xy_coap_path_set` of it inserts these values again, but for those of dots, as far as they fit
into the buffer; only the path of one empty value is lost. -/
theorem path_returns {mem : Buf} {len : UInt16} (h : (coapRecv mem len).2 = true) (heap buf : Buf)
    (t : List UInt8) :
    ∃ msg : Message, msg.Ok ∧ mem.read 0 len.toNat = msg.bytes ∧
      let values := msg.values LIBCOAP_COAP_OPTION_URI_PATH
      let path := coapGetUriPath heap (coapRecv mem len).1
      let text := path.s.read 0 path.length
      text = valuesText isUnescapedInPath 47 values ∧ path.s path.length = 0 ∧
        xyCoapPathSet buf (text ++ 0 :: t) text.length =
          .ok (if values = [[]] then [] else
            (fitting BUFSIZE (values.filter (! isDots ·))).map
              (⟨LIBCOAP_COAP_OPTION_URI_PATH, ·⟩)) := by
  obtain ⟨msg, hok, hbytes, hvalues, hlt⟩ := accepted_values h
  refine ⟨msg, hok, hbytes, ?_⟩
  have hself (bs : List UInt8) : bs ++ heap.read bs.length 0 = bs := List.append_nil bs
  simp only [coapGetUriPath_eq, hvalues, read_newString heap (Nat.le_refl _), Nat.sub_self, hself]
  refine ⟨trivial, ?_, ?_⟩
  · rw [Buf.write_outside (.inr (by omega))]
    simp [coapNewString, Buf.write]
  · rw [xyCoapPathSet_eq buf (hlt _ _ _)]
    have hnil := @valuesText_eq_nil isUnescapedInPath 47
      (msg.values LIBCOAP_COAP_OPTION_URI_PATH)
    rw [← List.length_eq_zero_iff] at hnil
    by_cases hone : msg.values LIBCOAP_COAP_OPTION_URI_PATH = [[]]
    · rw [if_pos (hnil.mpr (.inr hone)), if_pos hone]
    · rw [if_neg hone]
      by_cases hempty : msg.values LIBCOAP_COAP_OPTION_URI_PATH = []
      · rw [if_pos (hnil.mpr (.inl hempty)), hempty]
        rfl
      · rw [if_neg (mt hnil.mp (not_or.mpr ⟨hempty, hone⟩)), pathSegments_valuesText hempty]

/-- A `GET` of `a/./%2F`: the values `a`, `.` and `/`. -/
def getPath : List UInt8 := [0x40, 1, 0x12, 0x34, 0xb1, 0x61, 0x01, 0x2e, 0x01, 0x2f]

theorem path_returns_getPath : ∃ msg : Message, msg.Ok ∧
    (Buf.write (fun _ => 0) 0 getPath).read 0 10 = msg.bytes ∧
      (coapGetUriPath (fun _ => 7) (coapRecv (Buf.write (fun _ => 0) 0 getPath) 10).1).s.read 0
        (coapGetUriPath (fun _ => 7) (coapRecv (Buf.write (fun _ => 0) 0 getPath) 10).1).length =
          valuesText isUnescapedInPath 47 (msg.values LIBCOAP_COAP_OPTION_URI_PATH) := by
  obtain ⟨msg, hok, hbytes, htext, -⟩ :=
    @path_returns (Buf.write (fun _ => 0) 0 getPath) 10 (by decide +kernel) (fun _ => 7)
      (fun _ => 7) []
  exact ⟨msg, hok, hbytes, htext⟩

theorem coapGetQuery_eq (heap : Buf) (pdu : CoapPdu) :
    coapGetQuery heap pdu =
      let values := optionValues pdu LIBCOAP_COAP_OPTION_URI_QUERY
      let text := valuesText isUnescapedInQuery 38 values
      let written := valuesText isUnescapedInQuery 38 (values.dropWhile (·.isEmpty))
      if text = [] then none
      else some ⟨text.length, (coapNewString heap text.length).write 0 written⟩ := by
  unfold coapGetQuery
  simp only [counted_eq isUnescapedInQuery 38, printLoop_eq, printed_query_zero]
  split_ifs with hpos hnil hnil
  · rw [hnil] at hpos
    exact absurd hpos (Nat.lt_irrefl 0)
  · rfl
  · rfl
  · exact absurd (List.length_pos_iff.mpr hnil) hpos

/-- **The text of a query.**  The bytes counted for the query of an accepted message are those of
the text of its values; those written are the text without the empty values in front, and the rest
of the string is what the heap held.  So it is the text on every heap exactly if the first of
several values is not empty. -/
theorem query_text {mem : Buf} {len : UInt16} (h : (coapRecv mem len).2 = true) :
    ∃ msg : Message, msg.Ok ∧ mem.read 0 len.toNat = msg.bytes ∧
      let values := msg.values LIBCOAP_COAP_OPTION_URI_QUERY
      let text := valuesText isUnescapedInQuery 38 values
      let written := valuesText isUnescapedInQuery 38 (values.dropWhile (·.isEmpty))
      (∀ heap, coapGetQuery heap (coapRecv mem len).1 = none ↔ text = []) ∧
        (∀ heap query, coapGetQuery heap (coapRecv mem len).1 = some query →
          query.length = text.length ∧ query.s.read 0 query.length =
            written ++ heap.read written.length (text.length - written.length)) ∧
        ((∀ heap query, coapGetQuery heap (coapRecv mem len).1 = some query →
            query.s.read 0 query.length = text) ↔
          (values.head? = some [] → values.length = 1)) := by
  obtain ⟨msg, hok, hbytes, hvalues, -⟩ := accepted_values h
  refine ⟨msg, hok, hbytes, ?_⟩
  simp only [coapGetQuery_eq, hvalues]
  generalize msg.values LIBCOAP_COAP_OPTION_URI_QUERY = values
  have hread (heap : Buf) := read_newString heap
    (@length_dropped_le isUnescapedInQuery 38 values)
  refine ⟨fun heap => ?_, fun heap query hquery => ?_, ?_, ?_⟩
  · split_ifs with hnil <;> simp [hnil]
  · split_ifs at hquery with hnil
    obtain rfl := Option.some.inj hquery
    exact ⟨rfl, hread heap⟩
  · intro hall hhead
    by_contra hone
    obtain ⟨rest, rfl⟩ : ∃ rest, values = [] :: rest := by
      cases values with
      | nil => cases hhead
      | cons v rest => exact ⟨rest, by rw [Option.some.inj hhead]⟩
    have hrest : rest ≠ [] := by
      rintro rfl
      exact hone rfl
    have htext : valuesText isUnescapedInQuery 38 ([] :: rest) ≠ [] := by
      rw [valuesText_nil_cons hrest]
      exact List.cons_ne_nil _ _
    obtain ⟨heap, hheap⟩ := exists_read_newString_ne
      (@length_dropped_lt isUnescapedInQuery 38 rest hrest)
    exact hheap (hall heap _ (if_neg htext))
  · intro hfirst heap query hquery
    split_ifs at hquery with hnil
    obtain rfl := Option.some.inj hquery
    have hdrop := dropWhile_first hfirst hnil
    have hfull := hread heap
    rw [hdrop, Nat.sub_self] at hfull
    rw [hdrop]
    exact hfull.trans (List.append_nil _)

/-- A `GET` with an empty query option in front of `a`. -/
def getQuery : List UInt8 := [0x40, 1, 0x12, 0x34, 0xd0, 0x02, 0x01, 0x61]

theorem query_text_getQuery : ∃ msg : Message, msg.Ok ∧
    (Buf.write (fun _ => 0) 0 getQuery).read 0 8 = msg.bytes ∧
      ∀ heap query,
        coapGetQuery heap (coapRecv (Buf.write (fun _ => 0) 0 getQuery) 8).1 = some query →
          query.length = (valuesText isUnescapedInQuery 38
            (msg.values LIBCOAP_COAP_OPTION_URI_QUERY)).length := by
  obtain ⟨msg, hok, hbytes, -, hquery, -⟩ :=
    @query_text (Buf.write (fun _ => 0) 0 getQuery) 8 (by decide +kernel)
  exact ⟨msg, hok, hbytes, fun heap query hsome => (hquery heap query hsome).1⟩

/-- **A query returns.**  Where the text of the query of an accepted message is whole,
`xy_coap_uri_query_set` of it inserts the values again, each cut at its `&`, as far as they fit
into the buffer. -/
theorem query_returns {mem : Buf} {len : UInt16} (h : (coapRecv mem len).2 = true) :
    ∃ msg : Message, msg.Ok ∧ mem.read 0 len.toNat = msg.bytes ∧
      let values := msg.values LIBCOAP_COAP_OPTION_URI_QUERY
      (values.head? = some [] → values.length = 1) →
        ∀ heap query, coapGetQuery heap (coapRecv mem len).1 = some query → ∀ buf t,
          xyCoapUriQuerySet buf (query.s.read 0 query.length ++ 0 :: t) query.length =
            .ok ((fitting BUFSIZE (values.flatMap (·.splitOn 38))).map
              (⟨LIBCOAP_COAP_OPTION_URI_QUERY, ·⟩)) := by
  obtain ⟨msg, hok, hbytes, hvalues, hlt⟩ := accepted_values h
  refine ⟨msg, hok, hbytes, fun hfirst heap query hquery buf t => ?_⟩
  have hlt := hlt isUnescapedInQuery 38 LIBCOAP_COAP_OPTION_URI_QUERY
  simp only [coapGetQuery_eq, hvalues] at hquery
  revert hfirst hquery hlt
  generalize msg.values LIBCOAP_COAP_OPTION_URI_QUERY = values
  intro hfirst hlt hquery
  split_ifs at hquery with hnil
  obtain rfl := Option.some.inj hquery
  have hne : values ≠ [] := by
    rintro rfl
    exact hnil rfl
  simp only [dropWhile_first hfirst hnil, read_newString heap (Nat.le_refl _), Nat.sub_self]
  rw [show heap.read (valuesText isUnescapedInQuery 38 values).length 0 = [] from rfl,
    List.append_nil, xyCoapUriQuerySet_eq buf hlt, if_neg (mt List.length_eq_zero_iff.mp hnil),
    querySegments_valuesText hne]

/-- A `GET` with the query options `a&b` and `c`. -/
def getPairs : List UInt8 := [0x40, 1, 0x12, 0x34, 0xd3, 0x02, 0x61, 0x26, 0x62, 0x01, 0x63]

theorem query_returns_getPairs : ∃ msg : Message, msg.Ok ∧
    (Buf.write (fun _ => 0) 0 getPairs).read 0 11 = msg.bytes ∧
      let values := msg.values LIBCOAP_COAP_OPTION_URI_QUERY
      (values.head? = some [] → values.length = 1) → ∀ heap query,
        coapGetQuery heap (coapRecv (Buf.write (fun _ => 0) 0 getPairs) 11).1 = some query →
          xyCoapUriQuerySet (fun _ => 0) (query.s.read 0 query.length ++ [0]) query.length =
            .ok ((fitting BUFSIZE (values.flatMap (·.splitOn 38))).map
              (⟨LIBCOAP_COAP_OPTION_URI_QUERY, ·⟩)) := by
  obtain ⟨msg, hok, hbytes, hreturns⟩ :=
    @query_returns (Buf.write (fun _ => 0) 0 getPairs) 11 (by decide +kernel)
  exact ⟨msg, hok, hbytes, fun hfirst heap query hquery =>
    hreturns hfirst heap query hquery (fun _ => 0) []⟩

end XY1100.Coap
