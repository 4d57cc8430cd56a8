import XY1100.Coap.Iterator
import XY1100.Coap.PercentDecoding

/-!
# Coap — the options of a path and of a query

`coap_split_path` and `coap_split_query` cut a text into segments, decode each and write it as an
option into a buffer of 100 bytes, from which `xy_coap_path_set` and `xy_coap_uri_query_set` put it
into the option list.  A segment whose option does not fit is left out, and a shorter one behind it
can still be written.

* `splitLoop_eq`: the loop hands each segment over, in order, with what is readable behind it.
* `writeOption_step`: a segment that can be decoded and whose option fits is written.
* `uri_options_exact`: what an `AT+COAPOPTION` for a path or a query puts into the list.
-/

namespace XY1100.Coap
open Support (Buf)
open Utils (IsHex)

/-! ### The code -/

/-- `strnchr` over a whole string: what follows the character. -/
def strnchr : List UInt8 → UInt8 → Option (List UInt8)
  | [], _ => none
  | a :: s, c => if a ≠ c then strnchr s c else some s

/-- `dots`. -/
def dots (s : List UInt8) (len : Nat) : Bool :=
  len ≠ 0 ∧ s[0]? = some 46 ∧ (len = 1 ∨ len = 2 ∧ s[1]? = some 46)

/-- `make_decoded_option` at the address `buf`: the memory, and the size of the option. -/
def makeDecodedOption (s : List UInt8) (length : UInt32) (m : Buf) (buf buflen : Nat) :
    Except CoapFault (Buf × Option Nat) := do
  if buflen = 0 then return (m, none)
  match ← checkSegment s length with
  | none => return (m, none)
  | some segmentlen =>
    match coapOptSetheader buflen 0 segmentlen with
    -- the first byte is set before the check that fails
    | none => return (m.write buf [0], none)
    | some header =>
      if buflen - header.length < segmentlen then return (m.write buf header, none)
      let bytes ← decodeSegment s length
      return (m.write buf (header ++ bytes), some (header.length + segmentlen))

/-- A `struct cnt_str`, with the memory that `s` points into. -/
structure CntStr where
  mem : Buf
  s : Nat
  length : Nat
  n : Nat

/-- `write_option`. -/
def writeOption (s : List UInt8) (len : UInt32) (state : CntStr) : Except CoapFault CntStr := do
  match ← makeDecodedOption s len state.mem state.s state.length with
  | (mem, none) => return { state with mem }
  | (mem, some optionsize) =>
    return ⟨mem, state.s + optionsize, state.length - optionsize, state.n + 1⟩

section
variable {σ : Type}

/-- A segment of length `k` from `p` on is handed over, or dropped. -/
def handOver (drops : List UInt8 → Nat → Bool)
    (h : List UInt8 → UInt32 → σ → Except CoapFault σ) (p : List UInt8) (k : Nat) (data : σ) :
    Except CoapFault σ :=
  if drops p k then .ok data else h p (UInt32.ofNat k) data

/-- The loop of `coap_split_path_impl` and of `coap_split_query`: the segment starts at `p` and has
`k` bytes up to `q`. -/
def splitLoop (ends : UInt8 → Bool) (sep : UInt8) (drops : List UInt8 → Nat → Bool)
    (h : List UInt8 → UInt32 → σ → Except CoapFault σ) :
    (length : Nat) → (p : List UInt8) → (k : Nat) → (q : List UInt8) → σ → Except CoapFault σ
  | 0, p, k, _, data => handOver drops h p k data
  | _ + 1, _, _, [], _ => .error .outOfBounds
  | length + 1, p, k, c :: q, data =>
    if ends c then handOver drops h p k data
    else if c = sep then do
      splitLoop ends sep drops h length q 0 q (← handOver drops h p k data)
    else splitLoop ends sep drops h length p (k + 1) q data

/-- `coap_split_path_impl`. -/
def coapSplitPathImpl (s : List UInt8) (length : Nat)
    (h : List UInt8 → UInt32 → σ → Except CoapFault σ) (data : σ) : Except CoapFault σ :=
  splitLoop (fun c => (strnchr [63, 35] c).isSome) 47 dots h length s 0 s data

end

/-- `coap_split_path`: the buffer, the options in it and the bytes they take. -/
def coapSplitPath (s : List UInt8) (length : Nat) (buf : Buf) (buflen : Nat) :
    Except CoapFault (Buf × Nat × Nat) := do
  let tmp ← coapSplitPathImpl s length writeOption ⟨buf, 0, buflen, 0⟩
  return (tmp.mem, tmp.n, buflen - tmp.length)

/-- `coap_split_query`, in the same form. -/
def coapSplitQuery (s : List UInt8) (length : Nat) (buf : Buf) (buflen : Nat) :
    Except CoapFault (Buf × Nat × Nat) := do
  let tmp ← splitLoop (fun c => c = 35) 38 (fun _ _ => false) writeOption length s 0 s
    ⟨buf, 0, buflen, 0⟩
  return (tmp.mem, tmp.n, buflen - tmp.length)

def BUFSIZE : Nat := 100

/-- The loop of `xy_coap_path_set` and of `xy_coap_uri_query_set` over the options of the buffer. -/
def takeOptions (m : Buf) (number : UInt16) : Nat → Nat → List CoapOpt
  | 0, _ => []
  | res + 1, buf =>
    ⟨number, optValue m buf⟩ :: takeOptions m number res (buf + coapOptSize m buf)

/-- `xy_coap_path_set`: the options it inserts.  `buf` is what the stack has where the buffer is. -/
def xyCoapPathSet (buf : Buf) (arg : List UInt8) (length : Nat) :
    Except CoapFault (List CoapOpt) := do
  if length = 0 then return []
  let (buf, res, _) ← coapSplitPath arg length buf BUFSIZE
  return takeOptions buf LIBCOAP_COAP_OPTION_URI_PATH res 0

/-- `xy_coap_uri_query_set`. -/
def xyCoapUriQuerySet (buf : Buf) (arg : List UInt8) (length : Nat) :
    Except CoapFault (List CoapOpt) := do
  if length = 0 then return []
  let (buf, res, _) ← coapSplitQuery arg length buf BUFSIZE
  return takeOptions buf LIBCOAP_COAP_OPTION_URI_QUERY res 0

/-! ### What a text says -/

/-- The segments of a text, up to its end. -/
def segments (ends : UInt8 → Bool) (sep : UInt8) (text : List UInt8) : List (List UInt8) :=
  (text.takeWhile fun c => !ends c).splitOn sep

/-- The values whose options fit into the room, each behind those before it. -/
def fitting : Nat → List (List UInt8) → List (List UInt8)
  | _, [] => []
  | room, v :: vs =>
    if (optionBytes (0, v)).length ≤ room then
      v :: fitting (room - (optionBytes (0, v)).length) vs
    else fitting room vs

/-- `?` and `#` end a path. -/
def endsPath (c : UInt8) : Bool := c = 63 ∨ c = 35

/-- One dot or two. -/
def isDots (seg : List UInt8) : Bool := seg = [46] ∨ seg = [46, 46]

/-- The segments of a path that are decoded. -/
def pathSegments (text : List UInt8) : List (List UInt8) :=
  ((segments endsPath 47 text).filter (! isDots ·)).filterMap percentDecode

/-- The elements of a query, decoded. -/
def querySegments (text : List UInt8) : List (List UInt8) :=
  (segments (· = 35) 38 text).filterMap percentDecode

/-- How a path and a query are split, for the options of a request. -/
def uriCfg (maxPduSize : Nat) : Cfg where
  coapSplitPath text := fitting BUFSIZE (pathSegments text)
  coapSplitQuery text := fitting BUFSIZE (querySegments text)
  maxPduSize := maxPduSize

/-! ### Segments with something behind them -/

/-- Behind a segment of a text there is no digit, so the check is right. -/
theorem checkSegment_behind {c : UInt8} (hc : ¬ IsHex c) (t : List UInt8) :
    ∀ seg : List UInt8, seg.length < 2 ^ 32 →
      checkSegment (seg ++ c :: t) (UInt32.ofNat seg.length) =
        .ok ((percentDecode seg).map List.length)
  | [], _ => by
    rw [List.nil_append, checkSegment.eq_def]
    rfl
  | a :: seg, hlt => by
    have hsub : UInt32.ofNat (a :: seg).length - 1 = UInt32.ofNat seg.length := ofNat_length_sub _ 1
    rw [List.cons_append, checkSegment.eq_def]
    simp only [if_neg (ofNat_length_ne_zero hlt)]
    by_cases ha : a = percent
    · subst ha
      match seg with
      | [] =>
        rw [percentDecode_short (by decide)]
        rfl
      | [h] =>
        rw [percentDecode_short (by simp)]
        simp only [if_true, if_neg (not_ofNat_length_lt_two hlt), List.cons_append,
          List.nil_append, mt (isxdigit_iff c).1 hc]
        cases isxdigit h <;> rfl
      | h :: l :: seg =>
        have hthree : UInt32.ofNat (percent :: h :: l :: seg).length - 2 - 1 =
            UInt32.ofNat seg.length := by
          rw [show UInt32.ofNat (percent :: h :: l :: seg).length - 2 =
            UInt32.ofNat (l :: seg).length from ofNat_length_sub _ 2]
          exact ofNat_length_sub _ 1
        rw [percentDecode_escape]
        simp only [if_true, if_neg (not_ofNat_length_lt_two hlt), List.cons_append]
        by_cases hh : IsHex h
        · obtain ⟨hi, hhi⟩ := exists_hexValue hh
          by_cases hl : IsHex l
          · obtain ⟨lo, hlo⟩ := exists_hexValue hl
            rw [if_neg (not_not.mpr ((isxdigit_iff h).2 hh)),
              if_neg (not_not.mpr ((isxdigit_iff l).2 hl)), hthree,
              checkSegment_behind hc t seg (by simp only [List.length_cons] at hlt; omega), hhi, hlo]
            cases percentDecode seg <;> rfl
          · rw [if_neg (not_not.mpr ((isxdigit_iff h).2 hh)),
              if_pos (mt (isxdigit_iff l).1 hl), (hexValue_eq_none_iff l).2 hl, hhi]
            rfl
        · rw [if_pos (mt (isxdigit_iff h).1 hh), (hexValue_eq_none_iff h).2 hh]
          rfl
    · rw [percentDecode_plain ha]
      simp only [if_neg ha, hsub]
      rw [checkSegment_behind hc t seg (Nat.lt_of_succ_lt hlt)]
      cases percentDecode seg <;> rfl

/-- A segment to decode is decoded, whatever is behind it. -/
theorem decodeSegment_behind (t : List UInt8) : ∀ seg bytes : List UInt8,
    percentDecode seg = some bytes → seg.length < 2 ^ 32 →
      decodeSegment (seg ++ t) (UInt32.ofNat seg.length) = .ok bytes := by
  refine percentDecode_induction (fun _ => ?_) ?_ ?_
  · cases t <;> rw [List.nil_append, decodeSegment.eq_def] <;> rfl
  · intro c seg bytes hc ih hlt
    have hsub : UInt32.ofNat (c :: seg).length - 1 = UInt32.ofNat seg.length := ofNat_length_sub _ 1
    rw [List.cons_append, decodeSegment.eq_def]
    simp only [if_neg (ofNat_length_ne_zero hlt), if_neg hc, hsub, ih (Nat.lt_of_succ_lt hlt)]
    rfl
  · intro h l hi lo seg bytes hhi hlo ih hlt
    have hthree : UInt32.ofNat (percent :: h :: l :: seg).length - 1 - 2 =
        UInt32.ofNat seg.length := by
      rw [show UInt32.ofNat (percent :: h :: l :: seg).length - 1 =
        UInt32.ofNat (h :: l :: seg).length from ofNat_length_sub _ 1]
      exact ofNat_length_sub _ 2
    rw [List.cons_append, decodeSegment.eq_def]
    simp only [if_neg (ofNat_length_ne_zero hlt), if_true, List.cons_append, hthree,
      ih (by simp only [List.length_cons] at hlt; omega), hexcharToDec_pair hhi hlo]
    rfl

/-! ### The segments of a text -/

theorem segments_nil (ends : UInt8 → Bool) (sep : UInt8) : segments ends sep [] = [[]] := rfl

theorem segments_end {ends : UInt8 → Bool} {c : UInt8} (h : ends c = true) (sep : UInt8)
    (text : List UInt8) : segments ends sep (c :: text) = [[]] := by
  rw [segments, List.takeWhile_cons_of_neg (by simp [h])]
  rfl

theorem segments_sep {ends : UInt8 → Bool} {sep : UInt8} (h : ends sep = false)
    (text : List UInt8) :
    segments ends sep (sep :: text) = [] :: segments ends sep text := by
  rw [segments, List.takeWhile_cons_of_pos (by simp [h]), List.splitOn_cons_eq_if_modifyHead,
    if_pos (by simp)]
  rfl

theorem segments_plain {ends : UInt8 → Bool} {sep c : UInt8} (h : ends c = false) (hsep : c ≠ sep)
    (text : List UInt8) :
    segments ends sep (c :: text) = (segments ends sep text).modifyHead (c :: ·) := by
  rw [segments, List.takeWhile_cons_of_pos (by simp [h]), List.splitOn_cons_eq_if_modifyHead,
    if_neg (by simpa using hsep)]
  rfl

section
variable {σ : Type} {ends : UInt8 → Bool} {sep : UInt8} {drops : List UInt8 → Nat → Bool}
  {dropped : List UInt8 → Bool} {h : List UInt8 → UInt32 → σ → Except CoapFault σ}
  {Inv : List (List UInt8) → σ → Prop}

/-- A segment that ends at a byte is handed over, or dropped. -/
theorem handOver_keeps (hdrops : ∀ seg t, drops (seg ++ t) seg.length = dropped seg)
    (hh : ∀ {done data seg c t}, Inv done data → ¬ IsHex c → seg.length < 2 ^ 32 →
      ∃ data', h (seg ++ c :: t) (UInt32.ofNat seg.length) data = .ok data' ∧
        Inv (done ++ [seg]) data')
    {cur : List UInt8} {done : List (List UInt8)} {data : σ} {c : UInt8} (s : List UInt8)
    (hc : ¬ IsHex c) (hlt : cur.length < 2 ^ 32) (hinv : Inv done data) :
    ∃ data', handOver drops h (cur ++ c :: s) cur.length data = .ok data' ∧
      Inv (done ++ [cur].filter (! dropped ·)) data' := by
  rw [handOver, hdrops]
  by_cases hdot : dropped cur = true
  · exact ⟨data, if_pos hdot, by simpa [hdot] using hinv⟩
  · obtain ⟨data', hrun, hinv'⟩ := hh (t := s) hinv hc hlt
    exact ⟨data', by rw [if_neg hdot, hrun], by simpa [hdot] using hinv'⟩

/-- The loop hands over, in order, the segments that are not dropped. -/
theorem splitLoop_keeps (hends : ∀ c, ends c = true → ¬ IsHex c) (hsep : ¬ IsHex sep)
    (hdrops : ∀ seg t, drops (seg ++ t) seg.length = dropped seg)
    (hh : ∀ {done data seg c t}, Inv done data → ¬ IsHex c → seg.length < 2 ^ 32 →
      ∃ data', h (seg ++ c :: t) (UInt32.ofNat seg.length) data = .ok data' ∧
        Inv (done ++ [seg]) data')
    {b : UInt8} (hb : ¬ IsHex b) (t : List UInt8) (text : List UInt8) :
    ∀ {cur : List UInt8} {done : List (List UInt8)} {data : σ},
      cur.length + text.length < 2 ^ 32 → Inv done data →
      ∃ data', splitLoop ends sep drops h text.length (cur ++ (text ++ b :: t)) cur.length
          (text ++ b :: t) data = .ok data' ∧
        Inv (done ++ ((segments ends sep text).modifyHead (cur ++ ·)).filter (! dropped ·)) data' := by
  have hover := @handOver_keeps σ drops dropped h Inv hdrops hh
  induction text with
  | nil =>
    intro cur done data hlt hinv
    rw [segments_nil]
    simpa [splitLoop] using hover t hb (by simpa using hlt) hinv
  | cons c text ih =>
    intro cur done data hlt hinv
    have hcur : cur.length < 2 ^ 32 := by omega
    simp only [List.length_cons] at hlt
    rw [List.cons_append, List.length_cons, splitLoop]
    by_cases hend : ends c = true
    · rw [if_pos hend, segments_end hend]
      simpa using hover _ (hends c hend) hcur hinv
    · rw [if_neg hend]
      by_cases hc : c = sep
      · subst hc
        obtain ⟨data', hrun, hinv'⟩ := hover (text ++ b :: t) hsep hcur hinv
        obtain ⟨data'', hrun', hinv''⟩ :=
          @ih [] _ data' (by simp only [List.length_nil]; omega) hinv'
        refine ⟨data'', ?_, ?_⟩
        · rw [if_pos rfl, hrun]
          exact hrun'
        · have hself : (segments ends c text).modifyHead ([] ++ ·) = segments ends c text := by
            cases segments ends c text <;> rfl
          rw [hself, List.append_assoc] at hinv''
          rwa [segments_sep (by simpa using hend), List.modifyHead_cons, List.append_nil,
            ← List.singleton_append, List.filter_append]
      · obtain ⟨data', hrun, hinv'⟩ := @ih (cur ++ [c]) done data
          (by simp only [List.length_append, List.length_singleton]; omega) hinv
        refine ⟨data', ?_, ?_⟩
        · rw [if_neg hc]
          simpa using hrun
        · rw [segments_plain (by simpa using hend) hc, List.modifyHead_modifyHead]
          simpa [Function.comp_def] using hinv'

end

theorem dots_append (seg t : List UInt8) : dots (seg ++ t) seg.length = isDots seg := by
  match seg with
  | [] => simp [dots, isDots]
  | [a] => simp [dots, isDots]
  | [a, b] => simp [dots, isDots]
  | a :: b :: c :: seg => simp [dots, isDots]

theorem strnchr_isSome (c : UInt8) : (strnchr [63, 35] c).isSome = endsPath c := by
  unfold strnchr strnchr strnchr endsPath
  split_ifs <;> simp_all [eq_comm]

/-! ### One option -/

theorem fitting_concat (room : Nat) (vs : List (List UInt8)) (v : List UInt8) :
    fitting room (vs ++ [v]) = fitting room vs ++
      if (optionBytes (0, v)).length ≤
          room - ((fitting room vs).flatMap fun v => optionBytes (0, v)).length then [v] else [] := by
  induction vs generalizing room with
  | nil => simp [fitting]
  | cons w vs ih =>
    rw [List.cons_append, fitting, fitting]
    split_ifs with hroom hv hv <;> rw [ih] <;> simp_all [Nat.sub_sub]

/-- The buffer holds the options of the values, and nothing outside it has changed. -/
structure Written (buf : Buf) (vs : List (List UInt8)) (st : CntStr) : Prop where
  bytes : st.mem.read 0 st.s = vs.flatMap fun v => optionBytes (0, v)
  room : st.s + st.length = BUFSIZE
  count : st.n = vs.length
  outside : ∀ i, BUFSIZE ≤ i → st.mem i = buf i

/-- What is written at the end of the options leaves them as they are. -/
theorem Written.write {buf : Buf} {vs : List (List UInt8)} {st : CntStr} (h : Written buf vs st)
    {bs : List UInt8} (hfits : bs.length ≤ st.length) :
    Written buf vs { st with mem := st.mem.write st.s bs } where
  bytes := by
    rw [← h.bytes]
    exact Buf.read_congr fun i (hi : i < st.s) => Buf.write_outside (.inl (by omega))
  room := h.room
  count := h.count
  outside i hi := by
    have hroom := h.room
    rw [← h.outside i hi]
    exact Buf.write_outside (.inr (by omega))

/-- So does an option, which is one of them then. -/
theorem Written.append {buf : Buf} {vs : List (List UInt8)} {st : CntStr} (h : Written buf vs st)
    {v : List UInt8} (hfits : (optionBytes (0, v)).length ≤ st.length) :
    Written buf (vs ++ [v]) ⟨st.mem.write st.s (optionBytes (0, v)),
      st.s + (optionBytes (0, v)).length, st.length - (optionBytes (0, v)).length, st.n + 1⟩ where
  bytes := by
    have hread := (h.write hfits).bytes
    simp only at hread ⊢
    rw [Buf.read_add, hread, Nat.zero_add, Buf.read_write]
    simp
  room := by
    have hroom := h.room
    simp only
    omega
  count := by simp [h.count]
  outside := (h.write hfits).outside

section
variable {buf : Buf} {done : List (List UInt8)} {seg t : List UInt8} {st : CntStr} {c : UInt8}

/-- A segment is written if it can be decoded and its option fits into what is left. -/
theorem writeOption_step
    (h : Written buf (fitting BUFSIZE (done.filterMap percentDecode)) st) (hc : ¬ IsHex c)
    (hlt : seg.length < 2 ^ 32) :
    ∃ st', writeOption (seg ++ c :: t) (UInt32.ofNat seg.length) st = .ok st' ∧
      Written buf (fitting BUFSIZE ((done ++ [seg]).filterMap percentDecode)) st' := by
  have hroom := h.room
  have hused : ((fitting BUFSIZE (done.filterMap percentDecode)).flatMap
      fun v => optionBytes (0, v)).length = st.s := by
    rw [← h.bytes, Buf.length_read]
  rw [List.filterMap_append, writeOption, makeDecodedOption, checkSegment_behind hc t seg hlt]
  cases hdec : percentDecode seg with
  | none =>
    refine ⟨st, ?_, by simpa [hdec] using h⟩
    split_ifs <;> rfl
  | some v =>
    have hsize : (optionBytes (0, v)).length = (optionHeader 0 v.length).length + v.length :=
      List.length_append
    have hdone : fitting BUFSIZE (done.filterMap percentDecode ++ [seg].filterMap percentDecode) =
        fitting BUFSIZE (done.filterMap percentDecode) ++
          if (optionBytes (0, v)).length ≤ st.length then [v] else [] := by
      rw [List.filterMap_cons_some hdec, List.filterMap_nil, fitting_concat, hused]
      rw [show BUFSIZE - st.s = st.length by omega]
    have hheader : coapOptSetheader st.length 0 v.length =
        if (optionHeader 0 v.length).length ≤ st.length then some (optionHeader 0 v.length)
        else none := coapOptSetheader_eq st.length 0 v.length
    have hpos : 0 < (optionHeader 0 v.length).length := by simp [optionHeader]
    rw [hdone]
    by_cases hzero : st.length = 0
    · rw [if_pos hzero, if_neg (by omega), List.append_nil]
      exact ⟨st, rfl, h⟩
    · rw [if_neg hzero]
      by_cases hhead : (optionHeader 0 v.length).length ≤ st.length
      · by_cases hfits : (optionBytes (0, v)).length ≤ st.length
        · refine ⟨⟨st.mem.write st.s (optionHeader 0 v.length ++ v),
            st.s + ((optionHeader 0 v.length).length + v.length),
            st.length - ((optionHeader 0 v.length).length + v.length), st.n + 1⟩, ?_, ?_⟩
          · simp only [bind, Except.bind, Option.map_some, hheader, if_pos hhead, pure, Except.pure]
            rw [if_neg (by omega), decodeSegment_behind (c :: t) seg v hdec hlt]
          · rw [if_pos hfits, ← List.length_append]
            exact h.append hfits
        · refine ⟨{ st with mem := st.mem.write st.s (optionHeader 0 v.length) }, ?_, ?_⟩
          · simp only [bind, Except.bind, Option.map_some, hheader, if_pos hhead, pure, Except.pure]
            rw [if_pos (by omega)]
          · rw [if_neg hfits, List.append_nil]
            exact h.write hhead
      · refine ⟨{ st with mem := st.mem.write st.s [0] }, ?_, ?_⟩
        · simp only [bind, Except.bind, Option.map_some, hheader, if_neg hhead, pure, Except.pure]
        · rw [if_neg (by omega), List.append_nil]
          exact h.write (by simp only [List.length_singleton]; omega)

end

/-! ### The options that are inserted -/

/-- The loop over the buffer takes the values that were written. -/
theorem takeOptions_ahead {m : Buf} {oi : CoapOptIterator} (number : UInt16)
    {vs : List (List UInt8)} (h : Ahead m oi (vs.map fun v => (0, v)) none)
    (hlen : oi.length ≤ BUFSIZE) :
    takeOptions m number vs.length oi.nextOption = vs.map (⟨number, ·⟩) := by
  induction vs generalizing oi with
  | nil => rfl
  | cons v vs ih =>
    have hsize : coapOptSize m oi.nextOption = (optionBytes (0, v)).length := by
      have hb := h.bytes
      rw [List.map_cons, List.flatMap_cons, List.append_assoc] at hb
      have hall := congrArg List.length hb
      rw [Buf.length_read, List.length_append] at hall
      have hmax : (0xffffffff : Nat) = oi.length + (0xffffffff - oi.length) := by
        rw [BUFSIZE] at hlen
        omega
      rw [coapOptSize, coapOptParse_eq, hmax, Buf.read_add, hb, List.append_assoc,
        delimited_option.read_append (h.ok (0, v) List.mem_cons_self)]
      simp only [Option.map_some, List.length_append, Buf.length_read] at hall ⊢
      omega
    rw [List.length_cons, takeOptions, hsize, h.optValue_eq (Nat.lt_of_le_of_lt hlen (by decide))]
    rw [List.map_cons, ← ih h.after (by simp only [CoapOptIterator.after]; omega)]
    rfl

theorem fitting_length_le {room : Nat} {vs : List (List UInt8)} {v : List UInt8}
    (hv : v ∈ fitting room vs) : v.length ≤ room := by
  induction vs generalizing room with
  | nil => cases hv
  | cons w vs ih =>
    have hsize : (optionBytes (0, w)).length = (optionHeader 0 w.length).length + w.length :=
      List.length_append
    rw [fitting] at hv
    split_ifs at hv with hroom
    · rcases List.mem_cons.mp hv with rfl | hv
      · omega
      · exact (ih hv).trans (Nat.sub_le _ _)
    · exact ih hv

/-- The options of a full buffer are taken out of it. -/
theorem Written.takeOptions {buf : Buf} {vs : List (List UInt8)} {st : CntStr}
    (h : Written buf (fitting BUFSIZE vs) st) (number : UInt16) :
    takeOptions st.mem number st.n 0 = (fitting BUFSIZE vs).map (⟨number, ·⟩) := by
  have hroom := h.room
  have hahead : Ahead st.mem { nextOption := 0, length := st.s }
      ((fitting BUFSIZE vs).map fun v => (0, v)) none := by
    refine ⟨fun o ho => ?_, ?_, rfl⟩
    · obtain ⟨v, hv, rfl⟩ := List.mem_map.mp ho
      have hle := fitting_length_le hv
      rw [BUFSIZE] at hle
      exact ⟨Nat.zero_lt_succ _, Nat.lt_of_le_of_lt hle (by decide)⟩
    · rw [h.bytes, List.flatMap_map]
      exact (List.append_nil _).symm
  rw [h.count]
  exact takeOptions_ahead number hahead (by simp only; omega)

/-- The buffer before the first option. -/
theorem written_nil (buf : Buf) : Written buf [] ⟨buf, 0, BUFSIZE, 0⟩ :=
  ⟨rfl, rfl, rfl, fun _ _ => rfl⟩

/-- The loop over a string fills the buffer with the options that fit. -/
theorem splitLoop_written {ends : UInt8 → Bool} {sep : UInt8} {drops : List UInt8 → Nat → Bool}
    {dropped : List UInt8 → Bool} (hends : ∀ c, ends c = true → ¬ IsHex c) (hsep : ¬ IsHex sep)
    (hdrops : ∀ seg t, drops (seg ++ t) seg.length = dropped seg) (buf : Buf) {text : List UInt8}
    (hlt : text.length < 2 ^ 32) (t : List UInt8) :
    ∃ st, splitLoop ends sep drops writeOption text.length (text ++ 0 :: t) 0 (text ++ 0 :: t)
        ⟨buf, 0, BUFSIZE, 0⟩ = .ok st ∧
      Written buf (fitting BUFSIZE
        (((segments ends sep text).filter (! dropped ·)).filterMap percentDecode)) st := by
  obtain ⟨st, hrun, hwritten⟩ := @splitLoop_keeps _ ends sep drops dropped writeOption
    (fun done st => Written buf (fitting BUFSIZE (done.filterMap percentDecode)) st) hends hsep
    hdrops (fun h hc hlt => writeOption_step h hc hlt) 0 (by decide) t text [] []
    ⟨buf, 0, BUFSIZE, 0⟩ (by simpa using hlt) (written_nil buf)
  refine ⟨st, hrun, ?_⟩
  have hself : (segments ends sep text).modifyHead ([] ++ ·) = segments ends sep text := by
    cases segments ends sep text <;> rfl
  rwa [hself, List.nil_append] at hwritten

theorem xyCoapPathSet_eq (buf : Buf) {text : List UInt8} (hlt : text.length < 2 ^ 32)
    (t : List UInt8) :
    xyCoapPathSet buf (text ++ 0 :: t) text.length =
      .ok (if text.length = 0 then [] else
        (fitting BUFSIZE (pathSegments text)).map (⟨LIBCOAP_COAP_OPTION_URI_PATH, ·⟩)) := by
  have hends : (fun c => (strnchr [63, 35] c).isSome) = endsPath := funext strnchr_isSome
  obtain ⟨st, hrun, hwritten⟩ := @splitLoop_written endsPath 47 dots isDots
    (fun c hc => by rcases of_decide_eq_true hc with rfl | rfl <;> decide) (by decide) dots_append
    buf text hlt t
  rw [xyCoapPathSet, coapSplitPath, coapSplitPathImpl, hends, hrun]
  split_ifs
  · rfl
  · exact congrArg Except.ok (hwritten.takeOptions _)

theorem xyCoapUriQuerySet_eq (buf : Buf) {text : List UInt8} (hlt : text.length < 2 ^ 32)
    (t : List UInt8) :
    xyCoapUriQuerySet buf (text ++ 0 :: t) text.length =
      .ok (if text.length = 0 then [] else
        (fitting BUFSIZE (querySegments text)).map (⟨LIBCOAP_COAP_OPTION_URI_QUERY, ·⟩)) := by
  obtain ⟨st, hrun, hwritten⟩ := @splitLoop_written (fun c => c = 35) 38 (fun _ _ => false)
    (fun _ => false) (fun c hc => by rw [of_decide_eq_true hc]; decide) (by decide)
    (fun _ _ => rfl) buf text hlt t
  rw [xyCoapUriQuerySet, coapSplitQuery, hrun]
  split_ifs
  · rfl
  · exact congrArg Except.ok (by simpa [querySegments] using hwritten.takeOptions _)

/-- **The options of a path and of a query.**  Whatever the stack holds, and whatever is behind the
string, `xy_config_coap_option` puts into the list the segments of the string up to `?` or `#`,
without those of dots, and the elements up to `#`: those that can be decoded and whose options
fit into the buffer. -/
theorem uri_options_exact (buf : Buf) (text t : List UInt8) (maxPduSize : Nat) :
    (if 255 < text.length then .ok none
      else (xyCoapPathSet buf (text ++ 0 :: t) text.length).map some) =
        (.ok (optionEntries (uriCfg maxPduSize) 11 text) : Except CoapFault _) ∧
    (if 255 < text.length then .ok none
      else (xyCoapUriQuerySet buf (text ++ 0 :: t) text.length).map some) =
        (.ok (optionEntries (uriCfg maxPduSize) 15 text) : Except CoapFault _) := by
  constructor
  · rw [optionEntries]
    split_ifs with hlong hzero
    · rfl
    · rw [xyCoapPathSet_eq buf (by omega), if_pos hzero]
      rfl
    · rw [xyCoapPathSet_eq buf (by omega), if_neg hzero]
      rfl
  · rw [optionEntries]
    split_ifs with hlong hzero
    · rfl
    · rw [xyCoapUriQuerySet_eq buf (by omega), if_pos hzero]
      rfl
    · rw [xyCoapUriQuerySet_eq buf (by omega), if_neg hzero]
      rfl

end XY1100.Coap
