import XY1100.Coap.Request

/-!
# Coap — the payload of a request

`AT+COAPSEND` and `xy_coap_pkt_send` without block-wise transfer.  The payload is copied by the
percent-decoder of URI segments: a byte string without `%` is copied as it is, and any other is
shortened, dropped, or read past its end.  A copied payload that finds no room in the PDU is
dropped by libcoap.  Hence what is sent is what was given exactly without `%` and with room for
it (`payload_transparent_iff`).
-/

namespace XY1100.Coap

/-! ### The decoder -/

theorem map_some_eq_ok {f : Nat → Nat} {x : Except CoapFault (Option Nat)} {n : Nat}
    (h : x.map (·.map f) = .ok (some n)) : ∃ k, x = .ok (some k) ∧ n = f k := by
  rcases x with e | _ | k
  · cases h
  · cases h
  · cases h
    exact ⟨k, rfl, rfl⟩

/-- What a successful check says: the segment is readable, and decodes to that many bytes, fewer
than it has where it has a `%`. -/
structure Checked (s : List UInt8) (length : UInt32) (n : Nat) : Prop where
  bound : length.toNat ≤ s.length
  le : n ≤ length.toNat
  decodes : ∃ bs, decodeSegment s length = .ok bs ∧ bs.length = n
  clean : n = length.toNat → percent ∉ s.take length.toNat

theorem toNat_sub_one {a : UInt32} (h : a ≠ 0) : (a - 1).toNat + 1 = a.toNat := by
  have h0 : a.toNat ≠ 0 := fun h' => h (UInt32.toNat_inj.mp h')
  have := a.toNat_lt
  simp only [UInt32.toNat_sub, UInt32.reduceToNat]
  omega

theorem Checked.cons {c : UInt8} {s : List UInt8} {length : UInt32} {k : Nat} (h0 : length ≠ 0)
    (hc : c ≠ percent) (h : Checked s (length - 1) k) : Checked (c :: s) length (k + 1) := by
  have hsub := toNat_sub_one h0
  obtain ⟨hbound, hle, ⟨bs, hdec, hlen⟩, hclean⟩ := h
  refine ⟨by rw [List.length_cons]; omega, by omega,
    ⟨c :: bs, ?_, by rw [List.length_cons, hlen]⟩, ?_⟩
  · unfold decodeSegment
    simp only [if_neg h0, if_neg hc, hdec]
    rfl
  · intro hn
    rw [← hsub, List.take_succ_cons, List.mem_cons, not_or]
    exact ⟨hc.symm, hclean (by omega)⟩

theorem Checked.escape {h l : UInt8} {s : List UInt8} {length : UInt32} {k : Nat}
    (hlength : ¬ length < 2) (hlt : s.length + 3 < 2 ^ 32) (hk : Checked s (length - 2 - 1) k) :
    Checked (percent :: h :: l :: s) length (k + 1) := by
  have h2 : 2 ≤ length.toNat := by
    have : ¬ length.toNat < 2 := hlength
    omega
  have hnat := length.toNat_lt
  have hsub : (length - 2 - 1).toNat = (length.toNat + (2 ^ 32 - 3)) % 2 ^ 32 := by
    simp only [UInt32.toNat_sub, UInt32.reduceToNat]
    omega
  obtain ⟨hbound, hle, ⟨bs, hdec, hlen⟩, -⟩ := hk
  -- a length of two would wrap, and leave more to read than there is
  have h3 : 3 ≤ length.toNat := by omega
  have hcomm : length - 1 - 2 = length - 2 - 1 := by
    apply UInt32.toNat_inj.mp
    simp only [UInt32.toNat_sub, UInt32.reduceToNat]
    omega
  refine ⟨by simp only [List.length_cons]; omega, by omega,
    ⟨((hexcharToDec h <<< 4) + hexcharToDec l) :: bs, ?_, by rw [List.length_cons, hlen]⟩, ?_⟩
  · unfold decodeSegment
    have h0 : length ≠ 0 := by
      rintro rfl
      exact absurd h2 (by decide)
    simp only [if_neg h0, if_true, hcomm, hdec]
    rfl
  · intro hn
    omega

theorem checked_zero {s : List UInt8} : Checked s 0 0 := by
  refine ⟨Nat.zero_le _, Nat.le_refl _, ⟨[], ?_, rfl⟩, fun _ => List.not_mem_nil⟩
  cases s <;> unfold decodeSegment <;> rfl

/-- The `size_t` does not wrap in a check that succeeds: there is not that much to read. -/
theorem checkSegment_checked : ∀ (s : List UInt8) (length : UInt32) (n : Nat), s.length < 2 ^ 32 →
    checkSegment s length = .ok (some n) → Checked s length n
  | [], length, n, _, h => by
    unfold checkSegment at h
    split at h
    · cases h
      subst length
      exact checked_zero
    · cases h
  | c :: s, length, n, hlt, h => by
    unfold checkSegment at h
    by_cases h0 : length = 0
    · rw [if_pos h0] at h
      cases h
      subst length
      exact checked_zero
    rw [if_neg h0] at h
    by_cases hc : c = percent
    · subst hc
      rw [if_pos rfl] at h
      by_cases hlength : length < 2
      · rw [if_pos hlength] at h
        cases h
      rw [if_neg hlength] at h
      rcases s with _ | ⟨x, _ | ⟨y, s⟩⟩
      · cases h
      · by_cases hx : isxdigit x = true <;> simp [hx] at h
      · by_cases hx : isxdigit x = true
        · by_cases hy : isxdigit y = true
          · simp only [hx, hy, not_true, if_false] at h
            obtain ⟨k, hk, rfl⟩ := map_some_eq_ok h
            have hlt' : s.length + 3 < 2 ^ 32 := by simpa using hlt
            exact (checkSegment_checked s _ k (by omega) hk).escape hlength hlt'
          · simp [hx, hy] at h
        · simp [hx] at h
    · rw [if_neg hc] at h
      obtain ⟨k, hk, rfl⟩ := map_some_eq_ok h
      exact (checkSegment_checked s _ k (by simp at hlt; omega) hk).cons h0 hc

/-- A segment without `%` is copied. -/
theorem segment_clean : ∀ (s : List UInt8) (length : UInt32), length.toNat ≤ s.length →
    percent ∉ s.take length.toNat →
    checkSegment s length = .ok (some length.toNat) ∧
      decodeSegment s length = .ok (s.take length.toNat)
  | [], length, hle, _ => by
    have h0 : length = 0 := UInt32.toNat_inj.mp (Nat.le_zero.mp hle)
    subst h0
    exact ⟨rfl, rfl⟩
  | c :: s, length, hle, hclean => by
    by_cases h0 : length = 0
    · subst h0
      unfold checkSegment decodeSegment
      exact ⟨rfl, rfl⟩
    have hsub := toNat_sub_one h0
    rw [← hsub, List.take_succ_cons, List.mem_cons, not_or] at hclean
    obtain ⟨hcheck, hdecode⟩ := segment_clean s (length - 1) (by simp at hle; omega) hclean.2
    unfold checkSegment decodeSegment
    simp only [if_neg h0, if_neg (Ne.symm hclean.1), hcheck, hdecode]
    rw [← hsub, List.take_succ_cons]
    exact ⟨rfl, rfl⟩

/-! ### The copy -/

theorem xyPayloadCopy_clean {text : List UInt8} {len : UInt32} (hle : len.toNat ≤ text.length)
    (hint : len.toNat < 2 ^ 31) (hclean : percent ∉ text.take len.toNat) :
    xyPayloadCopy text len = .ok (some (text.take len.toNat)) := by
  obtain ⟨hcheck, hdecode⟩ := segment_clean text len hle hclean
  have hlt : ¬ 2 ^ 31 ≤ len.toNat := by omega
  simp only [xyPayloadCopy, hcheck, hdecode, bind, Except.bind, if_neg hlt, pure, Except.pure]

theorem xyPayloadCopy_checked {text : List UInt8} {len : UInt32} {bs : List UInt8}
    (hlt : text.length < 2 ^ 32) (h : xyPayloadCopy text len = .ok (some bs)) :
    Checked text len bs.length := by
  simp only [xyPayloadCopy, bind, Except.bind] at h
  rcases hcheck : checkSegment text len with e | _ | n <;> simp only [hcheck] at h
  · cases h
  · cases h
  · have hchecked := checkSegment_checked text len n hlt hcheck
    obtain ⟨bs', hdec, hlen⟩ := hchecked.decodes
    by_cases hn : 2 ^ 31 ≤ n
    · rw [if_pos hn] at h
      cases h
    · rw [if_neg hn, hdec] at h
      cases h
      rwa [hlen]

/-- A copy is no longer than the payload. -/
theorem length_copied {text : List UInt8} {len : UInt32} {copied : Option (List UInt8)}
    (hlt : text.length < 2 ^ 32) (h : xyPayloadCopy text len = .ok copied) :
    (copied.getD []).length ≤ len.toNat := by
  cases copied with
  | none => exact Nat.zero_le _
  | some bs => exact (xyPayloadCopy_checked hlt h).le

/-- A copy of a payload with a `%` is shorter. -/
theorem length_copied_percent {text : List UInt8} {len : UInt32} {copied : Option (List UInt8)}
    (hlt : text.length < 2 ^ 32) (hp : percent ∈ text.take len.toNat)
    (h : xyPayloadCopy text len = .ok copied) : (copied.getD []).length < len.toNat := by
  cases copied with
  | none =>
    have hpos := List.length_pos_of_mem hp
    rw [List.length_take] at hpos
    exact lt_of_lt_of_le hpos (min_le_left _ _)
  | some bs =>
    obtain ⟨-, hle, -, hclean⟩ := xyPayloadCopy_checked hlt h
    exact lt_of_le_of_ne hle fun hn => hclean hn hp

/-! ### The request -/

/-- A payload fits the PDU behind the header and the options of the list. -/
def Room (cfg : Cfg) (g : Globals) (data : List UInt8) : Prop :=
  (headerPdu cfg (startRequest g).token (sortOptlist g.optlist)).HasRoom data

instance (cfg : Cfg) (g : Globals) (data : List UInt8) : Decidable (Room cfg g data) :=
  inferInstanceAs (Decidable (Pdu.HasRoom _ _))

/-- A payload is handed to libcoap as it was copied. -/
theorem xyCoapNewRequest_plain {g : Globals} (options : List CoapOpt) (data : List UInt8)
    (hflags : g.flagsBlock = false) (hlen : data.length < 2 ^ 32) {p : CoapString}
    (hp : p.length = UInt32.ofNat data.length) (hs : data ≠ [] → p.s = some data) :
    xyCoapNewRequest g options p =
      .ok ⟨g.msgtype, g.method, g.txMid + 1, g.token, options, data⟩ := by
  have hnat : p.length.toNat = data.length := by
    rw [hp, UInt32.toNat_ofNat_of_lt' hlen]
  unfold xyCoapNewRequest
  by_cases hdata : data = []
  · subst hdata
    have h0 : p.length = 0 := hp
    rw [if_pos h0]
    rfl
  · have hne : p.length ≠ 0 := by
      intro h0
      rw [h0] at hnat
      exact hdata (List.eq_nil_of_length_eq_zero hnat.symm)
    have hbytes : p.bytes = .ok data := by
      rw [CoapString.bytes, hs hdata]
      simp only [hnat, List.take_length]
    rw [if_neg hne, hflags, if_pos (by decide), hbytes]
    rfl

/-- A request sent without block-wise transfer carries what was copied, where there is room. -/
theorem xyCoapPktSend_plain (cfg : Cfg) {type method : List Char} {payload : Option (List UInt8)}
    {len : UInt32} {copied : Option (List UInt8)} {g : Globals} (hflags : g.flagsBlock = false)
    (hmethod : xyCoapMethodGet method ≠ 8) (htype : xyCoapTypeGet type ≠ 4)
    (hcopy : copyPayload payload len = .ok copied) (hlen : (copied.getD []).length < 2 ^ 32) :
    ∃ r g', xyCoapPktSend type method payload len g = .ok (some r) g' ∧
      (r.pdu cfg).payload =
        if Room cfg g (copied.getD []) then copied.getD [] else [] := by
  have hstart : (startRequest g).flagsBlock = false ∧ (startRequest g).optlist = g.optlist := by
    unfold startRequest
    dsimp only
    split <;> split <;> exact ⟨hflags, rfl⟩
  let g₁ : Globals :=
    { startRequest g with method := xyCoapMethodGet method, msgtype := xyCoapTypeGet type }
  have hprepared : prepareRequest g₁ copied =
      { setPayload g₁ copied with optlist := sortOptlist g.optlist } := by
    have h : (setPayload g₁ copied).flagsBlock = false ∧
        (setPayload g₁ copied).optlist = g.optlist := by
      unfold setPayload
      split <;> exact hstart
    unfold prepareRequest
    simp only [h.1, h.2, Bool.false_eq_true, if_false]
  let r : Request := ⟨xyCoapTypeGet type, xyCoapMethodGet method, (startRequest g).txMid + 1,
    (startRequest g).token, sortOptlist g.optlist, copied.getD []⟩
  have hrequest : xyCoapNewRequest (prepareRequest g₁ copied) (prepareRequest g₁ copied).optlist
      (prepareRequest g₁ copied).payload = .ok r := by
    rw [hprepared]
    cases copied with
    | none =>
      exact xyCoapNewRequest_plain (g := { setPayload g₁ none with optlist := _ }) _ []
        hstart.1 (by decide) (p := (setPayload g₁ none).payload) rfl (absurd rfl)
    | some data =>
      exact xyCoapNewRequest_plain (g := { setPayload g₁ (some data) with optlist := _ }) _ data
        hstart.1 hlen (p := (setPayload g₁ (some data)).payload) rfl fun _ => rfl
  refine ⟨r, freePayload { prepareRequest g₁ copied with
    txMid := (prepareRequest g₁ copied).txMid + 1 }, ?_, r.pdu_payload cfg⟩
  unfold xyCoapPktSend
  dsimp only
  rw [if_neg hmethod, if_neg htype, hcopy]
  dsimp only
  unfold sendCopied
  dsimp only
  rw [hrequest]

/-! ### Transparency -/

/-- `at_COAPSEND_req`, once its parameters are parsed and a client exists. -/
def atCOAPSENDReq (type method : List Char) (dataLen : Int) (data : List UInt8) :
    EStateM CoapFault Globals (Option Request) := fun g =>
  if 6 < method.length ∨ 3 < type.length ∨ 1000 < dataLen ∨ dataLen < 0 ∨
      (data.length : Int) ≠ dataLen * 2 then .ok none g
  else if dataLen = 0 then xyCoapPktSend type method none 0 g
  else match hexstr2bytes data with
    | none => .ok none g
    -- the copy has a zero byte behind
    | some bytes => xyCoapPktSend type method (some (bytes ++ [0])) (UInt32.ofInt dataLen) g

/-- A payload given to be sent: to `xy_coap_pkt_send`, as the bytes that can be read from its
pointer on and its length, or to `AT+COAPSEND`, as a hexadecimal text. -/
inductive Submission
  | api (type method : List Char) (mem : List UInt8) (len : UInt32)
  | command (type method : List Char) (dataLen : Int) (data : List UInt8)

/-- The payload that is given. -/
def Submission.bytes : Submission → List UInt8
  | .api _ _ mem len => mem.take len.toNat
  | .command _ _ _ data => (hexstr2bytes data).getD []

/-- The memory holds the payload, whose length is an `int`. -/
def Submission.Valid : Submission → Prop
  | .api _ _ mem len => len.toNat ≤ mem.length ∧ len.toNat < 2 ^ 31 ∧ mem.length < 2 ^ 32
  | .command .. => True

def Submission.send : Submission → EStateM CoapFault Globals (Option Request)
  | .api type method mem len => xyCoapPktSend type method (some mem) len
  | .command type method dataLen data => atCOAPSENDReq type method dataLen data

/-- What is refused whatever the payload is: an unknown method or type, and for `AT+COAPSEND` a
parameter out of range or a text that is not the hexadecimal text of `dataLen` bytes. -/
def Submission.Refused : Submission → Prop
  | .api type method _ _ => xyCoapMethodGet method = 8 ∨ xyCoapTypeGet type = 4
  | .command type method dataLen data =>
    6 < method.length ∨ 3 < type.length ∨ 1000 < dataLen ∨ dataLen < 0 ∨
      (data.length : Int) ≠ dataLen * 2 ∨ hexstr2bytes data = none ∨
      xyCoapMethodGet method = 8 ∨ xyCoapTypeGet type = 4

/-- A send returns, without reading past the memory it was given, and carries these bytes if it
is successful. -/
def Carries (cfg : Cfg) (bytes : List UInt8) :
    EStateM.Result CoapFault Globals (Option Request) → Prop
  | .ok sent _ => ∀ r, sent = some r → (r.pdu cfg).payload = bytes
  | .error _ _ => False

theorem carries_plain (cfg : Cfg) {type method : List Char} {payload : Option (List UInt8)}
    {len : UInt32} {copied : Option (List UInt8)} {g : Globals} {bytes : List UInt8}
    (hflags : g.flagsBlock = false) (hmethod : xyCoapMethodGet method ≠ 8)
    (htype : xyCoapTypeGet type ≠ 4) (hcopy : copyPayload payload len = .ok copied)
    (hlen : (copied.getD []).length < 2 ^ 32) :
    Carries cfg bytes (xyCoapPktSend type method payload len g) ↔
      (if Room cfg g (copied.getD []) then copied.getD [] else []) = bytes := by
  obtain ⟨r, g', hsend, hpayload⟩ := xyCoapPktSend_plain cfg hflags hmethod htype hcopy hlen
  rw [hsend, ← hpayload]
  constructor
  · intro h
    exact h r rfl
  · rintro h _ ⟨⟩
    exact h

theorem carries_refused (cfg : Cfg) {type method : List Char} (payload : Option (List UInt8))
    (len : UInt32) (g : Globals) (bytes : List UInt8)
    (h : xyCoapMethodGet method = 8 ∨ xyCoapTypeGet type = 4) :
    Carries cfg bytes (xyCoapPktSend type method payload len g) := by
  unfold xyCoapPktSend
  dsimp only
  by_cases hmethod : xyCoapMethodGet method = 8
  · rw [if_pos hmethod]
    rintro _ ⟨⟩
  · rw [if_neg hmethod, if_pos (h.resolve_left hmethod)]
    rintro _ ⟨⟩

theorem room_iff (cfg : Cfg) (g : Globals) (bytes : List UInt8) :
    (if Room cfg g bytes then bytes else []) = bytes ↔ Room cfg g bytes := by
  by_cases hroom : Room cfg g bytes
  · simp [hroom]
  · rw [if_neg hroom]
    exact ⟨fun h => absurd (.inl h.symm) hroom, fun h => absurd h hroom⟩

/-- A copy of a payload with a `%` is not carried, whatever is read behind it. -/
theorem not_carries_percent (cfg : Cfg) {type method : List Char} {mem : List UInt8} {len : UInt32}
    {g : Globals} (hflags : g.flagsBlock = false) (hmethod : xyCoapMethodGet method ≠ 8)
    (htype : xyCoapTypeGet type ≠ 4) (hle : len.toNat ≤ mem.length) (hlt : mem.length < 2 ^ 32)
    (hp : percent ∈ mem.take len.toNat) :
    ¬ Carries cfg (mem.take len.toNat) (xyCoapPktSend type method (some mem) len g) := by
  have hlength : (mem.take len.toNat).length = len.toNat := by
    rw [List.length_take]
    omega
  have hpos : 0 < len.toNat := by
    rw [← hlength]
    exact List.length_pos_of_mem hp
  rcases hcopy : xyPayloadCopy mem len with e | copied
  · unfold xyCoapPktSend
    dsimp only
    rw [if_neg hmethod, if_neg htype, copyPayload, hcopy]
    exact id
  · have hshort := length_copied_percent hlt hp hcopy
    have hcopied : copyPayload (some mem) len = .ok copied := hcopy
    rw [carries_plain cfg hflags hmethod htype hcopied (hshort.trans len.toNat_lt)]
    intro h
    have := congrArg List.length h
    rw [hlength] at this
    split at this
    · omega
    · simp only [List.length_nil] at this
      omega

/-- `xy_coap_pkt_send` carries a payload exactly without `%` and with room for it. -/
theorem carries_iff (cfg : Cfg) {type method : List Char} {mem : List UInt8} {len : UInt32}
    {g : Globals} (hflags : g.flagsBlock = false) (hle : len.toNat ≤ mem.length)
    (hint : len.toNat < 2 ^ 31) (hlt : mem.length < 2 ^ 32) :
    Carries cfg (mem.take len.toNat) (xyCoapPktSend type method (some mem) len g) ↔
      (xyCoapMethodGet method = 8 ∨ xyCoapTypeGet type = 4) ∨
        percent ∉ mem.take len.toNat ∧ Room cfg g (mem.take len.toNat) := by
  by_cases hrefused : xyCoapMethodGet method = 8 ∨ xyCoapTypeGet type = 4
  · exact iff_of_true (carries_refused cfg _ _ _ _ hrefused) (.inl hrefused)
  rw [or_iff_right hrefused]
  obtain ⟨hmethod, htype⟩ := not_or.mp hrefused
  by_cases hp : percent ∈ mem.take len.toNat
  · exact iff_of_false (not_carries_percent cfg hflags hmethod htype hle hlt hp)
      fun h => h.1 hp
  · have hshort : (mem.take len.toNat).length < 2 ^ 32 := by
      rw [List.length_take]
      omega
    have hcopy : copyPayload (some mem) len = .ok (some (mem.take len.toNat)) :=
      xyPayloadCopy_clean hle hint hp
    rw [carries_plain cfg hflags hmethod htype hcopy hshort]
    exact (room_iff cfg g _).trans (and_iff_right hp).symm

/-- **Transparency** of a payload sent without block-wise transfer: what is given is carried,
exactly where it has no `%` and finds room in the PDU. -/
theorem payload_transparent_iff (cfg : Cfg) (g : Globals) (sub : Submission)
    (hflags : g.flagsBlock = false) (hvalid : sub.Valid) :
    Carries cfg sub.bytes (sub.send g) ↔
      sub.Refused ∨ percent ∉ sub.bytes ∧ Room cfg g sub.bytes := by
  cases sub with
  | api type method mem len => exact carries_iff cfg hflags hvalid.1 hvalid.2.1 hvalid.2.2
  | command type method dataLen data =>
    simp only [Submission.bytes, Submission.send, atCOAPSENDReq, Submission.Refused]
    by_cases hparams : 6 < method.length ∨ 3 < type.length ∨ 1000 < dataLen ∨ dataLen < 0 ∨
        (data.length : Int) ≠ dataLen * 2
    · rw [if_pos hparams]
      refine iff_of_true (fun r hr => by cases hr) (.inl ?_)
      tauto
    rw [if_neg hparams]
    obtain ⟨h1, h2, h3, h4, h5⟩ : ¬ 6 < method.length ∧ ¬ 3 < type.length ∧ ¬ 1000 < dataLen ∧
        ¬ dataLen < 0 ∧ (data.length : Int) = dataLen * 2 := by tauto
    rcases hhex : hexstr2bytes data with _ | bytes
    · have hzero : dataLen ≠ 0 := by
        rintro rfl
        have hnil : data = [] := List.eq_nil_of_length_eq_zero (by omega)
        subst hnil
        cases hhex
      rw [if_neg hzero]
      exact iff_of_true (fun r hr => by cases hr) (.inl (by tauto))
    have hlength := length_hexstr2bytes hhex
    have hiff : Carries cfg bytes (if dataLen = 0 then xyCoapPktSend type method none 0 g
          else xyCoapPktSend type method (some (bytes ++ [0])) (UInt32.ofInt dataLen) g) ↔
        (xyCoapMethodGet method = 8 ∨ xyCoapTypeGet type = 4) ∨
          percent ∉ bytes ∧ Room cfg g bytes := by
      by_cases hzero : dataLen = 0
      · -- nothing is copied
        have hnil : bytes = [] := List.eq_nil_of_length_eq_zero (by omega)
        subst hnil
        rw [if_pos hzero]
        by_cases hrefused : xyCoapMethodGet method = 8 ∨ xyCoapTypeGet type = 4
        · exact iff_of_true (carries_refused cfg _ _ _ _ hrefused) (.inl hrefused)
        obtain ⟨hmethod, htype⟩ := not_or.mp hrefused
        have hcopy : copyPayload none 0 = .ok none := rfl
        rw [carries_plain cfg hflags hmethod htype hcopy (by decide)]
        exact iff_of_true (ite_self []) (.inr ⟨List.not_mem_nil, .inl rfl⟩)
      · have hnat : (UInt32.ofInt dataLen).toNat = bytes.length := by
          rw [UInt32.ofInt, UInt32.toNat_ofNat_of_lt' (by change _ < 2 ^ 32; omega)]
          omega
        have htake : (bytes ++ [0]).take (UInt32.ofInt dataLen).toNat = bytes := by
          rw [hnat, List.take_left]
        rw [if_neg hzero]
        nth_rewrite 1 [← htake]
        rw [carries_iff cfg hflags (by rw [List.length_append]; omega) (by omega)
          (by rw [List.length_append, List.length_singleton]; omega), htake]
    -- no parameter is out of range, and the text is hexadecimal
    refine hiff.trans (or_congr_left ?_)
    simp only [h1, h2, h3, h4, h5, ne_eq, not_true, reduceCtorEq, false_or]

theorem payload_transparent_binary :
    Carries ⟨fun _ => [], fun _ => [], 1152⟩ [0, 255, 10]
      (Submission.send (.api ['c', 'o', 'n'] ['p', 'o', 's', 't'] [0, 255, 10, 37] 3)
        { txMid := 6 }) :=
  (payload_transparent_iff ⟨fun _ => [], fun _ => [], 1152⟩ { txMid := 6 }
    (.api _ _ [0, 255, 10, 37] 3) rfl ⟨by decide, by decide, by decide⟩).mpr
    (.inr ⟨by decide, by decide⟩)

/-- The payload `%41` is sent as `A`. -/
theorem not_payload_transparent : ¬ ∀ (cfg : Cfg) (g : Globals) (sub : Submission),
    g.flagsBlock = false → sub.Valid → Carries cfg sub.bytes (sub.send g) := by
  intro h
  let cfg : Cfg := ⟨fun _ => [], fun _ => [], 1152⟩
  let g : Globals := { txMid := 6 }
  let mem : List UInt8 := [37, 52, 49, 0]
  have hdecoded : ¬ Carries cfg (mem.take (3 : UInt32).toNat)
      (xyCoapPktSend ['c', 'o', 'n'] ['p', 'o', 's', 't'] (some mem) 3 g) :=
    not_carries_percent cfg rfl (by decide) (by decide) (by decide) (by decide) (by decide)
  exact hdecoded (h cfg g (.api ['c', 'o', 'n'] ['p', 'o', 's', 't'] mem 3) rfl
    ⟨by decide, by decide, by decide⟩)

end XY1100.Coap
