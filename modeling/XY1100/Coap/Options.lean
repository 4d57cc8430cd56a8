import XY1100.Coap.MessageHandler
import XY1100.Coap.Wanted
import XY1100.Support.Calls

/-!
# Coap — the options of a request

Runs of `AT+COAPHEAD`, `AT+COAPOPTION`, sends, `AT+COAPDEL` and responses from the boot on.  A
configuration fills the option list; asking for block-wise transfer (option 27) sets a flag
instead, and each send with the flag set inserts a block option into the list and adds a `Size1`
to a request with a payload.

The options of a configuration are in every request exactly once (`Holds.perm`).  The block option
is what it should be in the first request after the configuration (`requests_carry_options`): the
inserted option stays in the list, and the flag until the blocks of a `GET` end.
-/

namespace XY1100.Coap

/-! ### Runs -/

/-- `xy_config_coap_head`. -/
def xyConfigCoapHead (g : Globals) (msgid : UInt16) (token : List UInt8) : Globals :=
  { g with
    msgid := msgid
    token := token.take 8
    msgidRandomFlag := msgid = 0
    tokenRandomFlag := token.take 8 = [] }

/-- The globals of the client, and what its options should come from. -/
structure Client where
  g : Globals
  /-- The latest configuration. -/
  asked : List (Int × List UInt8) := []
  /-- A configuration has asked for block-wise transfer. -/
  everAsked : Bool := false
  /-- A request with a method other than `DELETE` has been sent since the latest configuration. -/
  sent : Bool := false
  /-- The blocks of a `GET` have ended since the latest configuration. -/
  ended : Bool := false

def boot (txMid : UInt16) : Client := ⟨{ txMid := txMid }, [], false, false, false⟩

inductive Event
  | head (msgid : UInt16) (token : List UInt8)
  | config (options : List (Int × List UInt8))
  | send (type method : List Char) (payload : Option (List UInt8)) (payloadLen : UInt32)
  | delete

/-- A configuration asks for block-wise transfer. -/
def asksBlock (options : List (Int × List UInt8)) : Bool := options.any (·.1 = 27)

/-- What an event does; a send that is successful answers with the request. -/
def exec (cfg : Cfg) : Event → EStateM CoapFault Client (Option Request)
  | .head msgid token, c => .ok none { c with g := xyConfigCoapHead c.g msgid token }
  | .config options, c => .ok none
      { g := atCOAPOPTIONReq cfg c.g options, asked := options,
        everAsked := c.everAsked || asksBlock options, sent := false, ended := false }
  | .send type method payload payloadLen, c =>
    match xyCoapPktSend type method payload payloadLen c.g with
    | .ok none g => .ok none { c with g := g }
    | .ok (some r) g =>
      .ok (some r) { c with g := g, sent := c.sent || r.code ≠ COAP_REQUEST_DELETE }
    | .error e g => .error e { c with g := g }
  | .delete, c => .ok none
      { c with g := { c.g with optlist := [] }, asked := [], sent := false, ended := false }

/-- A call, or a response to the client. -/
inductive Input
  | call (e : Event)
  | response (received : Received)

/-- What an input does, and the request that is sent. -/
def execInput (cfg : Cfg) : Input → EStateM CoapFault Client (Option Request)
  | .call e, c => exec cfg e c
  | .response received, c =>
    match xyCoapMessageHandler received c.g with
    | .ok r g => .ok r { c with g := g, ended := c.ended || endsBlocks c.g received }
    | .error e g => .error e { c with g := g }

/-! ### Configurations -/

theorem foldl_xyConfigCoapOption (cfg : Cfg) (options : List (Int × List UInt8)) (g : Globals) :
    (options.foldl (fun g o => xyConfigCoapOption cfg g o.1 o.2) g).optlist =
        g.optlist ++ wanted cfg options ∧
      (options.foldl (fun g o => xyConfigCoapOption cfg g o.1 o.2) g).flagsBlock =
        (g.flagsBlock || asksBlock options) := by
  induction options generalizing g with
  | nil => exact ⟨(List.append_nil _).symm, (Bool.or_false _).symm⟩
  | cons o options ih =>
    obtain ⟨hlist, hflag⟩ := ih (xyConfigCoapOption cfg g o.1 o.2)
    rw [List.foldl_cons, hlist, hflag]
    have hentries := optionEntries_wanted cfg o.1 o.2
    unfold xyConfigCoapOption wanted asksBlock
    rw [List.flatMap_cons, List.any_cons, ← hentries]
    by_cases hblock : o.1 = 27
    · simp [hblock, xyCoapBlocksize, optionEntries]
    · rcases optionEntries cfg o.1 o.2 with _ | entries
      · simp [hblock]
      · simp [hblock]

theorem atCOAPOPTIONReq_optlist (cfg : Cfg) (g : Globals) (options : List (Int × List UInt8)) :
    (atCOAPOPTIONReq cfg g options).optlist = wanted cfg options :=
  (foldl_xyConfigCoapOption cfg options { g with optlist := [] }).1

/-! ### Sends -/

/-- The length of the copy of a payload, zero without one. -/
def copiedLength (payload : Option (List UInt8)) (payloadLen : UInt32) : UInt32 :=
  match copyPayload payload payloadLen with
  | .ok (some bytes) => UInt32.ofNat bytes.length
  | _ => 0

/-- The block option a send inserts into the list. -/
def insertedBlock (g : Globals) (method : UInt8) (value : List UInt8) : List CoapOpt :=
  if g.flagsBlock ∧ method ≠ COAP_REQUEST_DELETE then
    [⟨if method = COAP_REQUEST_GET then LIBCOAP_COAP_OPTION_BLOCK2
      else LIBCOAP_COAP_OPTION_BLOCK1, value⟩]
  else []

/-- The `Size1` a send adds to a request. -/
def addedSize1 (g : Globals) (length : UInt32) : List CoapOpt :=
  if g.flagsBlock ∧ length ≠ 0 then
    [⟨LIBCOAP_COAP_OPTION_SIZE1, coapEncodeVarSafe length⟩]
  else []

/-- What a successful send does to the list, and to the request. -/
structure Sends (g : Globals) (length : UInt32) (r : Request) (g' : Globals) : Prop where
  flag : g'.flagsBlock = g.flagsBlock
  optlist : ∃ value, g'.optlist.Perm (g.optlist ++ insertedBlock g r.code value)
  options : r.options = g'.optlist ++ addedSize1 g length

theorem startRequest_frame (g : Globals) :
    (startRequest g).flagsBlock = g.flagsBlock ∧ (startRequest g).optlist = g.optlist := by
  unfold startRequest
  dsimp only
  split <;> split <;> exact ⟨rfl, rfl⟩

theorem setPayload_frame (g : Globals) (copied : Option (List UInt8)) :
    (setPayload g copied).flagsBlock = g.flagsBlock ∧
      (setPayload g copied).optlist = g.optlist ∧ (setPayload g copied).method = g.method := by
  unfold setPayload
  split <;> exact ⟨rfl, rfl, rfl⟩

theorem freePayload_frame (g : Globals) :
    (freePayload g).flagsBlock = g.flagsBlock ∧ (freePayload g).optlist = g.optlist := by
  unfold freePayload
  split <;> exact ⟨rfl, rfl⟩

theorem xyCoapBlocksizeSet_spec (g : Globals) (hflag : g.flagsBlock = true) :
    (xyCoapBlocksizeSet g).flagsBlock = g.flagsBlock ∧
      (xyCoapBlocksizeSet g).method = g.method ∧ (xyCoapBlocksizeSet g).payload = g.payload ∧
      ∃ value, (xyCoapBlocksizeSet g).optlist = g.optlist ++ insertedBlock g g.method value := by
  unfold xyCoapBlocksizeSet insertedBlock
  by_cases hmethod : g.method = COAP_REQUEST_DELETE
  · simp [hmethod]
  · have hinserts : g.flagsBlock = true ∧ g.method ≠ COAP_REQUEST_DELETE := ⟨hflag, hmethod⟩
    rw [if_pos hmethod]
    exact ⟨rfl, rfl, rfl, _, congrArg (g.optlist ++ ·) (if_pos hinserts).symm⟩

theorem prepareRequest_spec (g : Globals) (copied : Option (List UInt8)) :
    (prepareRequest g copied).flagsBlock = g.flagsBlock ∧
      (prepareRequest g copied).method = g.method ∧
      (prepareRequest g copied).payload = (setPayload g copied).payload ∧
      ∃ value, (prepareRequest g copied).optlist.Perm
        (g.optlist ++ insertedBlock g g.method value) := by
  obtain ⟨hflag, hlist, hmethod⟩ := setPayload_frame g copied
  unfold prepareRequest
  dsimp only
  by_cases hblock : g.flagsBlock = true
  · obtain ⟨hf, hm, hp, value, ho⟩ :=
      xyCoapBlocksizeSet_spec (setPayload g copied) (hflag.trans hblock)
    rw [if_pos (hflag.trans hblock)]
    refine ⟨hf.trans hflag, hm.trans hmethod, hp, value, (sortOptlist_perm _).trans ?_⟩
    rw [ho, hlist, insertedBlock, insertedBlock, hflag, hmethod]
  · rw [if_neg (by rwa [hflag])]
    refine ⟨hflag, hmethod, rfl, [], (sortOptlist_perm _).trans ?_⟩
    rw [hlist, insertedBlock, if_neg fun h => hblock h.1, List.append_nil]

/-- The options of a request, and its code. -/
theorem xyCoapNewRequest_spec {g : Globals} {optlist : List CoapOpt} {p : CoapString}
    {r : Request} (h : xyCoapNewRequest g optlist p = .ok r) :
    r.code = g.method ∧ r.options = optlist ++ addedSize1 g p.length := by
  unfold xyCoapNewRequest addedSize1 at *
  by_cases h0 : p.length = 0
  · rw [if_pos h0] at h
    cases h
    rw [if_neg fun h => h.2 h0, List.append_nil]
    exact ⟨rfl, rfl⟩
  rw [if_neg h0] at h
  by_cases hblock : g.flagsBlock = true
  · rw [if_neg (not_not.mpr hblock)] at h
    rw [if_pos ⟨hblock, h0⟩]
    rcases hadd : coapAddBlock p g.block.num g.block.szx with e | bytes
    · rw [hadd] at h
      cases h
    · rw [hadd] at h
      cases h
      exact ⟨rfl, rfl⟩
  · rw [if_pos hblock] at h
    rw [if_neg fun h => hblock h.1, List.append_nil]
    rcases hbytes : p.bytes with e | bytes
    · rw [hbytes] at h
      cases h
    · rw [hbytes] at h
      cases h
      exact ⟨rfl, rfl⟩

theorem sendCopied_spec {g g' : Globals} {copied : Option (List UInt8)} {r : Option Request}
    (h : sendCopied g copied = .ok r g') :
    ∃ request, r = some request ∧ Sends g (setPayload g copied).payload.length request g' := by
  obtain ⟨hflag, hmethod, hpayload, value, hlist⟩ := prepareRequest_spec g copied
  unfold sendCopied at h
  dsimp only at h
  split at h
  · cases h
  · rename_i request hrequest
    cases h
    obtain ⟨hcode, hoptions⟩ := xyCoapNewRequest_spec hrequest
    obtain ⟨hf, ho⟩ := freePayload_frame
      { prepareRequest g copied with txMid := (prepareRequest g copied).txMid + 1 }
    refine ⟨request, rfl, hf.trans hflag, ⟨value, ?_⟩, ?_⟩
    · rw [ho, hcode, hmethod]
      exact hlist
    · rw [ho, hoptions, hpayload, addedSize1, addedSize1, hflag]

/-- `xy_coap_pkt_send` leaves list and flag where it sends nothing. -/
theorem xyCoapPktSend_spec {type method : List Char} {payload : Option (List UInt8)}
    {payloadLen : UInt32} {g g' : Globals} {sent : Option Request}
    (h : xyCoapPktSend type method payload payloadLen g = .ok sent g') :
    match sent with
    | none => g'.flagsBlock = g.flagsBlock ∧ g'.optlist = g.optlist
    | some r => Sends g (copiedLength payload payloadLen) r g' := by
  obtain ⟨hflag, hlist⟩ := startRequest_frame g
  unfold xyCoapPktSend at h
  dsimp only at h
  split at h
  · cases h
    exact ⟨hflag, hlist⟩
  split at h
  · cases h
    exact ⟨hflag, hlist⟩
  split at h
  · cases h
  · rename_i copied hcopy
    have hlength : ∀ g : Globals,
        (setPayload g copied).payload.length = copiedLength payload payloadLen := by
      intro g
      unfold copiedLength
      rw [hcopy]
      cases copied <;> rfl
    obtain ⟨r, rfl, hsends⟩ := sendCopied_spec h
    obtain ⟨hf, ⟨value, ho⟩, hoptions⟩ := hsends
    rw [hlength] at hoptions
    refine ⟨hf.trans hflag, ⟨value, ?_⟩, ?_⟩
    · simpa only [insertedBlock, hflag, hlist] using ho
    · simpa only [addedSize1, hflag] using hoptions

/-! ### The law of the options -/

/-- What a run keeps: the list holds the configured options, and block options only where requests
have been sent with the flag set. -/
structure Holds (cfg : Cfg) (c : Client) : Prop where
  perm : (c.g.optlist.filter (!isBlock ·)).Perm (wanted cfg c.asked)
  flag : c.g.flagsBlock = true → c.everAsked = true
  asks : asksBlock c.asked = true → c.ended = false → c.g.flagsBlock = true
  ever : asksBlock c.asked = true → c.everAsked = true
  unsent : c.sent = false → c.g.optlist.filter isBlock = []
  never : c.everAsked = false → c.g.optlist.filter isBlock = []

/-- What a request carries besides its header and data, for a payload whose copy has this
length. -/
structure CarriesConfigured (cfg : Cfg) (c : Client) (length : UInt32) (r : Request) :
    Prop where
  /-- Any request: exactly the options of the latest configuration, the `Size1` of block-wise
  transfer apart. -/
  configured : (r.options.filter fun o =>
      !isBlock o && o.number != LIBCOAP_COAP_OPTION_SIZE1).Perm
    ((wanted cfg c.asked).filter (·.number != LIBCOAP_COAP_OPTION_SIZE1))
  /-- A `Size1` exactly for block-wise transfer of a payload. -/
  size1 : asksBlock c.asked = true ∧ c.ended = false ∨ c.everAsked = false →
    (r.options.filter (!isBlock ·)).Perm (wanted cfg c.asked ++
      if asksBlock c.asked ∧ length ≠ 0 then
        [⟨LIBCOAP_COAP_OPTION_SIZE1, coapEncodeVarSafe length⟩] else [])
  /-- One block option exactly for block-wise transfer with a method other than `DELETE`. -/
  block : asksBlock c.asked = true ∧ c.ended = false ∧ c.sent = false ∨ c.everAsked = false →
    (r.options.filter isBlock).length =
      if asksBlock c.asked ∧ r.code ≠ COAP_REQUEST_DELETE then 1 else 0

/-- A send that is successful sends a request that carries the options of the latest
configuration. -/
def SendsConfigured (cfg : Cfg) (c : Client) : Input → Prop
  | .call (.send type method payload payloadLen) => ∀ r c',
      exec cfg (.send type method payload payloadLen) c = .ok (some r) c' →
        CarriesConfigured cfg c (copiedLength payload payloadLen) r
  | _ => True

theorem insertedBlock_isBlock {g : Globals} {method : UInt8} {value : List UInt8} :
    ∀ o ∈ insertedBlock g method value, isBlock o = true := by
  intro o ho
  unfold insertedBlock at ho
  split at ho
  · rw [List.mem_singleton.mp ho]
    split <;> rfl
  · cases ho

theorem addedSize1_not_isBlock {g : Globals} {length : UInt32} :
    ∀ o ∈ addedSize1 g length, isBlock o = false := by
  intro o ho
  unfold addedSize1 at ho
  split at ho
  · rw [List.mem_singleton.mp ho]
    rfl
  · cases ho

/-- A send changes the block options of the list only. -/
theorem Sends.filter_optlist {g g' : Globals} {length : UInt32} {r : Request}
    (h : Sends g length r g') :
    (g'.optlist.filter (!isBlock ·)).Perm (g.optlist.filter (!isBlock ·)) ∧
      ∃ value, (g'.optlist.filter isBlock).Perm
        (g.optlist.filter isBlock ++ insertedBlock g r.code value) := by
  obtain ⟨value, hperm⟩ := h.optlist
  have hblock : ∀ o ∈ insertedBlock g r.code value, isBlock o = true := insertedBlock_isBlock
  constructor
  · have hnone : (insertedBlock g r.code value).filter (!isBlock ·) = [] :=
      List.filter_eq_nil_iff.mpr fun o ho => by simp [hblock o ho]
    refine (hperm.filter _).trans ?_
    rw [List.filter_append, hnone, List.append_nil]
  · refine ⟨value, (hperm.filter _).trans ?_⟩
    rw [List.filter_append, List.filter_eq_self.mpr hblock]

theorem Sends.filter_options {g g' : Globals} {length : UInt32} {r : Request}
    (h : Sends g length r g') :
    r.options.filter (!isBlock ·) = g'.optlist.filter (!isBlock ·) ++ addedSize1 g length ∧
      r.options.filter isBlock = g'.optlist.filter isBlock := by
  have hsize : ∀ o ∈ addedSize1 g length, isBlock o = false := addedSize1_not_isBlock
  rw [h.options, List.filter_append, List.filter_append]
  constructor
  · have hall : (addedSize1 g length).filter (!isBlock ·) = addedSize1 g length :=
      List.filter_eq_self.mpr fun o ho => by simp [hsize o ho]
    rw [hall]
  · have hnone : (addedSize1 g length).filter isBlock = [] :=
      List.filter_eq_nil_iff.mpr fun o ho => by simp [hsize o ho]
    rw [hnone, List.append_nil]

theorem Holds.carries {cfg : Cfg} {c : Client} {length : UInt32} {r : Request} {g' : Globals}
    (hc : Holds cfg c) (h : Sends c.g length r g') : CarriesConfigured cfg c length r := by
  obtain ⟨hlist, value, hblocks⟩ := h.filter_optlist
  obtain ⟨hothers, hblock⟩ := h.filter_options
  have hperm : (r.options.filter (!isBlock ·)).Perm
      (wanted cfg c.asked ++ addedSize1 c.g length) := by
    rw [hothers]
    exact (hlist.trans hc.perm).append_right _
  -- where the flag is from the latest configuration
  have hasks : asksBlock c.asked = true ∧ c.ended = false ∨ c.everAsked = false →
      c.g.flagsBlock = asksBlock c.asked := by
    rintro (⟨h, hended⟩ | h)
    · rw [hc.asks h hended, h]
    · have hnot : asksBlock c.asked = false :=
        Bool.eq_false_iff.mpr fun h' => by simp [hc.ever h'] at h
      have hflag : c.g.flagsBlock = false :=
        Bool.eq_false_iff.mpr fun h' => by simp [hc.flag h'] at h
      rw [hflag, hnot]
  refine ⟨?_, fun hasked => ?_, fun hfirst => ?_⟩
  · have hfilter := hperm.filter (·.number != LIBCOAP_COAP_OPTION_SIZE1)
    have hsize : (addedSize1 c.g length).filter (·.number != LIBCOAP_COAP_OPTION_SIZE1) = [] := by
      unfold addedSize1
      split <;> rfl
    rw [List.filter_filter, List.filter_append, hsize, List.append_nil] at hfilter
    simpa only [Bool.and_comm] using hfilter
  · rw [addedSize1, hasks hasked] at hperm
    exact hperm
  · have hnone : c.g.optlist.filter isBlock = [] := hfirst.elim (hc.unsent ·.2.2) hc.never
    rw [hblock, hblocks.length_eq, hnone, List.nil_append, insertedBlock,
      hasks (hfirst.imp_left fun h => ⟨h.1, h.2.1⟩)]
    split <;> rfl

/-! ### Runs carry the options -/

theorem holds_boot (cfg : Cfg) (txMid : UInt16) : Holds cfg (boot txMid) where
  perm := .refl _
  flag := fun h => by cases h
  asks := fun h => by cases h
  ever := fun h => by cases h
  unsent := fun _ => rfl
  never := fun _ => rfl

theorem holds_config {cfg : Cfg} {c : Client} (hc : Holds cfg c)
    (options : List (Int × List UInt8)) :
    Holds cfg { g := atCOAPOPTIONReq cfg c.g options, asked := options,
                everAsked := c.everAsked || asksBlock options, sent := false, ended := false } := by
  have hflag : (atCOAPOPTIONReq cfg c.g options).flagsBlock =
      (c.g.flagsBlock || asksBlock options) :=
    (foldl_xyConfigCoapOption cfg options { c.g with optlist := [] }).2
  have hwanted := wanted_not_block cfg options
  have hoptlist := atCOAPOPTIONReq_optlist cfg c.g options
  have hnone : (atCOAPOPTIONReq cfg c.g options).optlist.filter isBlock = [] := by
    rw [hoptlist]
    exact List.filter_eq_nil_iff.mpr fun o ho => by simp [hwanted o ho]
  refine ⟨?_, fun h => ?_, fun h _ => ?_, fun h => ?_, fun _ => hnone, fun _ => hnone⟩
  · rw [hoptlist, List.filter_eq_self.mpr fun o ho => by simp [hwanted o ho]]
  · rw [hflag, Bool.or_eq_true_iff] at h
    exact Bool.or_eq_true_iff.mpr (h.imp_left hc.flag)
  · rw [hflag, h, Bool.or_true]
  · exact Bool.or_eq_true_iff.mpr (.inr h)

/-- What keeps list and flag. -/
theorem Holds.of_frame {cfg : Cfg} {c : Client} {g : Globals} (hc : Holds cfg c)
    (hlist : g.optlist = c.g.optlist) (hflag : g.flagsBlock = c.g.flagsBlock) :
    Holds cfg { c with g := g } where
  perm := hlist ▸ hc.perm
  flag := fun h => hc.flag (hflag ▸ h)
  asks := fun h hended => hflag.trans (hc.asks h hended)
  ever := hc.ever
  unsent := fun h => hlist ▸ hc.unsent h
  never := fun h => hlist ▸ hc.never h

theorem holds_send {cfg : Cfg} {c : Client} {length : UInt32} {r : Request} {g' : Globals}
    (hc : Holds cfg c) (h : Sends c.g length r g') :
    Holds cfg { c with g := g', sent := c.sent || r.code ≠ COAP_REQUEST_DELETE } := by
  obtain ⟨hlist, value, hblocks⟩ := h.filter_optlist
  refine ⟨hlist.trans hc.perm, fun hflag => hc.flag (h.flag ▸ hflag),
    fun hasks hended => h.flag.trans (hc.asks hasks hended), hc.ever, fun hunsent => ?_,
    fun hnever => ?_⟩
  · simp only [Bool.or_eq_false_iff, decide_eq_false_iff_not, not_not] at hunsent
    rw [hc.unsent hunsent.1, List.nil_append, insertedBlock, if_neg fun h => h.2 hunsent.2]
      at hblocks
    exact hblocks.eq_nil
  · have hflag : ¬ c.g.flagsBlock = true := fun h => Bool.eq_false_iff.mp hnever (hc.flag h)
    rw [hc.never hnever, List.nil_append, insertedBlock, if_neg fun h => hflag h.1] at hblocks
    exact hblocks.eq_nil

theorem holds_exec {cfg : Cfg} {c c' : Client} {e : Event} {sent : Option Request}
    (hc : Holds cfg c) (h : exec cfg e c = .ok sent c') : Holds cfg c' := by
  cases e with
  | head msgid token =>
    cases h
    exact ⟨hc.perm, hc.flag, hc.asks, hc.ever, hc.unsent, hc.never⟩
  | config options =>
    cases h
    exact holds_config hc options
  | send type method payload payloadLen =>
    simp only [exec] at h
    split at h
    · rename_i g' hsend
      cases h
      obtain ⟨hflag, hlist⟩ := xyCoapPktSend_spec hsend
      exact hc.of_frame hlist hflag
    · rename_i r g' hsend
      cases h
      exact holds_send hc (xyCoapPktSend_spec hsend)
    · cases h
  | delete =>
    cases h
    exact ⟨.refl _, hc.flag, (fun h => by cases h), (fun h => by cases h), fun _ => rfl,
      fun _ => rfl⟩

/-- Only the response that ends the blocks of a `GET` clears the flag. -/
theorem holds_response {cfg : Cfg} {c : Client} {received : Received} {r : Option Request}
    {g' : Globals} (hc : Holds cfg c) (h : xyCoapMessageHandler received c.g = .ok r g') :
    Holds cfg { c with g := g', ended := c.ended || endsBlocks c.g received } := by
  obtain ⟨hlist, hflag⟩ := xyCoapMessageHandler_frame h
  refine ⟨hlist ▸ hc.perm, fun hset => ?_, fun hasks hended => ?_, hc.ever,
    fun h => hlist ▸ hc.unsent h, fun h => hlist ▸ hc.never h⟩
  · rw [hflag, Bool.and_eq_true] at hset
    exact hc.flag hset.1
  · obtain ⟨hearlier, hnow⟩ := Bool.or_eq_false_iff.mp hended
    rw [hflag, hc.asks hasks hearlier, hnow]
    rfl

theorem holds_execInput {cfg : Cfg} {c c' : Client} {i : Input} {sent : Option Request}
    (hc : Holds cfg c) (h : execInput cfg i c = .ok sent c') : Holds cfg c' := by
  cases i with
  | call e => exact holds_exec hc h
  | response received =>
    simp only [execInput] at h
    split at h
    · rename_i r g' hhandler
      cases h
      exact holds_response hc hhandler
    · cases h

theorem Holds.sendsConfigured {cfg : Cfg} {c : Client} (hc : Holds cfg c) (i : Input) :
    SendsConfigured cfg c i := by
  rcases i with e | received
  swap
  · trivial
  cases e with
  | send type method payload payloadLen =>
    intro r c' h
    simp only [exec] at h
    split at h
    · cases h
    · rename_i g' hsend
      cases h
      exact hc.carries (xyCoapPktSend_spec hsend)
    · cases h
  | head => trivial
  | config => trivial
  | delete => trivial

/-- **The options of requests.**  In every run from the boot on, each request that is sent carries
the options of the latest configuration, and what block-wise transfer adds to its first
requests. -/
theorem requests_carry_options (cfg : Cfg) (txMid : UInt16) (inputs : List Input) :
    Support.Along (execInput cfg) (SendsConfigured cfg) inputs (boot txMid) :=
  Support.Along.of_invariant (Holds cfg)
    (fun _ i hc _ => ⟨hc.sendsConfigured i, fun _ _ h => holds_execInput hc h⟩)
    (holds_boot cfg txMid) (Support.along_true inputs _)

/-- A send sends a request with exactly the options of the latest configuration, all of them, and
one block option exactly if that asked for block-wise transfer. -/
def SendsExactly (cfg : Cfg) (c : Client) : Input → Prop
  | .call e => ∀ r c', exec cfg e c = .ok (some r) c' →
      (r.options.filter (!isBlock ·)).Perm (wanted cfg c.asked) ∧
        (∀ o ∈ c.asked, o.1 ≠ 27 → ∃ q ∈ r.options, (q.number.toNat : Int) = o.1) ∧
        (r.options.filter isBlock).length = if asksBlock c.asked then 1 else 0
  | .response _ => True

/-- The numbers of the options of what an event sends. -/
def sentNumbers (cfg : Cfg) (c : Client) (e : Event) : Option (List UInt16) :=
  match exec cfg e c with
  | .ok (some r) _ => some (r.options.map (·.number))
  | _ => none

theorem exists_of_sentNumbers {cfg : Cfg} {c : Client} {e : Event} {numbers : List UInt16}
    (h : sentNumbers cfg c e = some numbers) :
    ∃ r c', exec cfg e c = .ok (some r) c' ∧ r.options.map (·.number) = numbers := by
  unfold sentNumbers at h
  split at h
  · rename_i r c' hexec
    cases h
    exact ⟨r, c', hexec, rfl⟩
  · cases h

/-- The request with a payload has a `Size1` that was not configured, the `DELETE` has no block
option, and the `Accept` that was configured is dropped. -/
theorem not_requests_carry_exactly : ∃ (cfg : Cfg) (txMid : UInt16),
    ¬ Support.Along (execInput cfg) (SendsExactly cfg)
      [.call (.config [(27, [])]),
        .call (.send ['c', 'o', 'n'] ['p', 'u', 't'] (some [65, 0]) 1)] (boot txMid) ∧
    ¬ Support.Along (execInput cfg) (SendsExactly cfg)
      [.call (.config [(27, [])]),
        .call (.send ['c', 'o', 'n'] ['d', 'e', 'l', 'e', 't', 'e'] none 0)] (boot txMid) ∧
    ¬ Support.Along (execInput cfg) (SendsExactly cfg)
      [.call (.config [(17, [53, 48])]),
        .call (.send ['c', 'o', 'n'] ['g', 'e', 't'] none 0)] (boot txMid) := by
  let cfg : Cfg := ⟨fun _ => [], fun _ => [], 1152⟩
  let c : Client := ⟨atCOAPOPTIONReq cfg (boot 6).g [(27, [])], [(27, [])], true, false, false⟩
  refine ⟨cfg, 6, fun h => ?_, fun h => ?_, fun h => ?_⟩
  · have hsent : sentNumbers cfg c
        (.send ['c', 'o', 'n'] ['p', 'u', 't'] (some [65, 0]) 1) = some [27, 60] := by
      decide +kernel
    obtain ⟨r, c', hexec, hnumbers⟩ := exists_of_sentNumbers hsent
    obtain ⟨hperm, -, -⟩ := (h.2 none _ rfl).1 r c' hexec
    have hmem : (60 : UInt16) ∈ (r.options.filter (!isBlock ·)).map (·.number) := by
      obtain ⟨o, ho, hnumber⟩ := List.mem_map.mp (hnumbers ▸ by decide :
        (60 : UInt16) ∈ r.options.map (·.number))
      refine List.mem_map.mpr ⟨o, List.mem_filter.mpr ⟨ho, ?_⟩, hnumber⟩
      simp [isBlock, hnumber, LIBCOAP_COAP_OPTION_BLOCK1, LIBCOAP_COAP_OPTION_BLOCK2]
    have hnil := (hperm.map (·.number)).mem_iff.mp hmem
    exact absurd hnil (by decide)
  · have hsent : sentNumbers cfg c
        (.send ['c', 'o', 'n'] ['d', 'e', 'l', 'e', 't', 'e'] none 0) = some [] := by
      decide +kernel
    obtain ⟨r, c', hexec, hnumbers⟩ := exists_of_sentNumbers hsent
    obtain ⟨-, -, hlength⟩ := (h.2 none _ rfl).1 r c' hexec
    rw [List.map_eq_nil_iff.mp hnumbers] at hlength
    cases hlength
  · have hsent : sentNumbers cfg
        ⟨atCOAPOPTIONReq cfg (boot 6).g [(17, [53, 48])], [(17, [53, 48])], false, false, false⟩
        (.send ['c', 'o', 'n'] ['g', 'e', 't'] none 0) = some [] := by
      decide +kernel
    obtain ⟨r, c', hexec, hnumbers⟩ := exists_of_sentNumbers hsent
    obtain ⟨-, hcarries, -⟩ := (h.2 none _ rfl).1 r c' hexec
    obtain ⟨q, hq, -⟩ := hcarries _ List.mem_cons_self (by decide)
    rw [List.map_eq_nil_iff.mp hnumbers] at hq
    cases hq

end XY1100.Coap
