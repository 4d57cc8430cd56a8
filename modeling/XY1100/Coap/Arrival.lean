import XY1100.Coap.Exchange
import XY1100.Coap.Options

/-!
# Coap — the requests of a run arrive

`xy_coap_pkt_send` numbers a request, gives it a token, and hands libcoap the option list in order.
Each request of a run from the boot on is accepted by the peer, which finds in it what was put in
(`requests_arrive`).
-/

namespace XY1100.Coap
open Support (Buf)

/-! ### What is sent -/

theorem prepareRequest_msgtype (g : Globals) (copied : Option (List UInt8)) :
    (prepareRequest g copied).msgtype = g.msgtype := by
  have hset : (setPayload g copied).msgtype = g.msgtype := by
    cases copied <;> rfl
  unfold prepareRequest xyCoapBlocksizeSet
  dsimp only
  split_ifs <;> exact hset

theorem xyCoapNewRequest_msgtype {g : Globals} {optlist : List CoapOpt} {p : CoapString}
    {r : Request} (h : xyCoapNewRequest g optlist p = .ok r) : r.msgtype = g.msgtype := by
  unfold xyCoapNewRequest at h
  split_ifs at h
  · cases h
    rfl
  · rcases hadd : coapAddBlock p g.block.num g.block.szx with e | bytes <;> rw [hadd] at h <;>
      cases h
    rfl
  · rcases hbytes : p.bytes with e | bytes <;> rw [hbytes] at h <;> cases h
    rfl

/-- The type of a request is one of the four. -/
theorem xyCoapTypeGet_lt {arg : List Char} (h : xyCoapTypeGet arg ≠ 4) : xyCoapTypeGet arg < 4 := by
  unfold xyCoapTypeGet at h ⊢
  dsimp only at h ⊢
  generalize htypes : [['c', 'o', 'n'], ['n', 'o', 'n'], ['a', 'c', 'k'], ['r', 's', 't']] = types
    at h ⊢
  have hle := @List.findIdx_le_length _ (strcasecmp arg ·) types
  have hfour : types.length = 4 := by rw [← htypes]; rfl
  rw [hfour] at hle
  generalize types.findIdx (strcasecmp arg ·) = k at h hle ⊢
  have hne : k ≠ 4 := fun hk => h (by rw [hk]; rfl)
  rw [UInt8.lt_iff_toNat_lt, UInt8.toNat_ofNat', show (4 : UInt8).toNat = 4 from rfl]
  omega

/-- The method of a request has a code. -/
theorem xyCoapMethodGet_ne_zero (arg : List Char) : xyCoapMethodGet arg ≠ 0 := by
  unfold xyCoapMethodGet
  dsimp only
  generalize hmethods : ([['g', 'e', 't'], ['p', 'o', 's', 't'], ['p', 'u', 't'],
    ['d', 'e', 'l', 'e', 't', 'e'], ['f', 'e', 't', 'c', 'h'], ['p', 'a', 't', 'c', 'h'],
    ['i', 'p', 'a', 't', 'c', 'h']] : List (List Char)) = methods
  have hle := @List.findIdx_le_length _ (strcasecmp arg ·) methods
  have hseven : methods.length = 7 := by rw [← hmethods]; rfl
  rw [hseven] at hle
  generalize methods.findIdx (strcasecmp arg ·) = k at hle ⊢
  intro h
  have hnat := congrArg UInt8.toNat h
  rw [UInt8.toNat_ofNat', show (0 : UInt8).toNat = 0 from rfl] at hnat
  omega

/-- The steps of `xy_coap_pkt_send` that lead to a request. -/
theorem pktSend_steps {type method : List Char} {payload : Option (List UInt8)}
    {payloadLen : UInt32} {g g' : Globals} {r : Request}
    (h : xyCoapPktSend type method payload payloadLen g = .ok (some r) g') :
    ∃ copied,
      let start := { startRequest g with
        method := xyCoapMethodGet method, msgtype := xyCoapTypeGet type }
      let prepared := prepareRequest start copied
      xyCoapTypeGet type ≠ 4 ∧ xyCoapNewRequest prepared prepared.optlist prepared.payload = .ok r ∧
        g' = freePayload { prepared with txMid := prepared.txMid + 1 } := by
  unfold xyCoapPktSend at h
  dsimp only at h
  split_ifs at h with hmethod htype
  · cases h
  · cases h
  · split at h
    · cases h
    · rename_i copied hcopy
      unfold sendCopied at h
      dsimp only at h
      split at h
      · cases h
      · rename_i request hrequest
        cases h
        exact ⟨copied, htype, hrequest, rfl⟩

/-- What `xy_coap_pkt_send` sends has a type and a method. -/
theorem pktSend_header {type method : List Char} {payload : Option (List UInt8)}
    {payloadLen : UInt32} {g g' : Globals} {r : Request}
    (h : xyCoapPktSend type method payload payloadLen g = .ok (some r) g') :
    r.msgtype < 4 ∧ r.code ≠ 0 := by
  obtain ⟨copied, htype, hrequest, -⟩ := pktSend_steps h
  obtain ⟨-, hcode, -, -⟩ := prepareRequest_spec
    { startRequest g with method := xyCoapMethodGet method, msgtype := xyCoapTypeGet type } copied
  rw [xyCoapNewRequest_msgtype hrequest, prepareRequest_msgtype,
    (xyCoapNewRequest_spec hrequest).1, hcode]
  exact ⟨xyCoapTypeGet_lt htype, xyCoapMethodGet_ne_zero method⟩

/-! ### Requests of a run -/

/-- What a run keeps: the options of the list come before `Size1`, which a send puts behind them,
and the token is one of a PDU. -/
structure Orderly (g : Globals) : Prop where
  numbers : ∀ o ∈ g.optlist, o.number ≤ LIBCOAP_COAP_OPTION_SIZE1
  token : g.token.length ≤ 8

/-- A configuration leaves the token. -/
theorem foldl_xyConfigCoapOption_token (cfg : Cfg) (options : List (Int × List UInt8))
    (g : Globals) :
    (options.foldl (fun g o => xyConfigCoapOption cfg g o.1 o.2) g).token = g.token := by
  induction options generalizing g with
  | nil => rfl
  | cons o options ih =>
    rw [List.foldl_cons, ih]
    unfold xyConfigCoapOption xyCoapBlocksize
    split_ifs
    · rfl
    · split <;> rfl

theorem orderly_config {g : Globals} (h : Orderly g) (cfg : Cfg)
    (options : List (Int × List UInt8)) : Orderly (atCOAPOPTIONReq cfg g options) where
  numbers o ho := by
    have hle : ∀ n ∈ configurable, n ≤ LIBCOAP_COAP_OPTION_SIZE1 :=
      List.forall_iff_forall_mem.mp (by decide)
    rw [atCOAPOPTIONReq_optlist] at ho
    exact hle o.number (wanted_number ho)
  token := by
    rw [atCOAPOPTIONReq, foldl_xyConfigCoapOption_token]
    exact h.token

/-- The token of a send: the one that was set, or one made of the message id. -/
theorem startRequest_token {g : Globals} (h : g.token.length ≤ 8) :
    (startRequest g).token.length ≤ 8 := by
  have hhex (n : UInt16) : (hexToken n).length ≤ 8 := by
    have hlt := n.toNat_lt
    rw [hexToken, List.length_map]
    have := Nat.toDigits_length 16 n.toNat 4 (by omega) (by omega)
    omega
  unfold startRequest
  dsimp only
  split_ifs <;> first | exact hhex _ | exact h

theorem prepareRequest_token (g : Globals) (copied : Option (List UInt8)) :
    (prepareRequest g copied).token = g.token := by
  have hset : (setPayload g copied).token = g.token := by
    cases copied <;> rfl
  unfold prepareRequest xyCoapBlocksizeSet
  dsimp only
  split_ifs <;> exact hset

theorem prepareRequest_sorted (g : Globals) (copied : Option (List UInt8)) :
    (prepareRequest g copied).optlist.Pairwise fun a b => a.number ≤ b.number := by
  have : Std.Total fun a b : CoapOpt => a.number ≤ b.number :=
    ⟨fun a b => UInt16.le_total a.number b.number⟩
  have : IsTrans CoapOpt fun a b => a.number ≤ b.number := ⟨fun _ _ _ => UInt16.le_trans⟩
  exact List.pairwise_insertionSort _ _

theorem xyCoapNewRequest_token {g : Globals} {optlist : List CoapOpt} {p : CoapString}
    {r : Request} (h : xyCoapNewRequest g optlist p = .ok r) : r.token = g.token := by
  unfold xyCoapNewRequest at h
  split_ifs at h
  · cases h
    rfl
  · rcases hadd : coapAddBlock p g.block.num g.block.szx with e | bytes <;> rw [hadd] at h <;>
      cases h
    rfl
  · rcases hbytes : p.bytes with e | bytes <;> rw [hbytes] at h <;> cases h
    rfl

theorem freePayload_keeps (g : Globals) :
    (freePayload g).optlist = g.optlist ∧ (freePayload g).token = g.token := by
  unfold freePayload
  split <;> exact ⟨rfl, rfl⟩

/-- A send keeps the order, and its request has a token and sorted options. -/
theorem pktSend_orderly {type method : List Char} {payload : Option (List UInt8)}
    {payloadLen : UInt32} {g g' : Globals} {r : Request} (hg : Orderly g)
    (h : xyCoapPktSend type method payload payloadLen g = .ok (some r) g') :
    Orderly g' ∧ r.token.length ≤ 8 ∧ r.options.Pairwise fun a b => a.number ≤ b.number := by
  obtain ⟨-, ⟨value, hperm⟩, hoptions⟩ := xyCoapPktSend_spec h
  obtain ⟨copied, -, hrequest, hg'⟩ := pktSend_steps h
  have htoken : (startRequest g).token.length ≤ 8 := startRequest_token hg.token
  have hsorted : g'.optlist.Pairwise fun a b => a.number ≤ b.number := by
    rw [hg', (freePayload_keeps _).1]
    exact prepareRequest_sorted _ _
  have hle : ∀ o ∈ g'.optlist, o.number ≤ LIBCOAP_COAP_OPTION_SIZE1 := by
    intro o ho
    rcases List.mem_append.mp (hperm.mem_iff.mp ho) with ho | ho
    · exact hg.numbers o ho
    · unfold insertedBlock at ho
      split at ho
      · rw [List.mem_singleton.mp ho]
        dsimp only
        split <;> decide
      · cases ho
  refine ⟨⟨hle, ?_⟩, ?_, ?_⟩
  · rw [hg', (freePayload_keeps _).2]
    simp only [prepareRequest_token]
    exact htoken
  · rw [xyCoapNewRequest_token hrequest, prepareRequest_token]
    exact htoken
  · rw [hoptions]
    refine List.pairwise_append.mpr ⟨hsorted, ?_, fun a ha b hb => ?_⟩
    · unfold addedSize1
      split <;> simp
    · unfold addedSize1 at hb
      split at hb
      · rw [List.mem_singleton.mp hb]
        exact hle a ha
      · cases hb

/-- A send that sends nothing keeps the order. -/
theorem pktSend_none_orderly {type method : List Char} {payload : Option (List UInt8)}
    {payloadLen : UInt32} {g g' : Globals} (hg : Orderly g)
    (h : xyCoapPktSend type method payload payloadLen g = .ok none g') : Orderly g' := by
  have htoken := startRequest_token hg.token
  have hlist := (startRequest_frame g).2
  unfold xyCoapPktSend at h
  dsimp only at h
  split_ifs at h
  · cases h
    exact ⟨by simpa only [hlist] using hg.numbers, htoken⟩
  · cases h
    exact ⟨by simpa only [hlist] using hg.numbers, htoken⟩
  · split at h
    · cases h
    · obtain ⟨_, hsome, -⟩ := sendCopied_spec h
      cases hsome

theorem orderly_exec {cfg : Cfg} {c c' : Client} {e : Event} {sent : Option Request}
    (hc : Orderly c.g) (h : exec cfg e c = .ok sent c') : Orderly c'.g := by
  cases e with
  | head msgid token =>
    cases h
    exact ⟨hc.numbers, by simp [xyConfigCoapHead]⟩
  | config options =>
    cases h
    exact orderly_config hc cfg options
  | send type method payload payloadLen =>
    simp only [exec] at h
    split at h
    · rename_i g' hsend
      cases h
      exact pktSend_none_orderly hc hsend
    · rename_i r g' hsend
      cases h
      exact (pktSend_orderly hc hsend).1
    · cases h
  | delete =>
    cases h
    exact ⟨fun _ ho => absurd ho List.not_mem_nil, hc.token⟩

/-- The peer accepts what an event sends, and finds in it what is in the PDU of the request, and all
of the request where it fits. -/
def SendsArriving (cfg : Cfg) (c : Client) (e : Event) : Prop :=
  ∀ r c', exec cfg e c = .ok (some r) c' → ∀ (pbuf : Buf) (alloc : Nat),
    ∃ pdu, coapNewRequest cfg.maxPduSize r pbuf alloc = some pdu ∧
      ∀ (peer : Buf) (len : UInt16),
        peer.read 0 len.toNat = datagram (coapPduEncodeHeader pdu .udp).1 →
          (coapRecv peer len).2 = true ∧
          Finds (coapRecv peer len).1 r.msgtype r.code r.tid (r.pdu cfg).token
            (numbered (r.pdu cfg).options) (r.pdu cfg).data ∧
          (r.body.length ≤ cfg.maxPduSize →
            Finds (coapRecv peer len).1 r.msgtype r.code r.tid r.token (numbered r.options)
              (if r.data = [] then none else some r.data))

/-- **Requests arrive.**  In every run of the client from the boot on, the peer accepts the datagram
of each request, and finds in it the type, the method, the message id and the token, the options in
the order of their numbers, and the payload; nothing is missing from a request that fits. -/
theorem requests_arrive {cfg : Cfg} {mtu : Nat} (hmtu : COAP_PDU_MAX_UDP_HEADER_SIZE < mtu)
    (hcfg : cfg.maxPduSize = coapSessionMaxPduSize (coapSessionSetMtu mtu)) (txMid : UInt16)
    (events : List Event) :
    Support.Along (exec cfg) (SendsArriving cfg) events (boot txMid) := by
  obtain ⟨hzero, hmax⟩ := maxPduSize_bounds hmtu
  rw [← hcfg] at hzero hmax
  refine Support.Along.of_invariant (fun c => Orderly c.g) (fun c e hc _ => ⟨?_, fun _ _ h =>
    orderly_exec hc h⟩) ⟨fun _ ho => absurd ho List.not_mem_nil, by simp [boot]⟩
    (Support.along_true events _)
  intro r c' hexec pbuf alloc
  obtain ⟨pdu, hpdu⟩ := coapNewRequest_isSome hmax r pbuf alloc
  refine ⟨pdu, hpdu, fun peer len hpeer => ?_⟩
  cases e with
  | send type method payload payloadLen =>
    simp only [exec] at hexec
    split at hexec
    · cases hexec
    · rename_i r g' hsend
      cases hexec
      obtain ⟨htype, hcode⟩ := pktSend_header hsend
      obtain ⟨-, htoken, hsorted⟩ := pktSend_orderly hc hsend
      obtain ⟨haccepted, hfinds⟩ := request_arrives hzero hmax htype hcode hpdu hpeer
      refine ⟨haccepted, hfinds, fun hfits => ?_⟩
      obtain ⟨ht, ho, hd⟩ := requestPdu_whole htoken hsorted hfits
      rwa [ht, ho, hd] at hfinds
    · cases hexec
  | head => cases hexec
  | config => cases hexec
  | delete => cases hexec

theorem requests_arrive_get : Support.Along (exec ⟨fun _ => [], fun _ => [], 1148⟩)
    (SendsArriving ⟨fun _ => [], fun _ => [], 1148⟩)
    [.config [(3, [97])], .send ['c', 'o', 'n'] ['g', 'e', 't'] none 0] (boot 6) :=
  @requests_arrive _ 1152 (by decide) rfl 6 _

end XY1100.Coap
