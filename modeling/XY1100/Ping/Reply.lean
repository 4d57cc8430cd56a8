import XY1100.Lwip.ResumeMatch
import XY1100.Support.Guards

/-!
# Ping — the reply to an echo request

`recv_from_ps_directly` copies the first 28 bytes of a packet, whatever its length, and
`is_expected_ping_response` looks for the reply in the copy, with the ICMP header at the offset that
the packet gives.

* `recognisesRight_iff`: only copied bytes of the packet are read and only the reply is accepted,
  exactly when the packet has 28 bytes, a header that passes the tests does not place the ICMP header
  behind the copy, a packet that passes them all has a whole header and is no fragment, and the reply
  does not meet a request to stop.
-/

namespace XY1100.Ping4
open Support
open Resume (halfword headerLen portAt)

/-! ### The code -/

/-- `net_tool_htons`. -/
def netToolHtons (n : UInt16) : UInt16 := ((n &&& 0x00ff) <<< 8) ||| ((n &&& 0xff00) >>> 8)

/-- The size of `struct ip_hdr`. -/
def ipHdrLen : Nat := 20

/-- The size of `struct icmp_echo_hdr`. -/
def icmpEchoHdrLen : Nat := 8

/-- `malloc_len`. -/
def mallocLen : Nat := ipHdrLen + icmpEchoHdrLen

/-- `IPPROTO_ICMP`. -/
def ipprotoIcmp : UInt8 := 1

/-- `ICMP_ER`. -/
def icmpEr : UInt8 := 0

/-- What the check finds besides the packet. -/
structure Echo where
  gPingStop : Bool
  /-- `getlocalip`. -/
  localIp : Option UInt32
  /-- The address that `net_tool_ip4addr_aton` makes of `host_ip`. -/
  host : UInt32
  identifier : UInt16
  seqno : UInt16
  dataLen : UInt16

/-- The bytes of the packet that the `memcpy` of `recv_from_ps_directly` reads. -/
def bytesCopied : List Nat := List.range mallocLen

/-- `recv_data` after `recv_from_ps_directly`, with what lies behind it. -/
def recvFromPsDirectly (heap packet : Buf) : Buf :=
  fun i => if i < mallocLen then packet i else heap i

/-- `is_expected_ping_response`: the time to live of an expected reply. -/
def isExpectedPingResponse (e : Echo) (packet : Buf) (packetLen : Nat) : Option UInt8 :=
  if ((packet 0 >>> 4) &&& 0x0F) ≠ 4 ∨ packet 9 ≠ ipprotoIcmp ∨
      (netToolHtons (halfword packet 2)).toNat ≠ packetLen ∨ e.gPingStop = true ∨
      e.localIp = none then none
  else if e.localIp ≠ some (packet.word 16) ∨ e.host ≠ packet.word 12 then none
  else
    let ipHdrLen := (packet 0 &&& 0x0F).toNat * 4
    if packet ipHdrLen ≠ icmpEr ∨ packet (ipHdrLen + 1) ≠ 0 ∨
        halfword packet (ipHdrLen + 4) ≠ netToolHtons e.identifier ∨
        halfword packet (ipHdrLen + 6) ≠ netToolHtons e.seqno then none
    else if (packetLen : Int) - ipHdrLen - icmpEchoHdrLen ≠ e.dataLen.toNat then none
    else some (packet 8)

/-- `_ping_ipv4` counts a reply. -/
def Accepts (e : Echo) (recvData : Buf) (recvLen : Nat) : Prop :=
  0 < recvLen ∧ isExpectedPingResponse e recvData recvLen ≠ none

/-! ### The tests, in order -/

/-- A test of one byte. -/
def byteGuard (i : Nat) (p : UInt8 → Bool) : Guard Nat UInt8 where
  reads := [i]
  test m := p (m i)
  congr h := congrArg p (h i List.mem_cons_self)

/-- A test of two bytes. -/
def halfwordGuard (i : Nat) (p : UInt16 → Bool) : Guard Nat UInt8 where
  reads := [i, i + 1]
  test m := p (halfword m i)
  congr h := by
    simp only [halfword, h i (by simp), h (i + 1) (by simp)]

/-- A test of four bytes. -/
def wordGuard (i : Nat) (p : UInt32 → Bool) : Guard Nat UInt8 where
  reads := [i, i + 1, i + 2, i + 3]
  test m := p (Buf.word m i)
  congr h := by rw [Resume.word_eq_of_bytes h]

/-- A test of no byte. -/
def plainGuard (b : Bool) : Guard Nat UInt8 where
  reads := []
  test _ := b
  congr _ := rfl

/-- The tests of the IP header. -/
def headerGuards (e : Echo) (len : Nat) : List (Guard Nat UInt8) :=
  [byteGuard 0 fun b => ((b >>> 4) &&& 0x0F) = 4,
    byteGuard 9 fun b => b = ipprotoIcmp,
    halfwordGuard 2 fun w => (netToolHtons w).toNat = len,
    plainGuard (!e.gPingStop && e.localIp.isSome),
    wordGuard 16 fun w => e.localIp = some w,
    wordGuard 12 fun w => e.host = w]

/-- The tests of the ICMP header at an offset, and the time to live. -/
def echoGuards (e : Echo) (len h : Nat) : List (Guard Nat UInt8) :=
  [byteGuard h fun b => b = icmpEr,
    byteGuard (h + 1) fun b => b = 0,
    halfwordGuard (h + 4) fun w => w = netToolHtons e.identifier,
    halfwordGuard (h + 6) fun w => w = netToolHtons e.seqno,
    plainGuard ((len : Int) - h - icmpEchoHdrLen = e.dataLen.toNat),
    byteGuard 8 fun _ => true]

/-- The bytes that `is_expected_ping_response` reads. -/
def bytesRead (e : Echo) (packet : Buf) (len : Nat) : List Nat :=
  touched packet (headerGuards e len ++ echoGuards e len (headerLen packet))

variable {e : Echo} {heap data data' : Buf} {len : Nat}

/-! ### The bytes of a halfword -/

theorem toNat_netToolHtons (n : UInt16) :
    (netToolHtons n).toNat = n.toNat / 256 + 256 * (n.toNat % 256) := toNat_swapBytes n

theorem toNat_halfword (data : Buf) (i : Nat) :
    (halfword data i).toNat = (data i).toNat + 256 * (data (i + 1)).toNat := Buf.toNat_half data i

theorem toNat_portAt (data : Buf) (i : Nat) :
    (portAt data i).toNat = (data i).toNat * 256 + (data (i + 1)).toNat := by
  have hlo := (data i).toNat_lt
  have hhi := (data (i + 1)).toNat_lt
  exact (UInt16.toNat_ofNat' ..).trans (Nat.mod_eq_of_lt (by omega))

theorem netToolHtons_halfword (data : Buf) (i : Nat) :
    netToolHtons (halfword data i) = portAt data i := by
  have hlo := (data i).toNat_lt
  have hhi := (data (i + 1)).toNat_lt
  apply UInt16.toNat_inj.mp
  rw [toNat_netToolHtons, toNat_halfword, toNat_portAt]
  omega

theorem halfword_eq_netToolHtons (data : Buf) (i : Nat) (w : UInt16) :
    halfword data i = netToolHtons w ↔ portAt data i = w := by
  have hlo := (data i).toNat_lt
  have hhi := (data (i + 1)).toNat_lt
  have hw := w.toNat_lt
  rw [← UInt16.toNat_inj, ← UInt16.toNat_inj, toNat_netToolHtons, toNat_halfword, toNat_portAt]
  omega

/-! ### The reply -/

/-- An ICMP packet from the host to the local address. -/
structure FromHost (e : Echo) (data : Buf) (len : Nat) : Prop where
  version : Resume.ipType data = 4
  protocol : data 9 = ipprotoIcmp
  length : (portAt data 2).toNat = len
  destination : e.localIp = some (data.word 16)
  source : e.host = data.word 12

/-- An echo reply at an offset, with the current identifier and sequence number, and as many bytes of
data as were sent. -/
structure EchoAt (e : Echo) (data : Buf) (len h : Nat) : Prop where
  type : data h = icmpEr
  code : data (h + 1) = 0
  identifier : portAt data (h + 4) = e.identifier
  seqno : portAt data (h + 6) = e.seqno
  dataLen : len = h + icmpEchoHdrLen + e.dataLen.toNat

/-- The packet is no fragment: no more fragments, offset 0. -/
def Unfragmented (data : Buf) : Prop := data 6 &&& 0x3f = 0 ∧ data 7 = 0

/-- The packet is the reply to the echo request. -/
structure IsReply (e : Echo) (data : Buf) (len : Nat) : Prop where
  fromHost : FromHost e data len
  header : ipHdrLen ≤ headerLen data
  whole : Unfragmented data
  echo : EchoAt e data len (headerLen data)

/-- Only copied bytes of the packet are read, and it is accepted exactly when it is the reply. -/
structure RecognisesRight (e : Echo) (heap data : Buf) (len : Nat) : Prop where
  copied : ∀ i ∈ bytesCopied, i < len
  read : 0 < len → ∀ i ∈ bytesRead e (recvFromPsDirectly heap data) len, i < mallocLen ∧ i < len
  accepted : Accepts e (recvFromPsDirectly heap data) len ↔ IsReply e data len

/-- The ICMP tests at an offset stay in the copy. -/
def EchoInCopy (data : Buf) (h : Nat) : Prop :=
  h ≤ 20 ∨ h = 24 ∧ ¬ (data 24 = icmpEr ∧ data 25 = 0)

/-- The packet fills the copy, the ICMP header lies in it, and the tests that are not made would
hold. -/
structure Recognisable (e : Echo) (data : Buf) (len : Nat) : Prop where
  long : mallocLen ≤ len
  inCopy : e.gPingStop = false → FromHost e data len → EchoInCopy data (headerLen data)
  whole : e.gPingStop = false → FromHost e data len → EchoAt e data len (headerLen data) →
    ipHdrLen ≤ headerLen data ∧ Unfragmented data
  running : e.gPingStop = true → ¬ IsReply e data len

/-! ### The tests -/

theorem version_eq (b : UInt8) : ((b >>> 4) &&& 0x0F : UInt8) = (b &&& 0xf0) >>> 4 := by
  apply UInt8.toNat_inj.mp
  simp only [UInt8.toNat_and, UInt8.toNat_shiftRight]
  change (b.toNat >>> 4) &&& 15 = (b.toNat &&& 240) >>> 4
  rw [Nat.shiftRight_and_distrib]
  rfl

theorem passes_headerGuards :
    Passes (headerGuards e len) data ↔ e.gPingStop = false ∧ FromHost e data len := by
  simp only [headerGuards, passes_cons, passes_nil, byteGuard, halfwordGuard, wordGuard, plainGuard,
    decide_eq_true_eq, Bool.and_eq_true, Bool.not_eq_true', netToolHtons_halfword, version_eq,
    and_true]
  constructor
  · rintro ⟨hversion, hproto, hlen, ⟨hstop, -⟩, hdst, hsrc⟩
    exact ⟨hstop, hversion, hproto, hlen, hdst, hsrc⟩
  · rintro ⟨hstop, hversion, hproto, hlen, hdst, hsrc⟩
    exact ⟨hversion, hproto, hlen, ⟨hstop, by rw [hdst]; rfl⟩, hdst, hsrc⟩

theorem passes_echoGuards {h : Nat} :
    Passes (echoGuards e len h) data ↔ EchoAt e data len h := by
  simp only [echoGuards, passes_cons, passes_nil, byteGuard, halfwordGuard, plainGuard,
    decide_eq_true_eq, halfword_eq_netToolHtons, and_true]
  constructor
  · rintro ⟨htype, hcode, hid, hseq, hdata⟩
    exact ⟨htype, hcode, hid, hseq, by omega⟩
  · rintro ⟨htype, hcode, hid, hseq, hdata⟩
    exact ⟨htype, hcode, hid, hseq, by omega⟩

/-- The tests are those of the code. -/
theorem isExpectedPingResponse_eq :
    isExpectedPingResponse e data len =
      if Passes (headerGuards e len ++ echoGuards e len (headerLen data)) data then some (data 8)
      else none := by
  have hoff : (data 0 &&& 0x0F).toNat * 4 = headerLen data := Nat.mul_comm _ _
  unfold isExpectedPingResponse
  simp only [hoff, headerGuards, echoGuards, passes_append, passes_cons, passes_nil, byteGuard,
    halfwordGuard, wordGuard, plainGuard, decide_eq_true_eq, Bool.and_eq_true, Bool.not_eq_true',
    and_true]
  -- the code first asks whether there is a local address, and then which
  rcases hloc : e.localIp with _ | ip
  · simp
  · rw [← hloc]
    have hsome : e.localIp.isSome = true := by rw [hloc]; rfl
    split_ifs <;> simp_all

/-- **The check depends on no byte that it does not read.** -/
theorem isExpectedPingResponse_congr (h : ∀ i ∈ bytesRead e data len, data i = data' i) :
    isExpectedPingResponse e data len = isExpectedPingResponse e data' len := by
  -- the first byte is always read, and gives the offset of the ICMP header
  have hfirst : data 0 = data' 0 := by
    refine h 0 ?_
    simp [bytesRead, headerGuards, byteGuard, touched_cons]
  have hoff : headerLen data = headerLen data' := by
    unfold headerLen
    rw [hfirst]
  have hpass := passes_congr h
  rw [isExpectedPingResponse_eq, isExpectedPingResponse_eq, ← hoff]
  by_cases hall : Passes (headerGuards e len ++ echoGuards e len (headerLen data)) data
  · rw [if_pos hall, if_pos (hpass.mp hall)]
    have hlast : 8 ∈ bytesRead e data len := by
      unfold bytesRead
      rw [touched_of_passes hall]
      simp [echoGuards, byteGuard]
    rw [h 8 hlast]
  · rw [if_neg hall, if_neg fun hno => hall (hpass.mpr hno)]

/-! ### The copy -/

theorem recvFromPsDirectly_inside {i : Nat} (h : i < mallocLen) :
    recvFromPsDirectly heap data i = data i := if_pos h

theorem headerLen_recv : headerLen (recvFromPsDirectly heap data) = headerLen data := by
  unfold headerLen
  rw [recvFromPsDirectly_inside (by decide)]

theorem portAt_recv {i : Nat} (h : i + 1 < mallocLen) :
    portAt (recvFromPsDirectly heap data) i = portAt data i :=
  Resume.portAt_congr (recvFromPsDirectly_inside (by omega)) (recvFromPsDirectly_inside h)

theorem word_recv {i : Nat} (h : i + 3 < mallocLen) :
    (recvFromPsDirectly heap data).word i = data.word i :=
  Buf.word_congr fun k hk => recvFromPsDirectly_inside (by omega)

theorem fromHost_recv : FromHost e (recvFromPsDirectly heap data) len ↔ FromHost e data len := by
  have hversion : Resume.ipType (recvFromPsDirectly heap data) = Resume.ipType data := by
    unfold Resume.ipType
    rw [recvFromPsDirectly_inside (by decide)]
  have hproto : recvFromPsDirectly heap data 9 = data 9 := recvFromPsDirectly_inside (by decide)
  have hlen : portAt (recvFromPsDirectly heap data) 2 = portAt data 2 := portAt_recv (by decide)
  have hdst : (recvFromPsDirectly heap data).word 16 = data.word 16 := word_recv (by decide)
  have hsrc : (recvFromPsDirectly heap data).word 12 = data.word 12 := word_recv (by decide)
  constructor
  · rintro ⟨h₁, h₂, h₃, h₄, h₅⟩
    exact ⟨hversion ▸ h₁, hproto ▸ h₂, hlen ▸ h₃, hdst ▸ h₄, hsrc ▸ h₅⟩
  · rintro ⟨h₁, h₂, h₃, h₄, h₅⟩
    exact ⟨hversion ▸ h₁, hproto ▸ h₂, hlen ▸ h₃, hdst ▸ h₄, hsrc ▸ h₅⟩

theorem echoAt_recv {h : Nat} (hle : h ≤ ipHdrLen) :
    EchoAt e (recvFromPsDirectly heap data) len h ↔ EchoAt e data len h := by
  have hin : h + 7 < mallocLen := Nat.lt_of_le_of_lt (Nat.add_le_add_right hle 7) (by decide)
  have htype : recvFromPsDirectly heap data h = data h := recvFromPsDirectly_inside (by omega)
  have hcode : recvFromPsDirectly heap data (h + 1) = data (h + 1) :=
    recvFromPsDirectly_inside (by omega)
  have hid : portAt (recvFromPsDirectly heap data) (h + 4) = portAt data (h + 4) :=
    portAt_recv (by omega)
  have hseq : portAt (recvFromPsDirectly heap data) (h + 6) = portAt data (h + 6) :=
    portAt_recv (by omega)
  constructor
  · rintro ⟨h₁, h₂, h₃, h₄, h₅⟩
    exact ⟨htype.symm.trans h₁, hcode.symm.trans h₂, hid.symm.trans h₃, hseq.symm.trans h₄, h₅⟩
  · rintro ⟨h₁, h₂, h₃, h₄, h₅⟩
    exact ⟨htype.trans h₁, hcode.trans h₂, hid.trans h₃, hseq.trans h₄, h₅⟩

theorem echoAt_recv_of_inCopy {h : Nat} (hin : EchoInCopy data h) :
    EchoAt e (recvFromPsDirectly heap data) len h ↔ EchoAt e data len h := by
  rcases hin with hle | ⟨h24, hno⟩
  · exact echoAt_recv hle
  · -- the two bytes that the copy still holds decide
    subst h24
    have htype : recvFromPsDirectly heap data 24 = data 24 := recvFromPsDirectly_inside (by decide)
    have hcode : recvFromPsDirectly heap data (24 + 1) = data 25 :=
      recvFromPsDirectly_inside (by decide)
    exact iff_of_false (fun hyes => hno ⟨htype.symm.trans hyes.type, hcode.symm.trans hyes.code⟩)
      fun hyes => hno ⟨hyes.type, hyes.code⟩

theorem accepts_iff : Accepts e data len ↔ 0 < len ∧ e.gPingStop = false ∧ FromHost e data len ∧
    EchoAt e data len (headerLen data) := by
  unfold Accepts
  rw [isExpectedPingResponse_eq]
  by_cases h : Passes (headerGuards e len ++ echoGuards e len (headerLen data)) data
  · rw [if_pos h]
    rw [passes_append, passes_headerGuards, passes_echoGuards] at h
    have hsome : some (data 8) ≠ none := Option.some_ne_none _
    exact and_congr_right fun _ => iff_of_true hsome ⟨h.1.1, h.1.2, h.2⟩
  · rw [if_neg h]
    rw [passes_append, passes_headerGuards, passes_echoGuards] at h
    exact and_congr_right fun _ =>
      iff_of_false (fun hno => hno rfl) fun hyes => h ⟨⟨hyes.1, hyes.2.1⟩, hyes.2.2⟩

/-! ### The bytes read -/

theorem bytesRead_lt_iff :
    (∀ i ∈ bytesRead e (recvFromPsDirectly heap data) len, i < mallocLen) ↔
      (e.gPingStop = false → FromHost e data len → EchoInCopy data (headerLen data)) := by
  unfold bytesRead
  rw [forall_touched_append, passes_headerGuards, fromHost_recv, headerLen_recv]
  have hheader : ∀ i ∈ touched (recvFromPsDirectly heap data) (headerGuards e len),
      i < mallocLen := by
    simp [headerGuards, byteGuard, halfwordGuard, wordGuard, plainGuard, mallocLen, ipHdrLen,
      icmpEchoHdrLen]
  rw [and_iff_right hheader, and_imp]
  refine forall₂_congr fun _ _ => ?_
  generalize hh : headerLen data = h
  -- a multiple of four above 20 that is in the copy is 24
  have hmul : 4 ∣ h := ⟨_, hh.symm⟩
  simp only [echoGuards, forall_touched_cons, forall_touched_nil, byteGuard, halfwordGuard,
    plainGuard, List.forall_mem_cons, List.not_mem_nil, false_implies, implies_true, and_true,
    decide_eq_true_eq]
  constructor
  · rintro ⟨hfirst, hrest⟩
    by_cases hle : h ≤ 20
    · exact .inl hle
    · have h24 : h = 24 := by
        unfold mallocLen ipHdrLen icmpEchoHdrLen at hfirst
        omega
      subst h24
      refine .inr ⟨rfl, fun hno => ?_⟩
      have htype : recvFromPsDirectly heap data 24 = data 24 := recvFromPsDirectly_inside (by decide)
      have hcode : recvFromPsDirectly heap data (24 + 1) = data 25 :=
        recvFromPsDirectly_inside (by decide)
      exact absurd ((hrest (htype.trans hno.1)).2 (hcode.trans hno.2)).1.1 (by decide)
  · rintro (hle | ⟨h24, hno⟩)
    · have hend : h + 8 ≤ mallocLen := Nat.add_le_add_right hle 8
      exact ⟨by omega, fun _ => ⟨by omega, fun _ => ⟨by omega, fun _ => ⟨by omega, fun _ =>
        ⟨trivial, fun _ => by decide⟩⟩⟩⟩⟩
    · subst h24
      refine ⟨by decide, fun htype => ⟨by decide, fun hcode => absurd ⟨?_, ?_⟩ hno⟩⟩
      · exact (recvFromPsDirectly_inside (by decide)).symm.trans htype
      · exact (recvFromPsDirectly_inside (by decide)).symm.trans hcode

/-- **The reply to an echo request.**  Only copied bytes of the packet are read, and only the reply
is accepted, exactly when the packet is recognisable. -/
theorem recognisesRight_iff (e : Echo) (heap data : Buf) (len : Nat) :
    RecognisesRight e heap data len ↔ Recognisable e data len := by
  have haccepts : EchoInCopy data (headerLen data) → mallocLen ≤ len →
      (Accepts e (recvFromPsDirectly heap data) len ↔ e.gPingStop = false ∧ FromHost e data len ∧
        EchoAt e data len (headerLen data)) := by
    intro hin hlong
    rw [accepts_iff, fromHost_recv, headerLen_recv, echoAt_recv_of_inCopy hin,
      and_iff_right (Nat.lt_of_lt_of_le (by decide) hlong)]
  constructor
  · rintro ⟨hcopied, hread, haccepted⟩
    -- the copy takes the byte 27 whatever the length is
    have hlong : mallocLen ≤ len := hcopied 27 (List.mem_range.mpr (by decide))
    have hin := bytesRead_lt_iff.mp fun i hi =>
      (hread (Nat.lt_of_lt_of_le (by decide) hlong) i hi).1
    refine ⟨hlong, hin, fun hstop hfrom hecho => ?_, fun hstop hreply => ?_⟩
    · have hreply := haccepted.mp ((haccepts (hin hstop hfrom) hlong).mpr ⟨hstop, hfrom, hecho⟩)
      exact ⟨hreply.header, hreply.whole⟩
    · have hrun := (accepts_iff.mp (haccepted.mpr hreply)).2.1
      exact Bool.noConfusion (hstop.symm.trans hrun)
  · rintro ⟨hlong, hin, hwhole, hrunning⟩
    refine ⟨fun i hi => Nat.lt_of_lt_of_le (List.mem_range.mp hi) hlong, fun _ i hi => ?_, ?_⟩
    · have hi := bytesRead_lt_iff.mpr hin i hi
      exact ⟨hi, Nat.lt_of_lt_of_le hi hlong⟩
    · constructor
      · intro ha
        obtain ⟨-, hstop, hfrom, -⟩ := accepts_iff.mp ha
        rw [fromHost_recv] at hfrom
        obtain ⟨-, -, hecho⟩ := (haccepts (hin hstop hfrom) hlong).mp ha
        obtain ⟨hheader, hunfrag⟩ := hwhole hstop hfrom hecho
        exact ⟨hfrom, hheader, hunfrag, hecho⟩
      · intro hreply
        have hstop : e.gPingStop = false := by
          rw [← Bool.not_eq_true]
          exact fun hyes => hrunning hyes hreply
        exact (haccepts (hin hstop hreply.fromHost) hlong).mpr
          ⟨hstop, hreply.fromHost, hreply.echo⟩

/-- An echo reply from 1.2.3.4 to 10.0.0.1 with four bytes of options, for the sequence number 7. -/
def optionsReply : List UInt8 :=
  [0x46, 0, 0, 32, 0, 0, 0, 0, 64, 1, 0, 0, 1, 2, 3, 4, 10, 0, 0, 1, 1, 1, 1, 1, 0, 0, 0, 0, 0, 0,
    0, 7]

/-- The echo request that it answers. -/
def optionsEcho : Echo where
  gPingStop := false
  localIp := some 0x0100000A
  host := 0x04030201
  identifier := 0
  seqno := 7
  dataLen := 0

/-- Its identifier and sequence number are read behind the copy. -/
theorem not_recognisesRight_options :
    ¬ RecognisesRight optionsEcho (fun _ => 0) (fun i => optionsReply.getD i 0) 32 := by
  intro h
  have hin := (bytesRead_lt_iff.mp fun i hi => (h.read (by decide) i hi).1) rfl
    ⟨by decide, by decide, by decide, by decide, by decide⟩
  exact absurd hin (by unfold EchoInCopy; decide)

end XY1100.Ping4
