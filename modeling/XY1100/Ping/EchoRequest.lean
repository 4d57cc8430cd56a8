import XY1100.Ping.Ipv4Run
import XY1100.Utils.Checksum

/-!
# Ping — the echo requests

`_ping_ipv4` builds an IP header and an echo request in one buffer.  Each round numbers the request
and stores its checksum, and, where the local address has become another one, that address and the
checksum of the IP header.

* `netToolStandardChksum_storeChksum`: a checksum stored into a field that was zero makes the
  checksum of the whole zero.
* `requests_verify`: both headers of every packet sent verify, in every run.
-/

namespace XY1100.Ping4
open Support Ping
open OnesComplement (complement)

/-! ### The code -/

/-- `net_tool_standard_chksum` of the `len` bytes from `pos`.  Its loop is that of `xy_chksum`. -/
def netToolStandardChksum (dataptr : Buf) (pos len : Nat) : UInt16 :=
  let acc := xyChksumLoop dataptr pos len 0
  let acc := (acc >>> 16) + (acc &&& 0xffff)
  let acc := if acc &&& 0xffff0000 ≠ 0 then (acc >>> 16) + (acc &&& 0xffff) else acc
  let src := acc.toUInt16
  ~~~src

/-- The checksum of the `len` bytes from `pos`, stored into the field at `off` of them. -/
def storeChksum (m : Buf) (pos len off : Nat) : Buf :=
  m.putHalf (pos + off) (netToolHtons (netToolStandardChksum m pos len))

/-- Offsets in `struct ip_hdr`. -/
def ipLenOffset : Nat := 2
def ipIdOffset : Nat := 4
def ipTtlOffset : Nat := 8
def ipChksumOffset : Nat := 10
def ipSrcOffset : Nat := 12
def ipDestOffset : Nat := 16

/-- Offsets in `struct icmp_echo_hdr`. -/
def icmpChksumOffset : Nat := 2
def icmpIdOffset : Nat := 4
def icmpSeqnoOffset : Nat := 6

/-- `ICMP_ECHO`. -/
def icmpEcho : UInt8 := 8

/-- The bytes of the ICMP header and its data. -/
def Args.icmpLen (a : Args) : Nat := icmpEchoHdrLen + a.dataLen.toNat

/-- `ip_packet_len`. -/
def Args.ipPacketLen (a : Args) : Nat := ipHdrLen + a.icmpLen

/-- `icmp_data`. -/
def icmpData (dataLen : Nat) : List UInt8 := (List.range dataLen).map fun i => UInt8.ofNat (i + 97)

/-- The buffer before the addresses are known. -/
def ipHdrFields (a : Args) : Buf :=
  let buffer : Buf := fun _ => 0
  let buffer := buffer.write 0 [0x45, 0x00]
  let buffer := buffer.putHalf ipLenOffset (netToolHtons (UInt16.ofNat a.ipPacketLen))
  let buffer := buffer.putHalf ipIdOffset 0
  let buffer := buffer.write ipTtlOffset [64, ipprotoIcmp]
  buffer.putHalf ipChksumOffset 0

/-- The addresses, and the checksum of the IP header. -/
def addressIpHdr (a : Args) (localIp : UInt32) (buffer : Buf) : Buf :=
  let buffer := buffer.putWord ipSrcOffset localIp
  let buffer := buffer.putWord ipDestOffset a.host
  storeChksum buffer 0 ipHdrLen ipChksumOffset

/-- The echo request, without number and checksum. -/
def buildEcho (a : Args) (identifier : UInt16) (buffer : Buf) : Buf :=
  let buffer := buffer.write ipHdrLen [icmpEcho, 0]
  let buffer := buffer.putHalf (ipHdrLen + icmpChksumOffset) 0
  let buffer := buffer.putHalf (ipHdrLen + icmpIdOffset) (netToolHtons identifier)
  buffer.write (ipHdrLen + icmpEchoHdrLen) (icmpData a.dataLen.toNat)

/-- The sequence number of a round, and the checksum of the request. -/
def numberEcho (a : Args) (seqno : UInt16) (buffer : Buf) : Buf :=
  let buffer := buffer.putHalf (ipHdrLen + icmpSeqnoOffset) (netToolHtons seqno)
  let buffer := buffer.putHalf (ipHdrLen + icmpChksumOffset) 0
  storeChksum buffer ipHdrLen a.icmpLen icmpChksumOffset

/-- The local address of a round, if it is another one. -/
def refreshSrc (localIp : UInt32) (buffer : Buf) : Buf :=
  if buffer.word ipSrcOffset ≠ localIp then
    let buffer := buffer.putWord ipSrcOffset localIp
    let buffer := buffer.putHalf ipChksumOffset 0
    storeChksum buffer 0 ipHdrLen ipChksumOffset
  else buffer

/-- A run with its buffer, and the packets handed to `send_to_ps_directly`, the last one first. -/
structure Sender where
  run : Run
  buffer : Buf
  sent : List Buf

/-- Before the loop; without a local address it is passed over. -/
def Sender.start (a : Args) (localIp : Option UInt32) (pingNum tick : Nat) : Sender :=
  match localIp with
  | none =>
      { run := { Ping4.start pingNum tick with pc := .finished }
        buffer := ipHdrFields a
        sent := [] }
  | some ip =>
      { run := Ping4.start pingNum tick
        buffer := buildEcho a 0 (addressIpHdr a ip (ipHdrFields a))
        sent := [] }

/-- The packet of a round. -/
def Sender.request (a : Args) (s : Sender) (g : Sending) (localIp : UInt32) : Sender :=
  if g.gPingStop = true ∨ s.run.pingNum = 0 then s
  else
    let buffer := numberEcho a s.run.seqno s.buffer
    if g.stoppedOutOfService = true ∨ g.hasLocalIp = false then { s with buffer := buffer }
    else
      let buffer := refreshSrc localIp buffer
      { s with buffer := buffer, sent := buffer :: s.sent }

/-- A step of the run, with the local address where there is one. -/
def Sender.step (a : Args) (e : Event × UInt32) : EStateM Unit Sender Unit := fun s =>
  match Ping4.step a e.1 s.run, e.1 with
  | .ok o run, .sending g => .ok o { s.request a g e.2 with run := run }
  | .ok o run, _ => .ok o { s with run := run }
  | .error u run, _ => .error u { s with run := run }

/-- Both headers of a packet verify. -/
structure Verifies (a : Args) (packet : Buf) : Prop where
  ip : netToolStandardChksum packet 0 ipHdrLen = 0
  icmp : netToolStandardChksum packet ipHdrLen a.icmpLen = 0

variable {a : Args} {m m' : Buf} {pos len off : Nat}

/-! ### The checksum -/

/-- It is the lower half of `xy_chksum`. -/
theorem netToolStandardChksum_eq (m : Buf) (pos len : Nat) :
    netToolStandardChksum m pos len = (xyChksum m pos len).toUInt16 := by
  rw [xyChksum_eq, UInt32.toUInt16_not]
  rfl

theorem toNat_netToolStandardChksum (hlen : len < 131072) :
    (netToolStandardChksum m pos len).toNat = complement 65536 (wordSum m pos len) := by
  have hlt := toNat_foldAcc_lt (xyChksumLoop m pos len 0)
  rw [toNat_foldAcc] at hlt
  rw [netToolStandardChksum_eq, UInt32.toNat_toUInt16, toNat_xyChksum, complement,
    ← toNat_accumulator m pos hlen]
  omega

theorem netToolStandardChksum_congr (h : m.Agree m' pos len) :
    netToolStandardChksum m pos len = netToolStandardChksum m' pos len := by
  rw [netToolStandardChksum_eq, netToolStandardChksum_eq, xyChksum_congr h]

theorem storeChksum_outside {i : Nat} (h : i < pos + off ∨ pos + off + 2 ≤ i) :
    storeChksum m pos len off i = m i := Buf.putHalf_outside h

/-- A number in network byte order is stored with its high byte first. -/
theorem toNat_bytes_netToolHtons (n : UInt16) :
    (UInt8.ofNat (netToolHtons n).toNat).toNat = n.toNat / 256 ∧
      (UInt8.ofNat ((netToolHtons n).toNat / 256)).toNat = n.toNat % 256 := by
  have hhigh : n.toNat / 256 < 256 := Nat.div_lt_of_lt_mul n.toNat_lt
  have hlow : n.toNat % 256 < 256 := Nat.mod_lt _ (by decide)
  have hdiv : (n.toNat / 256 + 256 * (n.toNat % 256)) / 256 = n.toNat % 256 := by
    rw [Nat.add_mul_div_left _ _ (by decide), Nat.div_eq_of_lt hhigh, Nat.zero_add]
  rw [UInt8.toNat_ofNat', UInt8.toNat_ofNat', toNat_netToolHtons]
  constructor
  · exact (Nat.add_mul_mod_self_left _ _ _).trans (Nat.mod_eq_of_lt hhigh)
  · exact (congrArg (· % 256) hdiv).trans (Nat.mod_eq_of_lt hlow)

/-- The bytes stored come to the number. -/
theorem wordSum_storeChksum (heven : off % 2 = 0) (hin : off + 2 ≤ len)
    (hzero : m.half (pos + off) = 0) :
    wordSum (storeChksum m pos len off) pos len =
      wordSum m pos len + (netToolStandardChksum m pos len).toNat := by
  have hbytes := congrArg UInt16.toNat hzero
  rw [Buf.toNat_half, UInt16.toNat_zero] at hbytes
  have h₀ : m (pos + off) = 0 := UInt8.toNat_inj.mp (by rw [UInt8.toNat_zero]; omega)
  have h₁ : m (pos + off + 1) = 0 := UInt8.toNat_inj.mp (by rw [UInt8.toNat_zero]; omega)
  obtain ⟨hhigh, hlow⟩ := toNat_bytes_netToolHtons (netToolStandardChksum m pos len)
  rw [storeChksum, Buf.putHalf, wordSum_write heven hin h₀ h₁, hhigh, hlow, Nat.div_add_mod]

/-- **A stored checksum verifies.** -/
theorem netToolStandardChksum_storeChksum (hlen : len < 131072) (heven : off % 2 = 0)
    (hin : off + 2 ≤ len) (hzero : m.half (pos + off) = 0) :
    netToolStandardChksum (storeChksum m pos len off) pos len = 0 := by
  have hsum := wordSum_storeChksum heven hin hzero
  rw [toNat_netToolStandardChksum hlen] at hsum
  have hlt : wordSum (storeChksum m pos len off) pos len < 65536 ^ 2 := wordSum_lt hlen
  rw [hsum] at hlt
  apply UInt16.toNat_inj.mp
  rw [toNat_netToolStandardChksum hlen, hsum, OnesComplement.complement_add (by decide) hlt]
  rfl

/-! ### The headers -/

theorem icmpLen_lt (a : Args) : a.icmpLen < 131072 := by
  have hlt := a.dataLen.toNat_lt
  simp only [Args.icmpLen, icmpEchoHdrLen]
  omega

theorem half_ipHdrFields (a : Args) : (ipHdrFields a).half ipChksumOffset = 0 :=
  Buf.half_putHalf ..

/-- The IP header verifies when it is built. -/
theorem addressIpHdr_ip (localIp : UInt32) (hzero : m.half ipChksumOffset = 0) :
    netToolStandardChksum (addressIpHdr a localIp m) 0 ipHdrLen = 0 := by
  refine netToolStandardChksum_storeChksum (by decide) (by decide) (by decide) ?_
  -- the addresses are behind the field
  rw [Nat.zero_add, Buf.putWord, Buf.putWord, Buf.half_write_outside (.inl (by decide)),
    Buf.half_write_outside (.inl (by decide))]
  exact hzero

theorem buildEcho_outside {identifier : UInt16} {i : Nat} (h : i < ipHdrLen) :
    buildEcho a identifier m i = m i := by
  unfold ipHdrLen at h
  simp only [buildEcho, ipHdrLen, icmpEchoHdrLen, icmpChksumOffset, icmpIdOffset]
  rw [Buf.write_outside (.inl (by omega)), Buf.putHalf_outside (.inl (by omega)),
    Buf.putHalf_outside (.inl (by omega)), Buf.write_outside (.inl (by omega))]

theorem numberEcho_outside {seqno : UInt16} {i : Nat} (h : i < ipHdrLen) :
    numberEcho a seqno m i = m i := by
  unfold ipHdrLen at h
  simp only [numberEcho, ipHdrLen, icmpChksumOffset, icmpSeqnoOffset]
  rw [storeChksum_outside (.inl (by omega)), Buf.putHalf_outside (.inl (by omega)),
    Buf.putHalf_outside (.inl (by omega))]

/-- A numbered request verifies. -/
theorem numberEcho_icmp (a : Args) (seqno : UInt16) (m : Buf) :
    netToolStandardChksum (numberEcho a seqno m) ipHdrLen a.icmpLen = 0 := by
  refine netToolStandardChksum_storeChksum (icmpLen_lt a) (by decide) ?_ (Buf.half_putHalf ..)
  simp only [Args.icmpLen, icmpEchoHdrLen, icmpChksumOffset]
  omega

theorem refreshSrc_outside {localIp : UInt32} {i : Nat} (h : ipHdrLen ≤ i) :
    refreshSrc localIp m i = m i := by
  unfold ipHdrLen at h
  unfold refreshSrc
  split_ifs
  · simp only [ipChksumOffset, ipSrcOffset]
    rw [storeChksum_outside (.inr (by omega)), Buf.putHalf_outside (.inr (by omega)),
      Buf.putWord_outside (.inr (by omega))]
  · rfl

/-- The IP header still verifies with another local address. -/
theorem refreshSrc_ip {localIp : UInt32} (h : netToolStandardChksum m 0 ipHdrLen = 0) :
    netToolStandardChksum (refreshSrc localIp m) 0 ipHdrLen = 0 := by
  unfold refreshSrc
  split_ifs
  · exact netToolStandardChksum_storeChksum (by decide) (by decide) (by decide)
      (Buf.half_putHalf ..)
  · exact h

/-- The two stores of a round make a packet that verifies. -/
theorem Verifies.round {seqno : UInt16} {localIp : UInt32}
    (h : netToolStandardChksum m 0 ipHdrLen = 0) :
    Verifies a (refreshSrc localIp (numberEcho a seqno m)) where
  ip := refreshSrc_ip <| (netToolStandardChksum_congr fun _ _ hi =>
    numberEcho_outside (by omega)).trans h
  icmp := (netToolStandardChksum_congr fun _ hi _ => refreshSrc_outside hi).trans
    (numberEcho_icmp a seqno m)

/-! ### A run -/

/-- What holds between two steps: the IP header in the buffer verifies, unless the loop was passed
over, and so does what was sent, which is a packet for each request of the run. -/
structure SendInv (a : Args) (s : Sender) : Prop where
  ip : s.run.pc ≠ .finished → netToolStandardChksum s.buffer 0 ipHdrLen = 0
  sent : ∀ packet ∈ s.sent, Verifies a packet
  counted : s.sent.length = s.run.tally.sent

theorem sendInv_start (localIp : Option UInt32) (pingNum tick : Nat) :
    SendInv a (Sender.start a localIp pingNum tick) := by
  cases localIp with
  | none => exact ⟨fun h => absurd rfl h, fun _ h => absurd h List.not_mem_nil, rfl⟩
  | some localIp =>
      refine ⟨fun _ => ?_, fun _ h => absurd h List.not_mem_nil, rfl⟩
      have hkept : (buildEcho a 0 (addressIpHdr a localIp (ipHdrFields a))).Agree
          (addressIpHdr a localIp (ipHdrFields a)) 0 ipHdrLen :=
        fun _ _ hi => buildEcho_outside (by omega)
      exact (netToolStandardChksum_congr hkept).trans
        (addressIpHdr_ip localIp (half_ipHdrFields a))

/-- A step is one of the run, and only the head of the loop touches the packet. -/
theorem Sender.step_cases {s s' : Sender} {e : Event × UInt32} {o : Unit}
    (h : Sender.step a e s = .ok o s') :
    Ping4.step a e.1 s.run = .ok o s'.run ∧
      ((∃ g, e.1 = .sending g ∧ s' = { s.request a g e.2 with run := s'.run }) ∨
        (∀ g, e.1 ≠ .sending g) ∧ s' = { s with run := s'.run }) := by
  unfold Sender.step at h
  split at h
  next run g hrun hsending =>
    cases h
    exact ⟨hrun, .inl ⟨g, hsending, rfl⟩⟩
  next run hrun hother =>
    cases h
    exact ⟨hrun, .inr ⟨hother, rfl⟩⟩
  next => cases h

/-- A run that has ended takes no step. -/
theorem not_finished_of_step {s s' : Run} {e : Event} {o : Unit}
    (h : Ping4.step a e s = .ok o s') : s.pc ≠ .finished := by
  intro hpc
  unfold Ping4.step at h
  rw [hpc] at h
  cases h

theorem request_of_step {s s' : Run} {g : Sending} {o : Unit}
    (h : Ping4.step a (.sending g) s = .ok o s') : s' = s.request a g := by
  unfold Ping4.step at h
  split at h
  next hsending =>
    cases hsending
    split_ifs at h
    cases h
    rfl
  all_goals contradiction

@[simp] theorem packet_sent (s : Run) (startTime rcvTimeout : Nat) (p : Taken) :
    (s.packet a startTime rcvTimeout p).tally.sent = s.tally.sent := by
  unfold Run.packet
  split_ifs
  · rw [endRound_tally]
    rfl
  · rfl

/-- Requests are sent at the head of the loop only. -/
theorem sent_of_step {s s' : Run} {e : Event} {o : Unit} (h : Ping4.step a e s = .ok o s')
    (hother : ∀ g, e ≠ .sending g) : s'.tally.sent = s.tally.sent := by
  unfold Ping4.step at h
  split at h
  next g hpc => exact absurd rfl (hother g)
  next =>
    cases h
    rw [endRound_tally]
  next =>
    split_ifs at h
    cases h
    rw [endRound_tally]
  next =>
    split_ifs at h
    cases h
    rw [packet_sent]
  next => cases h

theorem SendInv.request {s : Sender} {g : Sending} {localIp : UInt32} (h : SendInv a s)
    (hpc : s.run.pc ≠ .finished) :
    SendInv a { s.request a g localIp with run := s.run.request a g } := by
  have hkept : netToolStandardChksum (numberEcho a s.run.seqno s.buffer) 0 ipHdrLen = 0 :=
    (netToolStandardChksum_congr fun _ _ hi => numberEcho_outside (by omega)).trans (h.ip hpc)
  unfold Sender.request Run.request
  split_ifs
  · exact ⟨fun _ => h.ip hpc, h.sent, h.counted⟩
  · exact ⟨fun _ => hkept, h.sent, h.counted⟩
  · refine ⟨fun _ => refreshSrc_ip hkept, ?_, congrArg (· + 1) h.counted⟩
    rintro packet (_ | ⟨_, hold⟩)
    · exact Verifies.round (h.ip hpc)
    · exact h.sent packet hold

/-- **One step.** -/
theorem SendInv.step {s s' : Sender} {e : Event × UInt32} {o : Unit} (h : SendInv a s)
    (hstep : Sender.step a e s = .ok o s') : SendInv a s' := by
  obtain ⟨hrun, ⟨g, hsending, hsent⟩ | ⟨hother, hsame⟩⟩ := Sender.step_cases hstep
  · rw [hsending] at hrun
    rw [hsent, request_of_step hrun]
    exact h.request (not_finished_of_step hrun)
  · rw [hsame]
    exact ⟨fun _ => h.ip (not_finished_of_step hrun), h.sent,
      h.counted.trans (sent_of_step hrun hother).symm⟩

/-- The run of a sender is one of `_ping_ipv4`. -/
theorem run_of_sends {es : List (Event × UInt32)} {os : List Unit} {s s' : Sender}
    (h : es.mapM (Sender.step a) s = .ok os s') :
    (es.map Prod.fst).mapM (Ping4.step a) s.run = .ok os s'.run :=
  mapM_projects (fun _ _ _ _ hstep => (Sender.step_cases hstep).1) h

/-- **Both headers of every packet sent verify**, and each request of the run is such a packet. -/
theorem requests_verify {localIp : Option UInt32} {pingNum tick : Nat}
    {es : List (Event × UInt32)} {os : List Unit} {s : Sender}
    (h : es.mapM (Sender.step a) (Sender.start a localIp pingNum tick) = .ok os s) :
    s.sent.length = s.run.tally.sent ∧ ∀ packet ∈ s.sent, Verifies a packet := by
  have hinv : SendInv a s := mapM_invariant (SendInv a)
    (fun _ _ _ _ hinv _ hstep => hinv.step hstep) (sendInv_start localIp pingNum tick)
    (along_true es _) h
  exact ⟨hinv.counted, hinv.sent⟩

/-- **The internet checksum checks itself**: stored into a zero field at an even offset, it makes the
checksum of the whole zero, and so it does for both headers of every packet that ping sends. -/
theorem internetChecksum_selfChecks :
    (∀ (m : Buf) (pos len off : Nat), len < 131072 → off % 2 = 0 → off + 2 ≤ len →
      m.half (pos + off) = 0 → netToolStandardChksum (storeChksum m pos len off) pos len = 0) ∧
    ∀ (a : Args) (localIp : Option UInt32) (pingNum tick : Nat) (es : List (Event × UInt32))
      (os : List Unit) (s : Sender),
      es.mapM (Sender.step a) (Sender.start a localIp pingNum tick) = .ok os s →
        s.sent.length = s.run.tally.sent ∧ ∀ packet ∈ s.sent, Verifies a packet :=
  ⟨fun _ _ _ _ hlen heven hin hzero => netToolStandardChksum_storeChksum hlen heven hin hzero,
    fun _ _ _ _ _ _ _ hrun => requests_verify hrun⟩

/-- Five bytes with a field in the middle. -/
def fiveBytes : Buf := fun i => [0xFF, 0xFE, 0, 0, 0x80].getD i 0

/-- One request from 10.0.0.1, to which the address has changed. -/
def oneSend : List (Event × UInt32) := [(sendAt 0, 0x0100000A)]

theorem internetChecksum_selfChecks_oneSend :
    netToolStandardChksum (storeChksum fiveBytes 0 5 2) 0 5 = 0 ∧
      ∃ os s, oneSend.mapM (Sender.step shortPing) (Sender.start shortPing (some 0x0200000A) 1 0) =
        .ok os s ∧ s.sent.length = 1 ∧ ∀ packet ∈ s.sent, Verifies shortPing packet := by
  refine ⟨internetChecksum_selfChecks.1 fiveBytes 0 5 2 (by decide) (by decide) (by decide) rfl, ?_⟩
  have hsend : returnsIn (fun s => s.run.tally.sent = 1)
      (oneSend.mapM (Sender.step shortPing) (Sender.start shortPing (some 0x0200000A) 1 0)) =
        true := by decide
  obtain ⟨os, s, hrun, hone⟩ := exists_of_returnsIn hsend
  obtain ⟨hlen, hverify⟩ :=
    internetChecksum_selfChecks.2 shortPing (some 0x0200000A) 1 0 oneSend os s hrun
  exact ⟨os, s, hrun, hlen.trans (of_decide_eq_true hone), hverify⟩

end XY1100.Ping4
