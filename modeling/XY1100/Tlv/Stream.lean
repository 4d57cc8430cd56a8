import XY1100.Tlv.Unpack

/-!
# TLV — a stream of frames

The receiver appends what arrives to its buffer and calls `unpack_tlv` until that finds no frame.
A frame of `n` bytes of payload is `n + 12` bytes long, but the call takes `n + 10` bytes for it:
it may take a frame whose last two bytes have not arrived, and leaves two bytes behind for every
frame.  The two bytes are passed over when the next frame comes (`Pending`); the last two stay, so
that no stream of frames is ever consumed (`stream_delivers_iff`).
-/

namespace XY1100.Tlv
open Support
open Buf (half_congr half_putHalf putHalf_outside half_putHalf_ne
  half_write_outside read_putHalf_ne)

/-! ### Frames that are sent -/

/-- The bytes `pack_tlv` makes of a command in a block of the size its caller gives it. -/
def frame (heap : Buf) (seqNum : UInt16) (info : TlvCmdInfo) : List UInt8 :=
  match packTlv heap (info.dataBuf.length + formatSize) seqNum info with
  | some (buf, size) => buf.read 0 size
  | none => []

/-- The frames of a list of commands, `g_tlv_seqnum` counting them. -/
def frames (heap : Buf) : UInt16 → List TlvCmdInfo → List (List UInt8)
  | _, [] => []
  | seqNum, info :: infos => frame heap seqNum info :: frames heap (seqNum + 1) infos

/-- A frame as it is sent. -/
structure IsFrame (bytes : List UInt8) (buf : Buf) (n : Nat) : Prop where
  le : n ≤ 244
  eq : bytes = buf.read 0 (n + 12)
  tmpDataLen : tmpDataLen buf 0 = n + 8
  headMatch : HeadMatch buf 0
  crcMatch : CrcMatch buf 0

theorem tmpDataLen_congr {m m' : Buf} {p p' : Nat} (h : ∀ i < 2, m (p + i) = m' (p' + i)) :
    tmpDataLen m p = tmpDataLen m' p' := by
  have h₀ := h 0 (by omega)
  have h₁ := h 1 (by omega)
  rw [Nat.add_zero, Nat.add_zero] at h₀
  rw [tmpDataLen_eq, tmpDataLen_eq, h₀, h₁]

theorem headMatch_congr {m m' : Buf} {p p' : Nat} (h : ∀ i < 4, m (p + i) = m' (p' + i)) :
    HeadMatch m p ↔ HeadMatch m' p' := by
  have h₂ : tmpDataLen m (p + 2) = tmpDataLen m' (p' + 2) := tmpDataLen_congr fun i hi => by
    rw [Nat.add_assoc, Nat.add_assoc]
    exact h (2 + i) (by omega)
  rw [headMatch_iff, headMatch_iff, tmpDataLen_congr fun i hi => h i (by omega), h₂]

theorem crcMatch_congr {m m' : Buf} {p p' n : Nat} (h : ∀ i < n, m (p + i) = m' (p' + i))
    (hn : 6 ≤ n) (hlen : tmpDataLen m p + 2 ≤ n) : CrcMatch m p ↔ CrcMatch m' p' := by
  have hd : tmpDataLen m p = tmpDataLen m' p' := tmpDataLen_congr fun i hi => h i (by omega)
  have hc : m.half (p + crcOffset) = m'.half (p' + crcOffset) := half_congr (h 4 (by omega))
    (by simp only [crcOffset, Nat.add_assoc]; exact h (4 + 1) (by omega))
  have hr : m.read (p + seqNumOffset) (tmpDataLen m p - 4) =
      m'.read (p' + seqNumOffset) (tmpDataLen m p - 4) := Buf.read_congr fun i hi => by
    simp only [seqNumOffset, Nat.add_assoc]
    exact h (6 + i) (by omega)
  rw [CrcMatch, CrcMatch, hc, hr, hd]

/-- The steps of `pack_tlv` after the fields are stored. -/
def sealFrame (buf : Buf) : Buf :=
  let buf := buf.putHalf crcOffset (crc16Calc (buf.read seqNumOffset ((buf.half 0).toNat - 4)))
  let buf := buf.putHalf 0 (bLRevert16 (buf.half 0))
  let buf := buf.putHalf complementLenOffset (bLRevert16 (buf.half complementLenOffset))
  buf.putHalf crcOffset (bLRevert16 (buf.half crcOffset))

theorem half_sealFrame (m : Buf) :
    (sealFrame m).half 0 = bLRevert16 (m.half 0) ∧
      (sealFrame m).half 2 = bLRevert16 (m.half 2) ∧
      (sealFrame m).half 4 = bLRevert16 (crc16Calc (m.read 6 ((m.half 0).toNat - 4))) := by
  simp only [sealFrame, crcOffset, complementLenOffset, seqNumOffset]
  refine ⟨?_, ?_, ?_⟩
  · rw [half_putHalf_ne (by decide), half_putHalf_ne (by decide), half_putHalf,
      half_putHalf_ne (by decide)]
  · rw [half_putHalf_ne (by decide), half_putHalf, half_putHalf_ne (by decide),
      half_putHalf_ne (by decide)]
  · rw [half_putHalf, half_putHalf_ne (by decide), half_putHalf_ne (by decide), half_putHalf]

/-- **What `pack_tlv` makes**: the fields, in the byte order of the core, and then sealed. -/
theorem packTlv_eq (buf : Buf) {bufLen : Nat} (seqNum : UInt16) {info : TlvCmdInfo}
    (hn : info.dataBuf.length + formatSize ≤ 0xFFFF)
    (hle : info.dataBuf.length + formatSize ≤ bufLen) :
    ∃ m : Buf, (m.half 0).toNat = info.dataBuf.length + 8 ∧ m.half 2 = 0xFFFF - m.half 0 ∧
      (m dataTypeOffset = info.dataType.toUInt8 ∧ m.half flagOffset = bLRevert16 info.cmdId ∧
        m.read dataBufOffset info.dataBuf.length = info.dataBuf) ∧
      packTlv buf bufLen seqNum info = some (sealFrame m, info.dataBuf.length + formatSize) := by
  simp only [formatSize] at hn
  have hlen : (UInt16.ofNat info.dataBuf.length).toNat = info.dataBuf.length := by
    rw [UInt16.toNat_ofNat']
    omega
  rw [packTlv]
  simp only [hlen, if_neg (Nat.not_lt.mpr hle)]
  refine ⟨_, ?_, ?_, ⟨?_, ?_, ?_⟩, rfl⟩
  all_goals simp only [flagOffset, complementLenOffset, seqNumOffset, verNumOffset, dataTypeOffset,
    dataBufOffset]
  · rw [half_putHalf_ne (by decide), half_putHalf_ne (by decide),
      half_write_outside (.inl (by decide)),
      half_write_outside (.inl (by decide)), half_write_outside (.inl (by decide)),
      half_putHalf_ne (by decide), half_putHalf_ne (by decide), half_putHalf, UInt16.toNat_add,
      hlen,
      show (8 : UInt16).toNat = 8 from rfl]
    omega
  · rw [half_putHalf_ne (by decide), half_putHalf_ne (by decide),
      half_write_outside (.inl (by decide)),
      half_write_outside (.inl (by decide)), half_write_outside (.inl (by decide)),
      half_putHalf_ne (by decide), half_putHalf, half_putHalf, half_putHalf_ne (by decide),
      half_putHalf_ne (by decide), half_write_outside (.inl (by decide)),
      half_write_outside (.inl (by decide)), half_write_outside (.inl (by decide)),
      half_putHalf_ne (by decide), half_putHalf_ne (by decide), half_putHalf]
  · rw [putHalf_outside (.inl (by decide)), putHalf_outside (.inr (by decide)),
      Buf.write_outside (.inl (by decide))]
    exact Buf.write_inside (show 0 < [info.dataType.toUInt8].length from Nat.zero_lt_one)
  · rw [half_putHalf, half_putHalf_ne (by decide), half_write_outside (.inl (by decide)),
      half_write_outside (.inr (by simp)), half_write_outside (.inr (by simp)),
      half_putHalf_ne (by decide), half_putHalf_ne (by decide), half_putHalf_ne (by decide),
      half_putHalf]
  · rw [read_putHalf_ne (.inr (by decide)), read_putHalf_ne (.inr (by decide)), Buf.read_write]

/-- A frame made of a command: its header, and the fields the receiver delivers. -/
structure Packed (buf : Buf) (info : TlvCmdInfo) : Prop where
  tmpDataLen : tmpDataLen buf 0 = info.dataBuf.length + 8
  headMatch : HeadMatch buf 0
  crcMatch : CrcMatch buf 0
  dataType : buf dataTypeOffset = info.dataType.toUInt8
  flag : buf.half flagOffset = bLRevert16 info.cmdId
  payload : buf.read dataBufOffset info.dataBuf.length = info.dataBuf

theorem sealFrame_outside {m : Buf} {i : Nat} (h : 6 ≤ i) : sealFrame m i = m i := by
  simp only [sealFrame, crcOffset, complementLenOffset]
  rw [putHalf_outside (by omega), putHalf_outside (by omega), putHalf_outside (by omega),
    putHalf_outside (by omega)]

theorem size_le_of_packTlv {heap buf : Buf} {bufLen size : Nat} {seqNum : UInt16}
    {info : TlvCmdInfo} (hn : info.dataBuf.length ≤ 0xFFFF)
    (h : packTlv heap bufLen seqNum info = some (buf, size)) :
    info.dataBuf.length + formatSize ≤ bufLen := by
  have hlen : (UInt16.ofNat info.dataBuf.length).toNat = info.dataBuf.length := by
    rw [UInt16.toNat_ofNat']
    omega
  by_contra hlt
  rw [packTlv] at h
  simp only [hlen, if_pos (Nat.not_le.mp hlt)] at h
  cases h

/-- **What `pack_tlv` sends is a frame.** -/
theorem packed_of_packTlv {heap buf : Buf} {bufLen size : Nat} {seqNum : UInt16}
    {info : TlvCmdInfo} (hn : info.dataBuf.length ≤ 0xFFFF) (hb : bufLen ≤ 0xFFFF)
    (h : packTlv heap bufLen seqNum info = some (buf, size)) :
    Packed buf info ∧ size = info.dataBuf.length + formatSize := by
  have hle := size_le_of_packTlv hn h
  obtain ⟨m, hlen, hcomp, ⟨hty, hflag, hpay⟩, hpack⟩ := packTlv_eq heap seqNum (hle.trans hb) hle
  obtain ⟨rfl, rfl⟩ := Prod.mk.inj (Option.some.inj (hpack.symm.trans h))
  obtain ⟨h₀, h₂, h₄⟩ := half_sealFrame m
  have hdl : tmpDataLen (sealFrame m) 0 = info.dataBuf.length + 8 := by
    rw [tmpDataLen, h₀, bLRevert16_bLRevert16, hlen]
  have hle' : info.dataBuf.length + 8 ≤ 0xFFFF := by
    simp only [formatSize] at hle
    omega
  have hcl : tmpDataLen (sealFrame m) 2 = 0xFFFF - (info.dataBuf.length + 8) := by
    rw [tmpDataLen, h₂, bLRevert16_bLRevert16, hcomp, UInt16.toNat_sub_of_le _ _
      (UInt16.le_iff_toNat_le.mpr (by rw [hlen]; exact hle')), hlen]
    rfl
  refine ⟨⟨hdl, ?_, ?_, ?_, ?_, ?_⟩, rfl⟩
  · rw [headMatch_iff, hdl, hcl]
    omega
  · rw [CrcMatch, hdl, ← hlen]
    refine h₄.trans ?_
    congr 2
    exact Buf.read_congr fun i _ => (sealFrame_outside (by omega)).symm
  · rw [sealFrame_outside (by decide), hty]
  · rw [← hflag]
    exact half_congr (sealFrame_outside (by decide)) (sealFrame_outside (by decide))
  · refine (Buf.read_congr fun i _ => sealFrame_outside ?_).trans hpay
    simp only [dataBufOffset]
    omega

theorem isFrame_frame (heap : Buf) (seqNum : UInt16) {info : TlvCmdInfo}
    (hn : info.dataBuf.length ≤ 244) :
    ∃ buf, IsFrame (frame heap seqNum info) buf info.dataBuf.length := by
  have hbuf : info.dataBuf.length + formatSize ≤ 0xFFFF := by
    simp only [formatSize]
    omega
  obtain ⟨m, -, -, -, hpack⟩ := packTlv_eq heap seqNum hbuf le_rfl
  obtain ⟨hp, -⟩ := packed_of_packTlv (by omega) hbuf hpack
  refine ⟨sealFrame m, hn, ?_, hp.tmpDataLen, hp.headMatch, hp.crcMatch⟩
  rw [frame, hpack]
  rfl

theorem isFrame_of_mem_frames {heap : Buf} : ∀ {infos : List TlvCmdInfo} {seqNum : UInt16},
    (∀ info ∈ infos, info.dataBuf.length ≤ 244) → ∀ bytes ∈ frames heap seqNum infos,
      ∃ buf n, IsFrame bytes buf n := by
  intro infos
  induction infos with
  | nil =>
    intro seqNum _ bytes hb
    cases hb
  | cons info infos ih =>
    intro seqNum h bytes hb
    rcases List.mem_cons.mp hb with rfl | hb
    · obtain ⟨buf, hf⟩ := isFrame_frame heap seqNum (h info List.mem_cons_self)
      exact ⟨buf, _, hf⟩
    · exact ih (fun info hi => h info (List.mem_cons_of_mem _ hi)) bytes hb

/-! ### The receiver -/

/-- `rcv_buf` and `rcv_len`, and the commands passed on. -/
structure Receiver where
  rcvBuf : Buf
  rcvLen : Nat
  delivered : List TlvCmdInfo

theorem bufLen_lt_of_success {buf : Buf} {len : Nat} (h : (unpackTlv buf len).ret = .success) :
    (unpackTlv buf len).bufLen < len := by
  by_cases hs : (startCheck buf 0 len).1 = .success
  · have ha := (startCheck_success_iff buf len _).mp ⟨hs, rfl⟩
    have harr := ha.accepted.arrived
    rw [unpackTlv_of_accepts ha]
    dsimp only
    omega
  · rw [unpackTlv_of_ne hs] at h
    exact absurd h hs

namespace Receiver

/-- `unpack_tlv`, called until it finds no frame. -/
def drain (r : Receiver) : Receiver :=
  let u := unpackTlv r.rcvBuf r.rcvLen
  if h : u.ret = .success then
    have := bufLen_lt_of_success h
    drain ⟨u.buf, u.bufLen, r.delivered ++ u.info.toList⟩
  else ⟨u.buf, u.bufLen, r.delivered⟩
termination_by r.rcvLen

/-- Bytes that arrive. -/
def arrive (r : Receiver) (bytes : List UInt8) : Receiver :=
  drain { r with rcvBuf := r.rcvBuf.write r.rcvLen bytes, rcvLen := r.rcvLen + bytes.length }

def receive (r : Receiver) (arrivals : List (List UInt8)) : Receiver := arrivals.foldl arrive r

/-- The bytes received and not taken. -/
def received (r : Receiver) : List UInt8 := r.rcvBuf.read 0 r.rcvLen

end Receiver

/-! ### What is left of a stream -/

/-- What is held of a stream, with what has not arrived, is at most two bytes of a frame that has
been taken and the frames that have not; with no such frame left, it is two bytes. -/
structure Pending (held rest : List UInt8) (left : List (List UInt8)) : Prop where
  frames : ∀ bytes ∈ left, ∃ buf n, IsFrame bytes buf n
  split : ∃ junk, junk.length ≤ 2 ∧ (left = [] → junk.length = 2) ∧
    held ++ rest = junk ++ left.flatten

/-- Something is left of a stream once all has arrived. -/
theorem Pending.ne_nil {held : List UInt8} {left : List (List UInt8)} (h : Pending held [] left) :
    held ≠ [] := by
  rintro rfl
  obtain ⟨junk, -, hjunk, heq⟩ := h.split
  rw [List.nil_append] at heq
  obtain ⟨rfl, hleft⟩ := List.append_eq_nil_iff.mp heq.symm
  cases left with
  | nil => exact absurd (hjunk rfl) (by decide)
  | cons bytes left =>
    obtain ⟨buf, n, hf⟩ := h.frames bytes List.mem_cons_self
    rw [List.flatten_cons] at hleft
    have hb := (List.append_eq_nil_iff.mp hleft).1
    rw [hf.eq] at hb
    have := congrArg List.length hb
    rw [Buf.length_read] at this
    exact absurd this (Nat.succ_ne_zero _)

/-- What is held of a stream, byte by byte, around the frame that comes next. -/
structure AtFrame (buf fb : Buf) (len j n : Nat) : Prop where
  agree : ∀ i, j + i < len → i < n + 12 → buf (j + i) = fb i
  le : n ≤ 244
  tmpDataLen : tmpDataLen fb 0 = n + 8
  headMatch : HeadMatch fb 0
  crcMatch : CrcMatch fb 0
  junk_le : j ≤ 2

section AtFrame
variable {buf fb : Buf} {len j n : Nat} (h : AtFrame buf fb len j n) (hlen : 12 ≤ len)

include h hlen

theorem AtFrame.tmpDataLen_eq : Tlv.tmpDataLen buf j = n + 8 := by
  have hj := h.junk_le
  rw [← h.tmpDataLen]
  exact tmpDataLen_congr fun i hi => by
    rw [Nat.zero_add]
    exact h.agree i (by omega) (by omega)

theorem AtFrame.headMatch_at : HeadMatch buf j := by
  have hj := h.junk_le
  refine (headMatch_congr fun i hi => ?_).mpr h.headMatch
  rw [Nat.zero_add]
  exact h.agree i (by omega) (by omega)

theorem AtFrame.crcMatch_at (harr : j + n + 10 ≤ len) : CrcMatch buf j := by
  have hd := h.tmpDataLen_eq hlen
  have hle := h.le
  refine (crcMatch_congr (n := n + 10) (fun i hi => ?_) (by omega) (by omega)).mpr h.crcMatch
  rw [Nat.zero_add]
  exact h.agree i (by omega) (by omega)

/-- A match before the frame is of a length that is too large. -/
theorem AtFrame.lt_of_match {q : Nat} (hq : q < j) (hm : HeadMatch buf q) :
    TLV_MAX_SIZE < Tlv.tmpDataLen buf q := by
  have hj := h.junk_le
  have hle := h.le
  have hd := h.tmpDataLen_eq hlen
  have hjm := (headMatch_iff buf j).mp (h.headMatch_at hlen)
  have hqm := (headMatch_iff buf q).mp hm
  simp only [TLV_MAX_SIZE]
  rcases Nat.eq_or_lt_of_le (Nat.succ_le_of_lt hq) with hq' | hq'
  · -- one byte before the frame, whose first byte is zero
    have h₀ : Tlv.tmpDataLen buf j = 256 * (buf j).toNat + (buf (j + 1)).toNat :=
      Tlv.tmpDataLen_eq buf j
    have h₁ : Tlv.tmpDataLen buf (j + 2) = 256 * (buf (j + 2)).toNat + (buf (j + 3)).toNat :=
      Tlv.tmpDataLen_eq buf (j + 2)
    have h₃ : Tlv.tmpDataLen buf (j + 1) = 256 * (buf (j + 1)).toNat + (buf (j + 2)).toNat :=
      Tlv.tmpDataLen_eq buf (j + 1)
    have h₂ := Tlv.tmpDataLen_eq buf q
    rw [show q + 1 = j by omega] at h₂
    rw [show q + 2 = j + 1 by omega] at hqm
    have b₁ := (buf (j + 1)).toNat_lt
    have b₂ := (buf (j + 2)).toNat_lt
    have b₃ := (buf (j + 3)).toNat_lt
    have hzero : (buf j).toNat = 0 := by omega
    have hcomp : (buf (j + 2)).toNat = 255 := by omega
    omega
  · rw [show q + 2 = j by omega] at hqm
    omega

/-- The call goes no further than the frame, and takes no other. -/
theorem AtFrame.stops : (startCheck buf 0 len).2.tlvPtr ≤ j ∧
    ((startCheck buf 0 len).1 = .success → Accepts buf len j) := by
  obtain ⟨-, hsum, hskip, hacc, -, -⟩ := startCheck_spec buf len 0 (Nat.zero_add len)
  have hle : (startCheck buf 0 len).2.tlvPtr ≤ j := by
    by_contra hlt
    rcases hskip j (Nat.zero_le j) (by omega) (h.headMatch_at hlen) with hmax | ⟨harr, hc⟩
    · have := h.le
      rw [h.tmpDataLen_eq hlen] at hmax
      simp only [TLV_MAX_SIZE] at hmax
      omega
    · rw [h.tmpDataLen_eq hlen] at harr
      exact hc (h.crcMatch_at hlen (by omega))
  refine ⟨hle, fun hs => ?_⟩
  have ha := hacc hs
  have hj : (startCheck buf 0 len).2.tlvPtr = j := by
    refine Nat.le_antisymm hle (Nat.not_lt.mp fun hlt => ?_)
    exact absurd ha.le_max (Nat.not_le.mpr (h.lt_of_match hlen hlt ha.match_))
  exact (startCheck_success_iff buf len j).mp ⟨hs, hj⟩

end AtFrame

/-- The frame that comes next, in what is held. -/
theorem atFrame_of_split {buf fb : Buf} {len n : Nat} {rest junk bytes more : List UInt8}
    (hf : IsFrame bytes fb n) (hjunk : junk.length ≤ 2)
    (hsplit : buf.read 0 len ++ rest = junk ++ (bytes ++ more)) :
    AtFrame buf fb len junk.length n := by
  refine ⟨fun i h₁ h₂ => ?_, hf.le, hf.tmpDataLen, hf.headMatch, hf.crcMatch, hjunk⟩
  have hl : (buf.read 0 len ++ rest)[junk.length + i]? = some (buf (junk.length + i)) := by
    rw [List.getElem?_append_left (by rwa [Buf.length_read]), Buf.getElem?_read h₁, Nat.zero_add]
  have hb : bytes.length = n + 12 := by rw [hf.eq, Buf.length_read]
  rw [hsplit, List.getElem?_append_right (Nat.le_add_right _ _), Nat.add_sub_cancel_left,
    List.getElem?_append_left (by omega), hf.eq, Buf.getElem?_read h₂, Nat.zero_add] at hl
  exact (Option.some.inj hl).symm

theorem IsFrame.length_eq {bytes : List UInt8} {fb : Buf} {n : Nat} (h : IsFrame bytes fb n) :
    bytes.length = n + 12 := by rw [h.eq, Buf.length_read]

/-- Two bytes less of two lists that agree after the second byte. -/
theorem drop_two_append {m m' : Buf} {a k : Nat} (h : ∀ i, a + 2 ≤ i → m i = m' i)
    (rest : List UInt8) : (m.read a k ++ rest).drop 2 = (m'.read a k ++ rest).drop 2 := by
  rw [List.drop_append, List.drop_append, Buf.length_read, Buf.length_read]
  congr 1
  rcases Nat.lt_or_ge k 2 with hk | hk
  · rw [List.drop_eq_nil_of_le (by rw [Buf.length_read]; omega),
      List.drop_eq_nil_of_le (by rw [Buf.length_read]; omega)]
  · rw [Buf.drop_read hk, Buf.drop_read hk]
    exact Buf.read_congr fun i _ => h _ (by omega)

/-- A call that takes the frame that comes next. -/
theorem Pending.unpack_accepts {buf : Buf} {len n : Nat} {rest junk bytes : List UInt8}
    {fb : Buf} {left : List (List UInt8)} (hf : IsFrame bytes fb n)
    (hleft : ∀ bytes ∈ left, ∃ buf n, IsFrame bytes buf n)
    (hsplit : buf.read 0 len ++ rest = junk ++ (bytes ++ left.flatten))
    (hd : tmpDataLen buf junk.length = n + 8) (ha : Accepts buf len junk.length) :
    Pending ((unpackTlv buf len).buf.read 0 (unpackTlv buf len).bufLen) rest left := by
  have harr := ha.accepted.arrived
  have hlen := congrArg List.length hsplit
  simp only [List.length_append, Buf.length_read, hf.length_eq] at hlen
  rw [read_left ha, hd]
  rw [hd] at harr
  generalize hk : junk.length + (n + 8) + 2 = k at harr ⊢
  have hold : buf.read k (len - k) ++ rest = (bytes ++ left.flatten).drop (n + 10) := by
    have hdrop := congrArg (List.drop k) hsplit
    rw [List.drop_append_of_le_length (by rw [Buf.length_read]; omega), Buf.drop_read (by omega),
      Nat.zero_add, ← hk, Nat.add_assoc, List.drop_length_add_append] at hdrop
    rw [← hk]
    exact hdrop
  have hagree : ∀ i, k + 2 ≤ i → tlvFormatRevert buf junk.length i = buf i := fun i hi =>
    tlvFormatRevert_outside (.inr (by simp only [formatSize]; omega))
  refine ⟨hleft, ((tlvFormatRevert buf junk.length).read k (len - k) ++ rest).take 2, ?_, ?_, ?_⟩
  · rw [List.length_take]
    omega
  · intro _
    rw [List.length_take, List.length_append, Buf.length_read]
    omega
  · conv_lhs => rw [← List.take_append_drop 2 (_ ++ rest)]
    rw [drop_two_append hagree, hold, List.drop_drop, show n + 10 + 2 = n + 12 by omega,
      ← hf.length_eq, List.drop_left]

/-- **One call** on what is held of a stream. -/
theorem Pending.unpack {buf : Buf} {len : Nat} {rest : List UInt8} {left : List (List UInt8)}
    (h : Pending (buf.read 0 len) rest left) :
    ∃ left', Pending ((unpackTlv buf len).buf.read 0 (unpackTlv buf len).bufLen) rest left' := by
  obtain ⟨hframes, junk, hjunk, hend, hsplit⟩ := h
  rcases Nat.lt_or_ge len 12 with hlt | hge
  · have hshort : startCheck buf 0 len = (.lenShort, ⟨0, len, []⟩) := by
      rw [startCheck, if_pos (show len < TLV_MIN_SIZE from hlt)]
    refine ⟨left, hframes, junk, hjunk, hend, ?_⟩
    rw [unpackTlv_of_ne (by rw [hshort]; exact fun hs => by cases hs), hshort]
    dsimp only
    rw [read_moveRemain, Nat.sub_self]
    exact hsplit
  cases left with
  | nil =>
    have hlen := congrArg List.length hsplit
    simp only [List.length_append, Buf.length_read, List.flatten_nil, List.length_nil] at hlen
    omega
  | cons bytes left =>
    obtain ⟨fb, n, hf⟩ := hframes bytes List.mem_cons_self
    rw [List.flatten_cons] at hsplit
    have hat := atFrame_of_split hf hjunk hsplit
    obtain ⟨hle, hacc⟩ := hat.stops hge
    by_cases hs : (startCheck buf 0 len).1 = .success
    · exact ⟨left, Pending.unpack_accepts hf
        (fun b hb => hframes b (List.mem_cons_of_mem _ hb)) hsplit
        (hat.tmpDataLen_eq hge) (hacc hs)⟩
    · -- some of the two bytes are dropped
      have hsum := (startCheck_spec buf len 0 (Nat.zero_add len)).sum
      generalize hptr : (startCheck buf 0 len).2.tlvPtr = ptr at hle hsum
      refine ⟨bytes :: left, hframes, junk.drop ptr, ?_, (fun hnil => by cases hnil), ?_⟩
      · rw [List.length_drop]
        omega
      · rw [unpackTlv_of_ne hs]
        dsimp only
        have hdrop := congrArg (List.drop ptr) hsplit
        rw [List.drop_append_of_le_length (by rw [Buf.length_read]; omega),
          List.drop_append_of_le_length hle, Buf.drop_read (by omega), Nat.zero_add] at hdrop
        rw [read_moveRemain, List.flatten_cons, ← hdrop,
          show (startCheck buf 0 len).2.remainLen = len - ptr by omega,
          show len - (len - ptr) = ptr by omega]

theorem Pending.drain (r : Receiver) {rest : List UInt8} {left : List (List UInt8)}
    (h : Pending r.received rest left) : ∃ left', Pending r.drain.received rest left' := by
  induction hn : r.rcvLen using Nat.strong_induction_on generalizing r left with
  | _ n ih =>
    obtain ⟨left', h'⟩ := h.unpack
    rw [Receiver.drain]
    by_cases hs : (unpackTlv r.rcvBuf r.rcvLen).ret = .success
    · simp only [hs, dif_pos]
      exact ih _ (hn ▸ bufLen_lt_of_success hs) ⟨_, _, _⟩ h' rfl
    · simp only [hs, dif_neg, not_false_eq_true]
      exact ⟨left', h'⟩

/-- Bytes that arrive have not been taken. -/
theorem Pending.arrive (r : Receiver) {bytes rest : List UInt8} {left : List (List UInt8)}
    (h : Pending r.received (bytes ++ rest) left) :
    ∃ left', Pending (r.arrive bytes).received rest left' := by
  obtain ⟨junk, hjunk, hend, hsplit⟩ := h.split
  refine Pending.drain _ ⟨h.frames, junk, hjunk, hend, ?_⟩
  rw [← hsplit, ← List.append_assoc]
  congr 1
  show (r.rcvBuf.write r.rcvLen bytes).read 0 (r.rcvLen + bytes.length) = _
  rw [Buf.read_add, Nat.zero_add, Buf.read_write]
  congr 1
  exact Buf.read_congr fun i hi => Buf.write_outside (.inl (by omega))

/-- **A stream** of arrivals. -/
theorem Pending.receive (arrivals : List (List UInt8)) :
    ∀ (r : Receiver) {left : List (List UInt8)},
    Pending r.received arrivals.flatten left →
    ∃ left', Pending (r.receive arrivals).received [] left' := by
  induction arrivals with
  | nil => exact fun r left h => ⟨left, h⟩
  | cons bytes arrivals ih =>
    intro r left h
    obtain ⟨left', h'⟩ := h.arrive
    exact ih _ h'

/-! ### Delivery -/

/-- The commands are delivered as they were sent, none before its frame has arrived, and nothing is
left. -/
structure Delivers (infos : List TlvCmdInfo) (sent : List (List UInt8))
    (arrivals : List (List UInt8)) (r : Receiver) : Prop where
  inOrder : (r.receive arrivals).delivered = infos
  onTime : ∀ k, (sent.take (r.receive (arrivals.take k)).delivered.length).flatten.length ≤
    (arrivals.take k).flatten.length
  residue : (r.receive arrivals).rcvLen = 0

/-- A receiver to which nothing has arrived. -/
def Receiver.start (rcvBuf : Buf) : Receiver := ⟨rcvBuf, 0, []⟩

/-- Something of the last frame is left, however the stream is cut. -/
theorem rcvLen_ne_zero {heap rcvBuf : Buf} {seqNum : UInt16} {infos : List TlvCmdInfo}
    {arrivals : List (List UInt8)} (hn : ∀ info ∈ infos, info.dataBuf.length ≤ 244)
    (hne : infos ≠ []) (hcut : arrivals.flatten = (frames heap seqNum infos).flatten) :
    ((Receiver.start rcvBuf).receive arrivals).rcvLen ≠ 0 := by
  have hfirst : Pending (Receiver.start rcvBuf).received arrivals.flatten
      (frames heap seqNum infos) := by
    refine ⟨isFrame_of_mem_frames hn, [], by decide, fun hnil => ?_, by rw [hcut]; rfl⟩
    cases infos with
    | nil => exact absurd rfl hne
    | cons info infos => cases hnil
  obtain ⟨left, h⟩ := Pending.receive arrivals _ hfirst
  intro hzero
  refine h.ne_nil ?_
  rw [Receiver.received, hzero, Buf.read_zero]

theorem Receiver.drain_of_ne {r : Receiver} (h : (unpackTlv r.rcvBuf r.rcvLen).ret ≠ .success) :
    r.drain = ⟨(unpackTlv r.rcvBuf r.rcvLen).buf, (unpackTlv r.rcvBuf r.rcvLen).bufLen,
      r.delivered⟩ := by
  rw [Receiver.drain]
  simp only [h, dif_neg, not_false_eq_true]

/-- Nothing comes of empty arrivals. -/
theorem receive_of_flatten_eq_nil (rcvBuf : Buf) : ∀ {arrivals : List (List UInt8)},
    arrivals.flatten = [] → (Receiver.start rcvBuf).receive arrivals = .start rcvBuf := by
  have hshort : startCheck rcvBuf 0 0 = (.lenShort, ⟨0, 0, []⟩) := by
    rw [startCheck, if_pos (by decide)]
  have hne : (startCheck rcvBuf 0 0).1 ≠ .success := by
    rw [hshort]
    exact fun hs => by cases hs
  have hunpack : unpackTlv rcvBuf 0 = ⟨.lenShort, none, rcvBuf, 0, []⟩ := by
    rw [unpackTlv_of_ne hne, hshort]
    rfl
  have harrive : (Receiver.start rcvBuf).arrive [] = .start rcvBuf := by
    show Receiver.drain ⟨rcvBuf.write 0 [], 0, []⟩ = _
    rw [Buf.write_nil, Receiver.drain_of_ne (by rw [hunpack]; exact fun hs => by cases hs), hunpack]
    rfl
  intro arrivals
  induction arrivals with
  | nil => exact fun _ => rfl
  | cons bytes arrivals ih =>
    intro h
    obtain ⟨rfl, h⟩ := List.append_eq_nil_iff.mp h
    show ((Receiver.start rcvBuf).arrive []).receive arrivals = _
    rw [harrive]
    exact ih h

/-- **When a stream of frames is delivered and consumed**: only when it is empty. -/
theorem stream_delivers_iff (heap rcvBuf : Buf) (seqNum : UInt16) {infos : List TlvCmdInfo}
    {arrivals : List (List UInt8)} (hn : ∀ info ∈ infos, info.dataBuf.length ≤ 244)
    (hcut : arrivals.flatten = (frames heap seqNum infos).flatten) :
    Delivers infos (frames heap seqNum infos) arrivals (.start rcvBuf) ↔ infos = [] := by
  constructor
  · intro h
    by_contra hne
    exact rcvLen_ne_zero hn hne hcut h.residue
  · rintro rfl
    have hidle := receive_of_flatten_eq_nil rcvBuf hcut
    exact ⟨by rw [hidle]; rfl, fun k => by simp [frames], by rw [hidle]; rfl⟩

/-- Two frames, of one byte of payload and of three, that arrive in two parts. -/
theorem stream_delivers_iff_twoFrames :
    let infos : List TlvCmdInfo := [⟨1, [0x31], 1⟩, ⟨2, [0x41, 0x42, 0x43], 1⟩]
    let sent := frames (fun _ => 0) 7 infos
    ¬ Delivers infos sent [sent.flatten.take 5, sent.flatten.drop 5] (.start fun _ => 0) := by
  intro infos sent
  have hcut : [sent.flatten.take 5, sent.flatten.drop 5].flatten = sent.flatten := by
    rw [List.flatten_cons, List.flatten_singleton, List.take_append_drop]
  have hn : ∀ info ∈ infos, info.dataBuf.length ≤ 244 := by decide
  exact (stream_delivers_iff (fun _ => 0) (fun _ => 0) 7 hn hcut).not.mpr (List.cons_ne_nil _ _)

/-- A frame of one byte of payload that arrives at once. -/
theorem not_stream_delivers :
    ¬ Delivers [⟨1, [0x31], 1⟩] (frames (fun _ => 0) 0 [⟨1, [0x31], 1⟩])
      (frames (fun _ => 0) 0 [⟨1, [0x31], 1⟩]) (.start fun _ => 0) :=
  fun h => rcvLen_ne_zero (by decide) (by decide) rfl h.residue

end XY1100.Tlv
