import XY1100.Support.Bytes

/-!
# TLV — packing and unpacking frames

`tlv_protocol.c`: a frame is a header of 12 bytes (`tlv_format_t`) and a payload.  The header
fields are stored in the byte order of the core and then swapped, `data_len` is the size of the
payload and 8 more, and the CRC starts at `seq_num`.

`unpack_tlv` looks for a length and its complement, one byte after the other, and works on the
receive buffer in place.  The reads it makes are recorded beside its results (`reads`): what it
reads beyond the bytes received is whatever the buffer holds there.

The critical section around the sequence number and the RC4 branch, which copies as the other one
does, are left out.
-/

namespace XY1100.Tlv
open Support
open Buf (toNat_half)

/-! ### The format -/

def TLV_MIN_SIZE : Nat := 12
def TLV_MAX_SIZE : Nat := 256 - 2

/-- `sizeof(tlv_format_t)`. -/
def formatSize : Nat := 12

/-- Offsets in `tlv_format_t`. -/
def complementLenOffset : Nat := 2
def crcOffset : Nat := 4
def seqNumOffset : Nat := 6
def verNumOffset : Nat := 8
def dataTypeOffset : Nat := 9
def flagOffset : Nat := 10
def dataBufOffset : Nat := 12

/-- `B_L_REVERT16`. -/
def bLRevert16 (var : UInt16) : UInt16 := (var &&& 0xff) <<< 8 ||| (var &&& 0xff00) >>> 8

/-- `tlv_cmd_info_t`, the bytes of `data_buf` in place of its address and `data_len`. -/
structure TlvCmdInfo where
  cmdId : UInt16
  dataBuf : List UInt8
  dataType : UInt16
  deriving DecidableEq, Repr

/-- One round of the inner loop of `crc16_calc`. -/
def crcRound (crc : UInt16) : UInt16 :=
  if crc &&& 0x0001 ≠ 0 then (crc >>> 1) ^^^ 0xa001 else crc >>> 1

/-- `crc16_calc`. -/
def crc16Calc (packet : List UInt8) : UInt16 :=
  packet.foldl (fun crc b => crcRound^[8] (crc ^^^ b.toUInt16)) 0xFFFF

/-! ### Packing -/

/-- `pack_tlv` with the sequence number `seqNum`: the buffer and the size of the frame, or nothing
when the buffer is too small. -/
def packTlv (buf : Buf) (bufLen : Nat) (seqNum : UInt16) (info : TlvCmdInfo) :
    Option (Buf × Nat) :=
  let dataLen := UInt16.ofNat info.dataBuf.length
  if bufLen < dataLen.toNat + formatSize then none
  else
    let buf := buf.putHalf flagOffset info.cmdId
    let buf := buf.putHalf 0 (dataLen + 8)
    let buf := buf.putHalf complementLenOffset (0xFFFF - buf.half 0)
    let buf := buf.putHalf seqNumOffset seqNum
    let buf := buf.write verNumOffset [1]
    let buf := buf.write dataTypeOffset [info.dataType.toUInt8]
    let buf := buf.write dataBufOffset info.dataBuf
    let buf := buf.putHalf seqNumOffset (bLRevert16 (buf.half seqNumOffset))
    let buf := buf.putHalf flagOffset (bLRevert16 (buf.half flagOffset))
    let buf := buf.putHalf crcOffset (crc16Calc (buf.read seqNumOffset ((buf.half 0).toNat - 4)))
    let buf := buf.putHalf 0 (bLRevert16 (buf.half 0))
    let buf := buf.putHalf complementLenOffset (bLRevert16 (buf.half complementLenOffset))
    let buf := buf.putHalf crcOffset (bLRevert16 (buf.half crcOffset))
    some (buf, dataLen.toNat + formatSize)

/-! ### Unpacking -/

/-- `tmp_data_len` at the address `p`. -/
def tmpDataLen (buf : Buf) (p : Nat) : Nat := (bLRevert16 (buf.half p)).toNat

/-- `tmp_complement_len` at the address `p`. -/
def tmpComplementLen (buf : Buf) (p : Nat) : Nat := (bLRevert16 (buf.half (p + 2))).toNat

/-- The length at `p` and its complement match. -/
def HeadMatch (buf : Buf) (p : Nat) : Prop :=
  (tmpDataLen buf p : Int) = 0xFFFF - (tmpComplementLen buf p : Int)

instance (buf : Buf) (p : Nat) : Decidable (HeadMatch buf p) :=
  inferInstanceAs (Decidable (_ = _))

/-- The CRC of the frame at `p` matches. -/
def CrcMatch (buf : Buf) (p : Nat) : Prop :=
  buf.half (p + crcOffset) =
    bLRevert16 (crc16Calc (buf.read (p + seqNumOffset) (tmpDataLen buf p - 4)))

instance (buf : Buf) (p : Nat) : Decidable (CrcMatch buf p) :=
  inferInstanceAs (Decidable (_ = _))

/-- A range of bytes that was read: its start and its size. -/
abbrev Read := Nat × Nat

/-- `tlv_ptr` and `remain_len`, and the reads made on the way. -/
structure Scan where
  tlvPtr : Nat
  remainLen : Nat
  reads : List Read

/-- The loop that looks for a length and its complement. -/
def checkHead (buf : Buf) : Nat → Nat → Scan
  | p, 0 => ⟨p, 0, []⟩
  | p, remain + 1 =>
    if ¬ HeadMatch buf p ∧ 4 < remain + 1 then
      let scan := checkHead buf (p + 1) remain
      { scan with reads := (p + 1, 4) :: scan.reads }
    else ⟨p, remain + 1, []⟩

theorem remainLen_checkHead_le (buf : Buf) : ∀ (remain p : Nat),
    (checkHead buf p remain).remainLen ≤ remain
  | 0, _ => le_rfl
  | remain + 1, p => by
    rw [checkHead]
    split_ifs
    · exact (remainLen_checkHead_le buf remain (p + 1)).trans (Nat.le_succ remain)
    · exact le_rfl

/-- The values `unpack_tlv` returns. -/
inductive TlvRet
  | success
  | lenShort
  | rcvUnfinished
  deriving DecidableEq, Repr

/-- From `start_check` to the point where a frame is accepted or the call gives up. -/
def startCheck (buf : Buf) (p remain : Nat) : TlvRet × Scan :=
  if remain < TLV_MIN_SIZE then (.lenShort, ⟨p, remain, []⟩)
  else
    let head := checkHead buf p remain
    let reads := (p, 4) :: head.reads
    if hr : head.remainLen < TLV_MIN_SIZE then (.lenShort, { head with reads })
    else if TLV_MAX_SIZE < tmpDataLen buf head.tlvPtr then
      let res := startCheck buf (head.tlvPtr + 1) (head.remainLen - 1)
      (res.1, { res.2 with reads := reads ++ res.2.reads })
    else if head.remainLen < tmpDataLen buf head.tlvPtr + 2 then
      (.rcvUnfinished, { head with reads })
    else
      let reads := reads ++ [(head.tlvPtr + crcOffset, 2),
        (head.tlvPtr + seqNumOffset, tmpDataLen buf head.tlvPtr - 4)]
      if ¬ CrcMatch buf head.tlvPtr then
        let res := startCheck buf (head.tlvPtr + 1) (head.remainLen - 1)
        (res.1, { res.2 with reads := reads ++ res.2.reads })
      else (.success, { head with reads })
termination_by remain
decreasing_by
  all_goals
    have := remainLen_checkHead_le buf remain p
    simp only [TLV_MIN_SIZE] at *
    omega

/-- `tlv_format_t_B_L_REVERT` of the header at `p`. -/
def tlvFormatRevert (buf : Buf) (p : Nat) : Buf :=
  let buf := buf.putHalf p (bLRevert16 (buf.half p))
  let buf := buf.putHalf (p + complementLenOffset) (bLRevert16 (buf.half (p + complementLenOffset)))
  let buf := buf.putHalf (p + crcOffset) (bLRevert16 (buf.half (p + crcOffset)))
  let buf := buf.putHalf (p + seqNumOffset) (bLRevert16 (buf.half (p + seqNumOffset)))
  buf.putHalf (p + flagOffset) (bLRevert16 (buf.half (p + flagOffset)))

/-- What `unpack_tlv` returns and leaves. -/
structure Unpacked where
  ret : TlvRet
  info : Option TlvCmdInfo
  buf : Buf
  bufLen : Nat
  reads : List Read

/-- The end of `unpack_tlv`, which moves the remaining bytes to the front. -/
def moveRemain (buf : Buf) (len remain : Nat) : Buf :=
  if remain ≠ len then buf.write 0 (buf.read (len - remain) remain) else buf

/-- `unpack_tlv`.  The size of the payload is an `unsigned short`. -/
def unpackTlv (buf : Buf) (len : Nat) : Unpacked :=
  let (ret, scan) := startCheck buf 0 len
  if ret = .success then
    let p := scan.tlvPtr
    let buf := tlvFormatRevert buf p
    let dataLen := (buf.half p - 8).toNat
    let remain := scan.remainLen - ((buf.half p).toNat + 2)
    { ret
      info := some ⟨buf.half (p + flagOffset), buf.read (p + dataBufOffset) dataLen,
        (buf (p + dataTypeOffset)).toUInt16⟩
      buf := moveRemain buf len remain
      bufLen := remain
      reads := scan.reads ++ [(p, formatSize), (p + dataBufOffset, dataLen)] }
  else
    { ret, info := none, buf := moveRemain buf len scan.remainLen, bufLen := scan.remainLen
      reads := scan.reads }

/-! ### Half words -/

theorem toNat_bLRevert16 (v : UInt16) :
    (bLRevert16 v).toNat = v.toNat / 256 + 256 * (v.toNat % 256) := toNat_swapBytes v

theorem bLRevert16_bLRevert16 (v : UInt16) : bLRevert16 (bLRevert16 v) = v := by
  have hv := v.toNat_lt
  apply UInt16.toNat_inj.mp
  rw [toNat_bLRevert16, toNat_bLRevert16]
  omega

/-- A length is stored with its high byte first. -/
theorem tmpDataLen_eq (buf : Buf) (p : Nat) :
    tmpDataLen buf p = 256 * (buf p).toNat + (buf (p + 1)).toNat := by
  have h₀ := (buf p).toNat_lt
  have h₁ := (buf (p + 1)).toNat_lt
  rw [tmpDataLen, toNat_bLRevert16, toNat_half]
  omega

/-- The length at `p` and the one after it are complements. -/
theorem headMatch_iff (buf : Buf) (p : Nat) :
    HeadMatch buf p ↔ tmpDataLen buf p + tmpDataLen buf (p + 2) = 0xFFFF := by
  show (tmpDataLen buf p : Int) = 0xFFFF - (tmpDataLen buf (p + 2) : Int) ↔ _
  omega

end XY1100.Tlv
