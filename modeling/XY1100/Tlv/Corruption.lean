import Mathlib.Data.Nat.Bitwise
import XY1100.Support.Folds
import XY1100.Tlv.Stream

/-!
# TLV — a changed byte

A changed byte changes the CRC of the bytes it is among (`crc16Calc_changed`).  The CRC of a frame
starts at `seq_num` and covers `data_len - 4` bytes, two less than the frame has from there on: the
last two bytes are delivered without being covered.

A frame that is not taken is searched for another one, byte after byte, and a payload may hold one.
What is taken there is of another size than the frame that was sent, so the receiver takes nothing
for the command sent exactly when no such frame is found and the changed byte is covered, or the
frame is too large to be taken at all (`acceptsAsSent_iff`).
-/

namespace XY1100.Tlv
open Support
open Buf (toNat_half half_congr)

/-! ### The CRC -/

theorem toNat_crcRound (crc : UInt16) : (crcRound crc).toNat =
    if crc.toNat % 2 = 1 then crc.toNat / 2 ^^^ 0xa001 else crc.toNat / 2 := by
  have hshift : (crc >>> 1).toNat = crc.toNat / 2 := by
    rw [UInt16.toNat_shiftRight, show (1 : UInt16).toNat % 16 = 1 from rfl, Nat.shiftRight_one]
  have hbit : crc &&& 0x0001 ≠ 0 ↔ crc.toNat % 2 = 1 := by
    rw [ne_eq, ← UInt16.toNat_inj, UInt16.toNat_and,
      show (0x0001 : UInt16).toNat = 2 ^ 1 - 1 from rfl,
      Nat.and_two_pow_sub_one_eq_mod, show (0 : UInt16).toNat = 0 from rfl]
    omega
  rw [crcRound, ← hshift]
  by_cases h : crc.toNat % 2 = 1
  · rw [if_pos h, if_pos (hbit.mpr h), UInt16.toNat_xor]
    rfl
  · rw [if_neg h, if_neg (mt hbit.mp h)]

/-- The highest bit tells whether the polynomial was added. -/
theorem testBit_crcRound (crc : UInt16) :
    (crcRound crc).toNat.testBit 15 = decide (crc.toNat % 2 = 1) := by
  have hlt : (crc.toNat / 2).testBit 15 = false :=
    Nat.testBit_lt_two_pow (by have := crc.toNat_lt; omega)
  rw [toNat_crcRound]
  split_ifs with h
  · rw [Nat.testBit_xor, hlt]
    simp [h, show Nat.testBit 0xa001 15 = true from rfl]
  · simp [h, hlt]

theorem crcRound_injective : Function.Injective crcRound := by
  intro c c' h
  have hbit := congrArg (fun v : UInt16 => v.toNat.testBit 15) h
  have hval := congrArg UInt16.toNat h
  simp only [testBit_crcRound, decide_eq_decide] at hbit
  rw [toNat_crcRound, toNat_crcRound] at hval
  apply UInt16.toNat_inj.mp
  by_cases hodd : c.toNat % 2 = 1
  · rw [if_pos hodd, if_pos (hbit.mp hodd)] at hval
    have hhalf := congrArg (· ^^^ 0xa001) hval
    simp only [Nat.xor_xor_cancel_right] at hhalf
    omega
  · rw [if_neg hodd, if_neg (mt hbit.mpr hodd)] at hval
    omega

theorem cancels_crc :
    Cancels fun (crc : UInt16) (b : UInt8) => crcRound^[8] (crc ^^^ b.toUInt16) := by
  refine Cancels.of_injective ⟨fun b c c' h => ?_, fun crc b b' h => ?_⟩ crcRound_injective 8
  · exact UInt16.xor_left_inj b.toUInt16 |>.mp h
  · have h' := UInt16.xor_right_inj crc |>.mp h
    have hnat := congrArg UInt16.toNat h'
    rw [UInt8.toNat_toUInt16, UInt8.toNat_toUInt16] at hnat
    exact UInt8.toNat_inj.mp hnat

/-- **A changed byte changes the CRC** of the bytes from `a` on. -/
theorem crc16Calc_changed {buf : Buf} {a n j : Nat} {v : UInt8} (h : j < n) :
    crc16Calc ((buf.write (a + j) [v]).read a n) = crc16Calc (buf.read a n) ↔ v = buf (a + j) := by
  have hsplit : ∀ m : Buf, m.read a n =
      m.read a j ++ m (a + j) :: m.read (a + j + 1) (n - (j + 1)) := by
    intro m
    rw [show n = j + (1 + (n - (j + 1))) by omega, Buf.read_add, Buf.read_add,
      show j + (1 + (n - (j + 1))) - (j + 1) = n - (j + 1) by omega]
    rfl
  have hin : (buf.write (a + j) [v]) (a + j) = v := by
    have h₀ : (buf.write (a + j) [v]) (a + j + 0) = v := Buf.write_inside Nat.zero_lt_one
    rwa [Nat.add_zero] at h₀
  have hbefore : (buf.write (a + j) [v]).read a j = buf.read a j :=
    Buf.read_congr fun i hi => Buf.write_outside (.inl (by omega))
  have hafter : (buf.write (a + j) [v]).read (a + j + 1) (n - (j + 1)) =
      buf.read (a + j + 1) (n - (j + 1)) :=
    Buf.read_congr fun i _ => Buf.write_outside (.inr (by rw [List.length_singleton]; omega))
  rw [hsplit, hsplit buf, hin, hbefore, hafter]
  exact cancels_crc.foldl_append_cons_inj 0xFFFF _ _

/-! ### A frame with a changed byte -/

theorem half_inj {m m' : Buf} {a : Nat} (h : m.half a = m'.half a) :
    m a = m' a ∧ m (a + 1) = m' (a + 1) := by
  have hnat := congrArg UInt16.toNat h
  have h₀ := (m a).toNat_lt
  have h₁ := (m' a).toNat_lt
  rw [toNat_half, toNat_half] at hnat
  constructor <;> apply UInt8.toNat_inj.mp <;> omega

theorem half_flag_tlvFormatRevert (buf : Buf) (p : Nat) :
    (tlvFormatRevert buf p).half (p + flagOffset) = bLRevert16 (buf.half (p + flagOffset)) := by
  obtain ⟨h₀, h₁⟩ := flag_tlvFormatRevert buf p
  have hlt := (buf (p + 10)).toNat_lt
  have hlt' := (buf (p + 11)).toNat_lt
  apply UInt16.toNat_inj.mp
  simp only [flagOffset]
  rw [toNat_bLRevert16, toNat_half, toNat_half, show p + 10 + 1 = p + 11 from rfl, h₀, h₁]
  omega

/-- What a receiver is told of a command; the data type is a byte of the frame. -/
def asReceived (info : TlvCmdInfo) : TlvCmdInfo :=
  { info with dataType := info.dataType.toUInt8.toUInt16 }

/-- If the call takes a frame, it is told the command that was sent. -/
def AcceptsAsSent (buf : Buf) (len : Nat) (info : TlvCmdInfo) : Prop :=
  (unpackTlv buf len).ret = .success → (unpackTlv buf len).info = some (asReceived info)

section Altered
variable {buf : Buf} {info : TlvCmdInfo} (hp : Packed buf info) {j : Nat} {v : UInt8}
  (hj : seqNumOffset ≤ j)

theorem altered_outside {i : Nat} (h : i ≠ j) : (buf.write j [v]) i = buf i :=
  Buf.write_outside (by rw [List.length_singleton]; omega)

theorem altered_at : (buf.write j [v]) j = v := by
  have h₀ : (buf.write j [v]) (j + 0) = v := Buf.write_inside Nat.zero_lt_one
  rwa [Nat.add_zero] at h₀

include hp hj

theorem tmpDataLen_altered : tmpDataLen (buf.write j [v]) 0 = info.dataBuf.length + 8 := by
  simp only [seqNumOffset] at hj
  rw [← hp.tmpDataLen]
  exact tmpDataLen_congr fun i hi => altered_outside (by omega)

theorem headMatch_altered : HeadMatch (buf.write j [v]) 0 := by
  simp only [seqNumOffset] at hj
  exact (headMatch_congr fun i hi => altered_outside (by omega)).mpr hp.headMatch

/-- The CRC of the frame tells of the byte if it covers it. -/
theorem crcMatch_altered (hv : v ≠ buf j) :
    CrcMatch (buf.write j [v]) 0 ↔ info.dataBuf.length + 10 ≤ j := by
  have hsum : buf.half 4 = bLRevert16 (crc16Calc (buf.read 6 (info.dataBuf.length + 4))) := by
    have h := hp.crcMatch
    rw [CrcMatch, hp.tmpDataLen] at h
    exact h
  have hkept : (buf.write j [v]).half 4 = buf.half 4 := by
    simp only [seqNumOffset] at hj
    exact half_congr (altered_outside (by omega)) (altered_outside (by omega))
  rw [CrcMatch, tmpDataLen_altered hp hj]
  show (buf.write j [v]).half 4 =
    bLRevert16 (crc16Calc ((buf.write j [v]).read 6 (info.dataBuf.length + 4))) ↔ _
  rw [hkept, hsum]
  constructor
  · intro h
    by_contra hlt
    obtain ⟨k, rfl⟩ := Nat.exists_eq_add_of_le (show 6 ≤ j from hj)
    have h' := congrArg bLRevert16 h
    rw [bLRevert16_bLRevert16, bLRevert16_bLRevert16] at h'
    exact hv ((crc16Calc_changed (by omega)).mp h'.symm)
  · intro h
    rw [Buf.read_congr fun i hi => altered_outside (by omega)]

/-- **When the frame itself is taken** in spite of the byte. -/
theorem accepts_altered_iff (hv : v ≠ buf j) :
    Accepts (buf.write j [v]) (info.dataBuf.length + formatSize) 0 ↔
      info.dataBuf.length + 8 ≤ TLV_MAX_SIZE ∧ info.dataBuf.length + 10 ≤ j := by
  have hd := tmpDataLen_altered (v := v) hp hj
  constructor
  · intro h
    have hmax := h.accepted.le_max
    rw [hd] at hmax
    exact ⟨hmax, (crcMatch_altered hp hj hv).mp h.accepted.crc⟩
  · rintro ⟨hmax, hcov⟩
    refine ⟨⟨by simp only [formatSize]; omega, headMatch_altered hp hj, by rwa [hd], ?_,
      (crcMatch_altered hp hj hv).mpr hcov⟩, fun q hq => absurd hq (Nat.not_lt_zero q)⟩
    rw [hd]
    simp only [formatSize]
    omega

/-- A byte that is not covered is delivered: it is one of the command id, or of the payload. -/
theorem info_ne_of_accepts_zero (hv : v ≠ buf j) (hj' : j < info.dataBuf.length + formatSize)
    (h : Accepts (buf.write j [v]) (info.dataBuf.length + formatSize) 0) :
    (unpackTlv (buf.write j [v]) (info.dataBuf.length + formatSize)).info ≠
      some (asReceived info) := by
  obtain ⟨-, hcov⟩ := (accepts_altered_iff hp hj hv).mp h
  have hd := tmpDataLen_altered (v := v) hp hj
  have hlen : payloadLen (buf.write j [v]) 0 = info.dataBuf.length := by
    rw [payloadLen_of_le (by omega), hd, Nat.add_sub_cancel]
  rw [unpackTlv_of_accepts h, hlen]
  dsimp only
  intro heq
  obtain ⟨hcmd, hbuf, -⟩ := TlvCmdInfo.mk.inj (Option.some.inj heq)
  have hflag : (buf.write j [v]).half 10 = buf.half 10 := by
    rw [half_flag_tlvFormatRevert] at hcmd
    have hrev := congrArg bLRevert16 hcmd
    rw [bLRevert16_bLRevert16] at hrev
    exact hrev.trans hp.flag.symm
  obtain ⟨h₀, h₁⟩ := half_inj hflag
  rcases Nat.lt_or_ge j 12 with hlt | hge
  · obtain rfl | rfl : j = 10 ∨ j = 11 := by omega
    · exact hv (altered_at.symm.trans h₀)
    · exact hv (altered_at.symm.trans h₁)
  · obtain ⟨i, rfl⟩ := Nat.exists_eq_add_of_le hge
    simp only [formatSize] at hj'
    have hi : i < info.dataBuf.length := by omega
    have hread := congrArg (·[i]?) (hbuf.trans hp.payload.symm)
    simp only [dataBufOffset] at hread
    rw [Buf.getElem?_read hi, Buf.getElem?_read hi,
      tlvFormatRevert_outside (.inr (by simp only [formatSize]; omega)), Nat.zero_add] at hread
    exact hv (altered_at.symm.trans (Option.some.inj hread))

/-- A frame found further on is of another size. -/
theorem info_ne_of_accepts_pos (hn : info.dataBuf.length + formatSize ≤ 0xFFFF) {q : Nat}
    (hq : 0 < q) (h : Accepts (buf.write j [v]) (info.dataBuf.length + formatSize) q) :
    (unpackTlv (buf.write j [v]) (info.dataBuf.length + formatSize)).info ≠
      some (asReceived info) := by
  simp only [seqNumOffset, formatSize] at hj hn
  have harr := h.accepted.arrived
  have hmax := h.accepted.le_max
  have hd := tmpDataLen_altered (v := v) hp hj
  have hm : _ + tmpDataLen (buf.write j [v]) 2 = 0xFFFF :=
    (headMatch_iff _ _).mp (headMatch_altered hp hj)
  have hlen : payloadLen (buf.write j [v]) q ≠ info.dataBuf.length := by
    rcases Nat.lt_or_ge (tmpDataLen (buf.write j [v]) q) 8 with hlt | hge
    · rw [payloadLen_of_lt hlt]
      omega
    · rw [payloadLen_of_le hge]
      intro heq
      simp only [formatSize, TLV_MAX_SIZE] at harr hmax
      obtain rfl | rfl : q = 1 ∨ q = 2 := by omega
      · -- the length and its complement, one byte later
        have e₀ : _ = _ + ((buf.write j [v]) 1).toNat := tmpDataLen_eq (buf.write j [v]) 0
        have e₁ : _ = _ + ((buf.write j [v]) 2).toNat := tmpDataLen_eq (buf.write j [v]) 1
        have e₂ : _ = _ + ((buf.write j [v]) 3).toNat := tmpDataLen_eq (buf.write j [v]) 2
        have b₃ := ((buf.write j [v]) 3).toNat_lt
        omega
      · omega
  rw [unpackTlv_of_accepts h]
  dsimp only
  intro heq
  obtain ⟨-, hbuf, -⟩ := TlvCmdInfo.mk.inj (Option.some.inj heq)
  have hlen' := congrArg List.length hbuf
  rw [Buf.length_read] at hlen'
  exact hlen hlen'

end Altered

/-! ### Corruption -/

/-- The call takes nothing for the frame of `n` bytes of payload with a changed byte at `j`: the CRC
covers the byte, or the frame is too large to be taken, and no frame starts further on. -/
structure Rejects (buf : Buf) (n j : Nat) : Prop where
  covered : j < n + 10 ∨ TLV_MAX_SIZE < n + 8
  noOther : ∀ q, 0 < q → ¬ Accepts buf (n + formatSize) q

/-- **When a frame with a changed byte is not taken for another one.** -/
theorem acceptsAsSent_iff {heap buf : Buf} {bufLen size : Nat} {seqNum : UInt16}
    {info : TlvCmdInfo} (hn : info.dataBuf.length ≤ 0xFFFF) (hb : bufLen ≤ 0xFFFF)
    (hpack : packTlv heap bufLen seqNum info = some (buf, size)) {j : Nat} {v : UInt8}
    (hj : seqNumOffset ≤ j) (hj' : j < size) (hv : v ≠ buf j) :
    AcceptsAsSent (buf.write j [v]) size info ↔
      Rejects (buf.write j [v]) info.dataBuf.length j := by
  obtain ⟨hp, rfl⟩ := packed_of_packTlv hn hb hpack
  have hsize : info.dataBuf.length + formatSize ≤ 0xFFFF := (size_le_of_packTlv hn hpack).trans hb
  constructor
  · intro h
    have hsucc : ∀ q, Accepts (buf.write j [v]) (info.dataBuf.length + formatSize) q →
        (unpackTlv (buf.write j [v]) (info.dataBuf.length + formatSize)).info =
          some (asReceived info) := fun q hq => h (by rw [unpackTlv_of_accepts hq])
    refine ⟨?_, fun q hq ha => info_ne_of_accepts_pos hp hj hsize hq ha (hsucc q ha)⟩
    by_contra hcov
    have ha := (accepts_altered_iff hp hj hv).mpr ⟨by omega, by omega⟩
    exact info_ne_of_accepts_zero hp hj hv hj' ha (hsucc 0 ha)
  · rintro ⟨hcov, hother⟩ hs
    have hsc : (startCheck (buf.write j [v]) 0 (info.dataBuf.length + formatSize)).1 =
        .success := by
      by_contra hne
      rw [unpackTlv_of_ne hne] at hs
      exact hne hs
    have ha := (startCheck_success_iff _ _ _).mp ⟨hsc, rfl⟩
    rcases Nat.eq_zero_or_pos
      (startCheck (buf.write j [v]) 0 (info.dataBuf.length + formatSize)).2.tlvPtr with h₀ | hpos
    · rw [h₀] at ha
      have := (accepts_altered_iff hp hj hv).mp ha
      omega
    · exact absurd ha (hother _ hpos)

/-- A command of one byte of payload, and its frame. -/
def oneByteInfo : TlvCmdInfo := ⟨1, [0x31], 1⟩

def oneByteFrame : Buf := ((packTlv (fun _ => 0) 13 0 oneByteInfo).getD (fun _ => 0, 0)).1

theorem packTlv_oneByteInfo : packTlv (fun _ => 0) 13 0 oneByteInfo = some (oneByteFrame, 13) := rfl

/-- A changed sequence number is not taken. -/
theorem acceptsAsSent_iff_oneByteFrame :
    AcceptsAsSent (oneByteFrame.write 6 [1]) 13 oneByteInfo :=
  (acceptsAsSent_iff (by decide) (by decide) packTlv_oneByteInfo (by decide) (by decide)
    (by decide)).mpr ⟨.inl (by decide), fun q hq ha => by
      obtain rfl : q = 1 := by
        have hhead : q + 12 ≤ 13 := ha.accepted.header
        omega
      exact absurd ha.accepted.match_ (by decide +kernel)⟩

/-- A changed payload is. -/
theorem not_acceptsAsSent_oneByteFrame :
    ¬ AcceptsAsSent (oneByteFrame.write 12 [0x32]) 13 oneByteInfo := by
  intro h
  obtain ⟨hp, -⟩ := packed_of_packTlv (by decide) (by decide) packTlv_oneByteInfo
  have hv : 0x32 ≠ oneByteFrame 12 := by decide
  have ha : Accepts (oneByteFrame.write 12 [0x32]) (oneByteInfo.dataBuf.length + formatSize) 0 :=
    (accepts_altered_iff hp (by decide) hv).mpr ⟨by decide, by decide⟩
  exact info_ne_of_accepts_zero hp (by decide) hv (by decide) ha
    (h (by rw [show 13 = oneByteInfo.dataBuf.length + formatSize from rfl,
      unpackTlv_of_accepts ha]))

end XY1100.Tlv
