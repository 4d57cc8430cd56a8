import XY1100.Tlv.Protocol

/-!
# TLV — where `unpack_tlv` stops

`startCheck` passes over the addresses at which no frame can start (`Skipped`) and accepts the
first frame whose length, complement and CRC match (`Accepted`).  The frame is the length it
declares and four bytes more; the call asks for two bytes more only, and for no least length.

So it reads within the bytes received, and leaves a suffix of them, exactly when the frame it
accepts declares at least eight bytes, has arrived as a whole, and has equal flag bytes if it has
less than two bytes of payload: the header it has swapped in place is then not all removed
(`unpackTlv_safe_iff`).
-/

namespace XY1100.Tlv
open Support
open Buf (toNat_half half_putHalf putHalf_outside half_putHalf_ne)

/-! ### The scan -/

/-- No frame is taken at `q`, of bytes received up to `e`. -/
def Skipped (buf : Buf) (e q : Nat) : Prop :=
  HeadMatch buf q → TLV_MAX_SIZE < tmpDataLen buf q ∨
    (q + tmpDataLen buf q + 2 ≤ e ∧ ¬ CrcMatch buf q)

/-- The frame at `q` passes the tests. -/
structure Accepted (buf : Buf) (e q : Nat) : Prop where
  header : q + formatSize ≤ e
  match_ : HeadMatch buf q
  le_max : tmpDataLen buf q ≤ TLV_MAX_SIZE
  arrived : q + tmpDataLen buf q + 2 ≤ e
  crc : CrcMatch buf q

theorem Accepted.not_skipped {buf : Buf} {e q : Nat} (h : Accepted buf e q) :
    ¬ Skipped buf e q := by
  intro hs
  rcases hs h.match_ with hl | ⟨-, hc⟩
  · exact absurd h.le_max (Nat.not_le.mpr hl)
  · exact hc h.crc

/-- The loop that looks for a header stops at the first match, or four bytes before the end. -/
structure ChecksHead (buf : Buf) (p remain : Nat) (scan : Scan) : Prop where
  le : p ≤ scan.tlvPtr
  sum : scan.tlvPtr + scan.remainLen = p + remain
  skipped : ∀ q, p ≤ q → q < scan.tlvPtr → ¬ HeadMatch buf q
  stop : HeadMatch buf scan.tlvPtr ∨ scan.remainLen ≤ 4
  reads : ∀ r ∈ scan.reads, r.1 + r.2 ≤ p + remain

theorem checkHead_spec (buf : Buf) (remain : Nat) :
    ∀ p, ChecksHead buf p remain (checkHead buf p remain) := by
  induction remain with
  | zero =>
    intro p
    exact ⟨le_rfl, rfl, fun q h₁ h₂ => absurd h₁ (Nat.not_le.mpr h₂), .inr (Nat.zero_le 4),
      (fun r hr => by cases hr)⟩
  | succ remain ih =>
    intro p
    rw [checkHead]
    split_ifs with h
    · obtain ⟨hle, hsum, hskip, hstop, hreads⟩ := ih (p + 1)
      dsimp only
      refine ⟨by dsimp only; omega, by dsimp only; omega, fun q h₁ h₂ => ?_, hstop, fun r hr => ?_⟩
      · rcases Nat.eq_or_lt_of_le h₁ with rfl | h₁
        · exact h.1
        · exact hskip q h₁ h₂
      · rcases List.mem_cons.mp hr with rfl | hr
        · dsimp only
          omega
        · have := hreads r hr
          omega
    · refine ⟨le_rfl, rfl, fun q h₁ h₂ => absurd h₁ (Nat.not_le.mpr h₂), ?_,
        (fun r hr => by cases hr)⟩
      by_cases hm : HeadMatch buf p
      · exact .inl hm
      · exact .inr (Nat.not_lt.mp fun h4 => h ⟨hm, h4⟩)

/-- What `startCheck` finds from `p` on. -/
structure StartsCheck (buf : Buf) (p e : Nat) (ret : TlvRet) (scan : Scan) : Prop where
  le : p ≤ scan.tlvPtr
  sum : scan.tlvPtr + scan.remainLen = e
  skipped : ∀ q, p ≤ q → q < scan.tlvPtr → Skipped buf e q
  accepted : ret = .success → Accepted buf e scan.tlvPtr
  stopped : ret ≠ .success → scan.remainLen < TLV_MIN_SIZE ∨ ¬ Skipped buf e scan.tlvPtr ∧
    e < scan.tlvPtr + tmpDataLen buf scan.tlvPtr + 2
  reads : ∀ r ∈ scan.reads, r.1 + r.2 ≤ e

theorem startCheck_spec (buf : Buf) {e : Nat} : ∀ (remain p : Nat), p + remain = e →
    StartsCheck buf p e (startCheck buf p remain).1 (startCheck buf p remain).2 := by
  intro remain
  induction remain using Nat.strong_induction_on with
  | _ remain ih =>
    intro p he
    rw [startCheck]
    by_cases hshort : remain < TLV_MIN_SIZE
    · rw [if_pos hshort]
      exact ⟨le_rfl, he, fun q h₁ h₂ => absurd h₁ (Nat.not_le.mpr h₂), (fun h => by cases h),
        fun _ => .inl hshort, (fun r hr => by cases hr)⟩
    rw [if_neg hshort]
    obtain ⟨hle, hsum, hskip, hstop, hreads⟩ := checkHead_spec buf remain p
    simp only [TLV_MIN_SIZE] at hshort ⊢
    generalize checkHead buf p remain = head at hle hsum hskip hstop hreads ⊢
    obtain ⟨q, r, reads⟩ := head
    dsimp only at hle hsum hskip hstop hreads ⊢
    have hqe : q + r = e := by omega
    have hreads' : ∀ r' ∈ (p, 4) :: reads, r'.1 + r'.2 ≤ e := by
      intro r' hr'
      rcases List.mem_cons.mp hr' with rfl | hr'
      · dsimp only
        omega
      · rw [← he]
        exact hreads r' hr'
    have hskip' : ∀ q', p ≤ q' → q' < q → Skipped buf e q' := fun q' h₁ h₂ hm =>
      absurd hm (hskip q' h₁ h₂)
    by_cases hr : r < 12
    · rw [dif_pos hr]
      exact ⟨hle, hqe, hskip', (fun h => by cases h), fun _ => .inl hr, hreads'⟩
    rw [dif_neg hr]
    have hmatch : HeadMatch buf q := hstop.resolve_right (by omega)
    -- the address is passed over, and the search goes on
    have hagain : ∀ reads' : List Read, (∀ r' ∈ reads', r'.1 + r'.2 ≤ e) → Skipped buf e q →
        StartsCheck buf p e (startCheck buf (q + 1) (r - 1)).1
          { (startCheck buf (q + 1) (r - 1)).2 with
            reads := reads' ++ (startCheck buf (q + 1) (r - 1)).2.reads } := by
      intro reads' hr' hq
      obtain ⟨hle₂, hsum₂, hskip₂, hacc₂, hstop₂, hreads₂⟩ :=
        ih (r - 1) (by omega) (q + 1) (by omega)
      refine ⟨by dsimp only; omega, hsum₂, fun q' h₁ h₂ => ?_, hacc₂, hstop₂, fun r' hr'' => ?_⟩
      · rcases Nat.lt_trichotomy q' q with h | rfl | h
        · exact hskip' q' h₁ h
        · exact hq
        · exact hskip₂ q' h h₂
      · exact (List.mem_append.mp hr'').elim (hr' r') (hreads₂ r')
    by_cases hmax : TLV_MAX_SIZE < tmpDataLen buf q
    · rw [if_pos hmax]
      exact hagain _ hreads' fun _ => .inl hmax
    rw [if_neg hmax]
    by_cases hun : r < tmpDataLen buf q + 2
    · rw [if_pos hun]
      refine ⟨hle, hqe, hskip', (fun h => by cases h), fun _ => .inr ⟨fun hs => ?_, ?_⟩, hreads'⟩
      · rcases hs hmatch with h | ⟨h, -⟩
        · exact hmax h
        · have h' : q + tmpDataLen buf q + 2 ≤ e := h
          omega
      · show e < q + tmpDataLen buf q + 2
        omega
    rw [if_neg hun]
    have hreads'' : ∀ r' ∈ (p, 4) :: reads ++ [(q + crcOffset, 2),
        (q + seqNumOffset, tmpDataLen buf q - 4)], r'.1 + r'.2 ≤ e := by
      intro r' hr'
      rcases List.mem_append.mp hr' with hr' | hr'
      · exact hreads' r' hr'
      · simp only [crcOffset, seqNumOffset, List.mem_cons, List.not_mem_nil, or_false] at hr'
        rcases hr' with rfl | rfl <;> dsimp only <;> omega
    by_cases hcrc : CrcMatch buf q
    · rw [if_neg (not_not.mpr hcrc)]
      have hacc : Accepted buf e q :=
        ⟨by simp only [formatSize]; omega, hmatch, Nat.not_lt.mp hmax, by omega, hcrc⟩
      exact ⟨hle, hqe, hskip', fun _ => hacc, fun h => absurd rfl h, hreads''⟩
    · rw [if_pos hcrc]
      exact hagain _ hreads'' fun _ => .inr ⟨by omega, hcrc⟩

/-- The call accepts the frame at `q`: the first that passes the tests. -/
structure Accepts (buf : Buf) (len q : Nat) : Prop where
  accepted : Accepted buf len q
  first : ∀ q' < q, Skipped buf len q'

/-- **Where the call accepts a frame.** -/
theorem startCheck_success_iff (buf : Buf) (len q : Nat) :
    ((startCheck buf 0 len).1 = .success ∧ (startCheck buf 0 len).2.tlvPtr = q) ↔
      Accepts buf len q := by
  obtain ⟨-, hsum, hskip, hacc, hstop, -⟩ := startCheck_spec buf len 0 (Nat.zero_add len)
  constructor
  · rintro ⟨hs, rfl⟩
    exact ⟨hacc hs, fun q' hq' => hskip q' (Nat.zero_le q') hq'⟩
  · rintro ⟨ha, hfirst⟩
    have hge : (startCheck buf 0 len).2.tlvPtr ≤ q :=
      Nat.not_lt.mp fun h => ha.not_skipped (hskip q (Nat.zero_le q) h)
    have hhead := ha.header
    have harr := ha.arrived
    simp only [formatSize] at hhead
    have hs : (startCheck buf 0 len).1 = .success := by
      by_contra hs
      rcases hstop hs with h | ⟨hns, h⟩
      · simp only [TLV_MIN_SIZE] at h
        omega
      · rcases Nat.eq_or_lt_of_le hge with heq | hlt
        · rw [heq] at h
          omega
        · exact hns (hfirst _ hlt)
    refine ⟨hs, Nat.le_antisymm hge (Nat.not_lt.mp fun h => ?_)⟩
    exact (hacc hs).not_skipped (hfirst _ h)

/-! ### The header swapped in place -/

/-- The bytes of a half word that is swapped in place. -/
theorem putHalf_bLRevert16 (m : Buf) (a : Nat) :
    (m.putHalf a (bLRevert16 (m.half a))) a = m (a + 1) ∧
      (m.putHalf a (bLRevert16 (m.half a))) (a + 1) = m a := by
  have h₀ := (m a).toNat_lt
  have h₁ := (m (a + 1)).toNat_lt
  have hv := toNat_bLRevert16 (m.half a)
  have hdiv : ((m a).toNat + 256 * (m (a + 1)).toNat) / 256 = (m (a + 1)).toNat := by omega
  have hmod : ((m a).toNat + 256 * (m (a + 1)).toNat) % 256 = (m a).toNat := by omega
  rw [toNat_half, hdiv, hmod] at hv
  have hlo : (m.putHalf a (bLRevert16 (m.half a))) (a + 0) =
      UInt8.ofNat (bLRevert16 (m.half a)).toNat := Buf.write_inside (by simp)
  have hhi : (m.putHalf a (bLRevert16 (m.half a))) (a + 1) =
      UInt8.ofNat ((bLRevert16 (m.half a)).toNat / 256) := Buf.write_inside (by simp)
  rw [Nat.add_zero] at hlo
  rw [hlo, hhi]
  constructor <;> apply UInt8.toNat_inj.mp <;> rw [UInt8.toNat_ofNat', hv] <;> omega

theorem tlvFormatRevert_outside {buf : Buf} {p i : Nat} (h : i < p ∨ p + formatSize ≤ i) :
    tlvFormatRevert buf p i = buf i := by
  simp only [formatSize] at h
  simp only [tlvFormatRevert, complementLenOffset, crcOffset, seqNumOffset, flagOffset]
  rw [putHalf_outside (by omega), putHalf_outside (by omega), putHalf_outside (by omega),
    putHalf_outside (by omega), putHalf_outside (by omega)]

theorem half_tlvFormatRevert (buf : Buf) (p : Nat) :
    (tlvFormatRevert buf p).half p = bLRevert16 (buf.half p) := by
  simp only [tlvFormatRevert, complementLenOffset, crcOffset, seqNumOffset, flagOffset]
  rw [half_putHalf_ne (by omega), half_putHalf_ne (by omega), half_putHalf_ne (by omega),
    half_putHalf_ne (by omega), half_putHalf]

theorem flag_tlvFormatRevert (buf : Buf) (p : Nat) :
    tlvFormatRevert buf p (p + 10) = buf (p + 11) ∧
      tlvFormatRevert buf p (p + 11) = buf (p + 10) := by
  obtain ⟨m, hm, hflag⟩ : ∃ m : Buf, (∀ i, p + 8 ≤ i → m i = buf i) ∧
      tlvFormatRevert buf p = m.putHalf (p + 10) (bLRevert16 (m.half (p + 10))) := by
    refine ⟨_, fun i hi => ?_, rfl⟩
    simp only [complementLenOffset, crcOffset, seqNumOffset]
    rw [putHalf_outside (by omega), putHalf_outside (by omega), putHalf_outside (by omega),
      putHalf_outside (by omega)]
  obtain ⟨h₀, h₁⟩ := putHalf_bLRevert16 m (p + 10)
  rw [hflag]
  exact ⟨h₀.trans (hm _ (by omega)), h₁.trans (hm _ (by omega))⟩

/-! ### What the call returns and leaves -/

/-- The size of the payload of the frame at `q`, an `unsigned short`. -/
def payloadLen (buf : Buf) (q : Nat) : Nat := (bLRevert16 (buf.half q) - 8).toNat

theorem payloadLen_of_le {buf : Buf} {q : Nat} (h : 8 ≤ tmpDataLen buf q) :
    payloadLen buf q = tmpDataLen buf q - 8 := by
  have h' : (8 : UInt16) ≤ bLRevert16 (buf.half q) := UInt16.le_iff_toNat_le.mpr h
  rw [payloadLen, UInt16.toNat_sub_of_le _ _ h']
  rfl

theorem payloadLen_of_lt {buf : Buf} {q : Nat} (h : tmpDataLen buf q < 8) :
    payloadLen buf q = tmpDataLen buf q + 65528 := by
  have h' : (bLRevert16 (buf.half q)).toNat < 8 := h
  rw [payloadLen, UInt16.toNat_sub, show (8 : UInt16).toNat = 8 from rfl, tmpDataLen]
  omega

theorem read_moveRemain (buf : Buf) (len remain : Nat) :
    (moveRemain buf len remain).read 0 remain = buf.read (len - remain) remain := by
  rw [moveRemain]
  split_ifs with hne
  · have h' := Buf.read_write buf 0 (buf.read (len - remain) remain)
    rwa [Buf.length_read] at h'
  · rw [not_not.mp hne, Nat.sub_self]

/-- A call that accepts no frame. -/
theorem unpackTlv_of_ne {buf : Buf} {len : Nat} (h : (startCheck buf 0 len).1 ≠ .success) :
    let scan := (startCheck buf 0 len).2
    unpackTlv buf len = ⟨(startCheck buf 0 len).1, none, moveRemain buf len scan.remainLen,
      scan.remainLen, scan.reads⟩ := by
  intro scan
  rw [unpackTlv]
  simp only [if_neg h]
  rfl

/-- A call that accepts the frame at `q`. -/
theorem unpackTlv_of_accepts {buf : Buf} {len q : Nat} (h : Accepts buf len q) :
    unpackTlv buf len = ⟨.success,
      some ⟨(tlvFormatRevert buf q).half (q + flagOffset),
        (tlvFormatRevert buf q).read (q + dataBufOffset) (payloadLen buf q),
        ((tlvFormatRevert buf q) (q + dataTypeOffset)).toUInt16⟩,
      moveRemain (tlvFormatRevert buf q) len (len - (q + tmpDataLen buf q + 2)),
      len - (q + tmpDataLen buf q + 2),
      (startCheck buf 0 len).2.reads ++
        [(q, formatSize), (q + dataBufOffset, payloadLen buf q)]⟩ := by
  obtain ⟨hs, hq⟩ := (startCheck_success_iff buf len q).mpr h
  have hsum := (startCheck_spec buf len 0 (Nat.zero_add len)).sum
  have hremain : (startCheck buf 0 len).2.remainLen - (tmpDataLen buf q + 2) =
      len - (q + tmpDataLen buf q + 2) := by omega
  rw [← hremain, unpackTlv]
  simp only [hs, if_true, hq, half_tlvFormatRevert]
  rfl

/-- The call reads within the `len` bytes received, leaves a suffix of them, and returns a payload
that was received with its header. -/
structure UnpackSafe (buf : Buf) (len : Nat) : Prop where
  reads : ∀ r ∈ (unpackTlv buf len).reads, r.1 + r.2 ≤ len
  suffix : (unpackTlv buf len).buf.read 0 (unpackTlv buf len).bufLen <:+ buf.read 0 len
  payload : ∀ info, (unpackTlv buf len).info = some info →
    formatSize + info.dataBuf.length ≤ len

/-- The condition on the frame at `q`. -/
structure WholeFrame (buf : Buf) (len q : Nat) : Prop where
  min : 8 ≤ tmpDataLen buf q
  arrived : q + tmpDataLen buf q + 4 ≤ len
  flag : tmpDataLen buf q < 10 → buf (q + 10) = buf (q + 11)

theorem suffix_read {buf : Buf} {len k : Nat} (h : k ≤ len) :
    buf.read k (len - k) <:+ buf.read 0 len := by
  have hd := Buf.drop_read (m := buf) (a := 0) h
  rw [Nat.zero_add] at hd
  rw [← hd]
  exact List.drop_suffix k _

/-- A suffix of the bytes received is what they hold from an address on. -/
theorem eq_read_of_suffix {buf buf' : Buf} {len k : Nat} (h : k ≤ len)
    (hs : buf'.read k (len - k) <:+ buf.read 0 len) :
    buf'.read k (len - k) = buf.read k (len - k) := by
  have hd := Buf.drop_read (m := buf) (a := 0) h
  have he := List.suffix_iff_eq_drop.mp hs
  rw [Buf.length_read, Buf.length_read, show len - (len - k) = k by omega, hd, Nat.zero_add] at he
  exact he

/-- What is left after the frame at `q`. -/
theorem read_left {buf : Buf} {len q : Nat} (h : Accepts buf len q) :
    (unpackTlv buf len).buf.read 0 (unpackTlv buf len).bufLen =
      (tlvFormatRevert buf q).read (q + tmpDataLen buf q + 2)
        (len - (q + tmpDataLen buf q + 2)) := by
  have harr := h.accepted.arrived
  rw [unpackTlv_of_accepts h]
  dsimp only
  rw [read_moveRemain, show len - (len - (q + tmpDataLen buf q + 2)) =
    q + tmpDataLen buf q + 2 by omega]

/-- The swaps of the header change no byte after a whole frame. -/
theorem read_after_wholeFrame {buf : Buf} {len q : Nat} (h : WholeFrame buf len q) :
    (tlvFormatRevert buf q).read (q + tmpDataLen buf q + 2) (len - (q + tmpDataLen buf q + 2)) =
      buf.read (q + tmpDataLen buf q + 2) (len - (q + tmpDataLen buf q + 2)) := by
  have hmin := h.min
  refine Buf.read_congr fun i _ => ?_
  obtain ⟨h₀, h₁⟩ := flag_tlvFormatRevert buf q
  rcases Nat.lt_or_ge (tmpDataLen buf q + 2 + i) 12 with hlt | hge
  · -- the flag lies after the frame, and its bytes are equal
    have hf := h.flag (by omega)
    obtain hi | hi : tmpDataLen buf q + 2 + i = 10 ∨ tmpDataLen buf q + 2 + i = 11 := by
      omega
    · rw [show q + tmpDataLen buf q + 2 + i = q + 10 by omega, h₀, hf]
    · rw [show q + tmpDataLen buf q + 2 + i = q + 11 by omega, h₁, hf]
  · exact tlvFormatRevert_outside (.inr (by simp only [formatSize]; omega))

/-- A call that accepts a whole frame. -/
theorem unpackSafe_of_wholeFrame {buf : Buf} {len q : Nat} (hq : Accepts buf len q)
    (hw : WholeFrame buf len q) : UnpackSafe buf len := by
  obtain ⟨-, -, -, -, -, hreads⟩ := startCheck_spec buf len 0 (Nat.zero_add len)
  have harr := hw.arrived
  have hmin := hw.min
  have hpay := payloadLen_of_le hmin
  constructor
  · rw [unpackTlv_of_accepts hq]
    intro r hr
    simp only [List.mem_append, List.mem_cons, List.not_mem_nil, or_false] at hr
    rcases hr with hr | rfl | rfl
    · exact hreads r hr
    · exact hq.accepted.header
    · simp only [dataBufOffset, hpay]
      omega
  · have hle : q + tmpDataLen buf q + 2 ≤ len := by omega
    rw [read_left hq, read_after_wholeFrame hw]
    exact suffix_read hle
  · intro info hinfo
    rw [unpackTlv_of_accepts hq] at hinfo
    cases hinfo
    simp only [Buf.length_read, hpay, formatSize]
    omega

/-- A call that accepts no frame. -/
theorem unpackSafe_of_ne {buf : Buf} {len : Nat} (hs : (startCheck buf 0 len).1 ≠ .success) :
    UnpackSafe buf len := by
  obtain ⟨-, hsum, -, -, -, hreads⟩ := startCheck_spec buf len 0 (Nat.zero_add len)
  have hle : (startCheck buf 0 len).2.remainLen ≤ len := by omega
  constructor
  · rw [unpackTlv_of_ne hs]
    exact hreads
  · rw [unpackTlv_of_ne hs]
    dsimp only
    rw [read_moveRemain]
    have hle' : len - (startCheck buf 0 len).2.remainLen ≤ len := by omega
    have hs : buf.read _ (len - _) <:+ _ := suffix_read hle'
    rwa [show len - (len - (startCheck buf 0 len).2.remainLen) =
      (startCheck buf 0 len).2.remainLen by omega] at hs
  · intro info hinfo
    rw [unpackTlv_of_ne hs] at hinfo
    cases hinfo

/-- The frame that a safe call accepts. -/
theorem UnpackSafe.wholeFrame {buf : Buf} {len q : Nat} (hlen : len ≤ 256)
    (h : UnpackSafe buf len) (hq : Accepts buf len q) : WholeFrame buf len q := by
  have harr := hq.accepted.arrived
  have hhead := hq.accepted.header
  simp only [formatSize] at hhead
  have hread : q + dataBufOffset + payloadLen buf q ≤ len := h.reads (q + dataBufOffset,
    payloadLen buf q) (by rw [unpackTlv_of_accepts hq]; simp)
  simp only [dataBufOffset] at hread
  have hmin : 8 ≤ tmpDataLen buf q := by
    by_contra hlt
    rw [payloadLen_of_lt (by omega)] at hread
    omega
  rw [payloadLen_of_le hmin] at hread
  refine ⟨hmin, by omega, fun hlt => ?_⟩
  -- the second flag byte is left, and it has been swapped
  have hsuf := h.suffix
  rw [read_left hq] at hsuf
  have heq := eq_read_of_suffix (by omega) hsuf
  have hbyte : tlvFormatRevert buf q (q + 11) = buf (q + 11) := by
    have hi : 9 - tmpDataLen buf q < len - (q + tmpDataLen buf q + 2) := by omega
    have h' := Buf.getElem?_read (m := tlvFormatRevert buf q) (a := q + tmpDataLen buf q + 2) hi
    rw [heq, Buf.getElem?_read hi] at h'
    rw [show q + tmpDataLen buf q + 2 + (9 - tmpDataLen buf q) = q + 11 by omega] at h'
    exact (Option.some.inj h').symm
  rw [← hbyte, (flag_tlvFormatRevert buf q).2]

/-- **When a call is safe**: exactly if the frame it accepts is a whole one. -/
theorem unpackTlv_safe_iff {buf : Buf} {len : Nat} (hlen : len ≤ 256) :
    UnpackSafe buf len ↔ ∀ q, Accepts buf len q → WholeFrame buf len q := by
  constructor
  · exact fun h q hq => h.wholeFrame hlen hq
  · intro h
    by_cases hs : (startCheck buf 0 len).1 = .success
    · have hq := (startCheck_success_iff buf len _).mp ⟨hs, rfl⟩
      exact unpackSafe_of_wholeFrame hq (h _ hq)
    · exact unpackSafe_of_ne hs

/-- The frame that is packed of the payload `31 32`, and the first two bytes of another. -/
def twoByteFrame : Buf := Buf.write (fun _ => 0) 0
  [0, 10, 0xFF, 0xF5, 0xE7, 0x91, 0, 0, 1, 1, 0, 1, 0x31, 0x32, 0, 10]

/-- The frame is accepted, and it is a whole one. -/
theorem unpackTlv_safe_iff_twoByteFrame : UnpackSafe twoByteFrame 16 :=
  (unpackTlv_safe_iff (by decide)).mpr fun q hq => by
    have hfirst : Accepted twoByteFrame 16 0 :=
      ⟨by decide, by decide, by decide, by decide, by decide +kernel⟩
    obtain rfl : q = 0 := by
      by_contra hne
      exact hfirst.not_skipped (hq.first 0 (Nat.pos_of_ne_zero hne))
    exact ⟨by decide, by decide, fun hlt => absurd hlt (by decide)⟩

/-- A header of length 0, its complement and the CRC of no bytes. -/
def shortFrame : Buf := Buf.write (fun _ => 0) 0 [0, 0, 0xFF, 0xFF, 0xFF, 0xFF, 0, 0, 1, 0, 0, 1]

/-- The payload of the header is taken to be 65528 bytes. -/
theorem not_unpackTlv_safe_shortFrame : ¬ UnpackSafe shortFrame 12 := by
  intro h
  have ha : Accepts shortFrame 12 0 :=
    ⟨⟨by decide, by decide, by decide, by decide, by decide⟩, fun q' hq' => absurd hq' (by omega)⟩
  have hread := h.reads (0 + dataBufOffset, payloadLen shortFrame 0)
    (by rw [unpackTlv_of_accepts ha]; simp)
  rw [payloadLen_of_lt (by decide)] at hread
  simp only [dataBufOffset] at hread
  omega

end XY1100.Tlv
