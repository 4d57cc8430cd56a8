import XY1100.Support.Bytes
import XY1100.Support.CString
import XY1100.Support.Int32
import XY1100.Utils.HexCodec

/-!
# Utils — a buffer in the log

`xy_print_stream` allocates room for as much of the hexadecimal text of a buffer as one log entry
takes, and prints the text into it, each `sprintf` with its NUL behind the two digits.

* `xyPrintStream_right_iff`: what is written stays in the block, and the text is that of the first
  bytes, exactly when the buffer has at most 47 bytes; the loop goes over all of them.
-/

namespace XY1100.Utils
open Support

/-! ### The code -/

/-- `AP_LOG_MAX_SIZE - 1 - sizeof(AP_LOG_T)`. -/
def logTextMax : UInt32 := 104 - 1 - 8

/-- `str_len`. -/
def streamLen (len : UInt32) : UInt32 :=
  (if logTextMax < len * 2 then logTextMax else len * 2) &&& ~~~1

/-- `sprintf((pstream + i*2), "%02X", *(buf + i))`: where it writes, and what. -/
def streamDigits (buf : Buf) (i : UInt32) : Nat × List UInt8 :=
  ((i * 2).toNat, hexPair (buf i.toNat) ++ [0])

/-- What the loop writes. -/
def streamWrites (buf : Buf) (len : UInt32) : List (Nat × List UInt8) :=
  (List.range len.toNat).map fun i => streamDigits buf (UInt32.ofNat i)

/-- The memory from `pstream` on once the text is there, and the number returned. -/
def xyPrintStream (buf : Buf) (len : UInt32) (pstream : Buf) : Buf × UInt32 :=
  (((streamWrites buf len).foldl (fun m w => m.write w.1 w.2) pstream).write
    (streamLen len).toNat [0], streamLen len / 2)

/-- The string handed to the log, read up to the end of the block. -/
def loggedText (buf : Buf) (len : UInt32) (pstream : Buf) : List UInt8 :=
  cText ((xyPrintStream buf len pstream).1.read 0 ((streamLen len).toNat + 1))

/-- The loop writes inside the block, the text is that of the bytes counted, and the count is half
the length of the text. -/
def StreamRight (buf : Buf) (len : UInt32) : Prop :=
  (∀ w ∈ streamWrites buf len, w.1 + w.2.length ≤ (streamLen len).toNat + 1) ∧
    ∀ pstream, loggedText buf len pstream = upperHex (buf.read 0 ((streamLen len).toNat / 2)) ∧
      (xyPrintStream buf len pstream).2.toNat = (streamLen len).toNat / 2

/-! ### The block -/

set_option maxRecDepth 4000 in
theorem clearLow {u : UInt32} (h : u.toNat < 96) : (u &&& ~~~1).toNat = u.toNat / 2 * 2 := by
  have hall : ∀ n < 96, (UInt32.ofNat n &&& ~~~1).toNat = n / 2 * 2 := by decide
  have hu := hall u.toNat h
  rwa [UInt32.ofNat_toNat] at hu

/-- The text has two characters for each byte of the buffer, as far as the limit goes. -/
theorem toNat_streamLen (len : UInt32) :
    (streamLen len).toNat = min 95 (len * 2).toNat / 2 * 2 := by
  have hmax : logTextMax.toNat = 95 := rfl
  unfold streamLen
  split_ifs with h <;> rw [UInt32.lt_iff_toNat_lt] at h
  · rw [clearLow (by omega)]
    omega
  · rw [clearLow (by omega)]
    omega

theorem streamLen_le (len : UInt32) : (streamLen len).toNat ≤ 94 := by
  rw [toNat_streamLen]
  omega

theorem toNat_streamLen_of_le {len : UInt32} (h : len.toNat ≤ 47) :
    (streamLen len).toNat = 2 * len.toNat := by
  have hdouble : (len * 2).toNat = 2 * len.toNat := by
    rw [UInt32.toNat_mul]
    simp
    omega
  rw [toNat_streamLen, hdouble]
  omega

theorem toNat_streamCount (len : UInt32) :
    (streamLen len / 2).toNat = (streamLen len).toNat / 2 := by
  rw [UInt32.toNat_div]
  rfl

/-- The offset of a byte's digits. -/
theorem streamDigits_fst {i : Nat} (h : i < 2 ^ 31) (buf : Buf) :
    (streamDigits buf (UInt32.ofNat i)).1 = 2 * i := by
  simp only [streamDigits, UInt32.toNat_mul, UInt32.toNat_ofNat']
  simp
  omega

theorem streamDigits_snd {i : Nat} (h : i < 2 ^ 32) (buf : Buf) :
    (streamDigits buf (UInt32.ofNat i)).2 = hexPair (buf i) ++ [0] := by
  simp only [streamDigits, UInt32.toNat_ofNat', Nat.mod_eq_of_lt h]

/-- The loop leaves the block exactly for a buffer of more than 47 bytes. -/
theorem streamWrites_inside_iff (buf : Buf) (len : UInt32) :
    (∀ w ∈ streamWrites buf len, w.1 + w.2.length ≤ (streamLen len).toNat + 1) ↔
      len.toNat ≤ 47 := by
  constructor
  · intro h
    by_contra hlong
    -- byte 47: its digits are the characters 94 and 95
    have hmem : streamDigits buf (UInt32.ofNat 47) ∈ streamWrites buf len :=
      List.mem_map.mpr ⟨47, List.mem_range.mpr (by omega), rfl⟩
    have hend := h _ hmem
    rw [streamDigits_fst (by decide), streamDigits_snd (by decide)] at hend
    have hle := streamLen_le len
    simp only [hexPair, List.length_append, List.length_cons, List.length_nil] at hend
    omega
  · intro hlen w hw
    obtain ⟨i, hi, rfl⟩ := List.mem_map.mp hw
    have hi' := List.mem_range.mp hi
    rw [streamDigits_fst (by omega), streamDigits_snd (by omega), toNat_streamLen_of_le hlen]
    simp only [hexPair, List.length_append, List.length_cons, List.length_nil]
    omega

/-! ### The text -/

theorem hexPair_nonzero (b : UInt8) : 0 ∉ hexPair b := by
  have hall : ∀ n < 16, tab.getD n 0 ≠ 0 := by decide
  have hhi : (b >>> 4).toNat < 16 := by
    rw [UInt8.toNat_shiftRight]
    have := b.toNat_lt
    simp [Nat.shiftRight_eq_div_pow]
    omega
  have hlo : (b &&& 0x0f).toNat < 16 := by
    rw [UInt8.toNat_and]
    exact Nat.lt_of_le_of_lt Nat.and_le_right (by decide)
  simp only [hexPair, List.mem_cons, List.not_mem_nil, or_false, not_or]
  exact ⟨(hall _ hhi).symm, (hall _ hlo).symm⟩

theorem upperHex_nonzero (bytes : List UInt8) : 0 ∉ upperHex bytes := by
  rw [upperHex, List.mem_flatMap]
  rintro ⟨b, -, hb⟩
  exact hexPair_nonzero b hb

/-- After `n` rounds the first `2 * n` bytes are the digits of the first `n`. -/
theorem read_streamWrites (buf pstream : Buf) :
    ∀ {n : Nat}, n < 2 ^ 31 →
      (((List.range n).map fun i => streamDigits buf (UInt32.ofNat i)).foldl
        (fun m w => m.write w.1 w.2) pstream).read 0 (2 * n) = upperHex (buf.read 0 n)
  | 0, _ => rfl
  | n + 1, hn => by
    have ih := read_streamWrites buf pstream (Nat.lt_of_succ_lt hn)
    rw [List.range_succ, List.map_append, List.foldl_append]
    generalize ((List.range n).map _).foldl _ pstream = m at ih ⊢
    simp only [List.map_cons, List.map_nil, List.foldl_cons, List.foldl_nil]
    rw [streamDigits_fst (by omega), streamDigits_snd (by omega)]
    -- the round writes from `2 * n` on, behind the digits that are there
    have hkeep : (m.write (2 * n) (hexPair (buf n) ++ [0])).read 0 (2 * n) = m.read 0 (2 * n) :=
      Buf.read_congr fun i hi => Buf.write_outside (Or.inl (by omega))
    have hnew : (m.write (2 * n) (hexPair (buf n) ++ [0])).read (2 * n) 2 = hexPair (buf n) := by
      have hread : (m.write (2 * n) (hexPair (buf n) ++ [0])).read (2 * n + 0) 2 =
          ((hexPair (buf n) ++ [0]).drop 0).take 2 := Buf.read_write_within (by simp [hexPair])
      simpa [hexPair] using hread
    have hlast : buf.read 0 (n + 1) = buf.read 0 n ++ [buf n] := by
      rw [Buf.read_add]
      simp [Buf.read]
    rw [Nat.mul_succ, Buf.read_add, hkeep, ih, Nat.zero_add, hnew, hlast]
    simp [upperHex]

theorem loggedText_of_le {len : UInt32} (h : len.toNat ≤ 47) (buf pstream : Buf) :
    loggedText buf len pstream = upperHex (buf.read 0 len.toNat) := by
  have htext := read_streamWrites buf pstream (n := len.toNat) (by omega)
  rw [loggedText, xyPrintStream, toNat_streamLen_of_le h, streamWrites]
  generalize ((List.range len.toNat).map _).foldl _ pstream = m at htext ⊢
  have hkeep : (m.write (2 * len.toNat) [0]).read 0 (2 * len.toNat) = m.read 0 (2 * len.toNat) :=
    Buf.read_congr fun i hi => Buf.write_outside (Or.inl (by omega))
  -- the NUL of the last `sprintf` is stored once more
  have hnul : (m.write (2 * len.toNat) [0]).read (2 * len.toNat) 1 = [0] := Buf.read_write _ _ [0]
  rw [Buf.read_add, hkeep, htext, Nat.zero_add, hnul,
    cText_append_of_not_mem (upperHex_nonzero _)]
  simp [cText]

/-- The stream is right exactly for a buffer of at most 47 bytes. -/
theorem xyPrintStream_right_iff (buf : Buf) (len : UInt32) : StreamRight buf len ↔ len ≤ 47 := by
  have hlen : len ≤ 47 ↔ len.toNat ≤ 47 := UInt32.le_iff_toNat_le
  rw [StreamRight, streamWrites_inside_iff, hlen, and_iff_left_iff_imp]
  intro h pstream
  have hhalf : (streamLen len).toNat / 2 = len.toNat := by
    rw [toNat_streamLen_of_le h]
    omega
  refine ⟨?_, toNat_streamCount len⟩
  rw [hhalf]
  exact loggedText_of_le h buf pstream

/-- A buffer of 48 bytes is printed behind the block. -/
theorem not_xyPrintStream_right_48 : ¬ StreamRight (fun _ => 0) 48 := by
  rw [StreamRight, streamWrites_inside_iff]
  exact fun h => absurd h.1 (by decide)

end XY1100.Utils
