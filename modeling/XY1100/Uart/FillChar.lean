import XY1100.Support.Bytes
import XY1100.Uart.SoftSample

/-!
# Uart — putting the lost characters back

`at_uart.c` reads what the UART received into a buffer of 100 bytes.  Where the sampler recognised
the third character of a command, `soft_sample_fill_char` moves the bytes by three and puts `AT` and
the character in front; where it failed, it makes up `ABC`, so that an error is answered.

* `fillsSafely_iff`: this stays in the buffer and keeps what was received, exactly when nothing was
  recognised, or something was read, of at most 97 bytes.
-/

namespace XY1100.Uart
open Support

/-! ### The code -/

/-- The buffer of `AT_uart_rx_task`, with the indices stored to. -/
structure RxBuf where
  mem : Buf
  stored : List Nat := []

namespace RxBuf

/-- `buf[i] = c`. -/
def put (b : RxBuf) (i : Nat) (c : UInt8) : RxBuf := ⟨b.mem.write i [c], i :: b.stored⟩

@[simp] theorem put_mem (b : RxBuf) (i : Nat) (c : UInt8) : (b.put i c).mem = b.mem.write i [c] :=
  rfl

@[simp] theorem put_stored (b : RxBuf) (i : Nat) (c : UInt8) :
    (b.put i c).stored = i :: b.stored := rfl

end RxBuf

/-- `sizeof(aucATBuffer)`. -/
def atBufferSize : Nat := 100

/-- The loop of `at_uart_read` from `read_pos` on, with the bytes the UART has left. -/
def readLoop : List UInt8 → Nat → Nat → RxBuf → Nat × RxBuf
  | _, _, 0, b => (0, b)
  | [], _, _ + 1, b => (0, b)
  | c :: rx, readPos, n + 1, b =>
      let r := readLoop rx (readPos + 1) n (b.put readPos c)
      (r.1 + 1, r.2)

/-- `at_uart_read`.  `acquired`: the semaphore was. -/
def atUartRead (acquired : Bool) (rx : List UInt8) (b : RxBuf) (len : Nat) : Int × RxBuf :=
  if acquired then
    let r := readLoop rx 0 len b
    (r.1, r.2)
  else (-1, b)

/-- The loop of `soft_sample_fill_char` at index `i`, `n` times. -/
def shiftLoop (len : Nat) : Nat → Nat → RxBuf → RxBuf
  | _, 0, b => b
  | i, n + 1, b => shiftLoop len (i + 1) n (b.put (len + 3 - 1 - i) (b.mem (len - 1 - i)))

/-- `soft_sample_fill_char`, with the bytes at `p_AT_Req_third_char`. -/
def softSampleFillChar (thirdChar : Nat → UInt8) (g : SoftSample) (b : RxBuf) (len : Int) :
    SoftSample × RxBuf × Int :=
  if g.specialId ≠ 0 then
    let b := shiftLoop len.toNat 0 len.toNat b
    let b := ((b.put 0 0x41).put 1 0x54).put 2 (thirdChar (g.specialId.toNat - 1))
    ({ g with specialId := 0 }, b, len + 3)
  else if 0 < len then
    ({ g with sampleFlag := { g.sampleFlag with gpiFail := false } }, b, len)
  else if g.sampleFlag.gpiFail then
    ({ g with sampleFlag := { g.sampleFlag with gpiFail := false } },
      ((b.put 0 0x41).put 1 0x42).put 2 0x43, 3)
  else (g, b, len)

/-- What a round of `AT_uart_rx_task` hands to `at_recv_from_uart`, up to the assertion: the sampler,
the buffer and the length. -/
def rxRound (thirdChar : Nat → UInt8) (acquired : Bool) (rx : List UInt8) (g : SoftSample) (b : RxBuf) :
    SoftSample × RxBuf × Int :=
  let (len, b) := atUartRead acquired rx b atBufferSize
  softSampleFillChar thirdChar g b len

/-! ### Reading -/

theorem readLoop_eq : ∀ (rx : List UInt8) (readPos n : Nat) (b : RxBuf),
    (readLoop rx readPos n b).1 = (rx.take n).length ∧
      (readLoop rx readPos n b).2.mem = b.mem.write readPos (rx.take n) ∧
      ∀ i ∈ (readLoop rx readPos n b).2.stored, i ∈ b.stored ∨ i < readPos + n
  | rx, readPos, 0, b => by
      rw [List.take_zero, Buf.write_nil]
      cases rx <;> exact ⟨rfl, rfl, fun i hi => .inl hi⟩
  | [], readPos, n + 1, b => by
      rw [List.take_nil, Buf.write_nil]
      exact ⟨rfl, rfl, fun i hi => .inl hi⟩
  | c :: rx, readPos, n + 1, b => by
      obtain ⟨hlen, hmem, hst⟩ := readLoop_eq rx (readPos + 1) n (b.put readPos c)
      refine ⟨?_, ?_, ?_⟩
      · rw [List.take_succ_cons, List.length_cons, ← hlen, readLoop]
      · rw [readLoop, hmem, RxBuf.put_mem, List.take_succ_cons]
        exact (Buf.write_append b.mem readPos [c] (rx.take n)).symm
      · intro i hi
        rcases hst i hi with hput | hlt
        · rcases List.mem_cons.mp hput with rfl | hold
          · exact .inr (by omega)
          · exact .inl hold
        · exact .inr (by omega)

/-! ### Moving -/

/-- The bytes from `i` back are moved up by three, one after the other. -/
theorem shiftLoop_mem (len : Nat) : ∀ (n i : Nat) (b : RxBuf), i + n = len →
    (∀ j < 3 + n, (shiftLoop len i n b).mem j = if j < 3 then b.mem j else b.mem (j - 3)) ∧
      ∀ j, 3 + n ≤ j → (shiftLoop len i n b).mem j = b.mem j
  | 0, i, b, _ => by
      refine ⟨fun j hj => ?_, fun j _ => rfl⟩
      rw [if_pos hj]
      rfl
  | n + 1, i, b, hlen => by
      obtain ⟨hin, hout⟩ := shiftLoop_mem len n (i + 1)
        (b.put (len + 3 - 1 - i) (b.mem (len - 1 - i))) (by omega)
      have hdst : len + 3 - 1 - i = 3 + n := by omega
      have hsrc : len - 1 - i = n := by omega
      -- the first move writes one byte, behind all that are still to be moved
      have hput : ∀ j, j ≠ 3 + n →
          (b.put (len + 3 - 1 - i) (b.mem (len - 1 - i))).mem j = b.mem j := by
        intro j hj
        rw [RxBuf.put_mem, hdst]
        exact Buf.write_outside (by simp only [List.length_singleton]; omega)
      refine ⟨fun j hj => ?_, fun j hj => ?_⟩
      · rw [shiftLoop]
        rcases Nat.lt_succ_iff_lt_or_eq.mp (show j < (3 + n) + 1 from hj) with hlt | rfl
        · rw [hin j hlt]
          split
          · exact hput j (by omega)
          · exact hput (j - 3) (by omega)
        · rw [hout _ le_rfl, if_neg (by omega), RxBuf.put_mem, hdst, hsrc]
          have hin : b.mem.write (3 + n) [b.mem n] (3 + n + 0) = b.mem n :=
            Buf.write_inside (show 0 < [b.mem n].length from Nat.one_pos)
          rw [Nat.add_zero] at hin
          rw [hin, Nat.add_sub_cancel_left]
      · rw [shiftLoop, hout j (by omega)]
        exact hput j (by omega)

theorem shiftLoop_stored (len : Nat) : ∀ (n i : Nat) (b : RxBuf) (j : Nat),
    j ∈ (shiftLoop len i n b).stored ↔ j ∈ b.stored ∨ ∃ k, i ≤ k ∧ k < i + n ∧ j = len + 3 - 1 - k
  | 0, i, b, j => by
      refine ⟨.inl, fun h => h.elim id ?_⟩
      rintro ⟨k, h₁, h₂, -⟩
      omega
  | n + 1, i, b, j => by
      rw [shiftLoop, shiftLoop_stored len n (i + 1), RxBuf.put_stored, List.mem_cons]
      constructor
      · rintro ((rfl | hold) | ⟨k, h₁, h₂, rfl⟩)
        · exact .inr ⟨i, le_rfl, by omega, rfl⟩
        · exact .inl hold
        · exact .inr ⟨k, by omega, by omega, rfl⟩
      · rintro (hold | ⟨k, h₁, h₂, rfl⟩)
        · exact .inl (.inr hold)
        · rcases Nat.eq_or_lt_of_le h₁ with rfl | hlt
          · exact .inl (.inl rfl)
          · exact .inr ⟨k, hlt, by omega, rfl⟩

/-! ### A round of the task -/

/-- What `at_uart_read` puts into the buffer. -/
def received (acquired : Bool) (rx : List UInt8) : List UInt8 :=
  if acquired then rx.take atBufferSize else []

/-- A result of `at_uart_read`. -/
structure Arrived (bytes : List UInt8) (b : RxBuf) (len : Int) : Prop where
  mem : b.mem.read 0 bytes.length = bytes
  stores : ∀ i ∈ b.stored, i < atBufferSize
  length_le : bytes.length ≤ atBufferSize
  len : len = bytes.length ∨ len = -1 ∧ bytes = []

theorem arrived_atUartRead (acquired : Bool) (rx : List UInt8) (mem : Buf) :
    Arrived (received acquired rx) (atUartRead acquired rx ⟨mem, []⟩ atBufferSize).2
      (atUartRead acquired rx ⟨mem, []⟩ atBufferSize).1 := by
  obtain ⟨hlen, hmem, hst⟩ := readLoop_eq rx 0 atBufferSize ⟨mem, []⟩
  cases acquired with
  | false => exact ⟨rfl, fun i hi => absurd hi List.not_mem_nil, Nat.zero_le _, .inr ⟨rfl, rfl⟩⟩
  | true =>
    have hrec : received true rx = rx.take atBufferSize := if_pos rfl
    refine ⟨?_, fun i hi => ?_, ?_, .inl ?_⟩
    · rw [hrec]
      exact (congrArg (Buf.read · 0 _) hmem).trans (Buf.read_write mem 0 _)
    · rcases hst i hi with hold | hlt
      · exact absurd hold List.not_mem_nil
      · rwa [Nat.zero_add] at hlt
    · rw [hrec]
      exact List.length_take_le _ _
    · rw [hrec, ← hlen]
      rfl

/-- What is handed on: stores in the buffer only, a length that passes the assertion, and all bytes
received, in order, behind the three characters put in front. -/
structure FillsSafely (thirdChar : Nat → UInt8) (specialId : BitVec 8) (bytes : List UInt8)
    (b : RxBuf) (len : Int) : Prop where
  stores : ∀ i ∈ b.stored, i < atBufferSize
  assertion : 0 ≤ len → len ≤ 100
  behind : specialId ≠ 0 → len = bytes.length + 3 ∧
    b.mem.read 0 (bytes.length + 3) = [0x41, 0x54, thirdChar (specialId.toNat - 1)] ++ bytes
  kept : specialId = 0 → bytes ≠ [] → len = bytes.length ∧ b.mem.read 0 bytes.length = bytes

variable {thirdChar : Nat → UInt8} {g : SoftSample} {bytes : List UInt8} {b : RxBuf} {len : Int}

/-- Three characters at the start of the buffer. -/
theorem put_three_stored {c₀ c₁ c₂ : UInt8} (h : ∀ i ∈ b.stored, i < atBufferSize) :
    ∀ i ∈ (((b.put 0 c₀).put 1 c₁).put 2 c₂).stored, i < atBufferSize := by
  intro i hi
  simp only [RxBuf.put_stored, List.mem_cons] at hi
  rcases hi with rfl | rfl | rfl | hi
  · decide
  · decide
  · decide
  · exact h i hi

/-- Nothing was recognised. -/
theorem Arrived.fillsSafely_of_zero (h : Arrived bytes b len) (hid : g.specialId = 0) :
    FillsSafely thirdChar g.specialId bytes (softSampleFillChar thirdChar g b len).2.1
      (softSampleFillChar thirdChar g b len).2.2 := by
  have hle := h.length_le
  unfold softSampleFillChar
  rw [if_neg (not_not.mpr hid)]
  by_cases hpos : 0 < len
  · rw [if_pos hpos]
    have hlen : len = bytes.length := h.len.resolve_right fun hno => by omega
    refine ⟨h.stores, fun _ => ?_, fun hne => absurd hid hne, fun _ _ => ⟨hlen, h.mem⟩⟩
    rw [hlen]
    exact Int.ofNat_le.mpr hle
  · rw [if_neg hpos]
    -- without a length there were no bytes
    have hnil : bytes = [] := by
      rcases h.len with hlen | ⟨-, hnil⟩
      · exact List.eq_nil_of_length_eq_zero (by omega)
      · exact hnil
    split
    · exact ⟨put_three_stored h.stores, fun _ => (by decide : (3 : Int) ≤ 100),
        fun hne => absurd hid hne,
        fun _ hne => absurd hnil hne⟩
    · exact ⟨h.stores, fun _ => by dsimp only; omega, fun hne => absurd hid hne,
        fun _ hne => absurd hnil hne⟩

/-- The contents once the bytes were moved and the characters put in front. -/
theorem Arrived.shifted (h : Arrived bytes b len) (hlen : len = bytes.length) (c : UInt8) :
    ((((shiftLoop len.toNat 0 len.toNat b).put 0 0x41).put 1 0x54).put 2 c).mem.read 0
      (bytes.length + 3) = [0x41, 0x54, c] ++ bytes := by
  have hnat : len.toNat = bytes.length := by rw [hlen, Int.toNat_natCast]
  rw [hnat]
  obtain ⟨hin, -⟩ := shiftLoop_mem bytes.length bytes.length 0 b (Nat.zero_add _)
  set b' := shiftLoop bytes.length 0 bytes.length b
  -- the three characters go in front of the bytes moved
  have hput : ((((b'.put 0 0x41).put 1 0x54).put 2 c).mem) = b'.mem.write 0 [0x41, 0x54, c] := by
    simp only [RxBuf.put_mem]
    rw [show ([0x41, 0x54, c] : List UInt8) = [0x41] ++ ([0x54] ++ [c]) from rfl, Buf.write_append,
      Buf.write_append]
    rfl
  have hpre : (b'.mem.write 0 [0x41, 0x54, c]).read 0 3 = [0x41, 0x54, c] := Buf.read_write _ _ _
  rw [hput, Nat.add_comm, Buf.read_add, hpre]
  congr 1
  refine (Buf.read_congr fun i hi => ?_).trans h.mem
  rw [Buf.write_outside (.inr (by simp)), hin _ (by omega), if_neg (by omega)]
  congr 1
  omega

/-- A character was recognised. -/
theorem Arrived.kept_iff (h : Arrived bytes b len) (hid : g.specialId ≠ 0) :
    FillsSafely thirdChar g.specialId bytes (softSampleFillChar thirdChar g b len).2.1
      (softSampleFillChar thirdChar g b len).2.2 ↔
      len = bytes.length ∧ bytes.length ≤ 97 := by
  unfold softSampleFillChar
  rw [if_pos hid]
  dsimp only
  constructor
  · intro hs
    obtain ⟨hlen, -⟩ := hs.behind hid
    have hle := hs.assertion (by omega)
    omega
  · rintro ⟨hlen, hle⟩
    have hnat : len.toNat = bytes.length := by rw [hlen, Int.toNat_natCast]
    refine ⟨put_three_stored fun i hi => ?_, fun _ => by omega,
      fun _ => ⟨by rw [hlen], h.shifted hlen _⟩, fun hno => absurd hno hid⟩
    rcases (shiftLoop_stored _ _ _ _ i).mp hi with hold | ⟨k, -, hk, rfl⟩
    · exact h.stores i hold
    · unfold atBufferSize
      omega

/-- **Refilling**: a round of `AT_uart_rx_task`, for whatever was received and whatever the sampler
left. -/
theorem fillsSafely_iff (thirdChar : Nat → UInt8) (acquired : Bool) (rx : List UInt8)
    (g : SoftSample) (mem : Buf) :
    FillsSafely thirdChar g.specialId (received acquired rx)
      (rxRound thirdChar acquired rx g ⟨mem, []⟩).2.1
      (rxRound thirdChar acquired rx g ⟨mem, []⟩).2.2 ↔
      g.specialId = 0 ∨ acquired = true ∧ rx.length ≤ 97 := by
  have h := arrived_atUartRead acquired rx mem
  by_cases hid : g.specialId = 0
  · exact iff_of_true (h.fillsSafely_of_zero hid) (.inl hid)
  · rw [or_iff_right hid]
    refine (h.kept_iff hid).trans ?_
    cases acquired with
    | false =>
      have hlen : (-1 : Int) ≠ ([] : List UInt8).length := by decide
      exact iff_of_false (fun hno => hlen hno.1) (fun hno => by cases hno.1)
    | true =>
      have hrec : received true rx = rx.take atBufferSize := if_pos rfl
      have hlen : (atUartRead true rx ⟨mem, []⟩ atBufferSize).1 = (received true rx).length :=
        h.len.resolve_right fun hno => absurd hno.1 (by
          have hnat : (atUartRead true rx ⟨mem, []⟩ atBufferSize).1 =
            ((readLoop rx 0 atBufferSize ⟨mem, []⟩).1 : Int) := rfl
          omega)
      rw [and_iff_right hlen, hrec, List.length_take]
      unfold atBufferSize
      exact ⟨fun hle => ⟨rfl, by omega⟩, fun hle => by omega⟩

/-- 98 bytes after a `D` was recognised: the length is 101. -/
theorem not_fillsSafely : ¬ FillsSafely (fun _ => 0x44) 3 (received true (List.replicate 98 0x31))
    (rxRound (fun _ => 0x44) true (List.replicate 98 0x31) { specialId := 3 } ⟨fun _ => 0, []⟩).2.1
    (rxRound (fun _ => 0x44) true (List.replicate 98 0x31) { specialId := 3 } ⟨fun _ => 0, []⟩).2.2 := by
  have h := arrived_atUartRead true (List.replicate 98 0x31) (fun _ => 0)
  intro hs
  have hle := ((h.kept_iff (g := { specialId := 3 }) (by decide)).mp hs).2
  rw [received, if_pos rfl, List.length_take, List.length_replicate] at hle
  exact absurd hle (by decide)

end XY1100.Uart
