import Mathlib.Tactic
import XY1100.Support.CString

/-!
# DM — the reply to a registration

`handle_connection` receives the reply of the DM server with at most two calls of `recv` into a
buffer of 512 bytes and looks for `Success` in it with `findstr`, which copies a window of the buffer
at each place of the string.  An access outside the buffer ends the model.

* `registersRight_iff`: all accesses are inside the buffer and the reply is understood, exactly when
  the second `recv` receives nothing after a first one that failed, and the text received has at most
  506 bytes, or at most 511 with `Success` among them.
-/

namespace XY1100.Dm
open Support

/-! ### The code -/

/-- `MAX_FINDSTR_SIZE`. -/
def maxFindstrSize : Nat := 30

/-- The size of `requestbuf`. -/
def requestbufSize : Nat := 512

/-- The bytes of `temp`, read from the places `i` to `i + length - 1`. -/
def window (s : List UInt8) (i length : Nat) : Option (List UInt8) :=
  if i + length ≤ s.length then some ((s.drop i).take length) else none

/-- The loop of `findstr` from the place `i`, with so many places left. -/
def findFrom (s d : List UInt8) : Nat → Nat → Option Nat
  | 0, _ => some 0
  | n + 1, i =>
      match window s i d.length with
      | none => none
      | some temp => if cText temp = d then some 1 else findFrom s d n (i + 1)

/-- `findstr` of a text in a buffer. -/
def findstr (s d : List UInt8) : Option Nat :=
  if maxFindstrSize ≤ d.length then some 0
  else
    match strlen s with
    | none => none
    | some length => findFrom s d length 0

/-- What `recv` returns for a size: the bytes received, or an error. -/
structure Received (size : Nat) where
  bytes : Option (List UInt8)
  fits : ∀ bs ∈ bytes, bs.length ≤ size

/-- The value returned. -/
def Received.ret {size : Nat} (r : Received size) : Int :=
  match r.bytes with
  | none => -1
  | some bs => bs.length

/-- The bytes received. -/
def Received.data {size : Nat} (r : Received size) : List UInt8 := r.bytes.getD []

/-- Bytes are received at an offset of the buffer. -/
def put (buf : List UInt8) (offset : Int) (bs : List UInt8) : Option (List UInt8) :=
  if bs = [] then some buf
  else if 0 ≤ offset ∧ offset + bs.length ≤ buf.length then
    some (buf.take offset.toNat ++ bs ++ buf.drop (offset.toNat + bs.length))
  else none

/-- `Success`. -/
def success : List UInt8 := [83, 117, 99, 99, 101, 115, 115]

/-- `requestbuf` after the calls of `recv`. -/
def receive (first : Received requestbufSize)
    (second : Received (requestbufSize - first.ret).toNat) : Option (List UInt8) :=
  match put (List.replicate requestbufSize 0) 0 first.data with
  | none => none
  | some buf =>
      if first.ret = 0 then some buf
      else if first.ret < requestbufSize then put buf first.ret second.data
      else some buf

/-- `handle_connection`, from what `send` returned on. -/
def handleConnection (sent : Int) (first : Received requestbufSize)
    (second : Received (requestbufSize - first.ret).toNat) : Option Int :=
  if sent < 0 then some (-1)
  else
    match receive first second with
    | none => none
    | some buf => (findstr buf success).map fun count => if 0 < count then 0 else 1

/-- `handle_connection` of `telecom_dm.c`. -/
def telecomHandleConnection (sent : Int) (first : Received requestbufSize)
    (second : Received (requestbufSize - first.ret).toNat) : Option Int :=
  handleConnection sent first second

/-- `handle_connection` of `unicom_dm.c`. -/
def unicomHandleConnection (sent : Int) (first : Received requestbufSize)
    (second : Received (requestbufSize - first.ret).toNat) : Option Int :=
  handleConnection sent first second

/-! ### The search -/

variable {s d : List UInt8}

theorem findFrom_eq (hd : 0 ∉ d) (hne : d ≠ []) :
    ∀ n i, i + n = (cText s).length →
      findFrom s d n i =
        if d <:+: (cText s).drop i then some 1
        else if n = 0 ∨ (cText s).length - 1 + d.length ≤ s.length then some 0 else none := by
  intro n
  induction n with
  | zero =>
      intro i hi
      rw [List.drop_eq_nil_of_le (by omega), if_neg fun h => hne (List.eq_nil_of_infix_nil h),
        if_pos (.inl rfl)]
      rfl
  | succ n ih =>
      intro i hi
      have hlen : (cText s).length ≤ s.length := (cText_prefix_self s).length_le
      unfold findFrom window
      by_cases hin : i + d.length ≤ s.length
      · rw [if_pos hin]
        dsimp only
        -- the text stands here, or further on
        have hsplit : d <:+: (cText s).drop i ↔
            d <+: (cText s).drop i ∨ d <:+: (cText s).drop (i + 1) := by
          rw [List.drop_eq_getElem_cons (by omega), List.infix_cons_iff]
        have hplace : i ≤ (cText s).length := by omega
        have hhere := cText_window_iff hd hplace
        by_cases hpre : d <+: (cText s).drop i
        · rw [if_pos (hhere.mpr hpre), if_pos hpre.isInfix]
        · rw [if_neg fun h => hpre (hhere.mp h), ih (i + 1) (by omega)]
          have hrest : d <:+: (cText s).drop i ↔ d <:+: (cText s).drop (i + 1) :=
            hsplit.trans (or_iff_right hpre)
          have hroom : (n = 0 ∨ (cText s).length - 1 + d.length ≤ s.length) ↔
              (n + 1 = 0 ∨ (cText s).length - 1 + d.length ≤ s.length) := by omega
          simp only [hrest, hroom]
      · -- the window leaves the buffer, so nothing can stand here or later
        rw [if_neg hin]
        dsimp only
        have hnot : ¬ d <:+: (cText s).drop i := by
          intro h
          have hle := h.length_le
          rw [List.length_drop] at hle
          omega
        rw [if_neg hnot, if_neg (by omega)]

/-- **The search** in a buffer. -/
theorem findstr_eq (hd : 0 ∉ d) (hne : d ≠ []) (hshort : d.length < maxFindstrSize) (hs : 0 ∈ s) :
    findstr s d =
      if d <:+: cText s then some 1
      else if cText s = [] ∨ (cText s).length - 1 + d.length ≤ s.length then some 0 else none := by
  unfold findstr
  rw [if_neg (by omega), strlen_eq_some hs]
  dsimp only
  rw [findFrom_eq hd hne _ 0 (Nat.zero_add _), List.drop_zero]
  simp only [List.length_eq_zero_iff]

theorem findstr_eq_none (hshort : d.length < maxFindstrSize) (hs : 0 ∉ s) : findstr s d = none := by
  unfold findstr
  rw [if_neg (by omega), strlen_eq_none hs]

/-! ### The buffer -/

/-- The bytes that the calls of `recv` return, in order. -/
def received (first : Received requestbufSize)
    (second : Received (requestbufSize - first.ret).toNat) : List UInt8 :=
  if first.ret = 0 then [] else first.data ++ second.data

variable {sent : Int} {first : Received requestbufSize}
  {second : Received (requestbufSize - first.ret).toNat}

theorem Received.length_data {size : Nat} (r : Received size) : r.data.length ≤ size := by
  unfold Received.data
  cases h : r.bytes with
  | none => exact Nat.zero_le _
  | some bs => exact r.fits bs h

theorem Received.ret_of_bytes {size : Nat} {r : Received size} (h : r.bytes ≠ none) :
    r.ret = r.data.length := by
  unfold Received.ret Received.data
  cases hb : r.bytes with
  | none => exact absurd hb h
  | some bs => rfl

/-- Bytes received behind those already there. -/
theorem put_zeros {bs : List UInt8} {offset : Int} {n : Nat} (hoff : offset = s.length)
    (hfit : bs.length ≤ n) :
    put (s ++ List.replicate n 0) offset bs =
      some (s ++ bs ++ List.replicate (n - bs.length) 0) := by
  subst hoff
  unfold put
  by_cases hnil : bs = []
  · subst hnil
    simp
  · -- the bytes go to the start of the zeros
    have hin : (0 : Int) ≤ s.length ∧
        (s.length : Int) + bs.length ≤ (s ++ List.replicate n (0 : UInt8)).length := by
      simp only [List.length_append, List.length_replicate]
      omega
    rw [if_neg hnil, if_pos hin]
    simp [List.drop_append]

/-- A first `recv` into the cleared buffer. -/
theorem put_first {bs : List UInt8} (hfit : bs.length ≤ requestbufSize) :
    put (List.replicate requestbufSize 0) 0 bs =
      some ([] ++ bs ++ List.replicate (requestbufSize - bs.length) 0) :=
  put_zeros (s := []) rfl hfit

/-- The buffer holds the bytes received, and NULs behind them. -/
theorem receive_eq (hfirst : first.bytes = none → second.data = []) :
    (received first second).length ≤ requestbufSize ∧
      receive first second =
        some (received first second ++
          List.replicate (requestbufSize - (received first second).length) 0) := by
  have hsecond := second.length_data
  have hdata := first.length_data
  unfold receive received
  rw [put_first hdata, List.nil_append]
  dsimp only
  by_cases hbytes : first.bytes = none
  · -- nothing was received
    have hret : first.ret = -1 := by unfold Received.ret; rw [hbytes]
    have hnil : first.data = [] := by unfold Received.data; rw [hbytes]; rfl
    have hneg : first.ret < (requestbufSize : Int) := by omega
    rw [if_neg (by omega), if_neg (by omega), if_pos hneg, hnil, hfirst hbytes]
    exact ⟨Nat.zero_le _, if_pos rfl⟩
  · have hret := Received.ret_of_bytes hbytes
    by_cases hzero : first.ret = 0
    · have hnil : first.data = [] := List.length_eq_zero_iff.mp (by omega)
      rw [if_pos hzero, if_pos hzero, hnil]
      exact ⟨Nat.zero_le _, rfl⟩
    · rw [if_neg hzero, if_neg hzero]
      have hroom : first.data.length + second.data.length ≤ requestbufSize := by omega
      rw [List.length_append]
      refine ⟨hroom, ?_⟩
      by_cases hfull : first.ret < (requestbufSize : Int)
      · rw [if_pos hfull, put_zeros hret (by omega), Nat.sub_add_eq]
      · have hnil : second.data = [] := List.length_eq_zero_iff.mp (by omega)
        rw [if_neg hfull, hnil, List.append_nil, List.length_nil, Nat.add_zero]

/-- A second `recv` after one that failed stores in front of the buffer. -/
theorem receive_eq_none (hfirst : first.bytes = none) (hsecond : second.data ≠ []) :
    receive first second = none := by
  have hret : first.ret = -1 := by unfold Received.ret; rw [hfirst]
  have hneg : first.ret < (requestbufSize : Int) := by omega
  unfold receive
  rw [put_first first.length_data]
  dsimp only
  rw [if_neg (by omega), if_pos hneg]
  unfold put
  rw [if_neg hsecond, if_neg (by omega)]

/-! ### The reply -/

/-- All accesses are inside the buffer, and 0 is returned exactly when the text received has
`Success` in it. -/
def RegistersRight (handle : (sent : Int) → (first : Received requestbufSize) →
      (second : Received (requestbufSize - first.ret).toNat) → Option Int)
    (sent : Int) (first : Received requestbufSize)
    (second : Received (requestbufSize - first.ret).toNat) : Prop :=
  ∃ ret, handle sent first second = some ret ∧
    (ret = 0 ↔ 0 ≤ sent ∧ success <:+: cText (received first second))

/-- A failed first `recv` is not followed by one that receives, and the search stays in the
buffer. -/
structure Bounded (first : Received requestbufSize)
    (second : Received (requestbufSize - first.ret).toNat) : Prop where
  offset : first.bytes = none → second.data = []
  search : (cText (received first second)).length + success.length ≤ requestbufSize + 1 ∨
    (cText (received first second)).length < requestbufSize ∧
      success <:+: cText (received first second)

theorem success_short : 0 ∉ success ∧ success ≠ [] ∧ success.length < maxFindstrSize := by decide

theorem handleConnection_iff :
    RegistersRight handleConnection sent first second ↔ sent < 0 ∨ Bounded first second := by
  obtain ⟨hnul, hne, hshort⟩ := success_short
  unfold RegistersRight handleConnection
  by_cases hsent : sent < 0
  · rw [if_pos hsent]
    refine iff_of_true ⟨-1, rfl, ?_⟩ (.inl hsent)
    exact iff_of_false (by decide) fun hno => absurd hno.1 (by omega)
  · rw [if_neg hsent, or_iff_right hsent]
    by_cases hfirst : first.bytes = none → second.data = []
    · obtain ⟨hlen, hrec⟩ := receive_eq hfirst
      have htext := cText_append_zeros (received first second)
        (requestbufSize - (received first second).length)
      rw [hrec]
      dsimp only
      generalize hbuf : received first second ++
        List.replicate (requestbufSize - (received first second).length) 0 = buf at htext
      have hsize : buf.length = requestbufSize := by
        rw [← hbuf, List.length_append, List.length_replicate]
        omega
      -- the string ends in the buffer exactly when a NUL is left in it
      have hterm : 0 ∈ buf ↔ (cText (received first second)).length < requestbufSize := by
        rw [← length_cText_lt_iff, htext, hsize]
      by_cases hnot : 0 ∈ buf
      · have hlt := hterm.mp hnot
        rw [findstr_eq hnul hne hshort hnot, htext, hsize]
        by_cases hin : success <:+: cText (received first second)
        · rw [if_pos hin]
          refine iff_of_true ⟨0, rfl, ?_⟩ ⟨hfirst, .inr ⟨hlt, hin⟩⟩
          exact iff_of_true rfl ⟨by omega, hin⟩
        · rw [if_neg hin]
          by_cases hroom : cText (received first second) = [] ∨
              (cText (received first second)).length - 1 + success.length ≤ requestbufSize
          · rw [if_pos hroom]
            refine iff_of_true ⟨1, rfl, iff_of_false (by decide) fun hno => hin hno.2⟩
              ⟨hfirst, .inl ?_⟩
            rcases hroom with hnil | hroom
            · rw [hnil]
              decide
            · omega
          · rw [if_neg hroom]
            refine iff_of_false (fun ⟨_, hno, _⟩ => nomatch hno) fun hno => ?_
            obtain ⟨hnil, hroom⟩ := not_or.mp hroom
            -- an unsuccessful search goes on to the last character, and reads a window there
            have hpos := List.length_pos_iff.mpr hnil
            rcases hno.search with hle | ⟨-, hyes⟩
            · omega
            · exact hin hyes
      · -- no NUL is left, so the string runs off the buffer
        rw [findstr_eq_none hshort hnot]
        refine iff_of_false (fun ⟨_, hno, _⟩ => nomatch hno) fun hno => ?_
        rw [hterm] at hnot
        have hseven : success.length = 7 := rfl
        rcases hno.search with hle | ⟨hlt, -⟩
        · omega
        · exact hnot hlt
    · obtain ⟨hnone, hsome⟩ := Classical.not_imp.mp hfirst
      rw [receive_eq_none hnone hsome]
      exact iff_of_false (fun ⟨_, hno, _⟩ => nomatch hno) fun hno => hfirst hno.offset

/-- **The reply to a registration**, in both versions. -/
theorem registersRight_iff (sent : Int) (first : Received requestbufSize)
    (second : Received (requestbufSize - first.ret).toNat) :
    (RegistersRight telecomHandleConnection sent first second ↔
        sent < 0 ∨ Bounded first second) ∧
      (RegistersRight unicomHandleConnection sent first second ↔
        sent < 0 ∨ Bounded first second) :=
  ⟨handleConnection_iff, handleConnection_iff⟩

/-- The first `recv` fails. -/
def failedRecv : Received requestbufSize := ⟨none, fun _ h => nomatch h⟩

/-- The second receives `Success`. -/
def lateSuccess : Received (requestbufSize - failedRecv.ret).toNat where
  bytes := some success
  fits bs h := by
    cases h
    decide

/-- Its first byte is stored in front of the buffer. -/
theorem not_registersRight_failed :
    ¬ RegistersRight telecomHandleConnection 1 failedRecv lateSuccess ∧
      ¬ RegistersRight unicomHandleConnection 1 failedRecv lateSuccess := by
  have hnone : receive failedRecv lateSuccess = none := receive_eq_none rfl (by decide)
  have hnot : ¬ RegistersRight handleConnection 1 failedRecv lateSuccess := by
    rintro ⟨ret, hret, -⟩
    unfold handleConnection at hret
    rw [if_neg (by decide), hnone] at hret
    exact nomatch hret
  exact ⟨hnot, hnot⟩

end XY1100.Dm
