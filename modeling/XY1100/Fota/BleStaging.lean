import XY1100.Fota.Chunking
import XY1100.Support.Pieces

/-!
# Fota — a package by Bluetooth

`xy_local_fota_hook` queues the packets of a package that comes by Bluetooth.  `xy_local_fota_task`
stages them in the heap of the DSP, one after the other, until it finds the last one; then it offers
the staged bytes to `ota_downlink_packet_proc`, in pieces of a sector and a remainder, until one is
refused.

* `stagesRight_iff`: the task stays in the staging area and delivers the package, exactly when the
  package fits the area, the last packet has no data, and no piece but the last is refused.
* `stagesRight_of_goodPackage`: of a package that the FOTA accepts no piece is refused.
-/

namespace XY1100.BleFota
open Support

/-! ### The code -/

/-- `DSP_HEAP_DRAM_START`. -/
def dspHeapDramStart : Nat := 0x3ffc0000

/-- `DSP_HEAP_DRAM_LEN`. -/
def dspHeapDramLen : Nat := 0x13800

/-- `FLASH_SECTOR_LENGTH`. -/
def flashSectorLength : Nat := 0x1000

theorem flashSectorLength_pos : 0 < flashSectorLength := by decide

/-- `1024*4`, the size of `buf`. -/
def bufLen : Nat := 1024 * 4

/-- `ble_fota_msg`, with the bytes at `data`. -/
structure BleFotaMsg where
  lastFlag : Int
  data : List UInt8

/-- The message `xy_local_fota_hook` puts into the queue. -/
def xyLocalFotaHook (data : List UInt8) (lastFlag : Int) : BleFotaMsg :=
  if lastFlag = 1 then ⟨1, []⟩ else ⟨0, data⟩

/-- The memory with the staging area, the bytes staged, and where transfers wrote to it. -/
structure Staging where
  dram : Buf
  bufDataSize : Nat
  written : List (Nat × Nat)

/-- `LOCAL_FOTA_DRAM_START` and an offset. -/
def dramAddr (offset : Nat) : Nat := (dspHeapDramStart + offset) % 2 ^ 32

/-- The transfer of a message. -/
def stage (st : Staging) (msg : BleFotaMsg) : Staging where
  dram := st.dram.write (dramAddr st.bufDataSize) msg.data
  bufDataSize := (st.bufDataSize + msg.data.length) % 2 ^ 32
  written := (dramAddr st.bufDataSize, msg.data.length) :: st.written

/-- The first loop, and whether it found the last message before the queue stayed empty. -/
def receive : List BleFotaMsg → Staging → Staging × Bool
  | [], st => (st, false)
  | msg :: msgs, st => if msg.lastFlag = 1 then (stage st msg, true) else receive msgs (stage st msg)

section
variable {σ : Type} (otaDownlinkPacketProc : σ → List UInt8 → Int × σ)

/-- The second loop, with a buffer of `bufLen` and sectors of `sector` bytes: the calls of
`ota_downlink_packet_proc`, and whether it refused none. -/
def deliverLoop (bufLen : Nat) {sector : Nat} (hsector : 0 < sector) (dram : Buf)
    (tmp bufDataSize : Nat) (s : σ) : List (List UInt8) × Bool :=
  if _h : bufDataSize = 0 then ([], true)
  else
    let buf := dram.read (dramAddr tmp) bufLen
    if sector ≤ bufDataSize then
      if (otaDownlinkPacketProc s buf).1 ≠ 0 then ([buf], false)
      else
        let r := deliverLoop bufLen hsector dram (tmp + bufLen) (bufDataSize - sector)
          (otaDownlinkPacketProc s buf).2
        (buf :: r.1, r.2)
    else
      let piece := buf.take bufDataSize
      ([piece], decide ((otaDownlinkPacketProc s piece).1 = 0))
termination_by bufDataSize
decreasing_by
  exact Nat.sub_lt (Nat.pos_of_ne_zero ‹_›) hsector

/-- What the task does: the transfers to the memory, the calls, and whether the package was taken. -/
structure TaskRun where
  written : List (Nat × Nat)
  calls : List (List UInt8)
  taken : Bool

/-- `xy_local_fota_task`, with the messages it gets from the queue. -/
def xyLocalFotaTask (s : σ) (dram : Buf) (msgs : List BleFotaMsg) : TaskRun :=
  match receive msgs ⟨dram, 0, []⟩ with
  | (st, false) => ⟨st.written, [], false⟩
  | (st, true) =>
      let r := deliverLoop otaDownlinkPacketProc bufLen flashSectorLength_pos st.dram 0
        st.bufDataSize s
      ⟨st.written, r.1, r.2⟩

end

/-! ### Staging -/

/-- The transfer writes only to the staging area. -/
def Inside (w : Nat × Nat) : Prop :=
  dspHeapDramStart ≤ w.1 ∧ w.1 + w.2 ≤ dspHeapDramStart + dspHeapDramLen

/-- The messages of a package. -/
def messages (packets : List (List UInt8)) (last : List UInt8) : List BleFotaMsg :=
  packets.map (fun data => xyLocalFotaHook data 0) ++ [xyLocalFotaHook last 1]

theorem dramAddr_eq {offset : Nat} (h : offset ≤ dspHeapDramLen) :
    dramAddr offset = dspHeapDramStart + offset := by
  unfold dspHeapDramLen at h
  unfold dramAddr dspHeapDramStart
  omega

theorem receive_messages_cons (data : List UInt8) (packets : List (List UInt8)) (last : List UInt8)
    (st : Staging) : receive (messages (data :: packets) last) st =
      receive (messages packets last) (stage st ⟨0, data⟩) := rfl

theorem receive_messages_nil (last : List UInt8) (st : Staging) :
    receive (messages [] last) st = (stage st ⟨1, []⟩, true) := rfl

theorem stage_written (st : Staging) (flag : Int) (data : List UInt8) :
    (stage st ⟨flag, data⟩).written = (dramAddr st.bufDataSize, data.length) :: st.written := rfl

/-- The bytes staged so far, all transfers in the area. -/
structure Holds (st : Staging) (bytes : List UInt8) : Prop where
  size : st.bufDataSize = bytes.length
  fits : bytes.length ≤ dspHeapDramLen
  dram : st.dram.read dspHeapDramStart bytes.length = bytes
  inside : ∀ w ∈ st.written, Inside w

variable {st : Staging} {bytes : List UInt8}

/-- A message that fits. -/
theorem Holds.stage (h : Holds st bytes) {data : List UInt8}
    (hfit : (bytes ++ data).length ≤ dspHeapDramLen) (flag : Int) :
    Holds (stage st ⟨flag, data⟩) (bytes ++ data) where
  size := by
    rw [List.length_append] at hfit ⊢
    show (st.bufDataSize + data.length) % 2 ^ 32 = _
    rw [h.size]
    unfold dspHeapDramLen at hfit
    exact Nat.mod_eq_of_lt (by omega)
  fits := hfit
  dram := by
    show (st.dram.write (dramAddr st.bufDataSize) data).read dspHeapDramStart _ = _
    rw [h.size, dramAddr_eq h.fits, List.length_append, Buf.read_add, Buf.read_write]
    congr 1
    refine (Buf.read_congr fun i hi => ?_).trans h.dram
    exact Buf.write_outside (.inl (by omega))
  inside := by
    intro w hw
    rw [stage_written] at hw
    rcases List.mem_cons.mp hw with rfl | hw
    · rw [List.length_append] at hfit
      unfold Inside
      rw [h.size, dramAddr_eq h.fits]
      exact ⟨Nat.le_add_right _ _, by omega⟩
    · exact h.inside w hw

/-- **A package that fits** is staged. -/
theorem Holds.receive {packets : List (List UInt8)} (last : List UInt8) (h : Holds st bytes)
    (hfit : (bytes ++ packets.flatten).length ≤ dspHeapDramLen) :
    ∃ st', receive (messages packets last) st = (st', true) ∧
      Holds st' (bytes ++ packets.flatten) := by
  induction packets generalizing st bytes with
  | nil =>
      rw [List.flatten_nil] at hfit ⊢
      exact ⟨_, receive_messages_nil last st, h.stage hfit 1⟩
  | cons data packets ih =>
      rw [List.flatten_cons, ← List.append_assoc] at hfit ⊢
      have hdata : (bytes ++ data).length ≤ dspHeapDramLen := by
        rw [List.length_append] at hfit
        omega
      rw [receive_messages_cons]
      exact ih (h.stage hdata 0) hfit

theorem written_receive (msgs : List BleFotaMsg) (st : Staging) {w : Nat × Nat}
    (hw : w ∈ st.written) : w ∈ (receive msgs st).1.written := by
  induction msgs generalizing st with
  | nil => exact hw
  | cons msg msgs ih =>
      rw [BleFota.receive]
      by_cases hlast : msg.lastFlag = 1
      · rw [if_pos hlast]
        exact List.mem_cons_of_mem _ hw
      · rw [if_neg hlast]
        exact ih _ (List.mem_cons_of_mem _ hw)

/-- A package that does not fit is written beyond the area. -/
theorem Holds.outside {packets : List (List UInt8)} (last : List UInt8) (h : Holds st bytes)
    (hover : dspHeapDramLen < (bytes ++ packets.flatten).length) :
    ∃ w ∈ (BleFota.receive (messages packets last) st).1.written, ¬ Inside w := by
  induction packets generalizing st bytes with
  | nil =>
      rw [List.flatten_nil, List.append_nil] at hover
      exact absurd h.fits (not_le.mpr hover)
  | cons data packets ih =>
      rw [receive_messages_cons]
      by_cases hdata : (bytes ++ data).length ≤ dspHeapDramLen
      · rw [List.flatten_cons, ← List.append_assoc] at hover
        exact ih (h.stage hdata 0) hover
      · have hw : (dramAddr st.bufDataSize, data.length) ∈ (BleFota.stage st ⟨0, data⟩).written :=
          List.mem_cons_self
        refine ⟨_, written_receive _ _ hw, fun hin => hdata ?_⟩
        have hend := hin.2
        rw [h.size, dramAddr_eq h.fits] at hend
        rw [List.length_append]
        omega

/-! ### Delivery -/

section
variable {σ : Type} {otaDownlinkPacketProc : σ → List UInt8 → Int × σ}

/-- `ota_downlink_packet_proc` takes a piece where it returns 0. -/
def takes (otaDownlinkPacketProc : σ → List UInt8 → Int × σ) (s : σ) (piece : List UInt8) :
    Bool × σ :=
  (decide ((otaDownlinkPacketProc s piece).1 = 0), (otaDownlinkPacketProc s piece).2)

/-- The second loop offers the staged bytes in pieces. -/
theorem deliverLoop_eq (dram : Buf) : ∀ (size tmp : Nat) (s : σ), tmp + size ≤ dspHeapDramLen →
    deliverLoop otaDownlinkPacketProc bufLen flashSectorLength_pos dram tmp size s =
      feed (takes otaDownlinkPacketProc) s
        (pieces flashSectorLength (dram.read (dspHeapDramStart + tmp) size)) := by
  intro size
  induction size using Nat.strong_induction_on with
  | _ size ih =>
      intro tmp s hfit
      have hlen : (dram.read (dspHeapDramStart + tmp) size).length = size := Buf.length_read _ _ _
      have haddr : dramAddr tmp = dspHeapDramStart + tmp := dramAddr_eq (by omega)
      rw [deliverLoop]
      by_cases hzero : size = 0
      · subst hzero
        rw [dif_pos rfl, List.length_eq_zero_iff.mp hlen, pieces_nil]
        rfl
      · have hne : dram.read (dspHeapDramStart + tmp) size ≠ [] := by
          rw [← List.length_pos_iff, hlen]
          exact Nat.pos_of_ne_zero hzero
        rw [dif_neg hzero, haddr]
        dsimp only
        by_cases hsec : flashSectorLength ≤ size
        · -- a whole sector is offered, and the rest is shorter
          have hrest := ih (size - flashSectorLength)
            (Nat.sub_lt (Nat.pos_of_ne_zero hzero) flashSectorLength_pos) (tmp + bufLen)
          have hcut : pieces flashSectorLength (dram.read (dspHeapDramStart + tmp) size) =
              dram.read (dspHeapDramStart + tmp) bufLen ::
                pieces flashSectorLength
                  (dram.read (dspHeapDramStart + (tmp + bufLen)) (size - flashSectorLength)) := by
            rw [pieces_cons flashSectorLength_pos hne, Buf.take_read hsec, Buf.drop_read hsec,
              Nat.add_assoc]
            rfl
          rw [if_pos hsec, hcut, feed]
          by_cases hret : (otaDownlinkPacketProc s
              (dram.read (dspHeapDramStart + tmp) bufLen)).1 = 0
          · have hbuf : bufLen = flashSectorLength := rfl
            have htaken : (takes otaDownlinkPacketProc s
              (dram.read (dspHeapDramStart + tmp) bufLen)).1 = true := decide_eq_true hret
            rw [if_neg (not_not_intro hret), if_pos htaken, hrest _ (by rw [hbuf]; omega)]
            rfl
          · have hrefused : ¬ (takes otaDownlinkPacketProc s
              (dram.read (dspHeapDramStart + tmp) bufLen)).1 = true :=
              fun hno => hret (of_decide_eq_true hno)
            rw [if_pos hret, if_neg hrefused]
        · have hle : size ≤ flashSectorLength := (not_le.mp hsec).le
          have htake : (dram.read (dspHeapDramStart + tmp) bufLen).take size =
              dram.read (dspHeapDramStart + tmp) size := Buf.take_read hle
          rw [if_neg hsec, htake, pieces_of_le flashSectorLength_pos hne (hlen.trans_le hle), feed]
          by_cases hret : (otaDownlinkPacketProc s
              (dram.read (dspHeapDramStart + tmp) size)).1 = 0
          · have htaken : (takes otaDownlinkPacketProc s
              (dram.read (dspHeapDramStart + tmp) size)).1 = true := decide_eq_true hret
            rw [if_pos htaken, decide_eq_true hret]
            rfl
          · have hrefused : ¬ (takes otaDownlinkPacketProc s
              (dram.read (dspHeapDramStart + tmp) size)).1 = true :=
              fun hno => hret (of_decide_eq_true hno)
            rw [if_neg hrefused, decide_eq_false hret]

/-! ### The task -/

/-- Only the staging area is written, and the calls deliver the package. -/
structure StagesRight (run : TaskRun) (package : List UInt8) : Prop where
  inside : ∀ w ∈ run.written, Inside w
  delivers : CutInto flashSectorLength run.calls package

theorem holds_empty (dram : Buf) : Holds ⟨dram, 0, []⟩ [] :=
  ⟨rfl, Nat.zero_le _, rfl, fun _ hw => absurd hw List.not_mem_nil⟩

variable (otaDownlinkPacketProc) in
/-- The task with a package that fits the area. -/
theorem xyLocalFotaTask_of_fits (s : σ) (dram : Buf) {packets : List (List UInt8)}
    (last : List UInt8) (hfit : packets.flatten.length ≤ dspHeapDramLen) :
    (∀ w ∈ (xyLocalFotaTask otaDownlinkPacketProc s dram (messages packets last)).written,
        Inside w) ∧
      (xyLocalFotaTask otaDownlinkPacketProc s dram (messages packets last)).calls =
        (feed (takes otaDownlinkPacketProc) s (pieces flashSectorLength packets.flatten)).1 := by
  obtain ⟨st, hrec, hst⟩ := (holds_empty dram).receive last hfit
  rw [List.nil_append] at hst
  unfold xyLocalFotaTask
  rw [hrec]
  refine ⟨hst.inside, ?_⟩
  dsimp only
  rw [deliverLoop_eq st.dram _ 0 s (by rw [hst.size, Nat.zero_add]; exact hst.fits), hst.size,
    Nat.add_zero, hst.dram]

/-- The package fits the area, and no piece but the last is refused. -/
theorem stagesRight_of_fits {s : σ} {packets : List (List UInt8)} (dram : Buf)
    (hfit : packets.flatten.length ≤ dspHeapDramLen)
    (htakes : TakesButLast (takes otaDownlinkPacketProc) s
      (pieces flashSectorLength packets.flatten)) :
    StagesRight (xyLocalFotaTask otaDownlinkPacketProc s dram (messages packets []))
      packets.flatten := by
  obtain ⟨hin, hcalls⟩ := xyLocalFotaTask_of_fits otaDownlinkPacketProc s dram [] hfit
  refine ⟨hin, ?_⟩
  rw [hcalls, (feed_eq_iff _ _).mpr htakes]
  exact cutInto_pieces flashSectorLength_pos packets.flatten

/-- **A package by Bluetooth** is staged in the area and delivered in pieces, exactly when it fits,
the last packet has no data, and no piece but the last is refused. -/
theorem stagesRight_iff (otaDownlinkPacketProc : σ → List UInt8 → Int × σ) (s : σ) (dram : Buf)
    (packets : List (List UInt8)) (last : List UInt8) :
    StagesRight (xyLocalFotaTask otaDownlinkPacketProc s dram (messages packets last))
        (packets ++ [last]).flatten ↔
      packets.flatten.length ≤ dspHeapDramLen ∧ last = [] ∧
        TakesButLast (takes otaDownlinkPacketProc) s
          (pieces flashSectorLength packets.flatten) := by
  have hcut := cutInto_pieces flashSectorLength_pos packets.flatten
  have hall : (packets ++ [last]).flatten = packets.flatten ++ last := by simp
  rw [hall]
  constructor
  · rintro ⟨hin, hdel⟩
    have hfit : packets.flatten.length ≤ dspHeapDramLen := by
      -- a write beyond the area is not taken back
      by_contra hover
      obtain ⟨w, hw, hout⟩ := (holds_empty dram).outside last (not_le.mp hover)
      refine hout (hin w ?_)
      unfold xyLocalFotaTask
      rcases hrec : receive (messages packets last) ⟨dram, 0, []⟩ with ⟨st, _ | _⟩ <;>
        rw [hrec] at hw <;> exact hw
    obtain ⟨-, hcalls⟩ := xyLocalFotaTask_of_fits otaDownlinkPacketProc s dram last hfit
    rw [hcalls] at hdel
    have hpre := feed_prefix (takes otaDownlinkPacketProc) s
      (pieces flashSectorLength packets.flatten)
    -- what is offered is a part of what was staged
    have hlast : last = [] := by
      have hle := hpre.flatten.length_le
      rw [hdel.flatten, hcut.flatten, List.length_append] at hle
      exact List.length_eq_zero_iff.mp (by omega)
    refine ⟨hfit, hlast, (feed_eq_iff _ _).mp (prefix_eq_of_flatten hpre ?_ ?_)⟩
    · exact fun p hp => (hcut.length_le p hp).1
    · rw [hdel.flatten, hcut.flatten, hlast, List.append_nil]
  · rintro ⟨hfit, rfl, htakes⟩
    rw [List.append_nil]
    exact stagesRight_of_fits dram hfit htakes

/-- One byte more than the staging area has room for. -/
def largePackage : List (List UInt8) := [List.replicate (dspHeapDramLen + 1) 0]

/-- The last byte of the package is written beyond the area, though every piece is taken. -/
theorem not_stagesRight_large :
    ¬ StagesRight (xyLocalFotaTask (fun _ _ => (0, ())) () (fun _ => 0) (messages largePackage []))
      (largePackage ++ [[]]).flatten := by
  intro h
  have hin := h.inside (dramAddr 0, (List.replicate (dspHeapDramLen + 1) (0 : UInt8)).length)
    (List.mem_cons_of_mem _ List.mem_cons_self)
  have hend := hin.2
  rw [List.length_replicate, dramAddr_eq (Nat.zero_le _)] at hend
  omega

end

/-! ### A good package -/

section
variable {env : Env} {sizes : ImageSizes}

/-- `ota_downlink_packet_proc` as the task looks at it: 0 for `XY_OK`. -/
def otaRet (env : Env) (s : Fota) (piece : List UInt8) : Int × Fota :=
  match otaDownlinkPacketProc env piece s with
  | .ok .xyOk s' => (0, s')
  | .ok _ s' => (-1, s')
  | .error _ s' => (-1, s')

/-- No piece of a package that is accepted is refused. -/
theorem takesButLast_of_received {f₀ : Buf} {package : List UInt8}
    (hg : GoodPackage sizes f₀ package) (hv : ∀ k, env.vbatOk k = true) :
    ∀ (ps : List (List UInt8)) {bytes : List UInt8} {s : Fota}, bytes ++ ps.flatten = package →
      Received sizes f₀ s bytes → TakesButLast (takes (otaRet env)) s ps
  | [], _, _, _, _ => trivial
  | [_], _, _, _, _ => trivial
  | p :: q :: ps, bytes, s, hcut, hr => by
      rw [List.flatten_cons, ← List.append_assoc] at hcut
      obtain ⟨s', hcall, hr'⟩ := hr.accepts hg hv p _ hcut
      have hret : otaRet env s p = (0, s') := by
        unfold otaRet
        rw [hcall]
      rw [TakesButLast, takes, hret]
      exact ⟨rfl, takesButLast_of_received hg hv (q :: ps) hcut hr'⟩

/-- **A good package** that fits the staging area is delivered. -/
theorem stagesRight_of_goodPackage {b : Board} {packets : List (List UInt8)}
    (hg : GoodPackage sizes b.flash packets.flatten) (hv : ∀ k, env.vbatOk k = true)
    (hfit : packets.flatten.length ≤ dspHeapDramLen) (dram : Buf) :
    StagesRight (xyLocalFotaTask (otaRet env) ⟨b, otaUpdateInit sizes⟩ dram (messages packets []))
      packets.flatten := by
  refine stagesRight_of_fits dram hfit (takesButLast_of_received hg hv _ ?_ (received_init b))
  exact (cutInto_pieces flashSectorLength_pos packets.flatten).flatten

end

end XY1100.BleFota
