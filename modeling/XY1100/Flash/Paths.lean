import XY1100.Flash.Operate

/-!
# Flash — the local and the inter-core path

`flash_adapt.c` with the buffers it works through.  The local path reads a sector it changes in
part into `block_buf`, and copies data that does not start at a cache line before it programs it;
the path through the DSP copies each piece into `block_buf`, except whole sectors of data that
start at a cache line.  Each is the function of `Device` that has no buffers
(`Buffered.flashWriteErase_eq`, `Buffered.flashOperateExt_eq`).

* A sector is rewritten by its own piece of the data (`storesPiece_rewriteSector`), and skipped
  only when it holds the piece already, under either path's test.
* **Both paths leave the same flash** (`paths_equivalent`), and a write with erase leaves the old
  contents with the data in place of the bytes of the range.
-/

namespace XY1100
open Support

theorem toNat_and_mask (x : UInt32) : (x &&& 0xfff).toNat = x.toNat % 4096 := by
  rw [UInt32.toNat_and, show (0xfff : UInt32).toNat = 2 ^ 12 - 1 from rfl,
    Nat.and_two_pow_sub_one_eq_mod]

theorem toNat_and_sectorMask (x : UInt32) :
    (x &&& 0xfffff000).toNat = x.toNat - x.toNat % 4096 := by
  have h := toNat_and_not_mask x
  rw [show (~~~4095 : UInt32) = 0xfffff000 from rfl] at h
  omega

namespace Buffered

def CACHE_LINE : UInt32 := 32

/-- `IS_CACHE_ALIGNED`. -/
def IsCacheAligned (a : UInt32) : Prop := a &&& (CACHE_LINE - 1) = 0

instance (a : UInt32) : Decidable (IsCacheAligned a) := inferInstanceAs (Decidable (_ = _))

/-- The size of the next piece: up to the end of the sector. -/
def writeSizeOf (offset size : Nat) : Nat :=
  if size ≤ sectorLength - offset then size else sectorLength - offset

theorem writeSizeOf_eq (offset size : Nat) :
    writeSizeOf offset size = min size (sectorLength - offset) := by
  unfold writeSizeOf
  split <;> omega

/-! ### The local path -/

/-- `flash_write_no_erase` of the `data` at the RAM address `ram`; `heap` is what a fresh block
holds. -/
def flashWriteNoErase (heap : Buf) (addr : Nat) (ram : UInt32) (data : List UInt8) (b : Board) :
    Board :=
  let blockBuf := if IsCacheAligned ram then data else (heap.write 0 data).read 0 data.length
  b.perform [.program addr blockBuf]

/-- The body of the loop of `flash_write_erase`, for the piece `data` at `ram`; `block` is the
address of `block_buf`. -/
def writeErasePiece (heap : Buf) (block : UInt32) (actAddr offset : Nat) (ram : UInt32)
    (data : List UInt8) (s : Buf × Board) : Buf × Board :=
  let (blockBuf, b) := s
  if data.length = sectorLength then
    (blockBuf, flashWriteNoErase heap actAddr ram data (b.perform [.erase actAddr]))
  else
    let blockBuf := blockBuf.write 0 (b.flash.read actAddr sectorLength)
    if data.length < 100 ∧ blockBuf.read offset data.length = data then (blockBuf, b)
    else
      let blockBuf := blockBuf.write offset data
      (blockBuf, flashWriteNoErase heap actAddr block (blockBuf.read 0 sectorLength)
        (b.perform [.erase actAddr]))

/-- `flash_write_erase` of the `data` at the RAM address `ram`, with `block_buf` and the board. -/
def flashWriteErase (heap : Buf) (block addr ram : UInt32) (data : List UInt8)
    (s : Buf × Board) : Board :=
  if data.length = 0 then s.2 else
    let offset := (addr &&& 0xfff).toNat
    let actAddr := (addr &&& 0xfffff000).toNat
    let writeSize := writeSizeOf offset data.length
    flashWriteErase heap block (addr + UInt32.ofNat writeSize) (ram + UInt32.ofNat writeSize)
      (data.drop writeSize)
      (writeErasePiece heap block actAddr offset ram (data.take writeSize) s)
termination_by data.length
decreasing_by
  have h := toNat_and_mask addr
  have : addr.toNat % 4096 < 4096 := Nat.mod_lt _ (by omega)
  simp only [List.length_drop, writeSizeOf_eq, sectorLength]
  omega

/-! ### The path through the DSP -/

/-- What the DSP does with the bytes it is sent, at the address it is sent. -/
def sendWriteFlashMsg : FlashOperation → (ram : List UInt8) → (flashAddr : Nat) → List FlashOp
  | .flashOpErase, _, flashAddr => [.erase flashAddr]
  | .flashOpWriteNoErase, ram, flashAddr => [.program flashAddr ram]
  | .flashOpWriteErase, ram, flashAddr => [.erase flashAddr, .program flashAddr ram]

/-- The body of the loop of `flash_operate_ext`, for the piece `data` at `ramData`, of the `size`
bytes left. -/
def operatePiece (operation : FlashOperation) (actAddr offset : Nat) (ramData : UInt32)
    (data : List UInt8) (size : Nat) (s : Buf × Board) : Buf × Board :=
  let (blockBuf, b) := s
  match operation with
  | .flashOpWriteErase =>
    if offset = 0 ∧ data.length = sectorLength ∧ IsCacheAligned ramData then
      (blockBuf, b.perform (sendWriteFlashMsg .flashOpWriteErase data actAddr))
    else
      let writeBuf := blockBuf.write 0 (b.flash.read actAddr sectorLength)
      if size < 100 ∧ writeBuf.read offset data.length = data then (writeBuf, b)
      else
        let writeBuf := writeBuf.write offset data
        (writeBuf,
          b.perform (sendWriteFlashMsg .flashOpWriteErase (writeBuf.read 0 sectorLength) actAddr))
  | .flashOpWriteNoErase =>
    let blockBuf := blockBuf.write 0 data
    (blockBuf, b.perform (sendWriteFlashMsg .flashOpWriteNoErase (blockBuf.read 0 data.length)
      (actAddr + offset)))
  | .flashOpErase => (blockBuf, b.perform (sendWriteFlashMsg .flashOpErase [] actAddr))

/-- `flash_operate_ext` of the `data` at the RAM address `ramData`. -/
def flashOperateExt (operation : FlashOperation) (flashAddr ramData : UInt32) (data : List UInt8)
    (size : Nat) (s : Buf × Board) : Board :=
  if size = 0 then s.2 else
    let offset := (flashAddr &&& 0xfff).toNat
    let actAddr := (flashAddr &&& 0xfffff000).toNat
    let writeSize := writeSizeOf offset size
    flashOperateExt operation (flashAddr + UInt32.ofNat writeSize)
      (ramData + UInt32.ofNat writeSize) (data.drop writeSize) (size - writeSize)
      (operatePiece operation actAddr offset ramData (data.take writeSize) size s)
termination_by size
decreasing_by
  have h := toNat_and_mask flashAddr
  have : flashAddr.toNat % 4096 < 4096 := Nat.mod_lt _ (by omega)
  simp only [writeSizeOf_eq, sectorLength]
  omega

/-! ### The buffers do not matter -/

/-- The bytes programmed are the data, copied or not. -/
theorem flashWriteNoErase_eq (heap : Buf) (addr : Nat) (ram : UInt32) (data : List UInt8)
    (b : Board) : flashWriteNoErase heap addr ram data b = b.perform [.program addr data] := by
  unfold flashWriteNoErase
  split_ifs
  · rfl
  · rw [Buf.read_write]

/-- A sector read into the buffer. -/
theorem blockBuf_read (blockBuf f : Buf) {actAddr offset n : Nat} (h : offset + n ≤ 4096) :
    (blockBuf.write 0 (f.read actAddr sectorLength)).read offset n =
      f.read (actAddr + offset) n := by
  refine Buf.read_congr fun k hk => ?_
  have hin := Buf.write_read_inside (m := blockBuf) (f := f) (a := 0) (c := actAddr)
    (n := sectorLength) (i := offset + k) (by simp only [sectorLength]; omega)
  rwa [Nat.zero_add, ← Nat.add_assoc] at hin

/-- The sector sent is the one on the flash with the piece in it. -/
theorem blockBuf_write (blockBuf f : Buf) (actAddr offset : Nat) (data : List UInt8) :
    ((blockBuf.write 0 (f.read actAddr sectorLength)).write offset data).read 0 sectorLength =
      (Buf.write (fun i => f (actAddr + i)) offset data).read 0 sectorLength := by
  refine Buf.read_congr fun k hk => Buf.write_congr ?_ offset data
  have hin := Buf.write_read_inside (m := blockBuf) (f := f) (a := 0) (c := actAddr) hk
  simpa using hin

/-- A piece that is a whole sector replaces all of it. -/
theorem write_whole (f : Buf) {data : List UInt8} (h : data.length = sectorLength) :
    (Buf.write f 0 data).read 0 sectorLength = data := by
  rw [← h, Buf.read_write]

theorem writeErasePiece_board (heap : Buf) (block : UInt32) (actAddr : Nat) {offset : Nat}
    (ram : UInt32) {data : List UInt8} (h : offset + data.length ≤ 4096) (s : Buf × Board) :
    (writeErasePiece heap block actAddr offset ram data s).2 =
      if data.length = sectorLength then s.2.perform [.erase actAddr, .program actAddr data]
      else if data.length < 100 ∧ s.2.flash.read (actAddr + offset) data.length = data then s.2
      else s.2.perform (rewriteSector s.2.flash actAddr offset data) := by
  obtain ⟨blockBuf, b⟩ := s
  simp only [writeErasePiece, flashWriteNoErase_eq, blockBuf_read _ _ h, blockBuf_write,
    ← Board.perform_append, List.singleton_append, rewriteSector]
  split_ifs <;> rfl

/-- The local path with its buffers. -/
theorem flashWriteErase_eq (heap : Buf) (block : UInt32) : ∀ (n : Nat) (addr ram : UInt32)
    (data : List UInt8) (s : Buf × Board), data.length = n →
    flashWriteErase heap block addr ram data s = XY1100.flashWriteErase addr data s.2 := by
  intro n
  induction n using Nat.strong_induction_on with
  | _ n ih =>
    intro addr ram data s hn
    rw [flashWriteErase, XY1100.flashWriteErase]
    split_ifs with hz
    · rfl
    have hoff : addr.toNat % 4096 < 4096 := Nat.mod_lt _ (by omega)
    simp only [toNat_and_mask, toNat_and_sectorMask, writeSizeOf_eq, sectorLength_eq]
    obtain ⟨w, hw⟩ : ∃ w, w = min data.length (4096 - addr.toNat % 4096) := ⟨_, rfl⟩
    simp only [← hw]
    have hlen : (data.take w).length = w := by rw [List.length_take]; omega
    rw [ih (data.length - w) (by omega) _ _ _ _ (by rw [List.length_drop]),
      writeErasePiece_board _ _ _ _ (by omega)]
    simp only [hlen, sectorLength_eq]

theorem operatePiece_board (operation : FlashOperation) (actAddr : Nat) {offset : Nat}
    (ramData : UInt32) {data : List UInt8} {size : Nat} (h : offset + data.length ≤ 4096)
    (hsize : data.length ≤ size) (s : Buf × Board) :
    (operatePiece operation actAddr offset ramData data size s).2 =
      match operation with
      | .flashOpErase => s.2.perform [.erase actAddr]
      | .flashOpWriteNoErase => s.2.perform [.program (actAddr + offset) data]
      | .flashOpWriteErase =>
        if offset = 0 ∧ data.length = sectorLength then
          s.2.perform [.erase actAddr, .program actAddr data]
        else if size < 100 ∧ s.2.flash.read (actAddr + offset) data.length = data then s.2
        else s.2.perform (rewriteSector s.2.flash actAddr offset data) := by
  obtain ⟨blockBuf, b⟩ := s
  cases operation with
  | flashOpErase => rfl
  | flashOpWriteNoErase => simp only [operatePiece, sendWriteFlashMsg, Buf.read_write]
  | flashOpWriteErase =>
    simp only [operatePiece, sendWriteFlashMsg, blockBuf_read _ _ h, blockBuf_write, rewriteSector]
    by_cases hwhole : offset = 0 ∧ data.length = sectorLength
    · obtain ⟨rfl, hl⟩ := hwhole
      -- a whole sector is sent from its own place or through the buffer
      have hbig : ¬ size < 100 := by simp only [sectorLength] at hl; omega
      simp only [hl, hbig, false_and, if_false, true_and, write_whole _ hl, if_true]
      split_ifs <;> rfl
    · rw [if_neg hwhole, if_neg (fun hc => hwhole ⟨hc.1, hc.2.1⟩)]
      split_ifs <;> rfl

/-- The path through the DSP with its buffers. -/
theorem flashOperateExt_eq (operation : FlashOperation) :
    ∀ (size : Nat) (flashAddr ramData : UInt32)
    (data : List UInt8) (s : Buf × Board), (operation ≠ .flashOpErase → data.length = size) →
    data.length ≤ size →
    flashOperateExt operation flashAddr ramData data size s =
      XY1100.flashOperateExt operation flashAddr data size s.2 := by
  intro size
  induction size using Nat.strong_induction_on with
  | _ size ih =>
    intro flashAddr ramData data s hn hle
    rw [flashOperateExt, XY1100.flashOperateExt]
    split_ifs with hz
    · rfl
    have hoff : flashAddr.toNat % 4096 < 4096 := Nat.mod_lt _ (by omega)
    simp only [toNat_and_mask, toNat_and_sectorMask, writeSizeOf_eq, sectorLength_eq]
    obtain ⟨w, hw⟩ : ∃ w, w = min size (4096 - flashAddr.toNat % 4096) := ⟨_, rfl⟩
    simp only [← hw]
    have hlen : (data.take w).length ≤ w := List.length_take_le _ _
    rw [ih (size - w) (by omega) _ _ _ _ (fun h => by rw [List.length_drop, hn h])
      (by rw [List.length_drop]; omega), operatePiece_board _ _ _ (by omega) (by omega)]
    cases operation with
    | flashOpErase => rfl
    | flashOpWriteNoErase => rfl
    | flashOpWriteErase =>
      have hdata := hn (fun h => by cases h)
      have hlen : (data.take w).length = w := by rw [List.length_take]; omega
      simp only [hlen, sectorLength_eq]

end Buffered

/-! ### What the paths leave on the flash -/

/-- Rewriting a sector stores the piece, and nothing else. -/
theorem replay_rewriteSector (f : Buf) (sector : Nat) {offset : Nat} {data : List UInt8}
    (h : offset + data.length ≤ 4096) :
    FlashOp.replay (rewriteSector f sector offset data) f = f.write (sector + offset) data := by
  refine (replay_rewrite (by simp) f).trans ?_
  funext i
  by_cases hi : i < sector ∨ sector + 4096 ≤ i
  · rw [Buf.write_outside (by rw [Buf.length_read]; exact hi), Buf.write_outside (by omega)]
  · obtain ⟨k, rfl⟩ := Nat.exists_eq_add_of_le (show sector ≤ i by omega)
    rw [Buf.write_shift]
    have hin := Buf.write_read_inside (m := f)
      (f := Buf.write (fun i => f (sector + i)) offset data) (a := sector) (c := 0)
      (n := sectorLength) (i := k) (by simp only [sectorLength]; omega)
    rwa [Nat.zero_add] at hin

/-- A piece is stored, whether as a whole sector, by rewriting its sector, or by leaving what is
there already. -/
theorem flash_piece (b : Board) (actAddr offset : Nat) (data : List UInt8)
    (h : offset + data.length ≤ 4096) (whole skip : Prop) [Decidable whole] [Decidable skip]
    (hwhole : whole → data.length = sectorLength)
    (hskip : skip → b.flash.read (actAddr + offset) data.length = data) :
    (if whole then b.perform [.erase actAddr, .program actAddr data]
      else if skip then b else b.perform (rewriteSector b.flash actAddr offset data)).flash =
      b.flash.write (actAddr + offset) data := by
  split_ifs with hw hs
  · have hl := hwhole hw
    simp only [sectorLength] at hl
    obtain rfl : offset = 0 := by omega
    exact replay_rewrite hl b.flash
  · exact (Buf.write_read_self (hskip hs)).symm
  · exact replay_rewriteSector b.flash actAddr h

/-- Storing a piece and then the rest is storing the data. -/
theorem write_take_drop (f : Buf) (a w : Nat) {data : List UInt8} (h : w ≤ data.length) :
    (f.write a (data.take w)).write (a + w) (data.drop w) = f.write a data := by
  have hlen : (data.take w).length = w := by rw [List.length_take]; omega
  conv_rhs => rw [← List.take_append_drop w data, Buf.write_append, hlen]

/-- A loop that stores the data piece by piece, each up to the end of its sector, stores the
data. -/
theorem flash_of_pieces (store : UInt32 → List UInt8 → Board → Board)
    (hnil : ∀ addr b, store addr [] b = b)
    (hpiece : ∀ addr data b w, data ≠ [] → w = min data.length (4096 - addr.toNat % 4096) →
      ∃ b', store addr data b = store (addr + UInt32.ofNat w) (data.drop w) b' ∧
        b'.flash = b.flash.write addr.toNat (data.take w)) :
    ∀ (n : Nat) (addr : UInt32) (data : List UInt8) (b : Board), data.length = n →
      addr.toNat + n < 2 ^ 32 → (store addr data b).flash = b.flash.write addr.toNat data := by
  intro n
  induction n using Nat.strong_induction_on with
  | _ n ih =>
    intro addr data b hn hlt
    rcases eq_or_ne data [] with rfl | hne
    · rw [hnil, Buf.write_nil]
    have hpos := List.length_pos_of_ne_nil hne
    have hoff : addr.toNat % 4096 < 4096 := Nat.mod_lt _ (by omega)
    obtain ⟨w, hw⟩ : ∃ w, w = min data.length (4096 - addr.toNat % 4096) := ⟨_, rfl⟩
    obtain ⟨b', hstore, hflash⟩ := hpiece addr data b w hne hw
    have hsum : (addr + UInt32.ofNat w).toNat = addr.toNat + w := by
      rw [UInt32.toNat_add, UInt32.toNat_ofNat']
      omega
    rw [hstore, ih (data.length - w) (by omega) _ _ _ List.length_drop (by omega), hflash, hsum,
      write_take_drop _ _ _ (by omega)]

/-- **A write with erase on the local path** replaces the bytes of the range by the data. -/
theorem flash_flashWriteErase : ∀ (n : Nat) (addr : UInt32) (data : List UInt8) (b : Board),
    data.length = n → addr.toNat + n < 2 ^ 32 →
    (flashWriteErase addr data b).flash = b.flash.write addr.toNat data := by
  refine flash_of_pieces flashWriteErase flashWriteErase_nil ?_
  intro addr data b w hne hw
  have hlen : (data.take w).length = w := by rw [List.length_take]; omega
  have haddr : addr.toNat - addr.toNat % 4096 + addr.toNat % 4096 = addr.toNat := by omega
  have hpiece := flash_piece b (addr.toNat - addr.toNat % 4096) (addr.toNat % 4096)
    (data.take w) (by omega) (w = 4096)
    (w < 100 ∧ b.flash.read (addr.toNat - addr.toNat % 4096 + addr.toNat % 4096) w =
      data.take w) (fun h => hlen.trans h) (fun h => by rw [hlen]; exact h.2)
  rw [flashWriteErase, if_neg (mt List.length_eq_zero_iff.mp hne)]
  simp only [sectorLength_eq, ← hw]
  exact ⟨_, rfl, hpiece.trans (by rw [haddr])⟩

/-- **A write with erase through the DSP** replaces the bytes of the range by the data. -/
theorem flash_flashOperateExt (n : Nat) (addr : UInt32) (data : List UInt8) (b : Board)
    (hn : data.length = n) (hlt : addr.toNat + n < 2 ^ 32) :
    (flashOperateExt .flashOpWriteErase addr data n b).flash = b.flash.write addr.toNat data := by
  subst hn
  refine flash_of_pieces (fun addr data => flashOperateExt .flashOpWriteErase addr data data.length)
    (fun addr b => flashOperateExt_zero _ _ _ b) ?_ _ addr data b rfl hlt
  intro addr data b w hne hw
  have hlen : (data.take w).length = w := by rw [List.length_take]; omega
  have haddr : addr.toNat - addr.toNat % 4096 + addr.toNat % 4096 = addr.toNat := by omega
  have hpiece := flash_piece b (addr.toNat - addr.toNat % 4096) (addr.toNat % 4096)
    (data.take w) (by omega) (addr.toNat % 4096 = 0 ∧ w = 4096)
    (data.length < 100 ∧ b.flash.read (addr.toNat - addr.toNat % 4096 + addr.toNat % 4096) w =
      data.take w) (fun h => hlen.trans h.2) (fun h => by rw [hlen]; exact h.2)
  rw [flashOperateExt, if_neg (mt List.length_eq_zero_iff.mp hne), List.length_drop]
  simp only [sectorLength_eq, ← hw]
  exact ⟨_, rfl, hpiece.trans (by rw [haddr])⟩

/-- The DSP erases the sectors of the range from the first on. -/
theorem flashOperateExt_erase_sectors : ∀ (n size : Nat) (addr : UInt32) (b : Board),
    n = (size + 4095) / 4096 → addr.toNat % 4096 = 0 → addr.toNat + size < 2 ^ 32 →
    flashOperateExt .flashOpErase addr [] size b =
      b.perform ((List.range n).map fun i => .erase (addr.toNat + i * 4096)) := by
  intro n
  induction n with
  | zero =>
    intro size addr b hn _ _
    obtain rfl : size = 0 := by omega
    rw [flashOperateExt_zero]
    exact (Board.perform_nil b).symm
  | succ n ih =>
    intro size addr b hn ha hlt
    rw [flashOperateExt, if_neg (by omega)]
    simp only [ha, sectorLength_eq, Nat.sub_zero, List.drop_nil]
    rcases Nat.lt_or_ge size 4096 with hs | hs
    · obtain rfl : n = 0 := by omega
      rw [Nat.min_eq_left hs.le, Nat.sub_self, flashOperateExt_zero]
      simp
    · have hsum : (addr + UInt32.ofNat 4096).toNat = addr.toNat + 4096 := by
        rw [UInt32.toNat_add, UInt32.toNat_ofNat']
        omega
      rw [Nat.min_eq_right hs, ih (size - 4096) _ _ (by omega) (by omega) (by omega), hsum,
        ← Board.perform_append, List.range_succ_eq_map, List.map_cons, List.map_map,
        List.singleton_append]
      simp only [Nat.zero_mul, Nat.add_zero, Function.comp_def, Nat.succ_mul, Nat.add_assoc,
        Nat.add_comm 4096]

/-- `flash_erase` of a size that, rounded up to whole sectors, is an `int`. -/
theorem flashErase_sectors {addr : UInt32} {size : Nat} (ha : addr.toNat % 4096 = 0)
    (hlt : addr.toNat + (size + 4095) / 4096 * 4096 ≤ 2 ^ 32) (hint : size + 4095 < 2 ^ 31)
    (b : Board) :
    flashErase addr (UInt32.ofNat size) b = .ok ()
      (b.perform
        ((List.range ((size + 4095) / 4096)).map fun i => .erase (addr.toNat + i * 4096))) := by
  have ha' : addr % 4096 = 0 := UInt32.toNat_inj.mp (by simpa using ha)
  have hround : ((UInt32.ofNat size + 4095) &&& ~~~4095).toNat = (size + 4095) / 4096 * 4096 := by
    rw [toNat_and_not_mask, UInt32.toNat_add, UInt32.toNat_ofNat',
      show (4095 : UInt32).toNat = 4095 from rfl]
    omega
  have hcount : eraseCount (UInt32.ofNat size) = (size + 4095) / 4096 := by
    simp only [eraseCount, hround, sectorLength_eq]
    rw [if_pos (by omega)]
    omega
  rw [flashErase, bind_ok (Exec.xyAssert_of ha' _), hcount]
  refine congrArg (fun ops => EStateM.Result.ok () (b.perform ops)) ?_
  refine List.map_congr_left fun i hi => ?_
  have hi' : (i + 1) * 4096 ≤ (size + 4095) / 4096 * 4096 :=
    Nat.mul_le_mul_right _ (List.mem_range.mp hi)
  rw [UInt32.toNat_add, UInt32.toNat_ofNat', sectorLength_eq]
  congr 1
  omega

/-- A range both paths can be given: it ends at a 32-bit address, and its size, rounded up to whole
sectors, is an `int`. -/
structure FlashRange (addr : UInt32) (size : Nat) : Prop where
  end_lt : addr.toNat + size < 2 ^ 32
  size_lt : size + 4095 < 2 ^ 31

/-- Every range that ends in the flash is one. -/
theorem FlashRange.of_end_le {addr : UInt32} {size : Nat}
    (h : addr.toNat + size ≤ FLASH_BASE.toNat + FLASH_LENGTH.toNat) : FlashRange addr size := by
  have hend : FLASH_BASE.toNat + FLASH_LENGTH.toNat = 0x27200000 := rfl
  exact ⟨by omega, by omega⟩

/-- **The two paths are equivalent.**  Whatever the flash, the buffers, the RAM addresses, the
alignment and the number of sectors crossed, writing with erase, writing without and erasing leave
the same flash on both, and a write with erase replaces the bytes of the range by the data. -/
theorem paths_equivalent (heap blockBuf : Buf) (block addr ram : UInt32) (data : List UInt8)
    (b : Board) (h : FlashRange addr data.length) :
    ((Buffered.flashWriteErase heap block addr ram data (blockBuf, b)).flash =
        (Buffered.flashOperateExt .flashOpWriteErase addr ram data data.length
          (blockBuf, b)).flash ∧
      (Buffered.flashWriteErase heap block addr ram data (blockBuf, b)).flash =
        b.flash.write addr.toNat data) ∧
    (Buffered.flashWriteNoErase heap addr.toNat ram data b).flash =
      (Buffered.flashOperateExt .flashOpWriteNoErase addr ram data data.length
        (blockBuf, b)).flash ∧
    (addr.toNat % 4096 = 0 → ∀ size, FlashRange addr size → ∃ b',
      flashErase addr (UInt32.ofNat size) b = .ok () b' ∧
      b'.flash = (Buffered.flashOperateExt .flashOpErase addr 0 [] size (blockBuf, b)).flash) := by
  refine ⟨?_, ?_, ?_⟩
  · rw [Buffered.flashWriteErase_eq _ _ _ _ _ _ _ rfl,
      Buffered.flashOperateExt_eq _ _ _ _ _ _ (fun _ => rfl) le_rfl,
      flash_flashWriteErase _ _ _ _ rfl h.end_lt, flash_flashOperateExt _ _ _ _ rfl h.end_lt]
    exact ⟨rfl, rfl⟩
  · obtain ⟨ops, hp, hop⟩ := flashOperateExt_program data.length addr data b rfl h.end_lt
    rw [Buffered.flashWriteNoErase_eq, Buffered.flashOperateExt_eq _ _ _ _ _ _
      (fun _ => rfl) le_rfl,
      hop, Board.flash_perform, Board.flash_perform, hp.replay_eq]
    rfl
  · intro ha size hs
    have hint := hs.size_lt
    have hend := hs.end_lt
    refine ⟨_, flashErase_sectors ha (by omega) hint b, ?_⟩
    rw [Buffered.flashOperateExt_eq _ _ _ _ _ _ (fun h => absurd rfl h) (Nat.zero_le _),
      flashOperateExt_erase_sectors _ size addr b rfl ha hend]

/-- Ten bytes across the end of a sector. -/
theorem paths_equivalent_ten :
    (Buffered.flashWriteErase blankFlash 0 0x27003FFB 1 (List.replicate 10 7)
      (blankFlash, blankBoard)).flash = blankFlash.write 0x27003FFB (List.replicate 10 7) :=
  (paths_equivalent blankFlash blankFlash 0 0x27003FFB 1 (List.replicate 10 7) blankBoard
    (FlashRange.of_end_le (by decide))).1.2

end XY1100
